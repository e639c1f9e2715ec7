import PacketBuffering.Crc.StreamLaw

/-!
# The trailing mode of the CRC checker

`CRC_MODE_TRAILING` is defined as "the last four bytes of the packet hold the received CRC". The
checker has no such comparison: in every mode but the compute-only one it compares the CRC of the
whole packet, trailer included, with the register `CRC_EXP_RESULT`.

* `HasFcs`: the last four bytes are the CRC-32 of the bytes before them.
* **`crc32_eq_residue_iff`**: that is so iff the CRC-32 of the whole packet is the residue.
* **`trailing_verdict_iff`**: when the verdict in trailing mode is the one on the trailer.
-/

namespace PacketBuffering

open CrcChecker

/-- `mode_config` value of the trailing mode. -/
def crcModeTrailing : BitVec 2 := 0b00

/-! ## The frame check sequence -/

/-- The word of a little-endian byte string. -/
def leWord : List (BitVec 8) → BitVec 32
  | [] => 0
  | b :: bs => leWord bs <<< 8 ||| b.setWidth 32

/-- The last four bytes hold the CRC-32 of the bytes before them. -/
def HasFcs (bytes : List (BitVec 8)) : Prop :=
  leWord (bytes.drop (bytes.length - 4)) = crc32 (bytes.take (bytes.length - 4))

/-- The CRC-32 of every byte string followed by its CRC-32. -/
def crc32Residue : BitVec 32 := 0x2144DF1C

theorem byteBits_append (b : BitVec 8) (n : ℕ) (t : BitVec 32) :
    byteBits b ++ (List.range n).map t.getLsbD =
      (List.range (n + 8)).map fun k => if k < 8 then b.getLsbD k else t.getLsbD (k - 8) := by
  have hlow : (List.range 8).map (fun k => if k < 8 then b.getLsbD k else t.getLsbD (k - 8)) =
      byteBits b := by
    refine List.map_congr_left fun k hk => ?_
    rw [if_pos (List.mem_range.mp hk)]
  rw [Nat.add_comm n 8, List.range_add, List.map_append, hlow, List.map_map]
  congr 1
  refine List.map_congr_left fun k _ => ?_
  simp

theorem messageBits_eq {bytes : List (BitVec 8)} (h : bytes.length ≤ 4) :
    messageBits bytes = (List.range (8 * bytes.length)).map (leWord bytes).getLsbD := by
  induction bytes with
  | nil => rfl
  | cons b bs ih =>
    have hlen : bs.length + 1 ≤ 4 := h
    rw [messageBits, List.flatMap_cons, ← messageBits, ih (by omega), byteBits_append,
      List.length_cons, Nat.mul_succ]
    refine List.map_congr_left fun k hk => ?_
    rw [List.mem_range] at hk
    have hk32 : k < 32 := by omega
    simp only [leWord, BitVec.getLsbD_or, BitVec.getLsbD_shiftLeft, BitVec.getLsbD_setWidth, hk32,
      decide_true, Bool.true_and]
    by_cases h8 : k < 8
    · simp [h8]
    · simp [h8, BitVec.getLsbD_of_ge b k (by omega)]

theorem crc32_append_trailer (bytes trailer : List (BitVec 8)) (h : trailer.length = 4) :
    crc32 (bytes ++ trailer) =
      coast crc32DefaultPolyRev 32 (crc32 bytes ^^^ crc32DefaultXorout ^^^ leWord trailer) ^^^
        crc32DefaultXorout := by
  have hbits : messageBits trailer = (List.range 32).map (leWord trailer).getLsbD := by
    rw [messageBits_eq h.le, h]
  rw [← crcOf_default, ← crcOf_default, crcOf, crcOf, List.foldl_append, foldl_updateByte _ _ trailer,
    hbits, foldl_lfsrStep_word, BitVec.xor_assoc _ crc32DefaultXorout crc32DefaultXorout,
    BitVec.xor_self, BitVec.xor_zero]

/-- **The residue.** A packet of at least four bytes ends in the CRC-32 of what precedes them iff its
own CRC-32 is the residue. -/
theorem crc32_eq_residue_iff {bytes : List (BitVec 8)} (h : 4 ≤ bytes.length) :
    crc32 bytes = crc32Residue ↔ HasFcs bytes := by
  have htrailer : (bytes.drop (bytes.length - 4)).length = 4 := by rw [List.length_drop]; omega
  have hmsb : crc32DefaultPolyRev.getMsbD 0 = true := by decide
  have hres : crc32Residue =
      coast crc32DefaultPolyRev 32 crc32DefaultXorout ^^^ crc32DefaultXorout := by
    decide +kernel
  have hsplit := crc32_append_trailer (bytes.take (bytes.length - 4)) _ htrailer
  rw [List.take_append_drop] at hsplit
  have hzero : ∀ a t : BitVec 32, a ^^^ crc32DefaultXorout ^^^ t = crc32DefaultXorout ↔ t = a := by
    intro a t
    rw [BitVec.xor_comm a, BitVec.xor_assoc, ← BitVec.xor_zero (x := crc32DefaultXorout),
      BitVec.xor_assoc, BitVec.zero_xor, BitVec.xor_right_inj, BitVec.xor_eq_zero_iff, eq_comm]
  rw [hsplit, hres, BitVec.xor_left_inj, (coast_injective hmsb 32).eq_iff, hzero, HasFcs]

/-! ## The verdict -/

/-- Trailing mode with `auto_clear`, the default polynomial and seed, no soft reset and no manual
data. -/
structure Trailing (i : CheckerIn) : Prop where
  softReset : i.softReset = false
  manual : i.manualDataValid = false
  autoClear : i.autoClear = true
  mode : i.modeConfig = crcModeTrailing
  poly : effectivePoly i.polyRev = crc32DefaultPolyRev
  seed : effectiveInit i.initVal = crc32DefaultInit

instance (i : CheckerIn) : Decidable (Trailing i) :=
  decidable_of_iff (_ ∧ _ ∧ _ ∧ _ ∧ _ ∧ _)
    ⟨fun ⟨h₁, h₂, h₃, h₄, h₅, h₆⟩ => ⟨h₁, h₂, h₃, h₄, h₅, h₆⟩,
      fun ⟨h₁, h₂, h₃, h₄, h₅, h₆⟩ => ⟨h₁, h₂, h₃, h₄, h₅, h₆⟩⟩

theorem Trailing.judging {i : CheckerIn} (hi : Trailing i) : Judging i :=
  ⟨hi.softReset, hi.manual, hi.autoClear, by rw [hi.mode]; decide⟩

/-- The verdict is the one on the trailer of the packet: a pass iff the trailer is right, and an
error else. -/
structure Verdict.OnTrailer (v : Verdict) (bytes : List (BitVec 8)) : Prop where
  pass : v.pass = true ↔ HasFcs bytes
  error : v.error = true ↔ ¬ HasFcs bytes

/-- A verdict compares the CRC-32 with the held value; it is the one on the trailer iff the held value
is the residue, or the trailer is wrong and the comparison fails all the same. -/
theorem onTrailer_iff {v : Verdict} {bytes : List (BitVec 8)} (h4 : 4 ≤ bytes.length)
    (hv : v.On (crc32 bytes) bytes.length) :
    v.OnTrailer bytes ↔
      v.expHold = crc32Residue ∨ (¬ HasFcs bytes ∧ crc32 bytes ≠ v.expHold) := by
  have herror : v.error = true ↔ ¬ v.pass = true := by
    have hone := hv.one
    cases hp : v.pass <;> cases he : v.error <;> simp_all
  have hon : v.OnTrailer bytes ↔ (crc32 bytes = v.expHold ↔ HasFcs bytes) := by
    refine ⟨fun h => hv.pass.symm.trans h.pass, fun h => ⟨hv.pass.trans h, ?_⟩⟩
    rw [herror, hv.pass, h]
  rw [hon, ← crc32_eq_residue_iff h4]
  constructor
  · intro h
    by_cases hres : crc32 bytes = crc32Residue
    · exact .inl ((h.mpr hres).symm.trans hres)
    · exact .inr ⟨hres, fun heq => hres (h.mp heq)⟩
  · rintro (hexp | ⟨hres, hne⟩)
    · rw [hexp]
    · exact ⟨fun heq => absurd heq hne, fun heq => absurd heq hres⟩

/-- **When the trailing mode judges the trailer.** From any idle state, in every run in trailing mode,
there is one pulse for each packet (the packet in its verification cycle apart), and the verdict on
a packet of at least four bytes is the one on its trailer iff the expected-CRC register holds the
residue, or the trailer is wrong and the register does not hold the CRC-32 of the whole packet. -/
theorem trailing_verdict_iff (s : CrcChecker) (hs : s.state = .idle) (is : List CheckerIn)
    (his : ∀ i ∈ is, Trailing i) :
    let ws := log clock streamWords s is
    let vs := log clock pulses s is
    vs.length + (if (run clock s is).state = .verify then 1 else 0) =
        (packets Payload.tlast ws).length ∧
      ∀ (k : ℕ) (v : Verdict) (p : List Payload), vs[k]? = some v →
        (packets Payload.tlast ws)[k]? = some p → 4 ≤ (p.flatMap Payload.bytes).length →
        (v.OnTrailer (p.flatMap Payload.bytes) ↔
          v.expHold = crc32Residue ∨
            (¬ HasFcs (p.flatMap Payload.bytes) ∧ crc32 (p.flatMap Payload.bytes) ≠ v.expHold)) := by
  intro ws vs
  refine ⟨?_, ?_⟩
  · rw [length_packets]
    exact length_pulses hs fun i hi => (his i hi).judging
  · intro k v p hk hp h4
    obtain ⟨q, hq, hv⟩ :=
      verdict_on hs (fun i hi => ⟨(his i hi).judging, (his i hi).poly, (his i hi).seed⟩) hk
    have hqp : q = p := Option.some.inj (hq.symm.trans hp)
    rw [hqp, crcOf_default] at hv
    exact onTrailer_iff h4 hv

/-- An enabled cycle in trailing mode with nothing on the stream. -/
def CheckerIn.trailing : CheckerIn := { CheckerIn.quiet with modeConfig := crcModeTrailing }

/-- `"123456789"` followed by its CRC-32, in four words. -/
def fcsPacket : List Payload :=
  [⟨false, 0b1111, 0x34333231⟩, ⟨false, 0b1111, 0x38373635⟩, ⟨false, 0b1111, 0xF4392639⟩,
    ⟨true, 0b0001, 0xCB⟩]

/-- The cycles of a packet and of its verification. -/
def trailingCycles (p : List Payload) : List CheckerIn :=
  p.map (fun w => { CheckerIn.trailing with sAxisTvalid := true, sAxis := w }) ++
    [CheckerIn.trailing]

theorem hasFcs_fcsPacket : HasFcs (fcsPacket.flatMap Payload.bytes) := by
  rw [← crc32_eq_residue_iff (by decide), ← crcOf_default]
  decide +kernel

/-- With the residue in the register a right trailer passes. -/
theorem trailing_verdict_residue :
    let is : List CheckerIn :=
      { CheckerIn.trailing with expCrcWe := true, expCrcReg := crc32Residue } ::
        trailingCycles fcsPacket
    log clock pulses .reset is = [⟨0x2144DF1C, 13, true, false, crc32Residue⟩] ∧
      (⟨0x2144DF1C, 13, true, false, crc32Residue⟩ : Verdict).OnTrailer
        (fcsPacket.flatMap Payload.bytes) := by
  intro is
  have hpulses : log clock pulses .reset is = [⟨0x2144DF1C, 13, true, false, crc32Residue⟩] := by
    decide +kernel
  refine ⟨hpulses, ?_⟩
  exact ((trailing_verdict_iff .reset rfl is (by decide)).2 0 _ fcsPacket (by rw [hpulses]; rfl)
    (by decide +kernel) (by decide)).mpr (.inl rfl)

/-- With the register as it is after reset a right trailer is reported as an error. -/
theorem trailing_fcs_rejected :
    (∀ i ∈ trailingCycles fcsPacket, Trailing i) ∧ HasFcs (fcsPacket.flatMap Payload.bytes) ∧
      packets Payload.tlast (log clock streamWords .reset (trailingCycles fcsPacket)) = [fcsPacket] ∧
      log clock pulses .reset (trailingCycles fcsPacket) = [⟨0x2144DF1C, 13, false, true, 0⟩] ∧
      ¬ (⟨0x2144DF1C, 13, false, true, 0⟩ : Verdict).OnTrailer
        (fcsPacket.flatMap Payload.bytes) := by
  refine ⟨by decide, hasFcs_fcsPacket, by decide +kernel, by decide +kernel, fun h => ?_⟩
  exact h.error.mp rfl hasFcs_fcsPacket

end PacketBuffering
