import PacketBuffering.Crc.StreamLaw

/-!
# Burst errors

A polynomial whose reflected value has bit 31 set has a constant term, and its register tells two
messages apart that differ within 32 consecutive bits.

* `messageBits_injective`: different packets have different bits.
* `crcOf_ne_of_differWithin`: the engine's CRCs differ.
* **`burst_error_caught`**: the checker reports the corrupted packet as an error.
-/

namespace PacketBuffering

open CrcChecker

theorem byteBits_injective : Function.Injective byteBits := by
  intro a b h
  refine BitVec.eq_of_getLsbD_eq fun k hk => ?_
  have hbit := congrArg (fun l => l[k]?) h
  simpa [byteBits, hk] using hbit

theorem messageBits_injective : Function.Injective messageBits := by
  intro p
  induction p with
  | nil =>
    intro q h
    have hlen := congrArg List.length h
    rw [length_messageBits, length_messageBits] at hlen
    exact (List.length_eq_zero_iff.mp (by simpa using hlen.symm)).symm
  | cons b p ih =>
    intro q h
    cases q with
    | nil =>
      have hlen := congrArg List.length h
      rw [length_messageBits, length_messageBits] at hlen
      simp at hlen
    | cons c q =>
      rw [messageBits, messageBits, List.flatMap_cons, List.flatMap_cons] at h
      have hsplit := List.append_inj h (by simp [byteBits])
      rw [byteBits_injective hsplit.1, ih hsplit.2]

/-- **The CRCs differ**, for every seed. -/
theorem crcOf_ne_of_differWithin {poly : BitVec 32} (hpoly : poly.getLsbD 31 = true)
    (seed : BitVec 32) {p q : List (BitVec 8)} (hne : p ≠ q) (hlen : p.length = q.length)
    (h : DifferWithin 32 (messageBits p) (messageBits q)) :
    crcOf poly seed p ≠ crcOf poly seed q := by
  have hmsb : poly.getMsbD 0 = true := hpoly
  have hbits : (messageBits p).length = (messageBits q).length := by
    rw [length_messageBits, length_messageBits, hlen]
  intro heq
  rw [crcOf, crcOf, BitVec.xor_left_inj, foldl_updateByte, foldl_updateByte] at heq
  exact foldl_lfsrStep_ne_of_differWithin hmsb seed hbits (messageBits_injective.ne hne) h heq

theorem Verdict.On.error {v : Verdict} {crc : BitVec 32} {n : ℕ} (h : v.On crc n)
    (hne : crc ≠ v.expHold) : v.error = true ∧ v.pass = false := by
  have hpass : v.pass = false := Bool.eq_false_iff.mpr fun hv => hne (h.pass.mp hv)
  have hone := h.one
  rw [hpass, Bool.false_xor] at hone
  exact ⟨hone, hpass⟩

/-- **Every burst error of at most 32 bits is caught.** For a polynomial with bit 31 of its reflected
value set and two different packets of one length whose bits differ within 32 consecutive places,
the engine's CRCs differ for every seed; and in every run of the checker from an idle state, in
register mode under a setting that selects the polynomial, each occurrence of the second packet on
the stream has its pulse, or is in its verification cycle, and if the CRC of the first packet is held
as the expected one the pulse is an error and no pass. -/
theorem burst_error_caught (poly : BitVec 32) (hpoly : poly.getLsbD 31 = true)
    (p q : List (BitVec 8)) (hne : p ≠ q) (hlen : p.length = q.length)
    (hburst : DifferWithin 32 (messageBits p) (messageBits q)) :
    (∀ seed, crcOf poly seed p ≠ crcOf poly seed q) ∧
      ∀ (polyRev initVal : BitVec 32), effectivePoly polyRev = poly →
        ∀ (s : CrcChecker) (is : List CheckerIn), s.state = .idle →
          (∀ i ∈ is, Regular i ∧ i.polyRev = polyRev ∧ i.initVal = initVal) →
          ∀ (k : ℕ) (w : List Payload),
            (packets Payload.tlast (log clock streamWords s is))[k]? = some w →
            w.flatMap Payload.bytes = q →
            ((run clock s is).state = .verify ∧ (log clock pulses s is).length = k) ∨
              ∃ v, (log clock pulses s is)[k]? = some v ∧
                (v.expHold = crcOf poly (effectiveInit initVal) p →
                  v.error = true ∧ v.pass = false) := by
  have hcrc : ∀ seed, crcOf poly seed p ≠ crcOf poly seed q := fun seed =>
    crcOf_ne_of_differWithin hpoly seed hne hlen hburst
  refine ⟨hcrc, ?_⟩
  intro polyRev initVal hsel s is hs his k w hw hq
  have hcount := length_pulses hs fun i hi => (his i hi).1.judging
  rw [← length_packets] at hcount
  have hk : k < (packets Payload.tlast (log clock streamWords s is)).length :=
    (List.getElem?_eq_some_iff.mp hw).1
  rcases Nat.lt_or_ge k (log clock pulses s is).length with hlt | hge
  · refine .inr ⟨_, List.getElem?_eq_getElem hlt, fun hexp => ?_⟩
    have hparam : ∀ i ∈ is, Judging i ∧ effectivePoly i.polyRev = poly ∧
        effectiveInit i.initVal = effectiveInit initVal :=
      fun i hi => ⟨(his i hi).1.judging, by rw [(his i hi).2.1, hsel], by rw [(his i hi).2.2]⟩
    obtain ⟨w', hw', hv⟩ := verdict_on hs hparam (List.getElem?_eq_getElem hlt)
    obtain rfl : w' = w := Option.some.inj (hw'.symm.trans hw)
    rw [hq] at hv
    refine hv.error ?_
    rw [hexp]
    exact (hcrc _).symm
  · split_ifs at hcount with hverify
    · exact .inl ⟨hverify, by omega⟩
    · omega

/-- `"1234"` and `"a23t"` differ at the bits 4, 6 and 30; under the default setting, with the CRC of
the first expected, the checker reports the second as an error. -/
theorem burst_error_caught_sample :
    let p : List (BitVec 8) := [0x31, 0x32, 0x33, 0x34]
    let q : List (BitVec 8) := [0x61, 0x32, 0x33, 0x74]
    let is : List CheckerIn :=
      [{ CheckerIn.quiet with expCrcWe := true, expCrcReg := 0x9BE3E0A3 },
        { CheckerIn.quiet with sAxisTvalid := true, sAxis := ⟨true, 0b1111, 0x74333261⟩ },
        CheckerIn.quiet]
    crcOf crc32DefaultPolyRev crc32DefaultInit p = 0x9BE3E0A3 ∧
      crcOf crc32DefaultPolyRev crc32DefaultInit p ≠ crcOf crc32DefaultPolyRev crc32DefaultInit q ∧
      ∃ v, (log clock pulses .reset is)[0]? = some v ∧ v.error = true ∧ v.pass = false := by
  intro p q is
  have hcrc : crcOf crc32DefaultPolyRev crc32DefaultInit p = 0x9BE3E0A3 := by decide +kernel
  have hburst : DifferWithin 32 (messageBits p) (messageBits q) := by
    refine ⟨0, fun i hi => ⟨Nat.zero_le i, ?_⟩⟩
    by_contra hge
    refine hi ?_
    rw [List.getElem?_eq_none, List.getElem?_eq_none]
    · rw [length_messageBits]
      exact not_lt.mp hge
    · rw [length_messageBits]
      exact not_lt.mp hge
  have h := burst_error_caught crc32DefaultPolyRev (by decide) p q (by decide) rfl hburst
  refine ⟨hcrc, h.1 _, ?_⟩
  rcases h.2 0 0 (by decide) .reset is rfl (by decide) 0 [⟨true, 0b1111, 0x74333261⟩]
    (by decide +kernel) (by decide) with ⟨hverify, -⟩ | ⟨v, hv, herr⟩
  · exact absurd hverify (by decide +kernel)
  · refine ⟨v, hv, herr ?_⟩
    have hpulse : (log clock pulses .reset is)[0]?.map Verdict.expHold = some 0x9BE3E0A3 := by
      decide +kernel
    rw [hv, Option.map_some, Option.some.injEq] at hpulse
    rw [hpulse]
    exact hcrc.symm

end PacketBuffering
