import PacketBuffering.Crc.StreamLaw

/-!
# A stream packet and the manual port

While the checker takes a packet from the stream, its state machine ignores the manual port, but the
engine takes a manual word in every cycle in which the stream does not deliver one.

* `Twins`: two runs that differ only on the manual port, and there only in `STATE_STREAM`.
* `Alike`, **`Alike.step`**: what such runs share if no manual byte gets into a packet.
* **`stream_packets_isolated`**: the verdicts on the stream packets are then the same.
* `manual_word_in_packet`: a manual word in a gap of the stream changes the verdict.
-/

namespace PacketBuffering

open CrcChecker

/-- The inputs agree on everything but the manual port. -/
structure SameButManual (i j : CheckerIn) : Prop where
  enable : j.enable = i.enable
  softReset : j.softReset = i.softReset
  modeConfig : j.modeConfig = i.modeConfig
  autoClear : j.autoClear = i.autoClear
  polyRev : j.polyRev = i.polyRev
  initVal : j.initVal = i.initVal
  expCrcReg : j.expCrcReg = i.expCrcReg
  expCrcWe : j.expCrcWe = i.expCrcWe
  clearCounters : j.clearCounters = i.clearCounters
  sAxisTvalid : j.sAxisTvalid = i.sAxisTvalid
  sAxis : j.sAxis = i.sAxis

deriving instance DecidableEq for CheckerIn

instance (i j : CheckerIn) : Decidable (SameButManual i j) :=
  decidable_of_iff (_ ∧ _ ∧ _ ∧ _ ∧ _ ∧ _ ∧ _ ∧ _ ∧ _ ∧ _ ∧ _)
    ⟨fun ⟨h₁, h₂, h₃, h₄, h₅, h₆, h₇, h₈, h₉, h₁₀, h₁₁⟩ =>
        ⟨h₁, h₂, h₃, h₄, h₅, h₆, h₇, h₈, h₉, h₁₀, h₁₁⟩,
      fun ⟨h₁, h₂, h₃, h₄, h₅, h₆, h₇, h₈, h₉, h₁₀, h₁₁⟩ =>
        ⟨h₁, h₂, h₃, h₄, h₅, h₆, h₇, h₈, h₉, h₁₀, h₁₁⟩⟩

/-- The verdict on a packet of the stream. -/
def CrcChecker.streamPulses (s : CrcChecker) (i : CheckerIn) : List Verdict :=
  if s.packetActive then s.pulses i else []

/-- A cycle of two runs with `auto_clear` that differ only on the manual port, and only in
`STATE_STREAM`. -/
structure Twins (p : CrcChecker × CrcChecker) (e : CheckerIn × CheckerIn) : Prop where
  same : SameButManual e.1 e.2
  autoClear : e.1.autoClear = true
  manual : p.1.state ≠ .stream → e.2 = e.1

instance (p : CrcChecker × CrcChecker) (e : CheckerIn × CheckerIn) : Decidable (Twins p e) :=
  decidable_of_iff (_ ∧ _ ∧ _) ⟨fun ⟨h₁, h₂, h₃⟩ => ⟨h₁, h₂, h₃⟩, fun ⟨h₁, h₂, h₃⟩ => ⟨h₁, h₂, h₃⟩⟩

/-- Where the two runs may differ and the stream does not deliver a word, the manual ports offer the
engine the same bytes. -/
def Shielded (p : CrcChecker × CrcChecker) (e : CheckerIn × CheckerIn) : Prop :=
  p.1.state = .stream → p.1.streamFire e.1 = false → e.1.softReset = false →
    e.2.manualBytes = e.1.manualBytes

instance (p : CrcChecker × CrcChecker) (e : CheckerIn × CheckerIn) : Decidable (Shielded p e) :=
  inferInstanceAs (Decidable (_ → _ → _ → _))

section Cycle

variable {s : CrcChecker} {i : CheckerIn}

theorem stream_of_fire (hf : s.streamFire i = true) (hs : s.state ≠ .idle) : s.state = .stream := by
  cases hst : s.state with
  | idle => exact absurd hst hs
  | stream => rfl
  | verify =>
    rw [streamFire_of_verify hst] at hf
    exact absurd hf Bool.false_ne_true

theorem active_of_not_fire (hreset : i.softReset = false) (hf : s.streamFire i = false)
    (hactive : (s.clock i).packetActive = true) : s.packetActive = true := by
  revert hactive
  unfold clock
  rw [hreset]
  cases s.state with
  | idle =>
    simp only [Bool.false_eq_true, if_false, clockIdle, hf, Bool.and_false]
    split_ifs <;> exact id
  | stream =>
    simp only [Bool.false_eq_true, if_false, clockStream, hf]
    exact id
  | verify =>
    simp only [Bool.false_eq_true, if_false, clockVerify]
    split_ifs <;> simp

end Cycle

/-! ## The relation -/

/-- What the two runs share: everything a verdict on a stream packet depends on. -/
structure Alike (s t : CrcChecker) : Prop where
  state : t.state = s.state
  active : t.packetActive = s.packetActive
  byteCount : t.byteCount = s.byteCount
  expCrcHold : t.expCrcHold = s.expCrcHold
  stream : s.state = .stream → s.packetActive = true
  engine : s.packetActive = true → t.engine = s.engine

namespace Alike

variable {s t : CrcChecker} {i j : CheckerIn}

theorem streamFire_eq (h : Alike s t) (hij : SameButManual i j) :
    t.streamFire j = s.streamFire i := by
  simp only [streamFire, sAxisTready, h.state, hij.sAxisTvalid, hij.enable]

theorem reset : Alike CrcChecker.reset CrcChecker.reset :=
  ⟨rfl, rfl, rfl, rfl, by decide, fun _ => rfl⟩

theorem control (h : Alike s t) (hij : SameButManual i j) (hman : s.state ≠ .stream → j = i) :
    (t.clock j).state = (s.clock i).state ∧
      (t.clock j).packetActive = (s.clock i).packetActive ∧
      (t.clock j).byteCount = (s.clock i).byteCount ∧
      ((s.clock i).state = .stream → (s.clock i).packetActive = true) := by
  have hfire := h.streamFire_eq hij
  unfold clock
  rw [hij.softReset, h.state]
  cases i.softReset with
  | true => simp [clockSoftReset]
  | false =>
    simp only [Bool.false_eq_true, if_false]
    cases hs : s.state with
    | idle =>
      obtain rfl : j = i := hman (by rw [hs]; decide)
      simp only [clockIdle, hfire]
      split_ifs <;> simp [clockDefaults, clockDatapath, h.state, h.active, h.byteCount, hs]
    | stream =>
      simp only [clockStream, hfire, hij.sAxis]
      split_ifs <;>
        simp [clockDefaults, clockDatapath, h.state, h.active, h.byteCount, hs, h.stream hs]
    | verify =>
      simp only [clockVerify, hij.modeConfig]
      split_ifs <;> simp [clockDefaults, clockDatapath, h.byteCount]

/-- While a stream packet is in progress, or with its first word, the engines stay the same. -/
theorem engine_step (h : Alike s t) (ht : Twins (s, t) (i, j)) (hsh : Shielded (s, t) (i, j))
    (hactive : (s.clock i).packetActive = true) : (t.clock j).engine = (s.clock i).engine := by
  have hij : SameButManual i j := ht.same
  have hman : s.state ≠ .stream → j = i := ht.manual
  have hfire := h.streamFire_eq hij
  have hreset : i.softReset = false := by
    cases hr : i.softReset with
    | false => rfl
    | true => simp [clock, hr, clockSoftReset] at hactive
  have hreset' : j.softReset = false := by rw [hij.softReset, hreset]
  apply Crc32Engine.ext
  cases hf : s.streamFire i with
  | true =>
    have hbeat : j.beat = i.beat := by
      simp only [CheckerIn.beat, hij.sAxis, hij.polyRev, hij.initVal]
    rw [crcReg_of_fire hreset' (hij.autoClear.trans ht.autoClear) (by rw [hfire, hf]),
      crcReg_of_fire hreset ht.autoClear hf, hbeat, h.state]
    by_cases hs : s.state = .idle
    · rw [if_pos hs, if_pos hs]
    · rw [if_neg hs, if_neg hs, h.engine (h.stream (stream_of_fire hf hs))]
  | false =>
    have hbytes : j.manualBytes = i.manualBytes := by
      by_cases hs : s.state = .stream
      · exact hsh hs hf hreset
      · rw [hman hs]
    rw [crcReg_of_not_fire hreset' (by rw [hfire, hf]), crcReg_of_not_fire hreset hf, hbytes,
      hij.polyRev, h.engine (active_of_not_fire hreset hf hactive)]

/-- **A cycle of two such runs keeps them alike.** -/
theorem step (h : Alike s t) (ht : Twins (s, t) (i, j)) (hsh : Shielded (s, t) (i, j)) :
    Alike (s.clock i) (t.clock j) := by
  obtain ⟨hstate, hactive, hcount, hstream⟩ := h.control ht.same ht.manual
  refine ⟨hstate, hactive, hcount, ?_, hstream, h.engine_step ht hsh⟩
  rw [clock_expCrcHold, clock_expCrcHold, ht.same.expCrcWe, ht.same.expCrcReg, h.expCrcHold]

theorem streamPulses_eq (h : Alike s t) (ht : Twins (s, t) (i, j)) :
    s.streamPulses i = t.streamPulses j := by
  unfold streamPulses
  rw [h.active]
  cases hactive : s.packetActive with
  | false => rfl
  | true =>
    rw [if_pos rfl, if_pos rfl, pulses_eq, pulses_eq, h.state, ht.same.softReset, h.engine hactive,
      h.byteCount, ht.same.modeConfig, h.expCrcHold]

end Alike

/-- **Isolation of the stream packets.** In two runs from reset with `auto_clear` that differ only on
the manual port, and only in `STATE_STREAM`, the verdicts on the stream packets are the same, if in
each cycle of `STATE_STREAM` without a word of the stream both manual ports offer the same bytes. -/
theorem stream_packets_isolated (es : List (CheckerIn × CheckerIn))
    (htwins : Along (paired clock) Twins (.reset, .reset) es)
    (hshield : Along (paired clock) Shielded (.reset, .reset) es) :
    log clock streamPulses .reset (es.map Prod.fst) =
      log clock streamPulses .reset (es.map Prod.snd) := by
  have hlog : log (paired clock) (fun p e => p.1.streamPulses e.1) (.reset, .reset) es =
      log (paired clock) (fun p e => p.2.streamPulses e.2) (.reset, .reset) es :=
    (htwins.and hshield).log_congr (fun p => Alike p.1 p.2)
      (fun p e h he => h.step he.1 he.2) (fun p e h he => h.streamPulses_eq he.1) Alike.reset
  rwa [log_paired_fst, log_paired_snd] at hlog

/-- A cycle with the word `w` on the stream. -/
def CheckerIn.word (w : Payload) : CheckerIn :=
  { CheckerIn.quiet with sAxisTvalid := true, sAxis := w }

/-- The same cycle with a byte on the manual port as well. -/
def CheckerIn.withManual (i : CheckerIn) : CheckerIn :=
  { i with manualDataValid := true, manualDataBe := 0b0001, manualDataIn := 0xAA }

/-- A manual byte in the cycle of a stream word does not reach the packet. -/
theorem stream_packets_isolated_word :
    let w₁ := CheckerIn.word ⟨false, 0b1111, 0x34333231⟩
    let w₂ := CheckerIn.word ⟨true, 0b0001, 0x35⟩
    let es := [(w₁, w₁), (CheckerIn.quiet, CheckerIn.quiet), (w₂, w₂.withManual),
      (CheckerIn.quiet, CheckerIn.quiet)]
    log clock streamPulses .reset (es.map Prod.fst) = [⟨0xCBF53A1C, 5, false, true, 0⟩] ∧
      log clock streamPulses .reset (es.map Prod.fst) =
        log clock streamPulses .reset (es.map Prod.snd) := by
  intro w₁ w₂ es
  exact ⟨by decide +kernel, stream_packets_isolated es (by decide +kernel) (by decide +kernel)⟩

/-- A manual byte in a gap of the packet changes its CRC, while the byte count stays. -/
theorem manual_word_in_packet :
    let w₁ := CheckerIn.word ⟨false, 0b1111, 0x34333231⟩
    let w₂ := CheckerIn.word ⟨true, 0b0001, 0x35⟩
    let es := [(w₁, w₁), (CheckerIn.quiet, CheckerIn.quiet.withManual), (w₂, w₂),
      (CheckerIn.quiet, CheckerIn.quiet)]
    Along (paired clock) Twins (.reset, .reset) es ∧
      log clock streamPulses .reset (es.map Prod.fst) = [⟨0xCBF53A1C, 5, false, true, 0⟩] ∧
      log clock streamPulses .reset (es.map Prod.snd) = [⟨0x66A2140E, 5, false, true, 0⟩] := by
  decide +kernel

end PacketBuffering
