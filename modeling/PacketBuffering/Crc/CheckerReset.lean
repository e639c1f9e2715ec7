import PacketBuffering.Crc.StreamLaw

/-!
# The soft reset of the CRC checker

The soft reset is split: the state machine drops what it holds, and the engine is told to start over.
`s_axis_tready` is not masked in that cycle and the engine takes a word together with `init`.

* `CrcChecker.CleanReset`: one state is reached, whatever the data of the cycle.
* `CrcChecker.TakesByte`: the engine is fed in the cycle, from the stream or the manual port.
* **`CrcChecker.clean_reset_iff`**: the reset is clean iff it is not.
* `CrcChecker.reset_takes_word`: a word on the stream in the cycle of the reset.
-/

namespace PacketBuffering

/-! ## The last byte of a word -/

theorem lfsrStep_true_ne_false {w : ℕ} {poly : BitVec w} (hpoly : poly ≠ 0) (c : BitVec w) :
    lfsrStep poly c true ≠ lfsrStep poly c false := by
  have hcancel : c >>> 1 ^^^ poly ≠ c >>> 1 := by
    intro h
    apply hpoly
    have := congrArg (c >>> 1 ^^^ ·) h
    simpa [← BitVec.xor_assoc] using this
  cases hc : c.getLsbD 0 with
  | false => simpa [lfsrStep, hc] using hcancel
  | true => simpa [lfsrStep, hc] using hcancel.symm

theorem updateByte_ne {poly : BitVec 32} (hpoly : poly ≠ 0) (c : BitVec 32) :
    updateByte c 0x80 poly ≠ updateByte c 0 poly := by
  have hset : byteBits 0x80 = List.replicate 7 false ++ [true] := by decide
  have hclear : byteBits 0 = List.replicate 7 false ++ [false] := by decide
  rw [updateByte_eq, updateByte_eq, hset, hclear, List.foldl_append, List.foldl_append]
  exact lfsrStep_true_ne_false hpoly _

theorem exists_enabledBytes {be : BitVec 4} (hbe : be ≠ 0) :
    ∃ k < 4, ∃ bs, enabledBytes (0x80#32 <<< (8 * k)) be = bs ++ [0x80] ∧
      enabledBytes 0 be = bs ++ [0] := by
  have h : ∀ be : BitVec 4, be ≠ 0 → ∃ k < 4,
      enabledBytes (0x80#32 <<< (8 * k)) be = (enabledBytes 0 be).dropLast ++ [0x80] ∧
        enabledBytes 0 be = (enabledBytes 0 be).dropLast ++ [0] := by decide
  obtain ⟨k, hk, hbytes⟩ := h be hbe
  exact ⟨k, hk, _, hbytes⟩

theorem effectivePoly_ne_zero (p : BitVec 32) : effectivePoly p ≠ 0 := by
  unfold effectivePoly
  split_ifs with h
  · exact bne_iff_ne.mp h
  · decide

namespace CrcChecker

/-- The cycle with other data on the stream and on the manual port. -/
def withData (i : CheckerIn) (d m : BitVec 32) : CheckerIn :=
  { i with sAxis := { i.sAxis with tdata := d }, manualDataIn := m }

variable (s : CrcChecker) (i : CheckerIn)

/-- **One state is reached** in the cycle, and the data of the cycle leaves no trace in the engine. -/
structure CleanReset : Prop where
  crcReg : (s.clock i).engine.crcReg = effectiveInit i.initVal
  state : (s.clock i).state = .idle
  byteCount : (s.clock i).byteCount = 0
  traceless : ∀ d m, (s.clock (withData i d m)).engine = (s.clock i).engine

/-- The engine is fed: a word of the stream with an enabled lane or, without one, a manual word. -/
def TakesByte : Prop :=
  if s.streamFire i then i.sAxis.tkeep ≠ 0 else i.manualDataValid = true ∧ i.manualDataBe ≠ 0

instance : Decidable (s.TakesByte i) := inferInstanceAs (Decidable (ite _ _ _))

variable {s i}

theorem crcReg_of_softReset (h : i.softReset = true) : (s.clock i).engine.crcReg =
    (s.engineIn i).bytes.foldl (fun c b => updateByte c b (effectivePoly i.polyRev))
      (effectiveInit i.initVal) := by
  rw [clock_engine, Crc32Engine.clock_crcReg, Crc32Engine.crcCurrent]
  simp [engineIn, h]

theorem crcReg_withData (h : i.softReset = true) (d m : BitVec 32) :
    (s.clock (withData i d m)).engine.crcReg =
      (s.engineIn (withData i d m)).bytes.foldl
        (fun c b => updateByte c b (effectivePoly i.polyRev)) (effectiveInit i.initVal) :=
  crcReg_of_softReset (i := withData i d m) h

theorem enabledBytes_zero_right (d : BitVec 32) : enabledBytes d 0 = [] := by
  simp [enabledBytes]

theorem bytes_engineIn : (s.engineIn i).bytes =
    if s.streamFire i then enabledBytes i.sAxis.tdata i.sAxis.tkeep
    else if i.manualDataValid then enabledBytes i.manualDataIn i.manualDataBe else [] := by
  unfold EngineIn.bytes engineIn
  cases s.streamFire i <;> cases i.manualDataValid <;> rfl

theorem bytes_eq_nil_of_not_takesByte (h : ¬ s.TakesByte i) : (s.engineIn i).bytes = [] := by
  rw [bytes_engineIn]
  unfold TakesByte at h
  split_ifs at h ⊢ with hfire hman
  · rw [not_not.mp h, enabledBytes_zero_right]
  · have hbe : i.manualDataBe = 0 := by
      by_contra hbe
      exact h ⟨hman, hbe⟩
    rw [hbe, enabledBytes_zero_right]
  · rfl

theorem takesByte_withData (d m : BitVec 32) : s.TakesByte (withData i d m) ↔ s.TakesByte i := Iff.rfl

theorem exists_trace (h : i.softReset = true) (htake : s.TakesByte i) : ∃ d d',
    (s.clock (withData i d d)).engine.crcReg ≠ (s.clock (withData i d' d')).engine.crcReg := by
  obtain ⟨be, hbe, hbytes⟩ : ∃ be : BitVec 4, be ≠ 0 ∧
      ∀ d, (s.engineIn (withData i d d)).bytes = enabledBytes d be := by
    unfold TakesByte at htake
    split_ifs at htake with hfire
    · refine ⟨i.sAxis.tkeep, htake, fun d => ?_⟩
      have hfire' : s.streamFire (withData i d d) = true := hfire
      rw [bytes_engineIn, if_pos hfire']
      rfl
    · refine ⟨i.manualDataBe, htake.2, fun d => ?_⟩
      have hfire' : ¬ s.streamFire (withData i d d) = true := hfire
      have hman : (withData i d d).manualDataValid = true := htake.1
      rw [bytes_engineIn, if_neg hfire', if_pos hman]
      rfl
  obtain ⟨k, -, bs, hset, hclear⟩ := exists_enabledBytes hbe
  refine ⟨0x80#32 <<< (8 * k), 0, ?_⟩
  rw [crcReg_withData h, crcReg_withData h, hbytes, hbytes, hset, hclear, List.foldl_append,
    List.foldl_append, List.foldl_cons, List.foldl_cons, List.foldl_nil, List.foldl_nil]
  exact updateByte_ne (effectivePoly_ne_zero i.polyRev) _

/-- **When the soft reset reaches one state.** From every state and in every cycle with
`soft_reset = 1`: the accumulator is the effective initial value, the state is `STATE_IDLE`, the byte
count is zero and no data of the cycle leaves a trace in the engine, iff no byte is taken from the
stream or the manual port in that cycle. -/
theorem clean_reset_iff (s : CrcChecker) (i : CheckerIn) (hreset : i.softReset = true) :
    CleanReset s i ↔ ¬ s.TakesByte i := by
  constructor
  · intro hclean htake
    obtain ⟨d, d', hne⟩ := exists_trace hreset htake
    apply hne
    rw [hclean.traceless d d, hclean.traceless d' d']
  · intro htake
    have hreg : ∀ d m, (s.clock (withData i d m)).engine.crcReg = effectiveInit i.initVal := by
      intro d m
      rw [crcReg_withData hreset,
        bytes_eq_nil_of_not_takesByte ((takesByte_withData d m).not.mpr htake), List.foldl_nil]
    have hreg₀ : (s.clock i).engine.crcReg = effectiveInit i.initVal := by
      rw [crcReg_of_softReset hreset, bytes_eq_nil_of_not_takesByte htake, List.foldl_nil]
    refine ⟨hreg₀, ?_, ?_, ?_⟩
    · simp [clock, hreset, clockSoftReset]
    · simp [clock, hreset, clockSoftReset]
    · intro d m
      exact Crc32Engine.ext ((hreg d m).trans hreg₀.symm)

/-- A soft reset in the middle of a packet, with the stream paused. -/
theorem clean_reset_paused :
    let word : CheckerIn :=
      { CheckerIn.quiet with sAxisTvalid := true, sAxis := ⟨false, 0b1111, 0x34333231⟩ }
    let pause : CheckerIn := { CheckerIn.quiet with softReset := true }
    (run clock reset [word]).state = .stream ∧ CleanReset (run clock reset [word]) pause := by
  intro word pause
  refine ⟨by decide, (clean_reset_iff (run clock reset [word]) pause rfl).mpr (by decide)⟩

/-- **A word in the cycle of the reset.** It is handshaken on the stream and starts the register of
the next packet, while its byte is not counted. -/
theorem reset_takes_word :
    let i : CheckerIn :=
      { CheckerIn.quiet with
        softReset := true, sAxisTvalid := true, sAxis := ⟨true, 0b0001, 0x00000061⟩ }
    reset.streamFire i = true ∧ effectiveInit i.initVal = 0xFFFFFFFF ∧
      (reset.clock i).engine.crcReg = 0x174841BC ∧ (reset.clock i).byteCount = 0 ∧
      ¬ CleanReset reset i := by
  intro i
  have hreg : (reset.clock i).engine.crcReg = 0x174841BC := by decide +kernel
  refine ⟨by decide, by decide, hreg, by decide, fun hclean => ?_⟩
  have hinit : effectiveInit i.initVal ≠ 0x174841BC := by decide
  exact hinit (hclean.crcReg.symm.trans hreg)

end CrcChecker

end PacketBuffering
