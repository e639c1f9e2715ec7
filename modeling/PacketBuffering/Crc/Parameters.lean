import PacketBuffering.Crc.Manual

/-!
# Polynomial and seed of the CRC unit

`CRC_POLY` and `CRC_INIT_VAL` override the defaults of the engine; the value zero stands for no
override.

* `reflectedCrc`: the reflected CRC with a polynomial and a seed, by polynomial division.
* `Fixed`, `CrcsInv`: one polynomial, one seed, no reset and no manual data; the CRCs of the packets in
  every mode of the checker.
* `CrcTop.configWrites`, `CrcTop.configReg_run`: a configuration register holds what was written last.
* **`CrcTop.parameters_honoured`**: every packet is reported with the parameters written before it.
* `CrcTop.zero_poly_replaced`: the polynomial zero is read back and not used.
-/

namespace PacketBuffering

open CrcChecker Beat

/-- **The reflected CRC** of a byte string with the reflected polynomial `poly`, the seed `seed` and
the final exclusive-or `0xFFFFFFFF`, by polynomial division. -/
noncomputable def reflectedCrc (poly seed : BitVec 32) (bytes : List (BitVec 8)) : BitVec 32 :=
  crcReference (generator poly) seed 0xFFFFFFFF#32 (messageBits bytes)

theorem reflectedCrc_eq (poly seed : BitVec 32) (bytes : List (BitVec 8)) :
    reflectedCrc poly seed bytes = absorb poly seed bytes ^^^ crc32DefaultXorout := by
  rw [absorb, foldl_updateByte, foldl_lfsrStep_eq_crcReference]
  rfl

theorem absorb_append (poly seed : BitVec 32) (bs cs : List (BitVec 8)) :
    absorb poly seed (bs ++ cs) = absorb poly (absorb poly seed bs) cs := List.foldl_append

/-! ## The checker in every mode -/

/-- The cycle runs under one polynomial and one seed with `auto_clear`, without soft reset and without
manual data. -/
structure Fixed (poly seed : BitVec 32) (i : CheckerIn) : Prop where
  softReset : i.softReset = false
  manual : i.manualDataValid = false
  autoClear : i.autoClear = true
  poly : effectivePoly i.polyRev = poly
  seed : effectiveInit i.initVal = seed

/-- The CRC of a packet of stream words. -/
noncomputable def wordsCrc (poly seed : BitVec 32) (p : List Payload) : BitVec 32 :=
  reflectedCrc poly seed (p.flatMap Payload.bytes)

/-- **The invariant** after the words `ws` and the reported CRCs `cs`. -/
def CrcsInv (poly seed : BitVec 32) (s : CrcChecker) (ws : List Payload) (cs : List (BitVec 32)) :
    Prop :=
  match s.state with
  | .idle => openPacket Payload.tlast ws = [] ∧
      cs = (packets Payload.tlast ws).map (wordsCrc poly seed)
  | .stream => openPacket Payload.tlast ws ≠ [] ∧
      s.engine.crcReg = absorb poly seed ((openPacket Payload.tlast ws).flatMap Payload.bytes) ∧
      cs = (packets Payload.tlast ws).map (wordsCrc poly seed)
  | .verify => openPacket Payload.tlast ws = [] ∧
      cs ++ [s.engine.crcOut] = (packets Payload.tlast ws).map (wordsCrc poly seed)

namespace CrcsInv

variable {poly seed : BitVec 32} {s : CrcChecker} {i : CheckerIn} {ws : List Payload}
  {cs : List (BitVec 32)}

/-- The CRCs reported in the cycle. -/
def reported (s : CrcChecker) (i : CheckerIn) : List (BitVec 32) := (s.pulses i).map Verdict.calcCrc

theorem step_of_fire (hi : Fixed poly seed i) (hfire : s.streamFire i = true)
    (hcs : cs = (packets Payload.tlast ws).map (wordsCrc poly seed))
    (hreg : (s.clock i).engine.crcReg =
      absorb poly seed ((openPacket Payload.tlast ws ++ [i.sAxis]).flatMap Payload.bytes)) :
    CrcsInv poly seed (s.clock i) (ws ++ s.streamWords i) (cs ++ reported s i) := by
  obtain ⟨hstate, -, hpulse⟩ := clock_of_fire hi.softReset hfire
  have hword : s.streamWords i = [i.sAxis] := by rw [streamWords, if_pos hfire]
  rw [hword, reported, hpulse, List.map_nil, List.append_nil]
  unfold CrcsInv
  rw [hstate, show i.beat.last = i.sAxis.tlast from rfl]
  cases hlast : i.sAxis.tlast with
  | false =>
    simp only [Bool.false_eq_true, if_false]
    rw [openPacket_snoc_of_not_last _ hlast, packets_snoc_of_not_last _ hlast]
    exact ⟨by simp, hreg, hcs⟩
  | true =>
    simp only [if_true]
    rw [openPacket_snoc_of_last _ hlast, packets_snoc_of_last _ hlast, List.map_append, hcs,
      Crc32Engine.crcOut, hreg, ← reflectedCrc_eq]
    exact ⟨rfl, rfl⟩

theorem step_of_not_fire (h : CrcsInv poly seed s ws cs) (hi : Fixed poly seed i)
    (hfire : s.streamFire i = false) (hs : s.state ≠ .verify) :
    CrcsInv poly seed (s.clock i) (ws ++ s.streamWords i) (cs ++ reported s i) := by
  obtain ⟨hstate, -, hreg, hpulse⟩ := clock_of_not_fire hi.softReset hi.manual hfire hs
  have hword : s.streamWords i = [] := by simp [streamWords, hfire]
  rw [hword, reported, hpulse, List.map_nil, List.append_nil, List.append_nil]
  unfold CrcsInv Crc32Engine.crcOut at h ⊢
  rwa [hstate, hreg]

/-- **Every such cycle keeps the invariant**, in every mode. -/
theorem step (h : CrcsInv poly seed s ws cs) (hi : Fixed poly seed i) :
    CrcsInv poly seed (s.clock i) (ws ++ s.streamWords i) (cs ++ reported s i) := by
  have h' := h
  unfold CrcsInv at h'
  cases hs : s.state with
  | idle =>
    simp only [hs] at h'
    cases hfire : s.streamFire i with
    | false => exact h.step_of_not_fire hi hfire (by rw [hs]; decide)
    | true =>
      refine step_of_fire hi hfire h'.2 ?_
      rw [crcReg_of_fire hi.softReset hi.autoClear hfire, if_pos hs, h'.1]
      simp [feed, CheckerIn.beat, absorb, hi.poly, hi.seed, Beat.bytes]
  | stream =>
    simp only [hs] at h'
    cases hfire : s.streamFire i with
    | false => exact h.step_of_not_fire hi hfire (by rw [hs]; decide)
    | true =>
      refine step_of_fire hi hfire h'.2.2 ?_
      rw [crcReg_of_fire hi.softReset hi.autoClear hfire, if_neg (by rw [hs]; decide), h'.2.1,
        List.flatMap_append, absorb_append]
      simp [feed, CheckerIn.beat, absorb, hi.poly, Beat.bytes]
  | verify =>
    simp only [hs] at h'
    have hword : s.streamWords i = [] := by simp [streamWords, streamFire_of_verify hs]
    have hreport : reported s i = [s.engine.crcOut] := by
      rw [reported, pulses_eq, if_pos ⟨hs, hi.softReset⟩]
      rfl
    rw [hword, hreport, List.append_nil]
    unfold CrcsInv
    rw [state_clock_of_verify hs]
    exact h'

theorem reported_isPrefix (h : CrcsInv poly seed s ws cs) :
    cs <+: (packets Payload.tlast ws).map (wordsCrc poly seed) ∧
      cs.length + (if s.state = .verify then 1 else 0) = (packets Payload.tlast ws).length := by
  unfold CrcsInv at h
  cases hs : s.state with
  | idle =>
    simp only [hs] at h
    rw [h.2]
    exact ⟨List.prefix_refl _, by simp⟩
  | stream =>
    simp only [hs] at h
    rw [h.2.2]
    exact ⟨List.prefix_refl _, by simp⟩
  | verify =>
    simp only [hs] at h
    have hlen := congrArg List.length h.2
    rw [← h.2]
    refine ⟨List.prefix_append _ _, ?_⟩
    simpa using hlen

end CrcsInv

/-! ## The configuration registers -/

theorem strobed_all (d old : BitVec 32) : strobed 0b1111 d old = d := by
  apply BitVec.eq_of_getLsbD_eq
  intro k hk
  have hall : ∀ j < 4, (0b1111 : BitVec 4).getLsbD j = true := by decide
  rw [getLsbD_strobed _ _ _ hk, hall _ (by omega), if_pos rfl]

namespace CrcTop

/-- The data and the strobes of a write to the register `a`. -/
def configWrites (a : BitVec 4) (s : CrcTop) (e : CrcTopIn) : List (BitVec 32 × BitVec 4) :=
  if s.slave.writesTo e.axi a then [(e.axi.wdata, e.axi.wstrb)] else []

/-- **A configuration register holds what was written last**, if all strobes were set. -/
theorem configReg_run (reg : CrcTop → BitVec 32) {a : BitVec 4}
    (hreg : ∀ s e, reg (step s e) = s.slave.configNext e.axi a (reg s)) {s : CrcTop}
    {es : List CrcTopIn} {d : BitVec 32}
    (h : (log step (configWrites a) s es).getLast? = some (d, 0b1111)) : reg (run step s es) = d := by
  have hstep : ∀ s e, reg (step s e) =
      (configWrites a s e).foldl (fun old w => strobed w.2 w.1 old) (reg s) := by
    intro s e
    rw [hreg, CrcSlave.configNext, configWrites]
    split_ifs <;> rfl
  have hfold := run_eq_foldl_log step (configWrites a) hstep s es
  obtain ⟨l, hl⟩ := List.getLast?_eq_some_iff.mp h
  rw [hfold, hl, List.foldl_append, List.foldl_cons, List.foldl_nil, strobed_all]

/-- A cycle of the packets: neither parameter is written, `auto_clear` is set, no soft reset is on and
nothing is on the manual port. -/
structure Undisturbed (s : CrcTop) (e : CrcTopIn) : Prop where
  poly : s.slave.writesTo e.axi CrcReg.poly = false
  initVal : s.slave.writesTo e.axi CrcReg.initVal = false
  softReset : s.slave.ctrlSoftReset = false
  manual : s.slave.manualDataValid = false
  autoClear : s.slave.ctrlAutoClear = true

instance (s : CrcTop) (e : CrcTopIn) : Decidable (Undisturbed s e) :=
  decidable_of_iff (_ ∧ _ ∧ _ ∧ _ ∧ _)
    ⟨fun ⟨h₁, h₂, h₃, h₄, h₅⟩ => ⟨h₁, h₂, h₃, h₄, h₅⟩,
      fun ⟨h₁, h₂, h₃, h₄, h₅⟩ => ⟨h₁, h₂, h₃, h₄, h₅⟩⟩

variable {s : CrcTop} {e : CrcTopIn} {p q : BitVec 32}

/-- The two parameter registers. -/
def Holding (p q : BitVec 32) (s : CrcTop) : Prop := s.slave.polyRev = p ∧ s.slave.initVal = q

theorem Holding.step (h : Holding p q s) (he : Undisturbed s e) : Holding p q (s.step e) := by
  constructor
  · simp [CrcTop.step, CrcSlave.clock, CrcSlave.configNext, he.poly, h.1]
  · simp [CrcTop.step, CrcSlave.clock, CrcSlave.configNext, he.initVal, h.2]

theorem Holding.rdata (h : Holding p q s) (hread : s.slave.arFire e.axi = true) :
    (crcRegOf e.axi.araddr = CrcReg.poly → (s.step e).slave.rdata = p) ∧
      (crcRegOf e.axi.araddr = CrcReg.initVal → (s.step e).slave.rdata = q) := by
  constructor
  · intro ha
    simp [CrcTop.step, CrcSlave.clock, hread, CrcSlave.readWord, ha, h.1, CrcReg.poly, CrcReg.ctrl,
      CrcReg.status, CrcReg.calcResult, CrcReg.expResult]
  · intro ha
    simp [CrcTop.step, CrcSlave.clock, hread, CrcSlave.readWord, ha, h.2, CrcReg.poly, CrcReg.ctrl,
      CrcReg.status, CrcReg.calcResult, CrcReg.expResult, CrcReg.initVal]

theorem fixed_checkerIn (h : Holding p q s) (he : Undisturbed s e) :
    Fixed (effectivePoly p) (effectiveInit q) (s.checkerIn e) where
  softReset := he.softReset
  manual := he.manual
  autoClear := he.autoClear
  poly := congrArg effectivePoly h.1
  seed := congrArg effectiveInit h.2

/-- The CRCs reported in the cycle. -/
def reportedCrcs (s : CrcTop) (e : CrcTopIn) : List (BitVec 32) := (s.pulses e).map Verdict.calcCrc

theorem crcsInv_of_run (hidle : s.checker.state = .idle) (hset : Holding p q s) :
    ∀ es, Along step Undisturbed s es → Holding p q (run step s es) ∧
      CrcsInv (effectivePoly p) (effectiveInit q) (run step s es).checker (log step streamWords s es)
        (log step reportedCrcs s es) := by
  refine Along.snocInduction ⟨hset, ?_⟩ ?_
  · unfold CrcsInv
    rw [run_nil, hidle]
    exact ⟨rfl, rfl⟩
  · intro es e _ ⟨hset, hinv⟩ he
    simp only [run_snoc, log_snoc]
    exact ⟨hset.step he, hinv.step (fixed_checkerIn hset he)⟩

/-- The polynomial used for the value `p` of `CRC_POLY`. -/
def polyFor (p : BitVec 32) : BitVec 32 := if p = 0 then 0xEDB88320 else p

/-- The seed used for the value `q` of `CRC_INIT_VAL`. -/
def seedFor (q : BitVec 32) : BitVec 32 := if q = 0 then 0xFFFFFFFF else q

theorem effectivePoly_eq (p : BitVec 32) : effectivePoly p = polyFor p := by
  unfold effectivePoly polyFor
  by_cases h : p = 0 <;> simp [h, crc32DefaultPolyRev]

theorem effectiveInit_eq (q : BitVec 32) : effectiveInit q = seedFor q := by
  unfold effectiveInit seedFor
  by_cases h : q = 0 <;> simp [h, crc32DefaultInit]

/-- **The parameters are honoured.** In every run from reset in which `p` and `q` were written last to
`CRC_POLY` and `CRC_INIT_VAL`, and from an idle checker on: every packet streamed with `auto_clear` is
reported, in order and in every mode, with the reflected CRC of its bytes under the polynomial and the
seed written, where zero stands for the default; and reads return the values written. -/
theorem parameters_honoured (p q : BitVec 32) (es₀ es : List CrcTopIn)
    (hp : (log step (configWrites CrcReg.poly) reset es₀).getLast? = some (p, 0b1111))
    (hq : (log step (configWrites CrcReg.initVal) reset es₀).getLast? = some (q, 0b1111))
    (hidle : (run step reset es₀).checker.state = .idle)
    (hes : Along step Undisturbed (run step reset es₀) es) :
    let s := run step reset es₀
    let crcs := (packets Payload.tlast (log step streamWords s es)).map fun ws =>
      reflectedCrc (polyFor p) (seedFor q) (ws.flatMap Payload.bytes)
    (log step reportedCrcs s es <+: crcs ∧
      (log step reportedCrcs s es).length +
          (if (run step s es).checker.state = .verify then 1 else 0) = crcs.length) ∧
      ∀ es' e, es' ++ [e] <+: es → (run step s es').slave.arFire e.axi = true →
        (crcRegOf e.axi.araddr = CrcReg.poly → (run step s (es' ++ [e])).slave.rdata = p) ∧
          (crcRegOf e.axi.araddr = CrcReg.initVal →
            (run step s (es' ++ [e])).slave.rdata = q) := by
  intro s crcs
  have hset : Holding p q s :=
    ⟨configReg_run (fun s => s.slave.polyRev) (fun _ _ => rfl) hp,
      configReg_run (fun s => s.slave.initVal) (fun _ _ => rfl) hq⟩
  refine ⟨?_, fun es' e hpre hread => ?_⟩
  · have h := (crcsInv_of_run hidle hset es hes).2.reported_isPrefix
    rw [effectivePoly_eq, effectiveInit_eq] at h
    refine ⟨h.1, ?_⟩
    rw [List.length_map]
    exact h.2
  · have hbefore := hes.of_isPrefix ((List.prefix_append es' [e]).trans hpre)
    rw [run_snoc]
    exact (crcsInv_of_run hidle hset es' hbefore).1.rdata hread

/-- The writes of both parameters. -/
def setParameters (p q : BitVec 32) : List CrcTopIn :=
  CrcTopIn.busWrite 0x10 p ++ CrcTopIn.busWrite 0x14 q

/-- The Castagnoli polynomial and a seed of one, for the packet `"1234"`. -/
theorem parameters_honoured_castagnoli :
    let es₀ := setParameters 0x82F63B78 0x00000001
    let es : List CrcTopIn := [.lastWord 0x34333231, .bus .idle]
    log step reportedCrcs (run step reset es₀) es =
      [reflectedCrc 0x82F63B78 0x00000001 [0x31, 0x32, 0x33, 0x34]] := by
  intro es₀ es
  have h := (parameters_honoured 0x82F63B78 0x00000001 es₀ es (by decide +kernel) (by decide +kernel)
    (by decide +kernel) (by decide +kernel)).1
  have hwords : packets Payload.tlast (log step streamWords (run step reset es₀) es) =
      [[⟨true, 0b1111, 0x34333231⟩]] := by decide +kernel
  have hstate : (run step (run step reset es₀) es).checker.state = .idle := by decide +kernel
  rw [hwords, hstate] at h
  exact h.1.eq_of_length (by simpa using h.2)

/-- **The polynomial zero is replaced.** `CRC_POLY` is written with zero and reads back as zero; the
packet `"1234"` is reported with the CRC of the default polynomial. -/
theorem zero_poly_replaced :
    let es₀ := setParameters 0 0xFFFFFFFF
    let s := run step reset es₀
    let read : CrcTopIn := .bus (.read 0x10)
    let es : List CrcTopIn := [.lastWord 0x34333231, read, read]
    (log step (configWrites CrcReg.poly) reset es₀).getLast? = some (0, 0b1111) ∧
      (log step (configWrites CrcReg.initVal) reset es₀).getLast? = some (0xFFFFFFFF, 0b1111) ∧
      s.checker.state = .idle ∧ Along step Undisturbed s es ∧
      log step streamWords s es = [⟨true, 0b1111, 0x34333231⟩] ∧
      (run step s (es.take 2)).slave.arFire read.axi = true ∧ (run step s es).slave.rdata = 0 ∧
      log step reportedCrcs s es = [0x9BE3E0A3] ∧
      reflectedCrc 0 0xFFFFFFFF [0x31, 0x32, 0x33, 0x34] ≠ 0x9BE3E0A3 := by
  intro es₀ s read es
  refine ⟨by decide +kernel, by decide +kernel, by decide +kernel, by decide +kernel,
    by decide +kernel, by decide +kernel, by decide +kernel, by decide +kernel, ?_⟩
  rw [reflectedCrc_eq]
  decide +kernel

end CrcTop

end PacketBuffering
