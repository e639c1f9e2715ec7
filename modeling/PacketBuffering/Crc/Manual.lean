import PacketBuffering.Crc.StreamLaw
import PacketBuffering.Crc.Top

/-!
# The manual port of the CRC unit

A packet can be injected word by word through `CRC_MANUAL_DATA`. The manual branch of the checker
neither seeds the engine nor restarts the byte count, so that its result depends on what the engine
and the count hold from before.

* `Steady`: a cycle whose register writes leave the configuration alone.
* `startReg`, `startCount`: what a manual packet starts from.
* **`manual_agrees_iff`**: injecting a packet gives the report that streaming it gives, iff the count
  starts at zero and the start of the engine differs from the seed by nothing the packet does not
  shift out.
* `manual_after_packet`: after an earlier packet the reports differ.
-/

namespace PacketBuffering

open CrcChecker

/-! ## Cycles of an idle checker -/

section Idle

variable {s : CrcChecker} {i : CheckerIn}

/-- The engine's register after the bytes. -/
def absorb (poly c : BitVec 32) (bytes : List (BitVec 8)) : BitVec 32 :=
  bytes.foldl (fun c b => updateByte c b poly) c

theorem clock_idle_of_no_word (hs : s.state = .idle) (hfire : s.streamFire i = false)
    (hman : i.manualDataValid = false) :
    (s.clock i).state = .idle ∧
      (s.clock i).engine.crcReg =
        (if i.softReset then effectiveInit i.initVal else s.engine.crcReg) ∧
      (s.clock i).byteCount = (if i.softReset then 0 else s.byteCount) := by
  cases hreset : i.softReset with
  | true =>
    have hclock : s.clock i = s.clockSoftReset i := by simp [clock, hreset]
    rw [hclock]
    refine ⟨rfl, ?_, rfl⟩
    simp [clockSoftReset, clockDatapath, Crc32Engine.clock, engineIn, hfire, hman, hreset]
  | false =>
    obtain ⟨hstate, hcount, hreg, -⟩ :=
      clock_of_not_fire hreset hman hfire (by rw [hs]; decide)
    exact ⟨hstate.trans hs, hreg, hcount⟩

theorem clock_idle_of_manual (hs : s.state = .idle) (hen : i.enable = true)
    (hreset : i.softReset = false) (hfire : s.streamFire i = false)
    (hman : i.manualDataValid = true) :
    (s.clock i).state = (if i.manualDataLast then .verify else .idle) ∧
      (s.clock i).engine.crcReg = absorb (effectivePoly i.polyRev) s.engine.crcReg
        (enabledBytes i.manualDataIn i.manualDataBe) ∧
      (s.clock i).byteCount =
        s.byteCount + BitVec.ofNat 32 (enabledBytes i.manualDataIn i.manualDataBe).length := by
  have hclock : s.clock i =
      { s.clockDefaults i with
        state := if i.manualDataLast then .verify else .idle
        byteCount := s.byteCount + (countBytes i.manualDataBe).setWidth 32 } := by
    simp [clock, hreset, hs, clockIdle, hman, hfire, hen]
  refine ⟨by rw [hclock], ?_, by rw [hclock, ← countBytes_eq]⟩
  rw [crcReg_of_not_fire hreset hfire, absorb, CheckerIn.manualBytes, hman, if_pos rfl]

end Idle

namespace CrcTop

/-! ## The runs -/

/-- The writes of the cycle leave polynomial, seed, mode and expected CRC alone, and a write of
`CRC_CTRL` keeps the unit enabled with `auto_clear` and does not reset it. -/
structure Steady (s : CrcTop) (e : CrcTopIn) : Prop where
  poly : s.slave.writesTo e.axi CrcReg.poly = false
  initVal : s.slave.writesTo e.axi CrcReg.initVal = false
  modeConfig : s.slave.writesTo e.axi CrcReg.modeConfig = false
  expResult : s.slave.writesTo e.axi CrcReg.expResult = false
  ctrl : s.slave.writesTo e.axi CrcReg.ctrl = true → e.axi.wdata.getLsbD 1 = false ∧
    (strobed e.axi.wstrb e.axi.wdata s.slave.regCtrl).getLsbD 0 = true ∧
    (strobed e.axi.wstrb e.axi.wdata s.slave.regCtrl).getLsbD 4 = true

instance (s : CrcTop) (e : CrcTopIn) : Decidable (Steady s e) :=
  decidable_of_iff (_ ∧ _ ∧ _ ∧ _ ∧ _)
    ⟨fun ⟨h₁, h₂, h₃, h₄, h₅⟩ => ⟨h₁, h₂, h₃, h₄, h₅⟩,
      fun ⟨h₁, h₂, h₃, h₄, h₅⟩ => ⟨h₁, h₂, h₃, h₄, h₅⟩⟩

/-- A cycle of an injection: no traffic on the stream. -/
def Injecting (s : CrcTop) (e : CrcTopIn) : Prop := Steady s e ∧ e.sAxisTvalid = false

/-- A cycle of a stream packet: nothing on the manual port, and no word while a soft reset is on. -/
def Streaming (s : CrcTop) (e : CrcTopIn) : Prop :=
  Steady s e ∧ s.slave.manualDataValid = false ∧
    (s.slave.ctrlSoftReset = true → e.sAxisTvalid = false)

instance (s : CrcTop) (e : CrcTopIn) : Decidable (Injecting s e) :=
  inferInstanceAs (Decidable (_ ∧ _))

instance (s : CrcTop) (e : CrcTopIn) : Decidable (Streaming s e) :=
  inferInstanceAs (Decidable (_ ∧ _ ∧ _))

/-! ## The configuration -/

/-- The polynomial in force. -/
def poly (s : CrcTop) : BitVec 32 := effectivePoly s.slave.polyRev

/-- The seed in force. -/
def seed (s : CrcTop) : BitVec 32 := effectiveInit s.slave.initVal

/-- The engine's register, with a soft reset that is on already taken. -/
def startReg (s : CrcTop) : BitVec 32 :=
  if s.slave.ctrlSoftReset then s.seed else s.checker.engine.crcReg

/-- The byte count, with a soft reset that is on already taken. -/
def startCount (s : CrcTop) : BitVec 32 :=
  if s.slave.ctrlSoftReset then 0 else s.checker.byteCount

/-- The expected CRC, with a write that is under way already taken. -/
def held (s : CrcTop) : BitVec 32 :=
  if s.slave.expCrcWe then s.slave.expCrcReg else s.checker.expCrcHold

/-- The unit is enabled with `auto_clear`, and configured as `s₀` is. -/
structure Configured (s₀ s : CrcTop) : Prop where
  enable : s.slave.ctrlEnable = true
  autoClear : s.slave.ctrlAutoClear = true
  poly : s.poly = s₀.poly
  seed : s.seed = s₀.seed
  mode : s.slave.modeConfig = s₀.slave.modeConfig
  held : s.held = s₀.held

/-- The same, behind the pulses of earlier writes. -/
structure Settled (s₀ s : CrcTop) : Prop extends Configured s₀ s where
  softReset : s.slave.ctrlSoftReset = false
  expCrcWe : s.slave.expCrcWe = false

variable {s₀ s : CrcTop} {e : CrcTopIn}

theorem settled_step (h : Configured s₀ s) (he : Steady s e) : Settled s₀ (s.step e) := by
  have hreset : (s.step e).slave.ctrlSoftReset = false := by
    cases hw : s.slave.writesTo e.axi CrcReg.ctrl with
    | false => simp [step, CrcSlave.clock, hw]
    | true =>
      have hbit := (he.ctrl hw).1
      simp only [step, CrcSlave.clock, hbit, Bool.and_false]
  have hctrl : (s.step e).slave.ctrlEnable = true ∧ (s.step e).slave.ctrlAutoClear = true := by
    simp only [step, CrcSlave.clock, CrcSlave.ctrlEnable, CrcSlave.ctrlAutoClear,
      CrcSlave.configNext]
    cases hw : s.slave.writesTo e.axi CrcReg.ctrl with
    | false => exact ⟨h.enable, h.autoClear⟩
    | true => exact (he.ctrl hw).2
  have hwe : (s.step e).slave.expCrcWe = false := he.expResult
  have hheld : (s.step e).checker.expCrcHold = s.held := clock_expCrcHold
  refine ⟨⟨hctrl.1, hctrl.2, ?_, ?_, ?_, ?_⟩, hreset, hwe⟩
  · rw [← h.poly]
    simp [poly, step, CrcSlave.clock, CrcSlave.configNext, he.poly]
  · rw [← h.seed]
    simp [seed, step, CrcSlave.clock, CrcSlave.configNext, he.initVal]
  · rw [← h.mode]
    simp [CrcSlave.modeConfig, step, CrcSlave.clock, CrcSlave.configNext, he.modeConfig]
  · rw [← h.held, held, hwe, if_neg Bool.false_ne_true, hheld]

/-! ## One packet -/

/-- Register and count after the words `q`, from the register `c` and the count `n`. -/
structure Absorbed (s₀ : CrcTop) (c n : BitVec 32) (q : List Payload) (reg count : BitVec 32) :
    Prop where
  reg : reg = absorb s₀.poly c (q.flatMap Payload.bytes)
  count : count = n + BitVec.ofNat 32 (q.flatMap Payload.bytes).length

/-- The report on the words `q`. -/
def reportOn (s₀ : CrcTop) (c n : BitVec 32) (q : List Payload) : Verdict :=
  .report s₀.slave.modeConfig (absorb s₀.poly c (q.flatMap Payload.bytes) ^^^ crc32DefaultXorout)
    (n + BitVec.ofNat 32 (q.flatMap Payload.bytes).length) s₀.held

/-- **The course of one packet** `body ++ [w]`, of which the words `q` are taken: while it is open the
state meets `Open`, then it is verified and then it is reported. -/
inductive PacketInv (Open : CrcTop → List Payload → Prop) (s₀ : CrcTop) (c n : BitVec 32)
    (body : List Payload) (w : Payload) (s : CrcTop) (q : List Payload) (vs : List Verdict) : Prop
  | opened (h : Open s q) (hq : q <+: body) (hvs : vs = [])
  | closed (hs : s.checker.state = .verify) (hset : Settled s₀ s)
      (h : Absorbed s₀ c n q s.checker.engine.crcReg s.checker.byteCount) (hq : q = body ++ [w])
      (hvs : vs = [])
  | reported (hs : s.checker.state = .idle) (hset : Settled s₀ s) (hq : q = body ++ [w])
      (hvs : vs = [reportOn s₀ c n q])

theorem pulses_of_ne_verify (hs : s.checker.state ≠ .verify) : s.pulses e = [] := by
  rw [pulses, pulses_eq, if_neg fun h => hs h.1]

theorem pulses_of_verify {c n : BitVec 32} {q : List Payload} (hs : s.checker.state = .verify)
    (hset : Settled s₀ s)
    (h : Absorbed s₀ c n q s.checker.engine.crcReg s.checker.byteCount) :
    s.pulses e = [reportOn s₀ c n q] := by
  have hheld : s.checker.expCrcHold = s₀.held := by
    rw [← hset.held, held, hset.expCrcWe, if_neg Bool.false_ne_true]
  rw [pulses, pulses_eq, if_pos ⟨hs, hset.softReset⟩, Crc32Engine.crcOut, h.reg, h.count, hheld]
  simp only [checkerIn, hset.mode, reportOn]

variable {c n : BitVec 32} {body q : List Payload} {w : Payload} {vs : List Verdict}

theorem absorbed_snoc {reg count : BitVec 32} (h : Absorbed s₀ c n q reg count) (x : Payload) :
    Absorbed s₀ c n (q ++ [x]) (absorb s₀.poly reg x.bytes)
      (count + BitVec.ofNat 32 x.bytes.length) := by
  constructor
  · rw [h.reg, absorb, absorb, absorb, List.flatMap_append, List.foldl_append]
    simp
  · rw [h.count, BitVec.add_assoc, ← BitVec.ofNat_add]
    simp

theorem packetInv_of_word {Open : CrcTop → List Payload → Prop} {x : Payload} {t : CrcTop}
    (hbody : ∀ y ∈ body, y.tlast = false) (hw : w.tlast = true)
    (hq : q ++ [x] <+: body ++ [w]) (hset : Settled s₀ t)
    (h : Absorbed s₀ c n (q ++ [x]) t.checker.engine.crcReg t.checker.byteCount)
    (hclosed : x.tlast = true → t.checker.state = .verify)
    (hopen : x.tlast = false → Open t (q ++ [x])) :
    PacketInv Open s₀ c n body w t (q ++ [x]) [] := by
  rcases List.prefix_concat_iff.mp hq with heq | hpre
  · have hx : x = w := by simpa using (List.append_inj' heq rfl).2
    exact .closed (hclosed (by rw [hx, hw])) hset h heq rfl
  · have hmem : x ∈ body := hpre.subset (by simp)
    exact .opened (hopen (hbody x hmem)) hpre rfl

section Course

variable (Open : CrcTop → List Payload → Prop) {ok : CrcTop → CrcTopIn → Prop}
  (feed : CrcTop → CrcTopIn → List Payload)

theorem packetInv_step (hsteady : Steady s e)
    (hnone : feed s e = [] → s.checker.streamFire (s.checkerIn e) = false ∧
      s.slave.manualDataValid = false)
    (hopen : Open s q → q <+: body → q ++ feed s e <+: body ++ [w] →
      PacketInv Open s₀ c n body w (s.step e) (q ++ feed s e) [] ∧ s.checker.state ≠ .verify)
    (hq : q ++ feed s e <+: body ++ [w]) (h : PacketInv Open s₀ c n body w s q vs) :
    PacketInv Open s₀ c n body w (s.step e) (q ++ feed s e) (vs ++ s.pulses e) := by
  -- behind the last word no word follows
  have hfull : q = body ++ [w] → feed s e = [] := by
    intro heq
    have hlen := hq.length_le
    rw [heq, List.length_append] at hlen
    exact List.length_eq_zero_iff.mp (by omega)
  cases h with
  | opened ho hpre hvs =>
    obtain ⟨hnext, hs⟩ := hopen ho hpre hq
    rw [hvs, pulses_of_ne_verify hs]
    exact hnext
  | closed hs hset habs heq hvs =>
    rw [hvs, pulses_of_verify hs hset habs, hfull heq, List.append_nil]
    exact .reported (state_clock_of_verify hs) (settled_step hset.toConfigured hsteady) heq rfl
  | reported hs hset heq hvs =>
    obtain ⟨hfire, hman⟩ := hnone (hfull heq)
    rw [hvs, pulses_of_ne_verify (by rw [hs]; decide), hfull heq, List.append_nil, List.append_nil]
    exact .reported (clock_idle_of_no_word hs hfire hman).1 (settled_step hset.toConfigured hsteady)
      heq rfl

/-- **The report on a packet.** When all its words are taken, the next cycle at the latest has
reported it. -/
theorem pulses_of_course (hstart : Open s₀ [])
    (hstep : ∀ s e q vs, ok s e → q ++ feed s e <+: body ++ [w] →
      PacketInv Open s₀ c n body w s q vs →
      PacketInv Open s₀ c n body w (s.step e) (q ++ feed s e) (vs ++ s.pulses e))
    {es : List CrcTopIn} (hes : Along step ok s₀ es)
    (hlog : log step feed s₀ es = body ++ [w]) (e : CrcTopIn) :
    log step pulses s₀ (es ++ [e]) = [reportOn s₀ c n (body ++ [w])] := by
  have hinv : log step feed s₀ es <+: body ++ [w] →
      PacketInv Open s₀ c n body w (run step s₀ es) (log step feed s₀ es)
        (log step pulses s₀ es) := by
    refine Along.snocInduction (P := fun es => log step feed s₀ es <+: body ++ [w] →
      PacketInv Open s₀ c n body w (run step s₀ es) (log step feed s₀ es)
        (log step pulses s₀ es)) ?_ ?_ es hes
    · exact fun _ => .opened hstart (List.nil_prefix) rfl
    · intro es e _ ih he hpre
      simp only [log_snoc, run_snoc] at hpre ⊢
      exact hstep _ e _ _ he hpre (ih ((List.prefix_append _ _).trans hpre))
  rw [log_snoc]
  have h := hinv (by rw [hlog])
  rw [hlog] at h
  cases h with
  | opened _ hpre _ =>
    have hlen := hpre.length_le
    rw [List.length_append, List.length_singleton] at hlen
    omega
  | closed hs hset habs _ hvs =>
    rw [hvs, pulses_of_verify hs hset habs, List.nil_append]
  | reported hs _ _ hvs =>
    rw [hvs, pulses_of_ne_verify (by rw [hs]; decide), List.append_nil]

end Course

/-! ## The two ways in -/

/-- An open manual packet: the checker is idle, and absorbs from where it was. -/
structure ManualOpen (s₀ : CrcTop) (s : CrcTop) (q : List Payload) : Prop where
  idle : s.checker.state = .idle
  config : Configured s₀ s
  word : s.slave.manualDataValid = true → Settled s₀ s
  absorbed : Absorbed s₀ s₀.startReg s₀.startCount q s.startReg s.startCount

/-- An open stream packet: seeded with its first word. -/
structure StreamOpen (s₀ : CrcTop) (s : CrcTop) (q : List Payload) : Prop where
  config : Configured s₀ s
  idle : q = [] → s.checker.state = .idle
  stream : q ≠ [] → s.checker.state = .stream ∧ Settled s₀ s ∧
    Absorbed s₀ s₀.seed 0 q s.checker.engine.crcReg s.checker.byteCount

/-- The word on the manual port. -/
def manualWord (s : CrcTop) : Payload :=
  ⟨s.slave.manualDataLast, s.slave.manualDataBe, s.slave.manualDataIn⟩

theorem manualWords_of_valid (h : s.slave.manualDataValid = true) :
    s.manualWords = [s.manualWord] := by
  rw [manualWords, if_pos h, manualWord]

theorem manualWords_of_not_valid (h : s.slave.manualDataValid = false) : s.manualWords = [] := by
  rw [manualWords, h, if_neg Bool.false_ne_true]

theorem startReg_of_settled (h : Settled s₀ s) : s.startReg = s.checker.engine.crcReg := by
  rw [startReg, h.softReset, if_neg Bool.false_ne_true]

theorem startCount_of_settled (h : Settled s₀ s) : s.startCount = s.checker.byteCount := by
  rw [startCount, h.softReset, if_neg Bool.false_ne_true]

theorem not_streamFire_of_injecting (he : Injecting s e) :
    s.checker.streamFire (s.checkerIn e) = false := by
  simp [streamFire, checkerIn, he.2]

theorem ManualOpen.next (hbody : ∀ y ∈ body, y.tlast = false) (hw : w.tlast = true)
    (h : ManualOpen s₀ s q) (he : Injecting s e) (hpre : q <+: body)
    (hq : q ++ s.manualWords <+: body ++ [w]) :
    PacketInv (ManualOpen s₀) s₀ s₀.startReg s₀.startCount body w (s.step e)
      (q ++ s.manualWords) [] := by
  have hfire := not_streamFire_of_injecting he
  have hset : Settled s₀ (s.step e) := settled_step h.config he.1
  cases hman : s.slave.manualDataValid with
  | false =>
    obtain ⟨hstate, hreg, hcount⟩ := clock_idle_of_no_word h.idle hfire hman
    rw [manualWords_of_not_valid hman, List.append_nil]
    refine .opened ⟨hstate, hset.toConfigured, fun _ => hset, ?_⟩ hpre rfl
    rw [startReg_of_settled hset, startCount_of_settled hset]
    exact ⟨hreg.trans h.absorbed.reg, hcount.trans h.absorbed.count⟩
  | true =>
    have hnow : Settled s₀ s := h.word hman
    obtain ⟨hstate, hreg, hcount⟩ :=
      clock_idle_of_manual h.idle hnow.enable hnow.softReset hfire hman
    rw [manualWords_of_valid hman] at hq ⊢
    have habs : Absorbed s₀ s₀.startReg s₀.startCount (q ++ [s.manualWord])
        (s.step e).checker.engine.crcReg (s.step e).checker.byteCount := by
      have hsnoc := absorbed_snoc h.absorbed s.manualWord
      rw [startReg_of_settled hnow, startCount_of_settled hnow, ← hnow.poly] at hsnoc
      exact ⟨hreg.trans hsnoc.reg, hcount.trans hsnoc.count⟩
    refine packetInv_of_word hbody hw hq hset habs ?_ ?_
    · intro hlast
      exact hstate.trans (if_pos hlast)
    · intro hlast
      refine ⟨?_, hset.toConfigured, fun _ => hset, ?_⟩
      · rw [show (s.step e).checker.state = _ from hstate]
        exact if_neg (by rw [show (s.checkerIn e).manualDataLast = false from hlast]; decide)
      · rw [startReg_of_settled hset, startCount_of_settled hset]
        exact habs

theorem streamWords_of_fire (h : s.checker.streamFire (s.checkerIn e) = true) :
    s.streamWords e = [e.sAxis] := by
  rw [streamWords, CrcChecker.streamWords, if_pos h]
  rfl

theorem streamWords_of_not_fire (h : s.checker.streamFire (s.checkerIn e) = false) :
    s.streamWords e = [] := by
  rw [streamWords, CrcChecker.streamWords, h, if_neg Bool.false_ne_true]

theorem softReset_of_streaming (he : Streaming s e)
    (hfire : s.checker.streamFire (s.checkerIn e) = true) : s.slave.ctrlSoftReset = false := by
  cases hreset : s.slave.ctrlSoftReset with
  | false => rfl
  | true => simp [streamFire, checkerIn, he.2.2 hreset] at hfire

theorem StreamOpen.absorbed (h : StreamOpen s₀ s q) : Absorbed s₀ s₀.seed 0 q
    (if s.checker.state = .idle then s.seed else s.checker.engine.crcReg)
    (if s.checker.state = .idle then 0 else s.checker.byteCount) := by
  by_cases hq : q = []
  · rw [if_pos (h.idle hq), if_pos (h.idle hq), hq]
    exact ⟨h.config.seed, rfl⟩
  · obtain ⟨hs, -, habs⟩ := h.stream hq
    rw [if_neg (by rw [hs]; decide), if_neg (by rw [hs]; decide)]
    exact habs

theorem StreamOpen.ne_verify (h : StreamOpen s₀ s q) : s.checker.state ≠ .verify := by
  by_cases hq : q = []
  · rw [h.idle hq]
    decide
  · rw [(h.stream hq).1]
    decide

theorem StreamOpen.next (hbody : ∀ y ∈ body, y.tlast = false) (hw : w.tlast = true)
    (h : StreamOpen s₀ s q) (he : Streaming s e) (hpre : q <+: body)
    (hq : q ++ s.streamWords e <+: body ++ [w]) :
    PacketInv (StreamOpen s₀) s₀ s₀.seed 0 body w (s.step e) (q ++ s.streamWords e) [] := by
  have hset : Settled s₀ (s.step e) := settled_step h.config he.1
  cases hfire : s.checker.streamFire (s.checkerIn e) with
  | false =>
    rw [streamWords_of_not_fire hfire, List.append_nil]
    refine .opened ⟨hset.toConfigured, ?_, ?_⟩ hpre rfl
    · intro hnil
      exact (clock_idle_of_no_word (h.idle hnil) hfire he.2.1).1
    · intro hnil
      obtain ⟨hs, hnow, habs⟩ := h.stream hnil
      obtain ⟨hstate, hcount, hreg, -⟩ :=
        clock_of_not_fire hnow.softReset he.2.1 hfire h.ne_verify
      exact ⟨hstate.trans hs, hset, hreg.trans habs.reg, hcount.trans habs.count⟩
  | true =>
    have hreset := softReset_of_streaming he hfire
    obtain ⟨hstate, hcount, -⟩ := clock_of_fire hreset hfire
    have hreg := crcReg_of_fire hreset h.config.autoClear hfire
    rw [streamWords_of_fire hfire] at hq ⊢
    have habs : Absorbed s₀ s₀.seed 0 (q ++ [e.sAxis])
        (s.step e).checker.engine.crcReg (s.step e).checker.byteCount := by
      have hsnoc := absorbed_snoc h.absorbed e.sAxis
      rw [← h.config.poly] at hsnoc
      exact ⟨hreg.trans hsnoc.reg, hcount.trans hsnoc.count⟩
    refine packetInv_of_word hbody hw hq hset habs ?_ ?_
    · intro hlast
      exact hstate.trans (if_pos hlast)
    · intro hlast
      refine ⟨hset.toConfigured, fun hnil => absurd hnil (by simp), fun _ => ⟨?_, hset, habs⟩⟩
      exact hstate.trans (if_neg (by rw [show (s.checkerIn e).beat.last = _ from hlast]; decide))

/-! ## Agreement -/

/-- Two starts of the engine give the same register after the bytes iff the bytes shift their
difference out. -/
theorem absorb_eq_iff (p c d : BitVec 32) (bytes : List (BitVec 8)) :
    absorb p c bytes = absorb p d bytes ↔ coast p (8 * bytes.length) (c ^^^ d) = 0 := by
  have hc : c = d ^^^ (c ^^^ d) := by
    rw [BitVec.xor_comm c d, ← BitVec.xor_assoc, BitVec.xor_self, BitVec.zero_xor]
  have hdiff : absorb p c bytes = absorb p d bytes ^^^ coast p (8 * bytes.length) (c ^^^ d) := by
    rw [absorb, absorb, foldl_updateByte, foldl_updateByte]
    nth_rewrite 1 [hc]
    rw [foldl_lfsrStep_xor, length_messageBits]
  rw [hdiff]
  constructor
  · intro h
    have := congrArg (absorb p d bytes ^^^ ·) h
    simpa [← BitVec.xor_assoc] using this
  · intro h
    rw [h]
    exact BitVec.xor_zero

/-- The words as one packet, with `tlast` on the last of them. -/
def asPacket : List (BitVec 32 × BitVec 4) → List Payload
  | [] => []
  | [x] => [⟨true, x.2, x.1⟩]
  | x :: y :: xs => ⟨false, x.2, x.1⟩ :: asPacket (y :: xs)

theorem exists_asPacket : ∀ {xs : List (BitVec 32 × BitVec 4)}, xs ≠ [] →
    ∃ body w, asPacket xs = body ++ [w] ∧ (∀ y ∈ body, y.tlast = false) ∧ w.tlast = true
  | [x], _ => ⟨[], ⟨true, x.2, x.1⟩, rfl, by simp, rfl⟩
  | x :: y :: xs, _ => by
    obtain ⟨body, w, heq, hbody, hw⟩ := exists_asPacket (List.cons_ne_nil y xs)
    refine ⟨⟨false, x.2, x.1⟩ :: body, w, by rw [asPacket, heq]; rfl, ?_, hw⟩
    rintro z (_ | ⟨_, hz⟩)
    · rfl
    · exact hbody z hz

/-- **An injected packet is reported**, from what the engine and the count hold. -/
theorem log_pulses_manual (hidle : s.checker.state = .idle) (hen : s.slave.ctrlEnable = true)
    (hclear : s.slave.ctrlAutoClear = true) (hquiet : s.slave.manualDataValid = false)
    (hbody : ∀ y ∈ body, y.tlast = false) (hw : w.tlast = true) {es : List CrcTopIn}
    (hes : Along step Injecting s es)
    (hlog : log step (fun s _ => s.manualWords) s es = body ++ [w]) (e : CrcTopIn) :
    log step pulses s (es ++ [e]) = [reportOn s s.startReg s.startCount (body ++ [w])] := by
  refine pulses_of_course (ManualOpen s) _ ?_ ?_ hes hlog e
  · refine ⟨hidle, ⟨hen, hclear, rfl, rfl, rfl, rfl⟩, ?_, ?_⟩
    · intro hman
      rw [hquiet] at hman
      cases hman
    · constructor <;> simp [absorb]
  · intro t e q vs he hq h
    refine packetInv_step _ (fun s _ => s.manualWords) he.1 ?_ ?_ hq h
    · intro hnone
      refine ⟨not_streamFire_of_injecting he, ?_⟩
      by_contra hman
      rw [Bool.not_eq_false] at hman
      simp [manualWords_of_valid hman] at hnone
    · intro ho hpre hq
      exact ⟨ho.next hbody hw he hpre hq, by rw [ho.idle]; decide⟩

/-- **A stream packet is reported**, from the seed. -/
theorem log_pulses_stream (hidle : s.checker.state = .idle) (hen : s.slave.ctrlEnable = true)
    (hclear : s.slave.ctrlAutoClear = true) (hbody : ∀ y ∈ body, y.tlast = false)
    (hw : w.tlast = true) {es : List CrcTopIn} (hes : Along step Streaming s es)
    (hlog : log step streamWords s es = body ++ [w]) (e : CrcTopIn) :
    log step pulses s (es ++ [e]) = [reportOn s s.seed 0 (body ++ [w])] := by
  refine pulses_of_course (StreamOpen s) _ ?_ ?_ hes hlog e
  · exact ⟨⟨hen, hclear, rfl, rfl, rfl, rfl⟩, fun _ => hidle, fun h => absurd rfl h⟩
  · intro t e q vs he hq h
    refine packetInv_step _ streamWords he.1 ?_ ?_ hq h
    · intro hnone
      refine ⟨?_, he.2.1⟩
      by_contra hfire
      rw [Bool.not_eq_false] at hfire
      simp [streamWords_of_fire hfire] at hnone
    · intro ho hpre hq
      exact ⟨ho.next hbody hw he hpre hq, ho.ne_verify⟩

theorem reportOn_eq_iff (c d n m : BitVec 32) (q : List Payload) :
    reportOn s c n q = reportOn s d m q ↔
      n = m ∧ coast s.poly (8 * (q.flatMap Payload.bytes).length) (c ^^^ d) = 0 := by
  rw [← absorb_eq_iff]
  constructor
  · intro h
    have hcrc := congrArg Verdict.calcCrc h
    have hcount := congrArg Verdict.byteCount h
    simp only [reportOn, Verdict.report] at hcrc hcount
    exact ⟨(BitVec.add_left_inj _).mp hcount, (BitVec.xor_left_inj _).mp hcrc⟩
  · rintro ⟨rfl, h⟩
    rw [reportOn, reportOn, h]

/-- **Manual and stream port.** From an idle checker with `enable` and `auto_clear`, a packet gets
exactly one report both when it is injected and when it is streamed. The two reports are equal iff
the byte count starts at zero and the packet shifts the difference of the engine's register and the
seed out; if the polynomial has its highest bit, iff the engine holds the seed. -/
theorem manual_agrees_iff (s : CrcTop) (hidle : s.checker.state = .idle)
    (hen : s.slave.ctrlEnable = true) (hclear : s.slave.ctrlAutoClear = true)
    (xs : List (BitVec 32 × BitVec 4)) (hxs : xs ≠ []) (ms ss : List CrcTopIn)
    (hms : Along step Injecting s ms)
    (hmanual : log step (fun s _ => s.manualWords) s ms = asPacket xs)
    (hss : Along step Streaming s ss) (hstream : log step streamWords s ss = asPacket xs)
    (em es : CrcTopIn) :
    ∃ vm vs, log step pulses s (ms ++ [em]) = [vm] ∧ log step pulses s (ss ++ [es]) = [vs] ∧
      (vm = vs ↔ s.startCount = 0 ∧
        coast s.poly (8 * ((asPacket xs).flatMap Payload.bytes).length) (s.startReg ^^^ s.seed) = 0) ∧
      (s.poly.getMsbD 0 = true → (vm = vs ↔ s.startCount = 0 ∧ s.startReg = s.seed)) := by
  obtain ⟨body, w, hpacket, hbody, hw⟩ := exists_asPacket hxs
  rw [hpacket] at hmanual hstream ⊢
  -- the streamed run starts with nothing on the manual port
  have hquiet : s.slave.manualDataValid = false := by
    cases ss with
    | nil => simp at hstream
    | cons e ss => exact hss.1.2.1
  have hiff := reportOn_eq_iff (s := s) s.startReg s.seed s.startCount 0 (body ++ [w])
  refine ⟨_, _, log_pulses_manual hidle hen hclear hquiet hbody hw hms hmanual em,
    log_pulses_stream hidle hen hclear hbody hw hss hstream es, hiff, fun hpoly => ?_⟩
  rw [hiff]
  refine and_congr_right fun _ => ⟨fun h => ?_, fun h => ?_⟩
  · have hzero := coast_injective hpoly _ (h.trans (coast_zero_right _ _).symm)
    exact BitVec.xor_eq_zero_iff.mp hzero
  · rw [h, BitVec.xor_self]
    exact coast_zero_right _ _

end CrcTop

namespace CrcTopIn

/-- A cycle without a stream word. -/
def bus (i : AxiLiteIn) : CrcTopIn := ⟨i, false, .zero⟩

/-- A register write: raising the ready pulse, the handshake, and its response. -/
def busWrite (a : BitVec 6) (d : BitVec 32) : List CrcTopIn :=
  [.bus (.write a d), .bus (.write a d), .bus { AxiLiteIn.idle with bready := true }]

/-- The injection of one word, as the last one of its packet: `CRC_CTRL` and `CRC_MANUAL_DATA`. -/
def inject (d : BitVec 32) : List CrcTopIn := busWrite 0x00 0x91 ++ busWrite 0x1C d

/-- A stream word that is the last one of its packet. -/
def lastWord (d : BitVec 32) : CrcTopIn := ⟨.idle, true, ⟨true, 0b1111, d⟩⟩

end CrcTopIn

namespace CrcTop

/-- Out of reset the packet `"1234"` gets the same report on both ports. -/
theorem manual_agrees_reset :
    ∃ v, log step pulses reset (CrcTopIn.inject 0x34333231 ++ [.bus .idle]) = [v] ∧
      log step pulses reset ([.lastWord 0x34333231] ++ [.bus .idle]) = [v] := by
  obtain ⟨vm, vs, hm, hs, -, hiff⟩ := manual_agrees_iff reset rfl (by decide) (by decide)
    [(0x34333231, 0b1111)] (by decide) (CrcTopIn.inject 0x34333231) [.lastWord 0x34333231]
    (by decide +kernel) (by decide +kernel) (by decide +kernel) (by decide +kernel) (.bus .idle)
    (.bus .idle)
  have heq : vm = vs := (hiff (by decide)).mpr (by decide)
  exact ⟨vm, hm, by rw [heq]; exact hs⟩

/-- **After an earlier packet the ports disagree.** The word `"1234"` is streamed as a packet; then
the same word, injected, gets another CRC and another byte count than streamed again. -/
theorem manual_after_packet :
    let s := run step reset [.lastWord 0x34333231, .bus .idle]
    s.checker.state = .idle ∧ s.slave.ctrlEnable = true ∧ s.slave.ctrlAutoClear = true ∧
      Along step Injecting s (CrcTopIn.inject 0x34333231) ∧
      log step (fun s _ => s.manualWords) s (CrcTopIn.inject 0x34333231) =
        asPacket [(0x34333231, 0b1111)] ∧
      Along step Streaming s [.lastWord 0x34333231] ∧
      log step streamWords s [.lastWord 0x34333231] = asPacket [(0x34333231, 0b1111)] ∧
      (log step pulses s (CrcTopIn.inject 0x34333231 ++ [.bus .idle])).map
          (fun v => (v.calcCrc, v.byteCount)) = [(0x7F516C0B, 8)] ∧
      (log step pulses s ([.lastWord 0x34333231] ++ [.bus .idle])).map
          (fun v => (v.calcCrc, v.byteCount)) = [(0x9BE3E0A3, 4)] := by
  decide +kernel

end CrcTop

end PacketBuffering
