import PacketBuffering.Fifo.Stream

/-!
# Alarms of the FIFO diagnostics

`fifo_diag` compares each Gray pointer with the value it had at the last edge that was not a clear.
A clear that falls between two moves of the pointer makes the comparison span both.

* `Unalarmed`: no alarm, and the remembered pointer is at most one move behind;
  **`Unalarmed.clock`**: an edge keeps this, unless it is a clear with a second move.
* `ClearsApart`, `wrCalm_step`: on the write side this is a condition on the event.
* `RdSafe`, **`RdSafe.step`**: on the read side it is always met.
* **`diag_no_false_alarm`**: no alarm is raised along a run that meets the condition.
* `diag_false_alarm`: a run that does not.
-/

namespace PacketBuffering

variable {P : FifoParams}

/-! ## One domain -/

/-- No alarm is raised, and the remembered code is that of the pointer `b` or of the one before it.
Requests have met a standing pointer at most once since its last move. -/
structure Unalarmed (d : DomainDiag P) (b : P.Ptr) : Prop where
  grayError : d.grayErrorReg = false
  stuck : d.pointerStuckReg = false
  lag : (d.prevGray = gray b ∧ d.stuckCount = 0) ∨
    (∃ b', b = b' + 1#P.ptrWidth ∧ d.prevGray = gray b' ∧ (d.stuckCount = 0 ∨ d.stuckCount = 1))

namespace Unalarmed

variable {d : DomainDiag P} {b : P.Ptr}

theorem reset : Unalarmed (DomainDiag.reset P) 0 :=
  ⟨rfl, rfl, .inl ⟨by simp [DomainDiag.reset, gray], rfl⟩⟩

/-- The pointer after an edge. -/
abbrev moved (b : P.Ptr) (active : Bool) : P.Ptr :=
  b + if active then 1#P.ptrWidth else 0#P.ptrWidth

theorem clock_of_not_clear (h : Unalarmed d b) (fault active : Bool) :
    Unalarmed (d.clock false fault active (gray b)) (moved b active) := by
  obtain ⟨hprev, hcount⟩ | ⟨b', rfl, hprev, hcount⟩ := h.lag
  · -- the pointer stood: a request is counted, and moves it
    have hdiff : gray b ^^^ d.prevGray = 0#P.ptrWidth := by rw [hprev, BitVec.xor_self]
    refine ⟨?_, ?_, ?_⟩
    · simp [DomainDiag.clock, hdiff, h.grayError]
    · simp [DomainDiag.clock, hdiff, h.stuck, hcount, DomainDiag.stuckThreshold]
    · cases active with
      | false => exact .inl ⟨by simp [DomainDiag.clock, moved], by simp [DomainDiag.clock]⟩
      | true =>
        refine .inr ⟨b, rfl, by simp [DomainDiag.clock], .inr ?_⟩
        simp [DomainDiag.clock, hdiff, hcount, DomainDiag.stuckThreshold]
  · -- the pointer moved by one: the codes differ in one bit
    obtain ⟨hne, hone⟩ := gray_succ_xor (Nat.succ_pos P.addrWidth) b'
    refine ⟨?_, ?_, ?_⟩
    · simp [DomainDiag.clock, hprev, hone, h.grayError]
    · simp [DomainDiag.clock, hprev, hne, h.stuck]
    · cases active with
      | false => exact .inl ⟨by simp [DomainDiag.clock, moved], by simp [DomainDiag.clock]⟩
      | true =>
        refine .inr ⟨b' + 1#P.ptrWidth, rfl, by simp [DomainDiag.clock], .inl ?_⟩
        simp [DomainDiag.clock, hprev, hne]

theorem clock_of_clear (h : Unalarmed d b) (fault active : Bool)
    (hok : active = true → d.prevGray = gray b) :
    Unalarmed (d.clock true fault active (gray b)) (moved b active) := by
  refine ⟨rfl, rfl, ?_⟩
  cases active with
  | false => simpa [moved, DomainDiag.clock] using h.lag
  | true =>
    obtain ⟨hprev, hcount⟩ | ⟨b', rfl, hprev, -⟩ := h.lag
    · exact .inr ⟨b, rfl, hprev, .inl hcount⟩
    · have heq := hok rfl
      rw [hprev] at heq
      have hne := (gray_succ_xor (Nat.succ_pos P.addrWidth) b').1
      exact absurd (by rw [← heq, BitVec.xor_self]) hne

/-- **An edge keeps the invariant**, unless it is a clear with a second move of the pointer. -/
theorem clock (h : Unalarmed d b) (clear fault active : Bool)
    (hok : clear = true → active = true → d.prevGray = gray b) :
    Unalarmed (d.clock clear fault active (gray b)) (moved b active) := by
  cases clear with
  | false => exact h.clock_of_not_clear fault active
  | true => exact h.clock_of_clear fault active (hok rfl)

end Unalarmed

/-! ## The core -/

section Core

variable {α : Type*}

/-- The write side raises no alarm. -/
structure WrCalm (s : AsyncFifo P α) : Prop where
  code : s.wr.wrGrayPtrReg = gray s.wr.wrBinPtr
  unalarmed : Unalarmed s.wrDiag s.wr.wrBinPtr

/-- The read side raises no alarm. -/
structure RdCalm (s : AsyncFifo P α) : Prop where
  code : s.rd.rdGrayPtrReg = gray s.rd.rdBinPtr
  unalarmed : Unalarmed s.rdDiag s.rd.rdBinPtr

variable {s : AsyncFifo P α}

theorem gray_zero : gray (0 : P.Ptr) = 0 := by simp [gray]

theorem WrCalm.reset (mem : BitVec P.addrWidth → α) (x : α) : WrCalm (AsyncFifo.reset mem x) :=
  ⟨gray_zero.symm, Unalarmed.reset⟩

theorem RdCalm.reset (mem : BitVec P.addrWidth → α) (x : α) : RdCalm (AsyncFifo.reset mem x) :=
  ⟨gray_zero.symm, Unalarmed.reset⟩

theorem WrCalm.step (h : WrCalm s) (c : CoreEvent P α)
    (hok : s.pushes c = true → c.wrDiagClear = true → s.wrDiag.prevGray = s.wr.wrGrayPtrReg) :
    WrCalm (s.step c) := by
  have hd : (s.step c).wrDiag = s.wrDiagNext c := rfl
  have hwr : (s.step c).wr = s.wrNext c := rfl
  cases hrst : c.wrRstN with
  | false =>
    rw [AsyncFifo.wrDiagNext, hrst, Bool.not_false, if_pos rfl] at hd
    rw [AsyncFifo.wrNext, hrst, Bool.not_false, if_pos rfl] at hwr
    exact ⟨by rw [hwr]; exact gray_zero.symm, by rw [hd, hwr]; exact Unalarmed.reset⟩
  | true =>
    rw [AsyncFifo.wrDiagNext, hrst, Bool.not_true, if_neg Bool.false_ne_true] at hd
    rw [AsyncFifo.wrNext, hrst, Bool.not_true, if_neg Bool.false_ne_true] at hwr
    cases hclk : c.wrClk with
    | false =>
      rw [hclk, if_neg Bool.false_ne_true] at hd hwr
      exact ⟨by rw [hwr]; exact h.code, by rw [hd, hwr]; exact h.unalarmed⟩
    | true =>
      rw [hclk, if_pos rfl] at hd hwr
      have hnext := h.unalarmed.clock c.wrDiagClear s.wr.wrOverflowReg (s.wr.wrAllow c.wrEn) (by
        intro hclear hallow
        rw [← h.code]
        exact hok (by simp [AsyncFifo.pushes, hrst, hclk, hallow]) hclear)
      rw [← h.code] at hnext
      exact ⟨by rw [hwr]; rfl, by rw [hd, hwr]; exact hnext⟩

theorem RdCalm.step (h : RdCalm s) (c : CoreEvent P α)
    (hok : s.pops c = true → c.rdDiagClear = true → s.rdDiag.prevGray = s.rd.rdGrayPtrReg) :
    RdCalm (s.step c) := by
  have hd : (s.step c).rdDiag = s.rdDiagNext c := rfl
  have hrd : (s.step c).rd = s.rdNext c := rfl
  cases hrst : c.rdRstN with
  | false =>
    rw [AsyncFifo.rdDiagNext, hrst, Bool.not_false, if_pos rfl] at hd
    rw [AsyncFifo.rdNext, hrst, Bool.not_false, if_pos rfl] at hrd
    exact ⟨by rw [hrd]; exact gray_zero.symm, by rw [hd, hrd]; exact Unalarmed.reset⟩
  | true =>
    rw [AsyncFifo.rdDiagNext, hrst, Bool.not_true, if_neg Bool.false_ne_true] at hd
    rw [AsyncFifo.rdNext, hrst, Bool.not_true, if_neg Bool.false_ne_true] at hrd
    cases hclk : c.rdClk with
    | false =>
      rw [hclk, if_neg Bool.false_ne_true] at hd hrd
      exact ⟨by rw [hrd]; exact h.code, by rw [hd, hrd]; exact h.unalarmed⟩
    | true =>
      rw [hclk, if_pos rfl] at hd hrd
      have hnext := h.unalarmed.clock c.rdDiagClear s.rd.rdUnderflowReg (s.rd.rdAllow c.rdEn) (by
        intro hclear hallow
        rw [← h.code]
        exact hok (by simp [AsyncFifo.pops, hrst, hclk, hallow]) hclear)
      rw [← h.code] at hnext
      exact ⟨by rw [hrd]; rfl, by rw [hd, hrd]; exact hnext⟩

/-- Behind an edge without a clear the remembered code differs from the pointer's only if the edge
accepted a read. -/
theorem RdCalm.pops_of_lag (h : RdCalm s) {c : CoreEvent P α} (hrst : c.rdRstN = true)
    (hclk : c.rdClk = true) (hclear : c.rdDiagClear = false)
    (hlag : (s.step c).rdDiag.prevGray ≠ (s.step c).rd.rdGrayPtrReg) : s.pops c = true := by
  by_contra hpop
  have hallow : s.rd.rdAllow c.rdEn = false := by
    simpa [AsyncFifo.pops, hrst, hclk] using hpop
  refine hlag ?_
  simp [AsyncFifo.step, AsyncFifo.rdNext, AsyncFifo.rdDiagNext, hrst, hclk, hclear,
    DomainDiag.clock, RdDomain.clock, RdDomain.rdGrayNext, RdDomain.rdBinNext, hallow, h.code]

end Core

namespace PacketFifo

variable {s : PacketFifo P} {e : FifoEvent P}

/-! ## The write side -/

/-- A clear of the write diagnostics does not meet a write that follows another one since the last
edge without a clear. -/
def ClearsApart (s : PacketFifo P) (e : FifoEvent P) : Prop :=
  s.wrDiagClearSync = true → s.core.pushes (s.coreEvent e) = true →
    s.core.wrDiag.prevGray = s.core.wr.wrGrayPtrReg

instance (s : PacketFifo P) (e : FifoEvent P) : Decidable (ClearsApart s e) :=
  inferInstanceAs (Decidable (_ → _ → _))

/-- **Such an event raises no alarm on the write side**, also with a soft reset. -/
theorem wrCalm_step (h : WrCalm s.core) (he : ClearsApart s e) : WrCalm (s.step e).core := by
  show WrCalm (s.coreNext e)
  unfold coreNext
  split_ifs
  · exact WrCalm.reset _ _
  · exact h.step (s.coreEvent e) fun hpush hclear => he hclear hpush

/-! ## The read side -/

/-- A core whose remembered pointer is behind has not been reset: a reset domain remembers its
pointer. -/
theorem core_step_of_lag
    (hlag : (s.step e).core.rdDiag.prevGray ≠ (s.step e).core.rd.rdGrayPtrReg) :
    (s.step e).core = s.core.step (s.coreEvent e) ∧ s.ctrlSoftReset = false := by
  constructor
  · show s.coreNext e = _
    by_contra hne
    refine hlag ?_
    show (s.coreNext e).rdDiag.prevGray = (s.coreNext e).rd.rdGrayPtrReg
    unfold coreNext at hne ⊢
    split_ifs at hne ⊢
    · rfl
    · exact absurd rfl hne
  · by_contra hreset
    rw [Bool.not_eq_false] at hreset
    refine hlag ?_
    show (s.coreNext e).rdDiag.prevGray = (s.coreNext e).rd.rdGrayPtrReg
    unfold coreNext
    split_ifs
    · rfl
    · simp [AsyncFifo.step, AsyncFifo.rdDiagNext, AsyncFifo.rdNext, coreEvent, hreset,
        DomainDiag.reset, RdDomain.reset]

/-- **The invariant of the read side**: when a clear is up while the remembered pointer is behind,
the core is not read. -/
structure RdSafe (s : PacketFifo P) : Prop where
  calm : RdCalm s.core
  clear : s.slave.diagClear ≠ 0 → s.slave.writeInProgress = true
  read : s.slave.cpuRdEn = true → s.slave.rvalid = true
  blocked : s.slave.diagClear ≠ 0 → s.core.rdDiag.prevGray ≠ s.core.rd.rdGrayPtrReg →
    (s.rdState = .pending ∧ s.ctrlStreamEn = true) ∨
      (s.slave.cpuRdEn = false ∧ s.ctrlStreamEn = false)

namespace RdSafe

theorem reset (mem : BitVec P.addrWidth → Payload) (x : Payload) :
    RdSafe (PacketFifo.reset mem x) :=
  ⟨RdCalm.reset mem x, fun h => absurd rfl h, fun h => absurd h Bool.false_ne_true,
    fun h => absurd rfl h⟩

theorem not_pops (h : RdSafe s) (hclear : s.slave.diagClear ≠ 0)
    (hlag : s.core.rdDiag.prevGray ≠ s.core.rd.rdGrayPtrReg) :
    s.core.pops (s.coreEvent e) = false := by
  have hrd : s.fifoRdEn e = false := by
    rcases h.blocked hclear hlag with ⟨hstate, hen⟩ | ⟨hcpu, hen⟩
    · simp [fifoRdEn, fetch, cpuPop, hstate, hen]
    · simp [fifoRdEn, fetch, cpuPop, canIssue, hcpu, hen]
  simp [AsyncFifo.pops, coreEvent, RdDomain.rdAllow, hrd]

theorem calm_step (h : RdSafe s) : RdCalm (s.step e).core := by
  show RdCalm (s.coreNext e)
  unfold coreNext
  split_ifs
  · exact RdCalm.reset _ _
  · refine h.calm.step (s.coreEvent e) fun hpop hclear => ?_
    by_contra hlag
    rw [h.not_pops (by simpa [coreEvent] using hclear) hlag] at hpop
    cases hpop

theorem write_of_clear (hclk : e.aclk = true) (hclear : (s.step e).slave.diagClear ≠ 0) :
    s.slave.writeExec e.axi = true ∧ s.slave.writesTo e.axi FifoReg.ctrl = false := by
  have hw : s.slave.writesTo e.axi FifoReg.diagStatus = true := by
    by_contra hno
    refine hclear ?_
    simp [PacketFifo.step, slaveNext, hclk, FifoSlave.clock, hno]
  simp only [FifoSlave.writesTo, Bool.and_eq_true, beq_iff_eq] at hw
  refine ⟨hw.1, ?_⟩
  simp [FifoSlave.writesTo, hw.2, show FifoReg.diagStatus ≠ FifoReg.ctrl by decide]

/-- An accepted read leaves the core unread at the next edge, if no mode switch comes with it. -/
theorem blocked_of_pops (h : RdSafe s) (hclk : e.aclk = true)
    (hctrl : s.slave.writesTo e.axi FifoReg.ctrl = false)
    (hpop : s.core.pops (s.coreEvent e) = true) :
    ((s.step e).rdState = .pending ∧ (s.step e).ctrlStreamEn = true) ∨
      ((s.step e).slave.cpuRdEn = false ∧ (s.step e).ctrlStreamEn = false) := by
  have hen : (s.step e).ctrlStreamEn = s.ctrlStreamEn := by
    rw [ctrlStreamEn_step, hclk, hctrl]
    rfl
  have hreset : s.ctrlSoftReset = false := by
    simp only [AsyncFifo.pops, coreEvent, Bool.and_eq_true, Bool.not_eq_true'] at hpop
    exact hpop.1.1
  have hrd : s.fifoRdEn e = true := by
    simp only [AsyncFifo.pops, coreEvent, RdDomain.rdAllow, Bool.and_eq_true] at hpop
    exact hpop.2.1
  rw [fifoRdEn, Bool.or_eq_true] at hrd
  rw [hen]
  rcases hrd with hfetch | hcpu
  · left
    have hissue : s.canIssue = true := by
      simp only [fetch, Bool.or_eq_true, Bool.and_eq_true] at hfetch
      rcases hfetch with h | h
      · exact h.2
      · exact h.2
    refine ⟨?_, ?_⟩
    · simp only [fetch, Bool.or_eq_true, Bool.and_eq_true, beq_iff_eq] at hfetch
      rcases hfetch with ⟨hstate, -⟩ | ⟨⟨hstate, htake⟩, -⟩
      · simp [PacketFifo.step, hclk, hreset, rdStateNext, hstate, hissue]
      · simp [PacketFifo.step, hclk, hreset, rdStateNext, hstate, htake, hissue]
    · simp only [canIssue, Bool.and_eq_true] at hissue
      exact hissue.2
  · right
    simp only [cpuPop, Bool.and_eq_true, Bool.not_eq_true'] at hcpu
    refine ⟨?_, hcpu.2⟩
    rw [cpuRdEn_step, if_pos hclk, FifoSlave.readsFrom, FifoSlave.readExec, h.read hcpu.1.1]
    rfl

theorem blocked_step (h : RdSafe s) (hclear : (s.step e).slave.diagClear ≠ 0)
    (hlag : (s.step e).core.rdDiag.prevGray ≠ (s.step e).core.rd.rdGrayPtrReg) :
    ((s.step e).rdState = .pending ∧ (s.step e).ctrlStreamEn = true) ∨
      ((s.step e).slave.cpuRdEn = false ∧ (s.step e).ctrlStreamEn = false) := by
  have hstep := core_step_of_lag hlag
  cases hclk : e.aclk with
  | false =>
    have hslave : (s.step e).slave = s.slave := step_slave_of_not_aclk hclk
    have hstate : (s.step e).rdState = s.rdState := by simp [PacketFifo.step, hclk]
    have hen : (s.step e).ctrlStreamEn = s.ctrlStreamEn := by
      rw [ctrlStreamEn, hslave]
      rfl
    rw [hslave] at hclear ⊢
    rw [hstate, hen]
    refine h.blocked hclear ?_
    rw [hstep.1] at hlag
    simpa [AsyncFifo.step, AsyncFifo.rdDiagNext, AsyncFifo.rdNext, coreEvent, hclk, hstep.2]
      using hlag
  | true =>
    obtain ⟨hexec, hctrl⟩ := write_of_clear hclk hclear
    refine h.blocked_of_pops hclk hctrl ?_
    rw [hstep.1] at hlag
    refine h.calm.pops_of_lag (by simp [coreEvent, hstep.2]) hclk ?_ hlag
    -- a write executes only if no earlier one is in progress
    by_contra hnow
    have hwip := h.clear (by simpa [coreEvent] using hnow)
    simp [FifoSlave.writeExec, hwip] at hexec

/-- **Every event keeps the read side safe.** -/
theorem step (h : RdSafe s) : RdSafe (s.step e) where
  calm := h.calm_step
  clear := by
    intro hclear
    cases hclk : e.aclk with
    | false =>
      rw [step_slave_of_not_aclk hclk] at hclear ⊢
      exact h.clear hclear
    | true =>
      have hexec := (write_of_clear hclk hclear).1
      simp [PacketFifo.step, slaveNext, hclk, FifoSlave.clock, hexec]
  read := by
    intro hcpu
    cases hclk : e.aclk with
    | false =>
      rw [step_slave_of_not_aclk hclk] at hcpu ⊢
      exact h.read hcpu
    | true =>
      rw [cpuRdEn_step, if_pos hclk] at hcpu
      simp only [FifoSlave.readsFrom, FifoSlave.readExec, Bool.and_eq_true, Bool.not_eq_true'] at hcpu
      simp [PacketFifo.step, slaveNext, hclk, FifoSlave.clock, hcpu.1.1, hcpu.1.2]
  blocked := h.blocked_step

end RdSafe

/-! ## Runs -/

variable (mem : BitVec P.addrWidth → Payload) (x : Payload)

theorem wrCalm_of_clearsApart {es : List (FifoEvent P)}
    (h : Along step ClearsApart (PacketFifo.reset mem x) es) :
    WrCalm (run step (PacketFifo.reset mem x) es).core :=
  h.invariant (fun s => WrCalm s.core) (fun _ _ hs he => wrCalm_step hs he) (WrCalm.reset mem x)

theorem rdSafe_of_run (es : List (FifoEvent P)) : RdSafe (run step (PacketFifo.reset mem x) es) :=
  (along_true _ (PacketFifo.reset mem x) es).invariant RdSafe (fun _ _ hs _ => hs.step)
    (RdSafe.reset mem x)

/-- None of the four alarms of the clock crossing is raised. -/
structure NoAlarm (s : PacketFifo P) : Prop where
  wrGrayError : s.core.wrDiag.grayErrorReg = false
  rdGrayError : s.core.rdDiag.grayErrorReg = false
  wrPointerStuck : s.core.wrDiag.pointerStuckReg = false
  rdPointerStuck : s.core.rdDiag.pointerStuckReg = false

/-- **No false alarm.** In every run from reset, with any traffic and any timing of the clocks, in
which no clear of the write diagnostics meets the second write since the last edge without a clear,
no alarm is raised in any state. On the read side none is raised in any run. -/
theorem diag_no_false_alarm (es : List (FifoEvent P)) :
    (Along step ClearsApart (PacketFifo.reset mem x) es →
      ∀ es', es' <+: es → NoAlarm (run step (PacketFifo.reset mem x) es')) ∧
    (run step (PacketFifo.reset mem x) es).core.rdDiag.grayErrorReg = false ∧
    (run step (PacketFifo.reset mem x) es).core.rdDiag.pointerStuckReg = false := by
  refine ⟨?_, (rdSafe_of_run mem x es).calm.unalarmed.grayError,
    (rdSafe_of_run mem x es).calm.unalarmed.stuck⟩
  intro h es' hpre
  have hwr := (wrCalm_of_clearsApart mem x (h.of_isPrefix hpre)).unalarmed
  have hrd := (rdSafe_of_run mem x es').calm.unalarmed
  exact ⟨hwr.grayError, hrd.grayError, hwr.stuck, hrd.stuck⟩

/-- A write of `DIAG_STATUS`, with its handshake, and the first edges of `wr_clk` behind it. -/
def clearing : List (FifoEvent P) :=
  [.tick false (.write FifoReg.diagStatus 0x1), .tick false (.write FifoReg.diagStatus 0x1), .wrTick]

/-- A single write at the clear raises no alarm. -/
theorem diag_no_false_alarm_one_write :
    let s₀ : PacketFifo .smallest := PacketFifo.reset (fun _ => .zero) .zero
    let es : List (FifoEvent .smallest) := clearing ++ [.wrTick, .push .zero, .wrTick]
    NoAlarm (run step s₀ es) ∧ (run step s₀ (es.take 4)).wrDiagClearSync = true := by
  intro s₀ es
  exact ⟨(diag_no_false_alarm (fun _ => .zero) .zero es).1 (by decide +kernel) es
    (List.prefix_refl _), by decide +kernel⟩

/-- **A false alarm.** One write of `DIAG_STATUS` and two words on consecutive edges of `wr_clk`, of
which the second meets the clear. -/
theorem diag_false_alarm :
    let s₀ : PacketFifo .smallest := PacketFifo.reset (fun _ => .zero) .zero
    let es : List (FifoEvent .smallest) := clearing ++ [.push .zero, .push .zero, .wrTick]
    (run step s₀ es).core.wrDiag.grayErrorReg = true ∧
      log step fifoAccepts s₀ es = [.zero, .zero] := by
  decide +kernel

end PacketFifo

end PacketBuffering
