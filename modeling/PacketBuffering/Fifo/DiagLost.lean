import PacketBuffering.Fifo.Occupancy
import PacketBuffering.Fifo.Overflow
import PacketBuffering.Lib.Edges

/-!
# Overflows between the diagnostic registers

With one clock an overflow goes from `wr_overflow` into the sticky flag of the core, through the two
registers of the synchroniser, and a rising edge there sets bit 2 of `DIAG_STATUS`. A clear of any
write diagnostic clears the sticky flag; bit 2 itself is cleared earlier, by its own write.

* `Synchronous`: a cycle of the common clock.
* `Guarded`: neither a soft reset nor a clear of bit 2 is on.
* `diagBit_run`: bit 2 after a run, by the edges on their way and the sticky flag during the run.
* `Caught`: the overflow of this cycle leaves an edge, or bit 2 is set already.
* **`overflow_reported_iff`**: an overflow is reported in time iff it is caught, or one of the next
  four cycles is.
* `overflow_lost`: an overflow in the cycle in which the clear of another flag arrives.
-/

namespace PacketBuffering

variable {P : FifoParams}

namespace PacketFifo

/-- A cycle of the common clock; the synchronisers take what their sources held before it. -/
structure Synchronous (e : FifoEvent P) : Prop where
  clock : OneClock e
  rd2wrPick : e.rd2wrPick = 0
  wr2rdPick : e.wr2rdPick = 0
  clrPick : e.clrPick = false
  diagPick : e.diagPick = 0

/-- No write to `DIAG_STATUS` with data bit 2 executes in the cycle. -/
def KeepsOverflow (s : PacketFifo P) (e : FifoEvent P) : Prop :=
  s.slave.writesTo e.axi FifoReg.diagStatus = true → e.axi.wdata.getLsbD 2 = false

instance (e : FifoEvent P) : Decidable (Synchronous e) :=
  decidable_of_iff (_ ∧ _ ∧ _ ∧ _ ∧ _)
    ⟨fun ⟨h₁, h₂, h₃, h₄, h₅⟩ => ⟨h₁, h₂, h₃, h₄, h₅⟩,
      fun ⟨h₁, h₂, h₃, h₄, h₅⟩ => ⟨h₁, h₂, h₃, h₄, h₅⟩⟩

instance (s : PacketFifo P) (e : FifoEvent P) : Decidable (KeepsOverflow s e) :=
  inferInstanceAs (Decidable (_ → _))

/-- A cycle of a run without reset in which bit 2 of `DIAG_STATUS` is not cleared. -/
structure Watching (s : PacketFifo P) (e : FifoEvent P) : Prop where
  clock : Synchronous e
  softReset : NoSoftReset s e
  keeps : KeepsOverflow s e

instance (s : PacketFifo P) (e : FifoEvent P) : Decidable (Watching s e) :=
  decidable_of_iff (_ ∧ _ ∧ _) ⟨fun ⟨h₁, h₂, h₃⟩ => ⟨h₁, h₂, h₃⟩, fun ⟨h₁, h₂, h₃⟩ => ⟨h₁, h₂, h₃⟩⟩

/-- Neither a soft reset nor a clear of bit 2 is on. -/
structure Guarded (s : PacketFifo P) : Prop where
  softReset : s.ctrlSoftReset = false
  diagClear : s.slave.diagClear.getLsbD 2 = false

/-- Bit 2 of `DIAG_STATUS`. -/
def diagBit (s : PacketFifo P) : Bool := s.slave.diagLatched.getLsbD 2

/-- The overflow bit of the edge detector and of the two synchroniser registers, oldest first. -/
def diagLine (s : PacketFifo P) : List Bool :=
  [s.slave.diagD.getLsbD 2, s.wrDiagSync2.getLsbD 1, s.wrDiagSync1.getLsbD 1]

/-- The sticky overflow flag of the core. -/
def overflowSticky (s : PacketFifo P) : Bool := s.core.wrDiag.stickyReg

/-- The core's `wr_overflow`. -/
def wrOverflow (s : PacketFifo P) : Bool := s.core.wr.wrOverflowReg

variable {s : PacketFifo P} {e : FifoEvent P}

/-! ## One cycle -/

theorem guarded_step (hreset : s.ctrlSoftReset = false) (he : Watching s e) : Guarded (s.step e) := by
  refine ⟨(he.softReset.noReset hreset).2, ?_⟩
  have hclk : e.aclk = true := he.clock.clock.2
  simp only [PacketFifo.step, slaveNext, hclk, if_true, FifoSlave.clock]
  split_ifs with hw
  · rw [BitVec.getLsbD_extractLsb', Nat.zero_add, he.keeps hw, Bool.and_false]
  · exact BitVec.getLsbD_zero

theorem Guarded.step (h : Guarded s) (he : Watching s e) : Guarded (s.step e) :=
  guarded_step h.softReset he

theorem overflowSticky_step (h : Guarded s) (he : Watching s e) : (s.step e).overflowSticky =
    (!s.wrDiagClearSync && (s.overflowSticky || s.wrOverflow)) := by
  have hno := he.softReset.noReset h.softReset
  unfold overflowSticky wrOverflow
  rw [hno.core_step]
  simp only [AsyncFifo.step, AsyncFifo.wrDiagNext, coreEvent, h.softReset, he.clock.clock.1,
    DomainDiag.clock]
  cases s.wrDiagClearSync <;> rfl

theorem diagLine_step (he : Watching s e) :
    (s.step e).diagLine = s.diagLine.tail ++ [s.overflowSticky] := by
  have hclk : e.aclk = true := he.clock.clock.2
  have hd : (s.step e).slave.diagD.getLsbD 2 = s.wrDiagSync2.getLsbD 1 := by
    rw [← getLsbD_status_diag]
    simp [PacketFifo.step, slaveNext, hclk, FifoSlave.clock]
  have h2 : (s.step e).wrDiagSync2 = s.wrDiagSync1 := by simp [PacketFifo.step, hclk]
  have h1 : (s.step e).wrDiagSync1.getLsbD 1 = s.overflowSticky := by
    simp only [PacketFifo.step, hclk, if_true]
    rw [getLsbD_mix, he.clock.diagPick, if_neg (by decide), getLsbD_wrDiagWord]
    rfl
  simp only [diagLine, hd, h2, h1, List.tail_cons, List.cons_append, List.nil_append]

theorem diagBit_step (h : Guarded s) (he : Watching s e) :
    (s.step e).diagBit = (s.diagBit || rises (s.diagLine.take 2)) := by
  have hclk : e.aclk = true := he.clock.clock.2
  simp only [diagBit, PacketFifo.step, slaveNext, hclk, if_true, FifoSlave.clock,
    BitVec.getLsbD_and, BitVec.getLsbD_or, BitVec.getLsbD_not, h.diagClear, getLsbD_status_diag]
  simp [diagLine, rises, Bool.and_comm]

/-! ## Runs -/

/-- **Bit 2 after a run** is set iff it was, or an edge of the sticky flag has come through. -/
theorem diagBit_run (h : Guarded s) {es : List (FifoEvent P)} (hes : Along step Watching s es) :
    (run step s es).diagBit = (s.diagBit ||
      rises ((s.diagLine ++ log step (fun s _ => [s.overflowSticky]) s es).take (es.length + 1))) :=
  hes.latch_eq Guarded (fun _ _ hs he => hs.step he) (fun _ => by simp [diagLine])
    (fun _ _ _ he => diagLine_step he) (fun _ _ hs he => diagBit_step hs he) h

/-- **The overflow of this cycle is caught**: bit 2 is set already, or there is a rising edge on its
way, the one that the overflow makes included. The overflow makes one unless the clear of the write
diagnostics arrives in this cycle or the flag was set all the way. -/
def Caught (s : PacketFifo P) : Prop :=
  s.diagBit = true ∨
    rises (s.diagLine ++ [s.overflowSticky, !s.wrDiagClearSync]) = true

instance (s : PacketFifo P) : Decidable (Caught s) := inferInstanceAs (Decidable (_ ∨ _))

theorem exists_caught_of_rises (h : Guarded s) {es : List (FifoEvent P)}
    (hes : Along step Watching s es)
    (hr : rises (log step (fun s _ => [s.overflowSticky]) s es) = true) :
    ∃ es', es' <+: es ∧ es'.length + 2 ≤ es.length ∧
      (run step s es').wrOverflow = true ∧ Caught (run step s es') := by
  induction es generalizing s with
  | nil => cases hr
  | cons e es ih =>
    cases es with
    | nil => cases hr
    | cons e' es =>
      rw [log_cons, log_cons, List.singleton_append, List.singleton_append, rises_cons_cons,
        Bool.or_eq_true] at hr
      rcases hr with hnow | hlater
      · rw [overflowSticky_step h hes.1] at hnow
        simp only [Bool.and_eq_true, Bool.or_eq_true, Bool.not_eq_true'] at hnow
        obtain ⟨hlow, hclear, hov⟩ := hnow
        refine ⟨[], List.nil_prefix, by simp, ?_, ?_⟩
        · simpa [hlow] using hov
        · refine .inr ?_
          rw [run_nil, hlow, hclear, Bool.not_false]
          exact rises_append_edge _
      · obtain ⟨es', hp, hlen, hov, hc⟩ := ih (h.step hes.1) hes.2 hlater
        refine ⟨e :: es', List.cons_prefix_cons.mpr ⟨rfl, hp⟩, ?_, hov, hc⟩
        simp only [List.length_cons] at hlen ⊢
        omega

theorem overflowSticky_of_overflow (h : Guarded s) (he : Watching s e) (hov : s.wrOverflow = true) :
    (s.step e).overflowSticky = !s.wrDiagClearSync := by
  rw [overflowSticky_step h he, hov, Bool.or_true, Bool.and_true]

theorem diagBit_of_caught (h : Guarded s) (hov : s.wrOverflow = true) (hc : Caught s)
    {es : List (FifoEvent P)} (hes : Along step Watching s es) (hlen : 4 ≤ es.length) :
    (run step s es).diagBit = true := by
  rw [diagBit_run h hes, Bool.or_eq_true]
  refine hc.imp_right fun hrise => rises_of_isPrefix ?_ hrise
  obtain ⟨e₁, e₂, es, rfl⟩ : ∃ e₁ e₂ fs, es = e₁ :: e₂ :: fs := by
    match es, hlen with
    | e₁ :: e₂ :: fs, _ => exact ⟨e₁, e₂, fs, rfl⟩
  rw [log_cons, log_cons, overflowSticky_of_overflow h hes.1 hov]
  simp only [List.singleton_append, List.length_cons] at hlen ⊢
  rw [List.prefix_take_iff]
  refine ⟨⟨_, by simp; rfl⟩, ?_⟩
  simp [diagLine]
  omega

/-- Bit 2 in the eighth cycle shows a caught overflow of this cycle or of one of the next four. -/
theorem exists_caught_of_diagBit (h : Guarded s) (hov : s.wrOverflow = true)
    {es : List (FifoEvent P)} (hes : Along step Watching s es) (hlen : es.length = 8)
    (hbit : (run step s es).diagBit = true) :
    ∃ es', es' <+: es ∧ es'.length ≤ 4 ∧ (run step s es').wrOverflow = true ∧
      Caught (run step s es') := by
  by_cases hc : Caught s
  · exact ⟨[], List.nil_prefix, Nat.zero_le _, hov, hc⟩
  obtain ⟨hlow, hline⟩ := not_or.mp hc
  -- the flag of the first six cycles is what has come through
  obtain ⟨e₁, fs, gs, rfl, hfs⟩ : ∃ e₁ fs gs, es = e₁ :: fs ++ gs ∧ (e₁ :: fs).length = 6 := by
    match es, hlen with
    | e₁ :: es, hlen => exact ⟨e₁, es.take 5, es.drop 5, by simp, by simp at hlen ⊢; omega⟩
  have hpast : (s.diagLine ++ log step (fun s _ => [s.overflowSticky]) s (e₁ :: fs)).length = 9 := by
    rw [List.length_append, length_log_signal, hfs]
    rfl
  rw [diagBit_run h hes, Bool.eq_false_of_not_eq_true hlow, Bool.false_or, hlen, log_append,
    ← List.append_assoc, List.take_left' hpast] at hbit
  have hrise : rises (log step (fun s _ => [s.overflowSticky]) s (e₁ :: fs)) = true := by
    rw [log_cons, List.singleton_append, rises_append_cons, Bool.or_eq_true] at hbit
    refine hbit.resolve_left fun hstart => hline (rises_of_isPrefix ?_ hstart)
    exact ⟨[!s.wrDiagClearSync], by simp⟩
  obtain ⟨es', hp, hle, hfound⟩ :=
    exists_caught_of_rises h (hes.of_isPrefix (List.prefix_append _ gs)) hrise
  exact ⟨es', hp.trans (List.prefix_append _ gs), by omega, hfound⟩

/-- **When an overflow is reported.** In every run from reset with `wr_clk = aclk` and without soft
reset, for every cycle `t` (behind the events `es₀` and `e`) with `wr_overflow = 1` such that no write
of `DIAG_STATUS` with data bit 2 executes in cycle `t - 1` (the event `e`) or later: bit 2 of
`DIAG_STATUS` is 1 in every cycle from `t + 8` on iff one of the overflows of the cycles `t` to `t + 4`
is caught. -/
theorem overflow_reported_iff (mem : BitVec P.addrWidth → Payload) (x : Payload)
    (es₀ es : List (FifoEvent P)) (e : FifoEvent P)
    (hbefore : Along step (fun s e => Synchronous e ∧ NoSoftReset s e) (PacketFifo.reset mem x) es₀)
    (hwatch : Along step Watching (run step (PacketFifo.reset mem x) es₀) (e :: es))
    (hov : (run step (PacketFifo.reset mem x) (es₀ ++ [e])).wrOverflow = true) :
    let s := run step (PacketFifo.reset mem x) (es₀ ++ [e])
    (∀ es', es' <+: es → 8 ≤ es'.length → (run step s es').diagBit = true) ↔
      (8 ≤ es.length → ∃ es', es' <+: es ∧ es'.length ≤ 4 ∧ (run step s es').wrOverflow = true ∧
        Caught (run step s es')) := by
  intro s
  have hreset : (run step (PacketFifo.reset mem x) es₀).ctrlSoftReset = false :=
    hbefore.invariant (fun s => s.ctrlSoftReset = false)
      (fun _ _ hs he => (he.2.noReset hs).2) rfl
  have hs : s = (run step (PacketFifo.reset mem x) es₀).step e := by
    simp only [s, run_snoc]
  have hguard : Guarded s := by
    rw [hs]
    exact guarded_step hreset hwatch.1
  have hafter : Along step Watching s es := by
    rw [hs]
    exact hwatch.2
  constructor
  · intro hall hlen
    have hpre := List.take_prefix 8 es
    have hlen' : (es.take 8).length = 8 := by simp [hlen]
    obtain ⟨es', hp, hc⟩ := exists_caught_of_diagBit hguard hov (hafter.of_isPrefix hpre) hlen'
      (hall _ hpre hlen'.ge)
    exact ⟨es', hp.trans hpre, hc⟩
  · intro hex es'' hp'' hlen
    obtain ⟨es', hp, hle, hov', hc⟩ := hex (hlen.trans hp''.length_le)
    obtain ⟨fs, rfl⟩ := List.prefix_of_prefix_length_le hp hp'' (by omega)
    obtain ⟨hfirst, hrest⟩ := (along_append _ _ _).mp (hafter.of_isPrefix hp'')
    rw [run_append]
    refine diagBit_of_caught ?_ hov' hc hrest ?_
    · exact hfirst.invariant Guarded (fun _ _ hs he => hs.step he) hguard
    · rw [List.length_append] at hlen
      omega

/-- A cycle of the common clock with a register access, while a producer offers a word or not. -/
def busCycle (tvalid : Bool) (i : AxiLiteIn) : FifoEvent P :=
  { Leveled.cycle ⟨true, 0b1111, 0x2A⟩ tvalid false with axi := i }

/-- Four words fill the smallest FIFO, and the fifth one is refused once. -/
theorem overflow_reported_full :
    let s₀ : PacketFifo .smallest := PacketFifo.reset (fun _ => .zero) .zero
    (run step s₀ (List.replicate 5 (busCycle true .idle) ++
      List.replicate 8 (busCycle false .idle))).diagBit = true := by
  intro s₀
  have h := (overflow_reported_iff (fun _ => .zero) .zero (List.replicate 4 (busCycle true .idle))
    (List.replicate 8 (busCycle false .idle)) (busCycle (P := .smallest) true .idle)
    (by decide +kernel) (by decide +kernel) (by decide +kernel)).mpr
    (fun _ => ⟨[], List.nil_prefix, by decide, by decide +kernel, by decide +kernel⟩) _
    (List.prefix_refl _) (by simp)
  rwa [← run_append] at h

/-- **An overflow is lost.** Software clears the write Gray error, bit 0. Four cycles later the clear
arrives in the core, together with the overflow of a word that waits for one cycle at the full FIFO:
neither then nor in the twelve cycles behind it is bit 2 set. -/
theorem overflow_lost :
    let s₀ : PacketFifo .smallest := PacketFifo.reset (fun _ => .zero) .zero
    let clear : AxiLiteIn := .write FifoReg.diagStatus 0x1
    let es₀ : List (FifoEvent .smallest) := List.replicate 4 (busCycle true .idle) ++
      [busCycle false clear, busCycle false clear,
        busCycle false { AxiLiteIn.idle with bready := true }]
    let e : FifoEvent .smallest := busCycle true .idle
    let es : List (FifoEvent .smallest) := e :: List.replicate 11 (busCycle false .idle)
    let s := run step s₀ (es₀ ++ [e])
    Along step (fun s e => Synchronous e ∧ NoSoftReset s e ∧ KeepsOverflow s e) s₀ (es₀ ++ e :: es) ∧
      s.wrOverflow = true ∧ ∀ n ≤ 12, (run step s (es.take n)).diagBit = false := by
  decide +kernel

end PacketFifo

end PacketBuffering
