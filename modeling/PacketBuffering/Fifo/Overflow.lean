import PacketBuffering.Fifo.Stream

/-!
# Overflow reports of the packet FIFO

The write request of the stream is `s_axis_tvalid` without `s_axis_tready`. A word offered to a full
FIFO is therefore a write attempted while full, which is what `wr_overflow` reports, also when the
producer keeps the word until it is taken.

* `Refused`: such an event.
* `OverflowClear`, **`OverflowClear.step`**: no overflow flag is set or under way.
* **`overflow_iff_refused`**: the flags stay clear exactly along the runs without such an event; the
  FIFO loses no word in either case.
* `overflow_of_backpressure`: a producer that waits sets all the flags.
-/

namespace PacketBuffering

variable {P : FifoParams}

namespace PacketFifo

/-- A word is offered to the enabled FIFO while it is full. -/
def Refused (s : PacketFifo P) (e : FifoEvent P) : Prop :=
  e.wrClk = true ∧ s.streamWriteReq e = true ∧ s.wrFull = true

instance (s : PacketFifo P) (e : FifoEvent P) : Decidable (Refused s e) :=
  inferInstanceAs (Decidable (_ ∧ _ ∧ _))

/-- No data write of the CPU and no soft reset. -/
def StreamFed (s : PacketFifo P) (e : FifoEvent P) : Prop := NoPush s e ∧ NoSoftReset s e

instance (s : PacketFifo P) (e : FifoEvent P) : Decidable (StreamFed s e) :=
  inferInstanceAs (Decidable (_ ∧ _))

/-- The core's `wr_overflow`, `wr_overflow_sticky` and bit 2 of `DIAG_STATUS` are clear. -/
structure NoOverflow (s : PacketFifo P) : Prop where
  overflow : s.core.wr.wrOverflowReg = false
  sticky : s.core.wrDiag.stickyReg = false
  diagStatus : s.slave.diagLatched.getLsbD 2 = false

/-- **The invariant**: nor is a report on its way to `aclk`. -/
structure OverflowClear (s : PacketFifo P) : Prop extends NoOverflow s where
  sync1 : s.wrDiagSync1.getLsbD 1 = false
  sync2 : s.wrDiagSync2.getLsbD 1 = false

/-- Neither the CPU nor a reset takes part. -/
structure CpuSilent (s : PacketFifo P) : Prop where
  softReset : s.ctrlSoftReset = false
  cpuWrEn : s.slave.cpuWrEn = false

variable {s : PacketFifo P} {e : FifoEvent P}

theorem CpuSilent.step (h : CpuSilent s) (he : StreamFed s e) : CpuSilent (s.step e) :=
  ⟨(he.2.noReset h.softReset).2, cpuWrEn_of_noPush h.cpuWrEn he.1⟩

/-! ## One event -/

theorem wrOverflowReg_step (h : CpuSilent s) (he : StreamFed s e) :
    (s.step e).core.wr.wrOverflowReg =
      if e.wrClk then s.streamWriteReq e && s.wrFull else s.core.wr.wrOverflowReg := by
  have hno := he.2.noReset h.softReset
  have hreq : s.fifoWrEn e = s.streamWriteReq e := by
    rw [fifoWrEn, cpuWriteReq, h.cpuWrEn, Bool.false_and, Bool.or_false]
  rw [hno.core_step]
  simp only [AsyncFifo.step, AsyncFifo.wrNext, coreEvent, h.softReset, hreq]
  split_ifs <;> simp_all [WrDomain.clock, wrFull]

theorem stickyReg_step (h : CpuSilent s) (he : StreamFed s e) (hov : s.core.wr.wrOverflowReg = false)
    (hsticky : s.core.wrDiag.stickyReg = false) : (s.step e).core.wrDiag.stickyReg = false := by
  have hno := he.2.noReset h.softReset
  rw [hno.core_step]
  simp only [AsyncFifo.step, AsyncFifo.wrDiagNext, coreEvent, h.softReset, DomainDiag.clock, hov]
  split_ifs <;> simp_all

theorem getLsbD_wrDiagWord (c : AsyncFifo P Payload) :
    (wrDiagWord c).getLsbD 1 = c.wrDiag.stickyReg := BitVec.getLsbD_ofBoolListBE

theorem getLsbD_status_diag (s : PacketFifo P) :
    s.status.diag.getLsbD 2 = s.wrDiagSync2.getLsbD 1 := BitVec.getLsbD_ofBoolListBE

/-- **An event without a refused word** sets no flag. -/
theorem OverflowClear.step (h : OverflowClear s) (hq : CpuSilent s) (he : StreamFed s e)
    (hok : ¬ Refused s e) : OverflowClear (s.step e) := by
  have hsticky := stickyReg_step hq he h.overflow h.sticky
  have hdiag : s.status.diag.getLsbD 2 = false := (getLsbD_status_diag s).trans h.sync2
  refine ⟨⟨?_, hsticky, diagLatched_step s e h.diagStatus hdiag⟩, ?_, ?_⟩
  · rw [wrOverflowReg_step hq he]
    split_ifs with hclk
    · by_contra hset
      rw [Bool.not_eq_false, Bool.and_eq_true] at hset
      exact hok ⟨hclk, hset⟩
    · exact h.overflow
  · show (if e.aclk then _ else s.wrDiagSync1).getLsbD 1 = false
    split_ifs
    · rw [getLsbD_mix, getLsbD_wrDiagWord, getLsbD_wrDiagWord, h.sticky]
      rw [show (s.coreNext e).wrDiag.stickyReg = false from hsticky, ite_self]
    · exact h.sync1
  · show (if e.aclk then s.wrDiagSync1 else s.wrDiagSync2).getLsbD 1 = false
    split_ifs
    · exact h.sync1
    · exact h.sync2

/-! ## Runs -/

variable (mem : BitVec P.addrWidth → Payload) (x : Payload) {es : List (FifoEvent P)}

theorem CpuSilent.reset : CpuSilent (PacketFifo.reset mem x) := ⟨rfl, rfl⟩

theorem OverflowClear.reset : OverflowClear (PacketFifo.reset mem x) :=
  ⟨⟨rfl, rfl, BitVec.getLsbD_zero⟩, BitVec.getLsbD_zero, BitVec.getLsbD_zero⟩

theorem overflowClear_of_not_refused (hfed : Along step StreamFed (PacketFifo.reset mem x) es)
    (hok : Along step (fun s e => ¬ Refused s e) (PacketFifo.reset mem x) es) :
    OverflowClear (run step (PacketFifo.reset mem x) es) :=
  ((hfed.and hok).invariant (fun s => CpuSilent s ∧ OverflowClear s)
    (fun _ _ hs he => ⟨hs.1.step he.1, hs.2.step hs.1 he.1 he.2⟩)
    ⟨CpuSilent.reset mem x, OverflowClear.reset mem x⟩).2

/-- **Overflow reports.** In every run from reset without data writes of the CPU and without soft
reset, for every timing of the clocks: the overflow flags are clear in every state iff no word is
offered to the enabled FIFO while it is full. In either case the FIFO accepts exactly the words
handshaken on `s_axis`. -/
theorem overflow_iff_refused (es : List (FifoEvent P))
    (hfed : Along step StreamFed (PacketFifo.reset mem x) es) :
    ((∀ es', es' <+: es → NoOverflow (run step (PacketFifo.reset mem x) es')) ↔
        ∀ es' e, es' ++ [e] <+: es → ¬ Refused (run step (PacketFifo.reset mem x) es') e) ∧
      log step fifoAccepts (PacketFifo.reset mem x) es =
        log step sAxisFire (PacketFifo.reset mem x) es := by
  have hquiet : ∀ es', es' <+: es → CpuSilent (run step (PacketFifo.reset mem x) es') := by
    intro es' hpre
    exact (hfed.of_isPrefix hpre).invariant CpuSilent (fun _ _ hs he => hs.step he)
      (CpuSilent.reset mem x)
  refine ⟨⟨?_, ?_⟩, ?_⟩
  · intro hclear es' e hpre hrefused
    have hpre' : es' <+: es := (List.prefix_append es' [e]).trans hpre
    have hset := (hclear _ hpre).overflow
    rw [run_snoc, wrOverflowReg_step (hquiet es' hpre')
      (along_iff_forall_isPrefix.mp hfed es' e hpre), if_pos hrefused.1, hrefused.2.1,
      hrefused.2.2] at hset
    cases hset
  · intro hok es' hpre
    refine (overflowClear_of_not_refused mem x (hfed.of_isPrefix hpre) ?_).toNoOverflow
    exact (along_iff_forall_isPrefix.mpr hok).of_isPrefix hpre
  · refine hfed.log_congr CpuSilent (fun _ _ hs he => hs.step he) ?_ (CpuSilent.reset mem x)
    exact fun s e hs _ => fifoAccepts_eq_sAxisFire hs.softReset hs.cpuWrEn

/-- A producer that always offers the word `x`. -/
def offering (x : Payload) (wrClk aclk : Bool) : FifoEvent P :=
  { FifoEvent.push x with wrClk := wrClk, aclk := aclk }

/-- Four words fit into the smallest FIFO without a report. -/
theorem overflow_clear_four_words :
    NoOverflow (run step (PacketFifo.reset (fun _ => .zero) .zero)
      (List.replicate 4 (offering (P := .smallest) ⟨true, 0b1111, 0x2A⟩ true false))) := by
  have hok : Along step (fun s e => ¬ Refused s e) (PacketFifo.reset (fun _ => .zero) .zero)
      (List.replicate 4 (offering (P := .smallest) ⟨true, 0b1111, 0x2A⟩ true false)) := by
    decide +kernel
  exact ((overflow_iff_refused _ _ _ (by decide +kernel)).1.mpr (along_iff_forall_isPrefix.mp hok)) _
    (List.prefix_refl _)

/-- **Backpressure sets the flags.** A producer keeps its word until it is taken; a fifth one waits
while the FIFO is full. All three flags become set, and every word handshaken is in the FIFO. -/
theorem overflow_of_backpressure :
    let s₀ : PacketFifo .smallest := PacketFifo.reset (fun _ => .zero) .zero
    let w : Payload := ⟨true, 0b1111, 0x2A⟩
    let es : List (FifoEvent .smallest) :=
      List.replicate 6 (offering w true false) ++ List.replicate 3 (offering w false true)
    (∀ e ∈ es, e.sAxisTvalid = true ∧ e.sAxis = w) ∧ Along step StreamFed s₀ es ∧
      (run step s₀ (es.take 5)).core.wr.wrOverflowReg = true ∧
      (run step s₀ (es.take 6)).core.wrDiag.stickyReg = true ∧
      (run step s₀ es).slave.diagLatched.getLsbD 2 = true ∧
      log step sAxisFire s₀ es = [w, w, w, w] ∧ log step fifoAccepts s₀ es = [w, w, w, w] := by
  decide +kernel

end PacketFifo

end PacketBuffering
