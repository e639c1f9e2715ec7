import PacketBuffering.Fifo.ModeSwitch

/-!
# Underflow reports of the packet FIFO

`rd_underflow` reports a read request that finds the FIFO empty. Both terms of `fifo_rd_en` contain
`!core_rd_empty`, so that there is no such request: a read of `DATA` from the empty FIFO raises
nothing.

* `UnderflowReported`: what is to follow such a read.
* `NoUnderflow`, **`NoUnderflow.step`**: no underflow flag is set, and no event sets one.
* **`underflow_never_reported`**: in every run the flags stay clear, and no read is reported.
* `underflow_empty_read`: one such read.
-/

namespace PacketBuffering

variable {P : FifoParams}

namespace PacketFifo

/-! ## The report -/

/-- The number of `aclk` edges among the events. -/
def aclkEdges (es : List (FifoEvent P)) : ℕ := es.countP FifoEvent.aclk

/-- A read of `DATA` executes with `enable = 1` and `stream_en = 0` while the FIFO is empty, and it is
still empty afterwards. -/
structure EmptyRead (s : PacketFifo P) (e : FifoEvent P) : Prop where
  read : s.dataRead e = true
  enable : s.ctrlEnable = true
  streamEn : s.ctrlStreamEn = false
  empty : s.rdEmpty = true
  stays : (s.step e).rdEmpty = true

/-- No write to `DIAG_STATUS` executes at the event. -/
def NoDiagWrite (s : PacketFifo P) (e : FifoEvent P) : Prop :=
  e.aclk = true → s.slave.writesTo e.axi FifoReg.diagStatus = false

/-- **The report** over the events `es` from the state `s` behind the read: the core's `rd_underflow`
is set after at most two edges of `aclk`, and without a clear bit 3 of `DIAG_STATUS` is set from the
sixth edge on. -/
structure UnderflowReported (s : PacketFifo P) (es : List (FifoEvent P)) : Prop where
  core : ∃ es', es' <+: es ∧ aclkEdges es' ≤ 2 ∧ (run step s es').core.rd.rdUnderflowReg = true
  diagStatus : Along step NoDiagWrite s es → ∀ es', es' <+: es → 6 ≤ aclkEdges es' →
    (run step s es').slave.diagLatched.getLsbD 3 = true

instance (s : PacketFifo P) (e : FifoEvent P) : Decidable (EmptyRead s e) :=
  decidable_of_iff (_ ∧ _ ∧ _ ∧ _ ∧ _)
    ⟨fun ⟨h₁, h₂, h₃, h₄, h₅⟩ => ⟨h₁, h₂, h₃, h₄, h₅⟩,
      fun ⟨h₁, h₂, h₃, h₄, h₅⟩ => ⟨h₁, h₂, h₃, h₄, h₅⟩⟩

instance (s : PacketFifo P) (e : FifoEvent P) : Decidable (NoDiagWrite s e) :=
  inferInstanceAs (Decidable (_ → _))

/-! ## The flags -/

/-- The core's `rd_underflow`, `rd_underflow_sticky` and bit 3 of `DIAG_STATUS` are clear. -/
structure NoUnderflow (s : PacketFifo P) : Prop where
  underflow : s.core.rd.rdUnderflowReg = false
  sticky : s.core.rdDiag.stickyReg = false
  diagStatus : s.slave.diagLatched.getLsbD 3 = false

variable {s : PacketFifo P} {e : FifoEvent P}

theorem rdEmpty_of_fifoRdEn (h : s.fifoRdEn e = true) : s.rdEmpty = false := by
  by_contra hempty
  rw [Bool.not_eq_false] at hempty
  simp [fifoRdEn, fetch, canIssue, cpuPop, hempty] at h

theorem rdUnderflowReg_step (h : s.core.rd.rdUnderflowReg = false) :
    (s.step e).core.rd.rdUnderflowReg = false := by
  have hreq : (s.fifoRdEn e && s.core.rd.rdEmptyReg) = false := by
    cases hen : s.fifoRdEn e with
    | false => rfl
    | true => exact rdEmpty_of_fifoRdEn hen
  simp only [step, coreNext]
  split_ifs
  · rfl
  · simp only [AsyncFifo.step, AsyncFifo.rdNext, coreEvent, RdDomain.clock, hreq]
    split_ifs <;> first | rfl | exact h

theorem rdStickyReg_step (h : NoUnderflow s) : (s.step e).core.rdDiag.stickyReg = false := by
  simp only [step, coreNext]
  split_ifs
  · rfl
  · simp only [AsyncFifo.step, AsyncFifo.rdDiagNext, coreEvent, DomainDiag.clock, h.underflow,
      h.sticky]
    split_ifs <;> first | rfl | exact h.sticky

theorem getLsbD_status_diag_three (s : PacketFifo P) :
    s.status.diag.getLsbD 3 = s.core.rdDiag.stickyReg := BitVec.getLsbD_ofBoolListBE

/-- **No event sets a flag.** -/
theorem NoUnderflow.step (h : NoUnderflow s) : NoUnderflow (s.step e) where
  underflow := rdUnderflowReg_step h.underflow
  sticky := rdStickyReg_step h
  diagStatus := diagLatched_step s e h.diagStatus ((getLsbD_status_diag_three s).trans h.sticky)

variable (mem : BitVec P.addrWidth → Payload) (x : Payload)

theorem NoUnderflow.reset : NoUnderflow (PacketFifo.reset mem x) :=
  ⟨rfl, rfl, BitVec.getLsbD_zero⟩

theorem NoUnderflow.run {s : PacketFifo P} (h : NoUnderflow s) (es : List (FifoEvent P)) :
    NoUnderflow (run PacketFifo.step s es) :=
  (along_true PacketFifo.step s es).invariant NoUnderflow (fun _ _ hs _ => hs.step) h

theorem NoUnderflow.not_reported {s : PacketFifo P} (h : NoUnderflow s) (es : List (FifoEvent P)) :
    ¬ UnderflowReported s es := by
  intro hrep
  obtain ⟨es', -, -, hset⟩ := hrep.core
  rw [(h.run es').underflow] at hset
  cases hset

theorem EmptyRead.request (h : EmptyRead s e) :
    (s.step e).slave.cpuRdEn = true ∧ ∀ e', (s.step e).fifoRdEn e' = false := by
  have hread := h.read
  rw [dataRead, Bool.and_eq_true] at hread
  refine ⟨?_, fun e' => ?_⟩
  · rw [cpuRdEn_step, if_pos hread.1]
    exact hread.2
  · by_contra hreq
    rw [Bool.not_eq_false] at hreq
    have hne := rdEmpty_of_fifoRdEn hreq
    rw [h.stays] at hne
    cases hne

/-- **An underflow is never reported.** In every run from reset, for every read of `DATA` that
executes while the FIFO is and stays empty, and whatever follows it: its request is masked, the core's
`rd_underflow` stays clear, and so do the sticky flag and bit 3 of `DIAG_STATUS`; the report does not
come. -/
theorem underflow_never_reported (es₀ : List (FifoEvent P)) (e : FifoEvent P)
    (hread : EmptyRead (PacketBuffering.run step (PacketFifo.reset mem x) es₀) e)
    (es : List (FifoEvent P)) :
    let s := PacketBuffering.run step (PacketFifo.reset mem x) (es₀ ++ [e])
    (s.slave.cpuRdEn = true ∧ ∀ e', s.fifoRdEn e' = false) ∧
      (∀ es', es' <+: es → NoUnderflow (PacketBuffering.run step s es')) ∧
      ¬ UnderflowReported s es := by
  intro s
  have hinv : NoUnderflow s := (NoUnderflow.reset mem x).run _
  have hs : s = (PacketBuffering.run step (PacketFifo.reset mem x) es₀).step e := by
    simp only [s, run_snoc]
  refine ⟨?_, fun es' _ => hinv.run es', hinv.not_reported es⟩
  rw [hs]
  exact hread.request

/-- Streaming is switched off and `DATA` is read from the empty FIFO. -/
def readingEmpty : List (FifoEvent .smallest) :=
  FifoEvent.busWrite FifoReg.ctrl 0x1 ++ [.tick false (.read FifoReg.data)]

/-- Eight cycles later nothing is reported. -/
theorem underflow_never_reported_eight :
    let s₀ : PacketFifo .smallest := PacketFifo.reset (fun _ => .zero) .zero
    ¬ UnderflowReported (PacketBuffering.run step s₀ readingEmpty)
      (List.replicate 8 (.tick false .idle)) :=
  (underflow_never_reported (fun _ => .zero) .zero (FifoEvent.busWrite FifoReg.ctrl 0x1)
    (.tick false (.read FifoReg.data)) (by decide) _).2.2

/-- **A read from the empty FIFO** that executes: the flags are clear after two and after eight
cycles, without a write to `DIAG_STATUS`. -/
theorem underflow_empty_read :
    let s₀ : PacketFifo .smallest := PacketFifo.reset (fun _ => .zero) .zero
    let idles : List (FifoEvent .smallest) := List.replicate 8 (.tick false .idle)
    let s := PacketBuffering.run step s₀ readingEmpty
    EmptyRead (PacketBuffering.run step s₀ (FifoEvent.busWrite FifoReg.ctrl 0x1))
        (.tick false (.read FifoReg.data)) ∧
      (∀ n ≤ 8, (PacketBuffering.run step s (idles.take n)).core.rd.rdUnderflowReg = false) ∧
      Along step NoDiagWrite s idles ∧
      (PacketBuffering.run step s idles).slave.diagLatched.getLsbD 3 = false ∧
      ¬ UnderflowReported s idles := by
  intro s₀ idles s
  have hclear : NoUnderflow s := (NoUnderflow.reset _ _).run _
  exact ⟨by decide, by decide +kernel, by decide +kernel, by decide +kernel, hclear.not_reported _⟩

end PacketFifo

end PacketBuffering
