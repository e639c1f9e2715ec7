import PacketBuffering.Fifo.CpuPush

/-!
# The soft reset of the packet FIFO

A write to `CTRL` with the soft-reset bit raises `ctrl_soft_reset` for one cycle of `aclk`. The core
is in reset from the edge `e₀` that raises it to the edge `e₁` that takes it down, while
`s_axis_tready` is computed from the reset state and stays up.

* `SoftResetting`: the state during that cycle; **`streamInv_after_reset`**: after it the stream
  path is as after a hardware reset.
* **`soft_reset_cut`**: if no word is offered on `s_axis` at a `wr_clk` edge of the reset cycle, what
  is delivered after it is a prefix of what was acknowledged since the reset was raised.
* `soft_reset_loses_word`: a word acknowledged in the reset cycle is lost.
-/

namespace PacketBuffering

variable {P : FifoParams}

namespace PacketFifo

/-- The register write that raises the soft reset and keeps enable and stream-enable set. -/
def SoftResetWrite (s : PacketFifo P) (e : FifoEvent P) : Prop :=
  e.aclk = true ∧ s.slave.writesTo e.axi FifoReg.ctrl = true ∧ e.axi.wdata.getLsbD 0 = true ∧
    e.axi.wdata.getLsbD 1 = true ∧ e.axi.wdata.getLsbD 2 = true

instance (s : PacketFifo P) (e : FifoEvent P) : Decidable (SoftResetWrite s e) :=
  inferInstanceAs (Decidable (_ ∧ _))

/-- The event offers no word on `s_axis` at a `wr_clk` edge. -/
def Quiet (e : FifoEvent P) : Prop := e.wrClk = true → e.sAxisTvalid = false

instance (e : FifoEvent P) : Decidable (Quiet e) := inferInstanceAs (Decidable (_ → _))

/-- The words the FIFO takes at the event as its ports see it: the word handshaken on `s_axis`, or
else the word accepted from the CPU port. -/
def taken (s : PacketFifo P) (e : FifoEvent P) : List Payload := s.sAxisFire e ++ s.cpuPushes e

/-- The cycle in which `ctrl_soft_reset` is high: no push is requested, and the write that raised
it is still in progress. -/
structure SoftResetting (s : PacketFifo P) : Prop where
  enable : s.ctrlEnable = true
  streamEn : s.ctrlStreamEn = true
  softReset : s.ctrlSoftReset = true
  cpuWrEn : s.slave.cpuWrEn = false
  inProgress : s.slave.writeInProgress = true

variable {s : PacketFifo P} {e : FifoEvent P}

theorem SoftResetWrite.softResetting (h : SoftResetWrite s e) : SoftResetting (s.step e) := by
  obtain ⟨hclk, hw, h0, h1, h2⟩ := h
  have hset : (s.step e).ctrlSoftReset = true := by
    rw [ctrlSoftReset_step, hclk, if_pos rfl, hw, h1]; rfl
  refine ⟨?_, ?_, hset, ?_, ?_⟩
  · rw [ctrlEnable_step, hclk, hw, h0]; rfl
  · rw [ctrlStreamEn_step, hclk, hw, h2]; rfl
  · rw [cpuWrEn_step, hclk, if_pos rfl]
    by_contra hp
    rw [Bool.not_eq_false] at hp
    rw [pushExec_not_ctrl hp] at hw
    exact Bool.noConfusion hw
  · have hexec : s.slave.writeExec e.axi = true := by
      simp only [FifoSlave.writesTo, Bool.and_eq_true] at hw
      exact hw.1
    rw [step_slave_of_aclk hclk]
    simp [FifoSlave.clock, hexec]

theorem core_step_in_reset (hs : s.ctrlSoftReset = true) :
    ∃ mem x, s.core.step (s.coreEvent e) = AsyncFifo.reset mem x := by
  refine ⟨s.core.memNext (s.coreEvent e),
    if e.aclk then s.core.mem s.core.rd.rdAddr else s.core.rdData, ?_⟩
  simp [AsyncFifo.step, AsyncFifo.wrNext, AsyncFifo.rdNext, AsyncFifo.syncRd2WrNext,
    AsyncFifo.syncWr2RdNext, AsyncFifo.wrDiagNext, AsyncFifo.rdDiagNext, AsyncFifo.reset, coreEvent,
    hs]

theorem core_after_reset (hs : s.ctrlSoftReset = true) (hlow : (s.step e).ctrlSoftReset = false) :
    ∃ mem x, (s.step e).core = AsyncFifo.reset mem x := by
  obtain ⟨mem, x, hc⟩ := core_step_in_reset (e := e) hs
  have hlow' : (s.slaveNext e).ctrlSoftReset = false := hlow
  refine ⟨mem, x, ?_⟩
  rw [step, coreNext, hlow', if_neg Bool.false_ne_true, hc]

theorem SoftResetting.step_of_not_aclk (h : SoftResetting s) (hclk : e.aclk = false) :
    SoftResetting (s.step e) := by
  have hs := step_slave_of_not_aclk (s := s) hclk
  obtain ⟨h₁, h₂, h₃, h₄, h₅⟩ := h
  refine ⟨?_, ?_, ?_, ?_, ?_⟩
  · rwa [ctrlEnable, hs]
  · rwa [ctrlStreamEn, hs]
  · rwa [ctrlSoftReset, hs]
  · rwa [hs]
  · rwa [hs]

theorem SoftResetting.run_of_not_aclk (h : SoftResetting s) {es : List (FifoEvent P)}
    (hes : ∀ e ∈ es, e.aclk = false) : SoftResetting (run PacketFifo.step s es) :=
  (along_of_forall s hes).invariant SoftResetting (fun _ _ hs he => hs.step_of_not_aclk he) h

/-- **The edge that ends the reset cycle** leaves an empty stream path, streaming. -/
theorem streamInv_after_reset (h : SoftResetting s) (hclk : e.aclk = true) :
    Enabled (s.step e) ∧ (s.step e).slave.cpuWrEn = false ∧ StreamInv (s.step e) [] [] := by
  have hexec : ∀ a, s.slave.writesTo e.axi a = false := fun a => by
    simp [FifoSlave.writesTo, FifoSlave.writeExec, h.inProgress]
  have hlow : (s.step e).ctrlSoftReset = false := by
    rw [ctrlSoftReset_step, hclk, hexec]; rfl
  refine ⟨⟨?_, ?_, hlow⟩, ?_, 0, ?_, ?_, rfl⟩
  · rw [ctrlEnable_step, hexec, Bool.and_false, if_neg Bool.false_ne_true, h.enable]
  · rw [ctrlStreamEn_step, hexec, Bool.and_false, if_neg Bool.false_ne_true, h.streamEn]
  · rw [cpuWrEn_step, hclk, if_pos rfl, FifoSlave.pushExec, hexec, hexec]; rfl
  · obtain ⟨mem, x, hc⟩ := core_after_reset h.softReset hlow
    rw [hc]
    exact CoreInv.reset mem x
  · have : (s.step e).rdState = .idle := by simp [step, hclk, h.softReset]
    simp [Fetched, this]

theorem SoftResetting.taken_eq_nil (h : SoftResetting s) (hq : Quiet e) :
    s.taken e = [] ∧ s.sAxisFire e = [] := by
  have hfire : s.sAxisFire e = [] := by
    unfold sAxisFire
    rw [if_neg]
    simp only [Bool.and_eq_true, not_and]
    intro ⟨hc, hv⟩
    rw [hq hc] at hv
    exact Bool.noConfusion hv
  exact ⟨by rw [taken, hfire, cpuPushes_eq_nil h.cpuWrEn]; rfl, hfire⟩

theorem log_eq_nil_of_reset (h : SoftResetting s) {es : List (FifoEvent P)}
    (hes : ∀ e ∈ es, e.aclk = false ∧ Quiet e) :
    log PacketFifo.step taken s es = [] ∧ log PacketFifo.step sAxisFire s es = [] := by
  have hclk : Along PacketFifo.step (fun _ e => e.aclk = false ∧ Quiet e) s es :=
    along_of_forall s hes
  refine ⟨hclk.log_eq_nil SoftResetting ?_ ?_ h, hclk.log_eq_nil SoftResetting ?_ ?_ h⟩
  · exact fun _ _ hs he => hs.step_of_not_aclk he.1
  · exact fun _ _ hs he => (hs.taken_eq_nil he.2).1
  · exact fun _ _ hs he => hs.step_of_not_aclk he.1
  · exact fun _ _ hs he => (hs.taken_eq_nil he.2).2

/-! ## The cut -/

theorem taken_eq_fifoAccepts (h : Enabled s) : s.taken e = s.fifoAccepts e := by
  have hpush : s.core.pushes (s.coreEvent e) = (e.wrClk && s.fifoWrEn e && !s.wrFull) := by
    simp [AsyncFifo.pushes, coreEvent, h.softReset, WrDomain.wrAllow, wrFull, Bool.and_assoc]
  unfold taken cpuPushes sAxisFire
  rw [sAxisTready, streamWriteReq, h.enable, Bool.and_true, Bool.and_true]
  cases hv : e.sAxisTvalid with
  | false => simp
  | true =>
    have hw : (s.coreEvent e).wrData = e.sAxis := by
      simp [coreEvent, fifoWrPayload, streamWriteReq, hv, h.enable]
    unfold fifoAccepts AsyncFifo.accepted
    rw [hpush, hw]
    simp [fifoWrEn, streamWriteReq, hv, h.enable]

theorem log_taken_eq (h : Enabled s) {es : List (FifoEvent P)}
    (hes : Along PacketFifo.step KeepsStreaming s es) :
    log PacketFifo.step taken s es = log PacketFifo.step fifoAccepts s es :=
  hes.log_congr Enabled (fun _ _ hs he => hs.step he) (fun _ _ hs _ => taken_eq_fifoAccepts hs) h

/-- **The soft reset is a clean cut when the stream is quiet during it.** The write `e₀` raises the
soft reset in any state, `win` are the `wr_clk` edges up to the `aclk` edge `e₁` that takes it down,
and `rest` is any continuation that keeps the FIFO enabled and streaming. If `s_axis_tvalid` is `0`
at the `wr_clk` edges of the reset cycle, the words delivered after it are a prefix of the words
the FIFO took since the reset was raised; if the CPU pushes none, these are the words handshaken on
`s_axis`. -/
theorem soft_reset_cut (s : PacketFifo P) (e₀ e₁ : FifoEvent P) (win rest : List (FifoEvent P))
    (h₀ : SoftResetWrite s e₀) (hwin : ∀ e ∈ win, e.aclk = false) (h₁ : e₁.aclk = true)
    (hrest : Along PacketFifo.step KeepsStreaming
      (run PacketFifo.step (s.step e₀) (win ++ [e₁])) rest)
    (hquiet : ∀ e ∈ win ++ [e₁], Quiet e) :
    let s₁ := s.step e₀
    let s₂ := run PacketFifo.step s₁ (win ++ [e₁])
    let outs := log PacketFifo.step mAxisFire s₂ rest
    outs <+: log PacketFifo.step taken s₁ (win ++ [e₁] ++ rest) ∧
      (Along PacketFifo.step NoPush s₂ rest →
        outs <+: log PacketFifo.step sAxisFire s₁ (win ++ [e₁] ++ rest)) := by
  intro s₁ s₂ outs
  have hs₁ : SoftResetting s₁ := h₀.softResetting
  have hwin' := hs₁.run_of_not_aclk hwin
  have hs₂ : s₂ = (run PacketFifo.step s₁ win).step e₁ := by simp [s₂]
  obtain ⟨hen, hcpu, hinv⟩ := streamInv_after_reset hwin' h₁
  rw [← hs₂] at hen hcpu hinv
  have hq₁ : Quiet e₁ := hquiet e₁ (by simp)
  have hnil := log_eq_nil_of_reset hs₁ fun e he =>
    ⟨hwin e he, hquiet e (List.mem_append_left _ he)⟩
  have htaken : log PacketFifo.step taken s₁ (win ++ [e₁] ++ rest) =
      log PacketFifo.step taken s₂ rest := by
    rw [log_append, log_append, hnil.1, log_cons, (hwin'.taken_eq_nil hq₁).1]
    rfl
  have hfire : log PacketFifo.step sAxisFire s₁ (win ++ [e₁] ++ rest) =
      log PacketFifo.step sAxisFire s₂ rest := by
    rw [log_append, log_append, hnil.2, log_cons, (hwin'.taken_eq_nil hq₁).2]
    rfl
  have hpre : outs <+: log PacketFifo.step fifoAccepts s₂ rest := by
    have := (streamInv_of_keepsStreaming hen hinv rest hrest).2.isPrefix
    simpa using this
  refine ⟨?_, fun hno => ?_⟩
  · rw [htaken, log_taken_eq hen hrest]
    exact hpre
  · rw [hfire, ← log_fifoAccepts_eq hen hcpu rest (hno.and hrest)]
    exact hpre

/-- A soft reset with a word in flight and a quiet reset cycle: only the word pushed after it is
delivered. -/
theorem soft_reset_cut_quiet :
    let a : Payload := ⟨true, 0b1111, 0xAAAA0001⟩
    let b : Payload := ⟨true, 0b1111, 0xBBBB0002⟩
    let s : PacketFifo FifoParams.smallest :=
      (PacketFifo.reset (fun _ => .zero) .zero).step (.push a)
    let e₀ : FifoEvent FifoParams.smallest := .tick true (.write FifoReg.ctrl 0x7)
    let e₁ : FifoEvent FifoParams.smallest := .tick true .idle
    let rest : List (FifoEvent FifoParams.smallest) := .push b :: List.replicate 6 (.tick true .idle)
    let s₂ := run PacketFifo.step (s.step e₀) ([.wrTick] ++ [e₁])
    SoftResetWrite s e₀ ∧ log PacketFifo.step mAxisFire s₂ rest = [b] ∧
      log PacketFifo.step mAxisFire s₂ rest <+:
        log PacketFifo.step sAxisFire (s.step e₀) ([.wrTick] ++ [e₁] ++ rest) := by
  intro a b s e₀ e₁ rest s₂
  have h₀ : SoftResetWrite s e₀ := by decide
  exact ⟨h₀, by decide,
    (soft_reset_cut s e₀ e₁ [.wrTick] rest h₀ (by decide) rfl (by decide) (by decide)).2 (by decide)⟩

/-- **A word acknowledged in the reset cycle is skipped.** `a` is handshaken on `s_axis` while
`ctrl_soft_reset` is high, `b` after it; only `b` is delivered. -/
theorem soft_reset_loses_word :
    let a : Payload := ⟨true, 0b1111, 0xAAAA0001⟩
    let b : Payload := ⟨true, 0b1111, 0xBBBB0002⟩
    let s : PacketFifo FifoParams.smallest := PacketFifo.reset (fun _ => .zero) .zero
    let e₀ : FifoEvent FifoParams.smallest := .tick true (.write FifoReg.ctrl 0x7)
    let cycle : List (FifoEvent FifoParams.smallest) := [.push a, .tick true .idle]
    let rest : List (FifoEvent FifoParams.smallest) := .push b :: List.replicate 6 (.tick true .idle)
    let s₂ := run PacketFifo.step (s.step e₀) cycle
    SoftResetWrite s e₀ ∧ Along PacketFifo.step KeepsStreaming s₂ rest ∧
      log PacketFifo.step sAxisFire (s.step e₀) (cycle ++ rest) = [a, b] ∧
      log PacketFifo.step mAxisFire s₂ rest = [b] ∧
      ¬ log PacketFifo.step mAxisFire s₂ rest <+:
        log PacketFifo.step sAxisFire (s.step e₀) (cycle ++ rest) := by
  decide

end PacketFifo

end PacketBuffering
