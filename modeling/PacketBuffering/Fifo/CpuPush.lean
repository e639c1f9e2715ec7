import PacketBuffering.Fifo.Stream

/-!
# Pushes by the CPU

A write to `DATA` or `DATA_LAST` raises `cpu_wr_en` for one cycle of `aclk`, and `wr_domain` samples
it on `wr_clk` without a handshake. How many words it adds is decided by the `wr_clk` edges that
fall into that cycle.

* `clearEdge`: a `wr_clk` edge at which the stream port is silent and the FIFO not full.
* **`cpu_push_once_iff`**: a data write adds exactly its word, once, iff exactly one clear edge
  falls into the cycle of its request.
* `cpu_push_lost_or_doubled`: it can be lost and it can be doubled.
-/

namespace PacketBuffering

variable {P : FifoParams}

namespace PacketFifo

variable (s : PacketFifo P) (e : FifoEvent P)

/-- The word the core accepts from the CPU port at the event. -/
def cpuPushes : List Payload := if s.streamWriteReq e then [] else s.fifoAccepts e

/-- The word a data write stands for: its data, and `tlast` iff it goes to `DATA_LAST`. -/
def pushedWord (i : AxiLiteIn) : Payload :=
  ⟨i.awaddr.setWidth 6 == FifoReg.dataLast, if i.wstrb != 0 then i.wstrb else 0b1111, i.wdata⟩

/-- The event, if it is a `wr_clk` edge that finds the stream port silent and the FIFO not full. -/
def clearEdge : List (FifoEvent P) :=
  if e.wrClk && !e.sAxisTvalid && !s.wrFull then [e] else []

/-- The CPU port requests the push of `w`: enabled, not in soft reset, the write response still to
come. -/
structure Requests (w : Payload) : Prop where
  enable : s.ctrlEnable = true
  softReset : s.ctrlSoftReset = false
  cpuWrEn : s.slave.cpuWrEn = true
  inProgress : s.slave.writeInProgress = true
  payload : s.cpuPayload = w

variable {s e}

theorem pushExec_not_ctrl (h : s.slave.pushExec e.axi = true) :
    s.slave.writesTo e.axi FifoReg.ctrl = false := by
  simp only [FifoSlave.pushExec, FifoSlave.writesTo, Bool.or_eq_true, Bool.and_eq_true,
    beq_iff_eq] at h
  simp only [FifoSlave.writesTo, Bool.and_eq_false_iff, beq_eq_false_iff_ne]
  right
  rcases h with ⟨-, h⟩ | ⟨-, h⟩ <;> rw [h] <;> decide

theorem requests_of_pushExec (hen : s.ctrlEnable = true) (hclk : e.aclk = true)
    (h : s.slave.pushExec e.axi = true) : Requests (s.step e) (pushedWord e.axi) := by
  have hctrl := pushExec_not_ctrl h
  have hexec : s.slave.writeExec e.axi = true := by
    simp only [FifoSlave.pushExec, FifoSlave.writesTo, Bool.or_eq_true, Bool.and_eq_true] at h
    rcases h with h | h <;> exact h.1
  refine ⟨?_, ?_, ?_, ?_, ?_⟩
  · rw [ctrlEnable_step, hctrl, Bool.and_false, if_neg Bool.false_ne_true, hen]
  · rw [ctrlSoftReset_step, hclk, hctrl]; rfl
  · rw [cpuWrEn_step, hclk, h]; rfl
  · rw [step_slave_of_aclk hclk]
    simp [FifoSlave.clock, hexec]
  · simp only [cpuPayload, step_slave_of_aclk hclk, FifoSlave.clock, h, if_true, pushedWord,
      FifoSlave.writesTo, hexec, Bool.true_and]

theorem Requests.step_of_not_aclk {w : Payload} (h : Requests s w) (hclk : e.aclk = false) :
    Requests (s.step e) w := by
  have hs := step_slave_of_not_aclk (s := s) hclk
  obtain ⟨h₁, h₂, h₃, h₄, h₅⟩ := h
  refine ⟨?_, ?_, ?_, ?_, ?_⟩
  · rwa [ctrlEnable, hs]
  · rwa [ctrlSoftReset, hs]
  · rwa [hs]
  · rwa [hs]
  · rwa [cpuPayload, hs]

/-- The next `aclk` edge takes the request down: no write executes while one is in progress. -/
theorem Requests.cpuWrEn_of_aclk {w : Payload} (h : Requests s w) (hclk : e.aclk = true) :
    (s.step e).slave.cpuWrEn = false := by
  rw [cpuWrEn_step, hclk]
  simp [FifoSlave.pushExec, FifoSlave.writesTo, FifoSlave.writeExec, h.inProgress]

theorem Requests.cpuPushes_eq {w : Payload} (h : Requests s w) :
    s.cpuPushes e = (s.clearEdge e).map fun _ => w := by
  have hpush : s.core.pushes (s.coreEvent e) = (e.wrClk && !s.wrFull) := by
    simp [AsyncFifo.pushes, coreEvent, h.softReset, WrDomain.wrAllow, fifoWrEn, cpuWriteReq,
      h.cpuWrEn, h.enable, wrFull]
  unfold cpuPushes fifoAccepts AsyncFifo.accepted clearEdge
  rw [hpush, streamWriteReq, h.enable, Bool.and_true]
  cases hv : e.sAxisTvalid with
  | true => simp
  | false =>
    have hw : (s.coreEvent e).wrData = w := by
      simp [coreEvent, fifoWrPayload, streamWriteReq, hv, h.payload]
    rw [hw]
    cases hc : e.wrClk && !s.wrFull <;> simp [hc]

theorem cpuPushes_eq_nil (h : s.slave.cpuWrEn = false) : s.cpuPushes e = [] := by
  unfold cpuPushes
  split_ifs with hv
  · rfl
  · rw [Bool.not_eq_true] at hv
    simp [fifoAccepts, AsyncFifo.accepted, AsyncFifo.pushes, WrDomain.wrAllow, coreEvent, fifoWrEn,
      hv, cpuWriteReq, h]

theorem log_cpuPushes_of_requests {w : Payload} (h : Requests s w) (es : List (FifoEvent P))
    (hes : ∀ e ∈ es, e.aclk = false) :
    Requests (run PacketFifo.step s es) w ∧
      log PacketFifo.step cpuPushes s es = (log PacketFifo.step clearEdge s es).map fun _ => w := by
  have hclk : Along PacketFifo.step (fun _ e => e.aclk = false) s es := along_of_forall s hes
  refine ⟨hclk.invariant (fun s => Requests s w) (fun _ _ hs he => hs.step_of_not_aclk he) h, ?_⟩
  rw [← log_map]
  exact hclk.log_congr (fun s => Requests s w) (fun _ _ hs he => hs.step_of_not_aclk he)
    (fun _ _ hs _ => hs.cpuPushes_eq) h

theorem log_cpuPushes_of_noPush (es : List (FifoEvent P)) (h : s.slave.cpuWrEn = false)
    (hes : Along PacketFifo.step NoPush s es) : log PacketFifo.step cpuPushes s es = [] :=
  hes.log_eq_nil (fun s => s.slave.cpuWrEn = false) (fun _ _ hs he => cpuWrEn_of_noPush hs he)
    (fun _ _ hs _ => cpuPushes_eq_nil hs) h

theorem map_const_eq_singleton {α β : Type*} (l : List α) (w : β) :
    l.map (fun _ => w) = [w] ↔ l.length = 1 := by
  rcases l with _ | ⟨a, _ | ⟨b, l⟩⟩ <;> simp

/-- **When a CPU push lands exactly once.** A data write executes at an `aclk` edge `e₀` of any
state with the FIFO enabled; `win` are the `wr_clk` edges up to the next `aclk` edge `e₁`, and
`rest` is any continuation without another data write. From `e₀` on the core accepts exactly the
written word from the CPU port iff exactly one clear edge falls into the request's cycle. -/
theorem cpu_push_once_iff (s : PacketFifo P) (e₀ e₁ : FifoEvent P) (win rest : List (FifoEvent P))
    (hen : s.ctrlEnable = true) (h₀ : e₀.aclk = true) (hexec : s.slave.pushExec e₀.axi = true)
    (hwin : ∀ e ∈ win, e.aclk = false) (h₁ : e₁.aclk = true)
    (hrest : Along PacketFifo.step NoPush (run PacketFifo.step (s.step e₀) (win ++ [e₁])) rest) :
    log PacketFifo.step cpuPushes (s.step e₀) (win ++ [e₁] ++ rest) = [pushedWord e₀.axi] ↔
      (log PacketFifo.step clearEdge (s.step e₀) (win ++ [e₁])).length = 1 := by
  have hreq := requests_of_pushExec hen h₀ hexec
  obtain ⟨hreq', hlog⟩ := log_cpuPushes_of_requests hreq win hwin
  have hdown : (run PacketFifo.step (s.step e₀) (win ++ [e₁])).slave.cpuWrEn = false := by
    rw [run_snoc]
    exact hreq'.cpuWrEn_of_aclk h₁
  have hall : log PacketFifo.step cpuPushes (s.step e₀) (win ++ [e₁]) =
      (log PacketFifo.step clearEdge (s.step e₀) (win ++ [e₁])).map fun _ => pushedWord e₀.axi := by
    simp only [log_snoc, List.map_append, hlog, hreq'.cpuPushes_eq]
  rw [log_append, log_cpuPushes_of_noPush rest hdown hrest, List.append_nil, hall,
    map_const_eq_singleton]

/-- One `wr_clk` edge in the cycle of the request: the word lands once. -/
theorem cpu_push_once_single_edge :
    let s : PacketFifo FifoParams.smallest := PacketFifo.reset (fun _ => .zero) .zero
    let e₀ : FifoEvent FifoParams.smallest := .tick false (.write FifoReg.dataLast 0xCAFE0003)
    log PacketFifo.step cpuPushes (s.step e₀)
      ([FifoEvent.wrTick] ++ [.tick false .idle] ++ List.replicate 4 .wrTick) =
        [⟨true, 0b1111, 0xCAFE0003⟩] :=
  (cpu_push_once_iff (PacketFifo.reset (fun _ => .zero) .zero)
    (.tick false (.write FifoReg.dataLast 0xCAFE0003)) (.tick false .idle) [.wrTick]
    (List.replicate 4 .wrTick) (by decide) rfl (by decide) (by decide) rfl (by decide)).mpr
      (by decide)

/-- **A CPU push can be lost and can be doubled.** A write of `DATA` finds the empty FIFO not full;
with no `wr_clk` edge in the cycle of its request, or with the stream port active at the only one,
its word is never accepted; with two edges it is accepted twice. -/
theorem cpu_push_lost_or_doubled :
    let s : PacketFifo FifoParams.smallest := PacketFifo.reset (fun _ => .zero) .zero
    let e₀ : FifoEvent FifoParams.smallest := .tick false (.write FifoReg.data 0xCAFE0001)
    let w : Payload := ⟨false, 0b1111, 0xCAFE0001⟩
    s.ctrlEnable = true ∧ s.slave.pushExec e₀.axi = true ∧ (s.step e₀).wrFull = false ∧
      log PacketFifo.step cpuPushes (s.step e₀)
        ([.tick false .idle] ++ List.replicate 4 .wrTick) = [] ∧
      log PacketFifo.step cpuPushes (s.step e₀)
        ([.push .zero, .tick false .idle] ++ List.replicate 4 .wrTick) = [] ∧
      log PacketFifo.step cpuPushes (s.step e₀)
        ([.wrTick, .wrTick, .tick false .idle] ++ List.replicate 4 .wrTick) = [w, w] := by
  decide

end PacketFifo

end PacketBuffering
