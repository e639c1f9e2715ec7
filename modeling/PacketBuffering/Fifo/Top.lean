import PacketBuffering.Fifo.Core
import PacketBuffering.Fifo.Slave
import PacketBuffering.Lib.Packet
import PacketBuffering.Lib.Run

/-!
# The packet FIFO

`packet_fifo_top`: the asynchronous FIFO core with its register interface, the multiplexer of the
stream and the CPU push port on the write side, the fetch state machine with its holding register
on the read side, the packet and occupancy counters, and the crossings of the diagnostics.

An event is an instant at which `wr_clk`, `aclk` or both rise, with all inputs at that instant. The
runs start from a common hardware reset (`PacketFifo.reset`) and keep `aresetn` and `wr_rst_n`
released; the soft reset is part of the machine. It holds both pointer domains in asynchronous
reset while it is high, so that its rise resets the core at once, and clears the registers of the
top module at the clock edge that ends it.
-/

namespace PacketBuffering

/-- The states of the fetch machine; `SM_STREAM` is declared in the source and never entered. -/
inductive RdState
  | idle
  | pending
  | hold
  | stream
deriving DecidableEq

variable {P : FifoParams}

variable (P) in
/-- The registers of `packet_fifo_top`. -/
structure PacketFifo where
  core : AsyncFifo P Payload
  slave : FifoSlave
  rdState : RdState
  outReg : Payload
  wrOccupancy : BitVec 16
  rdOccupancy : BitVec 16
  packetCount : BitVec 32
  wrDiagSync1 : BitVec 3
  wrDiagSync2 : BitVec 3
  wrClrTog : Bool
  wrClrSync : BitVec 2
  wrClrSyncPrev : Bool

variable (P) in
/-- One event: the clocks that rise, the inputs at that instant, and how each synchroniser resolves
a source that changes at that instant. -/
structure FifoEvent where
  wrClk : Bool
  aclk : Bool
  sAxisTvalid : Bool
  sAxis : Payload
  mAxisTready : Bool
  axi : AxiLiteIn
  rd2wrPick : P.Ptr
  wr2rdPick : P.Ptr
  clrPick : Bool
  diagPick : BitVec 3

namespace FifoEvent

/-- A rising `aclk` with the given `m_axis_tready` and register access, and a quiet `s_axis`. -/
def tick (tready : Bool) (axi : AxiLiteIn) : FifoEvent P :=
  ⟨false, true, false, .zero, tready, axi, 0, 0, false, 0⟩

/-- The `aclk` cycles of a register write: the request, kept for its handshake, and the response. -/
def busWrite (a : BitVec 6) (d : BitVec 32) : List (FifoEvent P) :=
  [tick false (.write a d), tick false (.write a d),
    tick false { AxiLiteIn.idle with bready := true }]

/-- The `aclk` cycles of a register read: the request, kept for its handshake while the response is
taken. -/
def busRead (a : BitVec 6) : List (FifoEvent P) :=
  [tick false (.read a), tick false { AxiLiteIn.read a with rready := true }]

/-- A rising `wr_clk` with a quiet `s_axis`. -/
def wrTick : FifoEvent P := ⟨true, false, false, .zero, false, .idle, 0, 0, false, 0⟩

/-- A rising `wr_clk` with `x` offered on `s_axis`. -/
def push (x : Payload) : FifoEvent P := ⟨true, false, true, x, false, .idle, 0, 0, false, 0⟩

end FifoEvent

namespace PacketFifo

/-- The state after a hardware reset, over the memory contents `mem` and the read register `x`. -/
def reset (mem : BitVec P.addrWidth → Payload) (x : Payload) : PacketFifo P where
  core := .reset mem x
  slave := .reset
  rdState := .idle
  outReg := .zero
  wrOccupancy := 0
  rdOccupancy := 0
  packetCount := 0
  wrDiagSync1 := 0
  wrDiagSync2 := 0
  wrClrTog := false
  wrClrSync := 0
  wrClrSyncPrev := false

variable (s : PacketFifo P) (e : FifoEvent P)

/-! ## Combinational signals -/

/-- `ctrl_enable`. -/
def ctrlEnable : Bool := s.slave.ctrlEnable

/-- `ctrl_stream_en`. -/
def ctrlStreamEn : Bool := s.slave.ctrlStreamEn

/-- `ctrl_soft_reset`. -/
def ctrlSoftReset : Bool := s.slave.ctrlSoftReset

/-- `core_wr_full`. -/
def wrFull : Bool := s.core.wr.wrFullReg

/-- `core_rd_empty`. -/
def rdEmpty : Bool := s.core.rd.rdEmptyReg

/-- `s_axis_tready`: the stream is taken while the core is not full. -/
def sAxisTready : Bool := !s.wrFull && s.ctrlEnable

/-- `stream_write_req`. -/
def streamWriteReq : Bool := e.sAxisTvalid && s.ctrlEnable

/-- `cpu_write_req`. -/
def cpuWriteReq : Bool := s.slave.cpuWrEn && s.ctrlEnable

/-- `fifo_wr_en`. -/
def fifoWrEn : Bool := s.streamWriteReq e || s.cpuWriteReq

/-- The word the CPU port pushes: no byte enable set means all four. -/
def cpuPayload : Payload :=
  ⟨s.slave.cpuWrLast, if s.slave.cpuWrBe != 0 then s.slave.cpuWrBe else 0b1111, s.slave.cpuWrData⟩

/-- `fifo_wr_payload`: the stream goes before the CPU. -/
def fifoWrPayload : Payload := if s.streamWriteReq e then e.sAxis else s.cpuPayload

/-- `m_axis_tvalid`: the word in `out_reg` is offered. -/
def mAxisTvalid : Bool := s.rdState == .hold && s.ctrlEnable && s.ctrlStreamEn

/-- `stream_pop`: the word in `out_reg` is taken. -/
def streamPop : Bool := s.mAxisTvalid && e.mAxisTready

/-- `can_issue`. -/
def canIssue : Bool := !s.rdEmpty && s.ctrlEnable && s.ctrlStreamEn

/-- The fetch machine issues a read: the first one from `SM_IDLE`, the next from `SM_HOLD`. -/
def fetch : Bool :=
  (s.rdState == .idle && s.canIssue) || (s.rdState == .hold && s.streamPop e && s.canIssue)

/-- A pop by the CPU, only while streaming is disabled. -/
def cpuPop : Bool := s.slave.cpuRdEn && !s.rdEmpty && !s.ctrlStreamEn

/-- `fifo_rd_en`. -/
def fifoRdEn : Bool := s.fetch e || s.cpuPop

/-- `wr_clr_req`: one of the flags of the write side is cleared. -/
def wrClrReq : Bool :=
  s.slave.diagClear.getLsbD 0 || s.slave.diagClear.getLsbD 2 || s.slave.diagClear.getLsbD 4

/-- `wr_diag_clear_sync`: the clear as the write side sees it. -/
def wrDiagClearSync : Bool := s.wrClrSync.getLsbD 1 ^^ s.wrClrSyncPrev

/-- `almost_full`. -/
def almostFull : Bool := s.slave.almostFullThresh ≤ s.rdOccupancy

/-- `almost_empty`. -/
def almostEmpty : Bool := s.rdOccupancy ≤ s.slave.almostEmptyThresh

/-- `{wr_pointer_stuck, wr_overflow_sticky, wr_gray_error}`. -/
def wrDiagWord (c : AsyncFifo P Payload) : BitVec 3 :=
  BitVec.ofBoolListBE [c.wrDiag.pointerStuckReg, c.wrDiag.stickyReg, c.wrDiag.grayErrorReg]

/-- The status inputs of the register interface. -/
def status : FifoStatus where
  cpuRdData := s.core.rdData.tdata
  wrFull := s.wrFull
  rdEmpty := s.rdEmpty
  wrOverflow := s.core.wr.wrOverflowReg
  rdUnderflow := s.core.rd.rdUnderflowReg
  streamActive := s.mAxisTvalid
  almostFull := s.almostFull
  almostEmpty := s.almostEmpty
  diag := BitVec.ofBoolListBE [s.core.rdDiag.pointerStuckReg, s.wrDiagSync2.getLsbD 2,
    s.core.rdDiag.stickyReg, s.wrDiagSync2.getLsbD 1, s.core.rdDiag.grayErrorReg,
    s.wrDiagSync2.getLsbD 0]
  wrOccupancy := s.wrOccupancy
  rdOccupancy := s.rdOccupancy
  packetCount := s.packetCount

/-! ## The step -/

/-- What the core sees at the event. -/
def coreEvent : CoreEvent P Payload where
  wrClk := e.wrClk
  rdClk := e.aclk
  wrRstN := !s.ctrlSoftReset
  rdRstN := !s.ctrlSoftReset
  wrEn := s.fifoWrEn e
  wrData := s.fifoWrPayload e
  rdEn := s.fifoRdEn e
  wrDiagClear := s.wrDiagClearSync
  rdDiagClear := s.slave.diagClear != 0
  rd2wrPick := e.rd2wrPick
  wr2rdPick := e.wr2rdPick

/-- The register interface after the event. -/
def slaveNext : FifoSlave := if e.aclk then s.slave.clock e.axi s.status else s.slave

/-- The core after the event: a rise of the soft reset takes effect at once. -/
def coreNext : AsyncFifo P Payload :=
  if (s.slaveNext e).ctrlSoftReset then (s.core.step (s.coreEvent e)).asyncReset
  else s.core.step (s.coreEvent e)

/-- `rd_state` at a rising `aclk`, the soft reset apart. -/
def rdStateNext : RdState :=
  match s.rdState with
  | .idle => if s.canIssue then .pending else .idle
  | .pending => .hold
  | .hold => if s.streamPop e then if s.canIssue then .pending else .idle else .hold
  | .stream => .idle

/-- An occupancy counter at its clock: up to `FIFO_DEPTH`, down to zero. -/
def occupancyNext (n : BitVec 16) : BitVec 16 :=
  if s.ctrlSoftReset then 0
  else if s.fifoWrEn e && !s.fifoRdEn e then if n.toNat < P.depth then n + 1 else n
  else if !s.fifoWrEn e && s.fifoRdEn e then if 0 < n then n - 1 else n
  else n

/-- The toggle of the diagnostic-clear synchroniser after the event. -/
def wrClrTogNext : Bool := if e.aclk then s.wrClrTog ^^ s.wrClrReq else s.wrClrTog

/-- **One event of `packet_fifo_top`.** -/
def step : PacketFifo P where
  core := s.coreNext e
  slave := s.slaveNext e
  rdState :=
    if e.aclk then if s.ctrlSoftReset then .idle else s.rdStateNext e else s.rdState
  outReg :=
    if e.aclk then
      if s.ctrlSoftReset then .zero
      else if s.rdState = .pending then s.core.rdData else s.outReg
    else s.outReg
  wrOccupancy := if e.wrClk then s.occupancyNext e s.wrOccupancy else s.wrOccupancy
  rdOccupancy := if e.aclk then s.occupancyNext e s.rdOccupancy else s.rdOccupancy
  packetCount :=
    if e.aclk then
      if s.ctrlSoftReset then 0
      else if s.streamPop e && s.outReg.tlast then s.packetCount + 1 else s.packetCount
    else s.packetCount
  wrDiagSync1 :=
    if e.aclk then mix e.diagPick (wrDiagWord s.core) (wrDiagWord (s.coreNext e))
    else s.wrDiagSync1
  wrDiagSync2 := if e.aclk then s.wrDiagSync1 else s.wrDiagSync2
  wrClrTog := s.wrClrTogNext e
  wrClrSync :=
    if e.wrClk then
      BitVec.ofBoolListBE [s.wrClrSync.getLsbD 0,
        if e.clrPick then s.wrClrTogNext e else s.wrClrTog]
    else s.wrClrSync
  wrClrSyncPrev := if e.wrClk then s.wrClrSync.getLsbD 1 else s.wrClrSyncPrev

/-! ## The register interface over one event -/

variable {s e} in
theorem step_slave_of_not_aclk (h : e.aclk = false) : (s.step e).slave = s.slave := by
  simp [step, slaveNext, h]

variable {s e} in
theorem step_slave_of_aclk (h : e.aclk = true) :
    (s.step e).slave = s.slave.clock e.axi s.status := by
  simp [step, slaveNext, h]

theorem ctrlEnable_step : (s.step e).ctrlEnable =
    if e.aclk && s.slave.writesTo e.axi FifoReg.ctrl then e.axi.wdata.getLsbD 0
    else s.ctrlEnable := by
  cases h : e.aclk
  · simp [ctrlEnable, step, slaveNext, h]
  · simp only [ctrlEnable, step, slaveNext, h, if_true, Bool.true_and, FifoSlave.clock_ctrlEnable]

theorem ctrlStreamEn_step : (s.step e).ctrlStreamEn =
    if e.aclk && s.slave.writesTo e.axi FifoReg.ctrl then e.axi.wdata.getLsbD 2
    else s.ctrlStreamEn := by
  cases h : e.aclk
  · simp [ctrlStreamEn, step, slaveNext, h]
  · simp only [ctrlStreamEn, step, slaveNext, h, if_true, Bool.true_and,
      FifoSlave.clock_ctrlStreamEn]

theorem ctrlSoftReset_step : (s.step e).ctrlSoftReset =
    if e.aclk then s.slave.writesTo e.axi FifoReg.ctrl && e.axi.wdata.getLsbD 1
    else s.ctrlSoftReset := by
  unfold ctrlSoftReset step slaveNext
  split_ifs <;> rfl

theorem cpuWrEn_step : (s.step e).slave.cpuWrEn =
    if e.aclk then s.slave.pushExec e.axi else s.slave.cpuWrEn := by
  unfold step slaveNext
  split_ifs <;> rfl

theorem cpuRdEn_step : (s.step e).slave.cpuRdEn =
    if e.aclk then s.slave.readsFrom e.axi FifoReg.data else s.slave.cpuRdEn := by
  unfold step slaveNext
  split_ifs <;> rfl

theorem diagLatched_step {k : ℕ} (hlatch : s.slave.diagLatched.getLsbD k = false)
    (hdiag : s.status.diag.getLsbD k = false) : (s.step e).slave.diagLatched.getLsbD k = false := by
  simp only [step, slaveNext]
  split_ifs
  · simp [FifoSlave.clock, hlatch, hdiag]
  · exact hlatch

/-! ## What is observed -/

/-- The word handshaken on `s_axis` at the event. -/
def sAxisFire : List Payload :=
  if e.wrClk && e.sAxisTvalid && s.sAxisTready then [e.sAxis] else []

/-- The word handshaken on `m_axis` at the event. -/
def mAxisFire : List Payload := if e.aclk && s.streamPop e then [s.outReg] else []

/-- The word the core accepts at the event, from either port. -/
def fifoAccepts : List Payload := s.core.accepted (s.coreEvent e)

end PacketFifo

end PacketBuffering
