import PacketBuffering.Lib.Handshake

/-!
# The register interface of the packet FIFO

`fifo_axi4lite_slave`: the AXI4-Lite write and read channels, the control, threshold and diagnostic
registers behind them and the CPU data ports. All its registers are clocked by `aclk`.

The six diagnostic inputs, their delayed copies and their latches are bit vectors in the order of
`FIFO_REG_DIAG_STATUS`: write Gray error, read Gray error, write overflow, read underflow, write
pointer stuck, read pointer stuck.
-/

namespace PacketBuffering

/-! ## The register map -/

namespace FifoReg

/-- `FIFO_REG_DATA`. -/
def data : BitVec 6 := 0x00

/-- `FIFO_REG_DATA_LAST`. -/
def dataLast : BitVec 6 := 0x04

/-- `FIFO_REG_STATUS`. -/
def status : BitVec 6 := 0x08

/-- `FIFO_REG_CTRL`. -/
def ctrl : BitVec 6 := 0x0C

/-- `FIFO_REG_DIAG_STATUS`. -/
def diagStatus : BitVec 6 := 0x10

/-- `FIFO_REG_OCCUPANCY`. -/
def occupancy : BitVec 6 := 0x14

/-- `FIFO_REG_THRESHOLD`. -/
def threshold : BitVec 6 := 0x18

/-- `FIFO_REG_PACKET_COUNT`. -/
def packetCount : BitVec 6 := 0x1C

end FifoReg

/-- `FIFO_DEFAULT_CTRL`: enabled and streaming. -/
def fifoDefaultCtrl : BitVec 32 := 0x00000005

/-! ## Ports and registers -/

/-- The status inputs from the FIFO. -/
structure FifoStatus where
  cpuRdData : BitVec 32
  wrFull : Bool
  rdEmpty : Bool
  wrOverflow : Bool
  rdUnderflow : Bool
  streamActive : Bool
  almostFull : Bool
  almostEmpty : Bool
  diag : BitVec 6
  wrOccupancy : BitVec 16
  rdOccupancy : BitVec 16
  packetCount : BitVec 32

/-- The registers of `fifo_axi4lite_slave`. -/
structure FifoSlave where
  awready : Bool
  wready : Bool
  bvalid : Bool
  bresp : BitVec 2
  writeInProgress : Bool
  awaddrLatched : BitVec 32
  regCtrl : BitVec 32
  regThreshold : BitVec 32
  almostFullThresh : BitVec 16
  almostEmptyThresh : BitVec 16
  ctrlSoftReset : Bool
  diagClear : BitVec 6
  cpuWrEn : Bool
  cpuWrData : BitVec 32
  cpuWrBe : BitVec 4
  cpuWrLast : Bool
  arready : Bool
  rvalid : Bool
  rresp : BitVec 2
  rdata : BitVec 32
  cpuRdEn : Bool
  diagD : BitVec 6
  diagLatched : BitVec 6

namespace FifoSlave

/-- The values under `!aresetn`. -/
def reset : FifoSlave where
  awready := false
  wready := false
  bvalid := false
  bresp := 0
  writeInProgress := false
  awaddrLatched := 0
  regCtrl := fifoDefaultCtrl
  regThreshold := 0x000E0002
  almostFullThresh := 14
  almostEmptyThresh := 2
  ctrlSoftReset := false
  diagClear := 0
  cpuWrEn := false
  cpuWrData := 0
  cpuWrBe := 0
  cpuWrLast := false
  arready := false
  rvalid := false
  rresp := 0
  rdata := 0
  cpuRdEn := false
  diagD := 0
  diagLatched := 0

variable (s : FifoSlave) (i : AxiLiteIn) (t : FifoStatus)

/-- `ctrl_enable`. -/
def ctrlEnable : Bool := s.regCtrl.getLsbD 0

/-- `ctrl_stream_en`. -/
def ctrlStreamEn : Bool := s.regCtrl.getLsbD 2

/-- `irq_o`, gated by the interrupt enables in `reg_ctrl[7:3]`. -/
def irq : Bool :=
  s.ctrlEnable &&
    ((s.regCtrl.getLsbD 3 && (t.wrOverflow || s.diagLatched.getLsbD 2)) ||
      (s.regCtrl.getLsbD 4 && (t.rdUnderflow || s.diagLatched.getLsbD 3)) ||
      (s.regCtrl.getLsbD 5 && (s.diagLatched.getLsbD 0 || s.diagLatched.getLsbD 1 ||
        s.diagLatched.getLsbD 4 || s.diagLatched.getLsbD 5)) ||
      (s.regCtrl.getLsbD 6 && t.almostFull) ||
      (s.regCtrl.getLsbD 7 && !t.rdEmpty))

/-- `status_word`, bit 7 first. -/
def statusWord : BitVec 32 :=
  (BitVec.ofBoolListBE [s.irq t, t.streamActive, t.almostEmpty, t.almostFull, t.rdUnderflow,
    t.wrOverflow, t.rdEmpty, t.wrFull]).setWidth 32

/-- A register write executes at this edge. -/
def writeExec : Bool := !s.writeInProgress && i.awvalid && i.wvalid

/-- The offset a write executes at, `s_axi_awaddr[5:0]`. -/
def writesTo (a : BitVec 6) : Bool := s.writeExec i && i.awaddr.setWidth 6 == a

/-- A register read executes at this edge. -/
def readExec : Bool := !s.rvalid && i.arvalid

/-- The offset a read executes at, `s_axi_araddr[5:0]`. -/
def readsFrom (a : BitVec 6) : Bool := s.readExec i && i.araddr.setWidth 6 == a

/-- A write to `DATA` or `DATA_LAST` executes: the CPU push request is raised. -/
def pushExec : Bool := s.writesTo i FifoReg.data || s.writesTo i FifoReg.dataLast

/-- The word `s_axi_rdata` is loaded with. -/
def readWord : BitVec 32 :=
  let a := i.araddr.setWidth 6
  if a = FifoReg.data then t.cpuRdData
  else if a = FifoReg.status then s.statusWord t
  else if a = FifoReg.ctrl then s.regCtrl
  else if a = FifoReg.diagStatus then s.diagLatched.setWidth 32
  else if a = FifoReg.occupancy then t.rdOccupancy ++ t.wrOccupancy
  else if a = FifoReg.threshold then s.regThreshold
  else if a = FifoReg.packetCount then t.packetCount
  else 0

/-- **A rising `aclk`.** The clear of a diagnostic latch has priority over a rising edge of its
input; while a write is in progress the response is raised until it is accepted. -/
def clock : FifoSlave where
  awready := s.writeExec i || (!s.writeInProgress && s.awready)
  wready := s.writeExec i || (!s.writeInProgress && s.wready)
  bvalid := if s.writeInProgress then !(s.bvalid && i.bready) else s.bvalid
  bresp := if s.writeInProgress then 0 else s.bresp
  writeInProgress := s.writeExec i || (s.writeInProgress && !(s.bvalid && i.bready))
  awaddrLatched := if s.writeExec i then i.awaddr else s.awaddrLatched
  regCtrl := if s.writesTo i FifoReg.ctrl then i.wdata else s.regCtrl
  regThreshold := if s.writesTo i FifoReg.threshold then i.wdata else s.regThreshold
  almostFullThresh :=
    if s.writesTo i FifoReg.threshold then i.wdata.extractLsb' 16 16 else s.almostFullThresh
  almostEmptyThresh :=
    if s.writesTo i FifoReg.threshold then i.wdata.extractLsb' 0 16 else s.almostEmptyThresh
  ctrlSoftReset := s.writesTo i FifoReg.ctrl && i.wdata.getLsbD 1
  diagClear := if s.writesTo i FifoReg.diagStatus then i.wdata.extractLsb' 0 6 else 0
  cpuWrEn := s.pushExec i
  cpuWrData := if s.pushExec i then i.wdata else s.cpuWrData
  cpuWrBe := if s.pushExec i then i.wstrb else s.cpuWrBe
  cpuWrLast := if s.pushExec i then s.writesTo i FifoReg.dataLast else s.cpuWrLast
  arready := if s.rvalid then false else i.arvalid || s.arready
  rvalid := if s.rvalid then !i.rready else i.arvalid
  rresp := if s.readExec i then 0 else s.rresp
  rdata := if s.readExec i then s.readWord i t else s.rdata
  cpuRdEn := s.readsFrom i FifoReg.data
  diagD := t.diag
  diagLatched := (s.diagLatched ||| (t.diag &&& ~~~s.diagD)) &&& ~~~s.diagClear

theorem reset_ctrlEnable : reset.ctrlEnable = true := by decide

theorem reset_ctrlStreamEn : reset.ctrlStreamEn = true := by decide

theorem clock_regCtrl : (s.clock i t).regCtrl =
    if s.writesTo i FifoReg.ctrl then i.wdata else s.regCtrl := rfl

theorem clock_ctrlEnable : (s.clock i t).ctrlEnable =
    if s.writesTo i FifoReg.ctrl then i.wdata.getLsbD 0 else s.ctrlEnable := by
  rw [ctrlEnable, clock_regCtrl]
  split_ifs <;> rfl

theorem clock_ctrlStreamEn : (s.clock i t).ctrlStreamEn =
    if s.writesTo i FifoReg.ctrl then i.wdata.getLsbD 2 else s.ctrlStreamEn := by
  rw [ctrlStreamEn, clock_regCtrl]
  split_ifs <;> rfl

end FifoSlave

end PacketBuffering
