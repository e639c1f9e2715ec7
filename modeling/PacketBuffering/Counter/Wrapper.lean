import PacketBuffering.Lib.Handshake

/-!
# The packet counter

`packet_counter`: four event counters of any width; `packet_counter_axi4lite_wrapper`: their registers
behind AXI4-Lite. Address and data of a write are taken independently, and a write executes in the
cycle that brings its second half.
-/

namespace PacketBuffering

/-! ## The counters -/

/-- The statistics that are kept. -/
inductive PacketStat
  | received
  | processed
  | crcError
  | fifoOverflow
deriving DecidableEq

/-- The event pulses of one cycle. -/
structure PacketEvents where
  packetReceived : Bool
  packetProcessed : Bool
  crcError : Bool
  fifoOverflow : Bool

/-- The event of a statistic. -/
def PacketEvents.of (e : PacketEvents) : PacketStat → Bool
  | .received => e.packetReceived
  | .processed => e.packetProcessed
  | .crcError => e.crcError
  | .fifoOverflow => e.fifoOverflow

/-- The registers of `packet_counter`. -/
structure PacketCounter (w : ℕ) where
  receivedCount : BitVec w
  processedCount : BitVec w
  crcErrorCount : BitVec w
  fifoOverflowCount : BitVec w

namespace PacketCounter

variable {w : ℕ}

/-- The counter of a statistic. -/
def of (s : PacketCounter w) : PacketStat → BitVec w
  | .received => s.receivedCount
  | .processed => s.processedCount
  | .crcError => s.crcErrorCount
  | .fifoOverflow => s.fifoOverflowCount

variable (w) in
/-- The values under `rst`. -/
def reset : PacketCounter w := ⟨0, 0, 0, 0⟩

/-- **A rising clock** without reset; the clear has priority over the events. -/
def clock (s : PacketCounter w) (enable clear : Bool) (e : PacketEvents) : PacketCounter w :=
  if clear then reset w
  else if enable then
    { receivedCount := if e.packetReceived then s.receivedCount + 1 else s.receivedCount
      processedCount := if e.packetProcessed then s.processedCount + 1 else s.processedCount
      crcErrorCount := if e.crcError then s.crcErrorCount + 1 else s.crcErrorCount
      fifoOverflowCount := if e.fifoOverflow then s.fifoOverflowCount + 1 else s.fifoOverflowCount }
  else s

theorem clock_of (s : PacketCounter w) (enable clear : Bool) (e : PacketEvents) (k : PacketStat) :
    (s.clock enable clear e).of k =
      if clear then 0 else if enable && e.of k then s.of k + 1 else s.of k := by
  rw [clock]
  cases k <;> cases clear <;> cases enable <;> rfl

end PacketCounter

/-! ## The register map -/

namespace CounterReg

/-- `REG_CONTROL`. -/
def control : BitVec 8 := 0x00

/-- `REG_STATUS`. -/
def status : BitVec 8 := 0x04

/-- `REG_RX_COUNT`. -/
def rxCount : BitVec 8 := 0x08

/-- `REG_PROCESSED`. -/
def processed : BitVec 8 := 0x0C

/-- `REG_CRC_ERRORS`. -/
def crcErrors : BitVec 8 := 0x10

/-- `REG_FIFO_OVERFLOW`. -/
def fifoOverflow : BitVec 8 := 0x14

end CounterReg

/-! ## The wrapper -/

/-- The inputs of one cycle. -/
structure CounterIn where
  aresetn : Bool
  axi : AxiLiteIn
  events : PacketEvents

/-- A write: address, data and strobes. -/
structure CounterWrite where
  addr : BitVec 32
  data : BitVec 32
  strb : BitVec 4
deriving DecidableEq

namespace CounterWrite

variable (x : CounterWrite)

/-- The write is one of `CONTROL`; every other one is an error. -/
def isControl : Bool := x.addr.extractLsb' 0 2 == 0 && x.addr.extractLsb' 0 8 == CounterReg.control

/-- The response to the write. -/
def resp : BitVec 2 := if x.isControl then axiRespOkay else axiRespSlverr

/-- The write sets the enable bit. -/
def setsEnable : Bool := x.isControl && x.strb.getLsbD 0

/-- The write clears the counters. -/
def clears : Bool := x.setsEnable && x.data.getLsbD 1

end CounterWrite

/-- The registers of `packet_counter_axi4lite_wrapper` and of the counters in it. -/
structure CounterWrapper (w : ℕ) where
  awPending : Bool
  wPending : Bool
  awaddrHold : BitVec 32
  wdataHold : BitVec 32
  wstrbHold : BitVec 4
  enableReg : Bool
  clearPulse : Bool
  bresp : BitVec 2
  bvalid : Bool
  rdata : BitVec 32
  rresp : BitVec 2
  rvalid : Bool
  core : PacketCounter w

namespace CounterWrapper

variable {w : ℕ}

variable (w) in
/-- The values under `!aresetn`. -/
def reset : CounterWrapper w where
  awPending := false
  wPending := false
  awaddrHold := 0
  wdataHold := 0
  wstrbHold := 0
  enableReg := false
  clearPulse := false
  bresp := axiRespOkay
  bvalid := false
  rdata := 0
  rresp := axiRespOkay
  rvalid := false
  core := .reset w

variable (s : CounterWrapper w) (i : AxiLiteIn)

/-- `s_axi_awready`: no address and no response is held. -/
def awready : Bool := !s.awPending && !s.bvalid

/-- `s_axi_wready`: no data and no response is held. -/
def wready : Bool := !s.wPending && !s.bvalid

/-- `s_axi_arready`: no answer is held. -/
def arready : Bool := !s.rvalid

/-- `aw_handshake`. -/
def awHandshake : Bool := i.awvalid && s.awready

/-- `w_handshake`. -/
def wHandshake : Bool := i.wvalid && s.wready

/-- `ar_handshake`. -/
def arHandshake : Bool := i.arvalid && s.arready

/-- The write response is handed over. -/
def bHandshake : Bool := s.bvalid && i.bready

/-- The read answer is handed over. -/
def rHandshake : Bool := s.rvalid && i.rready

/-- `write_complete`: both halves of a write are there, and no response is held. -/
def writeComplete : Bool :=
  (s.awPending || s.awHandshake i) && (s.wPending || s.wHandshake i) && !s.bvalid

/-- The write of this cycle, each half from its hold register or from its inputs. -/
def write : CounterWrite where
  addr := if s.awPending then s.awaddrHold else i.awaddr
  data := if s.wPending then s.wdataHold else i.wdata
  strb := if s.wPending then s.wstrbHold else i.wstrb

/-- Bit 1 of `STATUS`. -/
def anyNonzero : Bool :=
  s.core.receivedCount != 0 || s.core.processedCount != 0 || s.core.crcErrorCount != 0 ||
    s.core.fifoOverflowCount != 0

/-- The answer to a read: the word and the response. -/
def answer (araddr : BitVec 32) : BitVec 32 × BitVec 2 :=
  let offset := araddr.extractLsb' 0 8
  if araddr.extractLsb' 0 2 ≠ 0 then (0, axiRespSlverr)
  else if offset = CounterReg.control then ((BitVec.ofBool s.enableReg).setWidth 32, axiRespOkay)
  else if offset = CounterReg.status then
    ((BitVec.ofBool s.anyNonzero ++ BitVec.ofBool s.enableReg).setWidth 32, axiRespOkay)
  else if offset = CounterReg.rxCount then (s.core.receivedCount.setWidth 32, axiRespOkay)
  else if offset = CounterReg.processed then (s.core.processedCount.setWidth 32, axiRespOkay)
  else if offset = CounterReg.crcErrors then (s.core.crcErrorCount.setWidth 32, axiRespOkay)
  else if offset = CounterReg.fifoOverflow then
    (s.core.fifoOverflowCount.setWidth 32, axiRespOkay)
  else (0, axiRespSlverr)

/-- A rising clock without reset. -/
def next (e : PacketEvents) : CounterWrapper w where
  awPending := if s.writeComplete i then false else if s.awHandshake i then true else s.awPending
  wPending := if s.writeComplete i then false else if s.wHandshake i then true else s.wPending
  awaddrHold := if s.awHandshake i then i.awaddr else s.awaddrHold
  wdataHold := if s.wHandshake i then i.wdata else s.wdataHold
  wstrbHold := if s.wHandshake i then i.wstrb else s.wstrbHold
  enableReg :=
    if s.writeComplete i && (s.write i).setsEnable then (s.write i).data.getLsbD 0 else s.enableReg
  clearPulse := s.writeComplete i && (s.write i).clears
  bresp := if s.writeComplete i then (s.write i).resp else s.bresp
  bvalid := if s.bHandshake i then false else if s.writeComplete i then true else s.bvalid
  rdata := if s.arHandshake i then (s.answer i.araddr).1 else s.rdata
  rresp := if s.arHandshake i then (s.answer i.araddr).2 else s.rresp
  rvalid := if s.rHandshake i then false else if s.arHandshake i then true else s.rvalid
  core := s.core.clock s.enableReg s.clearPulse e

/-- **A rising `aclk`.** -/
def clock (i : CounterIn) : CounterWrapper w :=
  if i.aresetn then s.next i.axi i.events else reset w

end CounterWrapper

end PacketBuffering
