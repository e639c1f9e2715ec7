import PacketBuffering.Lib.Handshake

/-!
# The UART adapter

`axi4_to_axi4lite_uart_adapter`: single-beat AXI4 accesses for a UART that wants address and data of a
write together, and its requests held until they are answered. Address, data and read requests are
taken independently; one of them at a time is passed on.

The port `axi_uart_bvalid_o` is read where the source names it `uart_bvalid_o`. The burst and sideband
inputs, the ready outputs and the identifiers of the UART are not read, and `uart_write_id_reg` and
`uart_read_id_reg` are never used; they are left out.
-/

namespace PacketBuffering

/-- The widths of the two sides. -/
structure UartWidths where
  dataWidth : ℕ
  addrWidth : ℕ
  strbWidth : ℕ
  idWidth : ℕ
  uartIdWidth : ℕ
  uartAddrWidth : ℕ

/-- The instantiated widths. -/
abbrev UartWidths.default : UartWidths := ⟨32, 32, 4, 8, 12, 5⟩

variable {R : UartWidths}

/-! ## Requests and answers -/

variable (R) in
/-- A request of the master. -/
@[ext] structure UartReq where
  id : BitVec R.idWidth
  addr : BitVec R.addrWidth
deriving DecidableEq

variable (R) in
/-- The data of a write. -/
@[ext] structure UartWData where
  data : BitVec R.dataWidth
  strb : BitVec R.strbWidth
deriving DecidableEq

variable (R) in
/-- A request as the UART sees it. -/
@[ext] structure UartCmd where
  id : BitVec R.uartIdWidth
  addr : BitVec R.uartAddrWidth
deriving DecidableEq

/-- The identifier is zero-extended; only the low bits of the address are passed on. -/
def UartReq.cmd (r : UartReq R) : UartCmd R where
  id := r.id.setWidth R.uartIdWidth
  addr := r.addr.setWidth R.uartAddrWidth

variable (R) in
/-- A read answer of the UART. -/
@[ext] structure UartRData where
  data : BitVec R.dataWidth
  resp : BitVec 2
deriving DecidableEq

variable (R) in
/-- The inputs of one cycle. -/
structure UartAdapterIn where
  awvalid : Bool
  aw : UartReq R
  wvalid : Bool
  w : UartWData R
  bready : Bool
  arvalid : Bool
  ar : UartReq R
  rready : Bool
  uartBvalid : Bool
  uartBresp : BitVec 2
  uartRvalid : Bool
  uartR : UartRData R

variable (R) in
/-- The registers. -/
structure UartAdapter where
  awBufValid : Bool
  awBuf : UartReq R
  wBufValid : Bool
  wBuf : UartWData R
  writeActive : Bool
  readActive : Bool
  writeId : BitVec R.idWidth
  readId : BitVec R.idWidth
  uartWriteAddr : BitVec R.uartAddrWidth
  uartReadAddr : BitVec R.uartAddrWidth
  uartAwvalid : Bool
  uartWvalid : Bool
  uartArvalid : Bool
  readAnswer : UartRData R
  readRespValid : Bool
  writeResp : BitVec 2
  writeRespValid : Bool

namespace UartAdapter

variable (R) in
/-- The values under `rst`. -/
def reset : UartAdapter R where
  awBufValid := false
  awBuf := ⟨0, 0⟩
  wBufValid := false
  wBuf := ⟨0, 0⟩
  writeActive := false
  readActive := false
  writeId := 0
  readId := 0
  uartWriteAddr := 0
  uartReadAddr := 0
  uartAwvalid := false
  uartWvalid := false
  uartArvalid := false
  readAnswer := ⟨0, 0⟩
  readRespValid := false
  writeResp := 0
  writeRespValid := false

variable (s : UartAdapter R) (i : UartAdapterIn R)

/-! ## Outputs -/

/-- A write request is accepted while nothing else is under way. -/
def awready : Bool := !s.awBufValid && !s.writeActive && !s.readActive && !s.writeRespValid

/-- Write data are accepted while nothing else is under way. -/
def wready : Bool := !s.wBufValid && !s.writeActive && !s.readActive && !s.writeRespValid

/-- A read is accepted only when there is no write activity and no pending read response. -/
def arready : Bool :=
  !s.readActive && !s.writeActive && !s.readRespValid && !s.awBufValid && !s.wBufValid &&
    !s.writeRespValid

/-- The response to the master: `s_axi_bid` and `s_axi_bresp`. -/
def b : BitVec R.idWidth × BitVec 2 := (s.writeId, s.writeResp)

/-- The answer to the master: `s_axi_rid`, `s_axi_rdata` and `s_axi_rresp`. -/
def r : BitVec R.idWidth × UartRData R := (s.readId, s.readAnswer)

/-- The write request to the UART: `axi_uart_awid_i` and `axi_uart_awaddr_i`; its data are those of
the buffer. -/
def uartAw : UartCmd R := ⟨s.writeId.setWidth R.uartIdWidth, s.uartWriteAddr⟩

/-- The read request to the UART: `axi_uart_arid_i` and `axi_uart_araddr_i`. -/
def uartAr : UartCmd R := ⟨s.readId.setWidth R.uartIdWidth, s.uartReadAddr⟩

/-- The write response of the UART is taken. -/
def uartBready : Bool := s.uartAwvalid && s.uartWvalid

/-- The read answer of the UART is taken. -/
def uartRready : Bool := s.uartArvalid && !s.readRespValid

/-! ## One cycle -/

/-- A write request is handed over. -/
def awFire : Bool := i.awvalid && s.awready

/-- Write data are handed over. -/
def wFire : Bool := i.wvalid && s.wready

/-- A write response is handed over. -/
def bFire : Bool := s.writeRespValid && i.bready

/-- A read request is handed over. -/
def arFire : Bool := i.arvalid && s.arready

/-- A read answer is handed over. -/
def rFire : Bool := s.readRespValid && i.rready

/-- Both pieces of a write are buffered, and nothing is passed on. -/
def start : Bool :=
  !s.writeActive && !s.readActive && s.awBufValid && s.wBufValid && !s.uartAwvalid && !s.uartWvalid

/-- The UART answers the write that is passed on. -/
def writeDone : Bool := s.writeActive && i.uartBvalid && s.uartBready

/-- The UART answers the read that is passed on. -/
def readDone : Bool := s.readActive && i.uartRvalid && s.uartRready

/-- **A rising clock.** The assignments are those of the source, a later one over an earlier one. -/
def clock : UartAdapter R where
  awBufValid := if s.writeDone i then false else if s.awFire i then true else s.awBufValid
  awBuf := if s.awFire i then i.aw else s.awBuf
  wBufValid := if s.writeDone i then false else if s.wFire i then true else s.wBufValid
  wBuf := if s.wFire i then i.w else s.wBuf
  writeActive := if s.writeDone i then false else if s.start then true else s.writeActive
  readActive := if s.readDone i then false else if s.arFire i then true else s.readActive
  writeId := if s.start then s.awBuf.id else s.writeId
  readId := if s.arFire i then i.ar.id else s.readId
  uartWriteAddr :=
    if s.start then s.awBuf.addr.setWidth R.uartAddrWidth else s.uartWriteAddr
  uartReadAddr := if s.arFire i then i.ar.addr.setWidth R.uartAddrWidth else s.uartReadAddr
  uartAwvalid := if s.writeDone i then false else if s.start then true else s.uartAwvalid
  uartWvalid := if s.writeDone i then false else if s.start then true else s.uartWvalid
  uartArvalid := if s.readDone i then false else if s.arFire i then true else s.uartArvalid
  readAnswer := if s.readDone i then i.uartR else s.readAnswer
  readRespValid := if s.rFire i then false else if s.readDone i then true else s.readRespValid
  writeResp := if s.writeDone i then i.uartBresp else s.writeResp
  writeRespValid := if s.bFire i then false else if s.writeDone i then true else s.writeRespValid

end UartAdapter

end PacketBuffering
