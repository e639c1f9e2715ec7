import PacketBuffering.Uart.Adapter

/-!
# The register interface of the UART

`axi_uart_top` with one common clock: the read and the write state machine, each with the response
gate that belongs to it, and the registers between them. The FIFOs and the controller behind them are
an environment that gives the received byte and the status flags.

The states are those the machines name; the branch for other encodings is not reached.
-/

namespace PacketBuffering

/-! ## The register map

The registers are told apart by bits 4 to 2 of an address. -/

namespace UartOffset

/-- `UART_RBR`. -/
def rbr : BitVec 3 := 0

/-- `UART_THR`. -/
def thr : BitVec 3 := 0

/-- `UART_IER`. -/
def ier : BitVec 3 := 1

/-- `UART_BAUD_DIVISOR`. -/
def baudDivisor : BitVec 3 := 2

/-- `UART_LCR`. -/
def lcr : BitVec 3 := 3

/-- `UART_LSR`. -/
def lsr : BitVec 3 := 5

end UartOffset

/-- The offset of a local address. -/
def uartOffset (addr : BitVec 5) : BitVec 3 := addr.extractLsb' 2 3

/-- `UART_CONFIG_DLAB`. -/
def uartConfigDlab : ℕ := 7

/-- `UART_BAUDRATE_DIV_INIT`: 115200 baud at 100 MHz. -/
def uartBaudrateDivInit : BitVec 32 := 868

/-- The states of the read machine. -/
inductive UartReadState
  | reset
  | config
  | idle
  | ack
deriving DecidableEq

/-- The states of the write machine. -/
inductive UartWriteState
  | reset
  | idle
  | ack
deriving DecidableEq

/-- What the FIFOs show: the oldest byte received, that there is none, that the transmit FIFO is full,
and that it has space. -/
structure UartStatus where
  rxData : BitVec 8
  rxEmpty : Bool
  txFull : Bool
  txSpace : Bool

/-- A request of the AXI side. -/
abbrev UartPortCmd := UartCmd UartWidths.default

/-! ## Writes -/

/-- The registers of the write machine. -/
structure UartWriter where
  state : UartWriteState
  awready : Bool
  wready : Bool
  bvalid : Bool
  bresp : BitVec 2
  bid : BitVec 12
  txFifoReset : Bool
  txFifoPush : Bool
  txFifoDataIn : BitVec 8
  uartBaudrateDiv : BitVec 32
  baudrateDivisor : BitVec 32
  uartConfig : BitVec 32
  uartIrqEn : Bool
  syncWren : Bool

/-- The inputs of the write machine. -/
structure UartWriteIn where
  awvalid : Bool
  aw : UartPortCmd
  wvalid : Bool
  wdata : BitVec 32
  txFull : Bool

/-- `axi_wren`: the UART wants address and data together. -/
def UartWriteIn.wren (i : UartWriteIn) : Bool := i.awvalid && i.wvalid

namespace UartWriter

/-- The values under `~axi_aresetn_i`. -/
def reset : UartWriter where
  state := .reset
  awready := false
  wready := false
  bvalid := false
  bresp := 0
  bid := 0
  txFifoReset := true
  txFifoPush := false
  txFifoDataIn := 0
  uartBaudrateDiv := uartBaudrateDivInit
  baudrateDivisor := uartBaudrateDivInit
  uartConfig := 0
  uartIrqEn := false
  syncWren := false

variable (s : UartWriter) (i : UartWriteIn)

/-- The divisor latch bit. -/
def uartDlab : Bool := s.uartConfig.getLsbD uartConfigDlab

/-- The valid flag of a write response, gated by `axi_wren`. -/
def bvalidO (wren : Bool) : Bool := wren && !s.syncWren && s.bvalid

/-- The response of a write, gated by `axi_wren`. -/
def brespO (wren : Bool) : BitVec 2 := if wren && !s.syncWren then s.bresp else 0

/-- `axi_sync_wren_d`. -/
def syncWrenNext : Bool :=
  if s.syncWren then s.awready || s.wready || s.bvalid
  else !(i.awvalid || i.wvalid || s.bvalidO i.wren) && (s.awready && s.wready)

/-- A write is answered. -/
def respond : UartWriter :=
  { s with awready := true, wready := true, bvalid := true, bresp := 0, state := .ack }

/-- A write in the idle state; one to `THR` waits for room in the FIFO, and one to an address that is
not present is answered too. -/
def decode : UartWriter :=
  let offset := uartOffset i.aw.addr
  if offset = UartOffset.thr then
    if !s.uartDlab then
      if !i.txFull then
        { s.respond with txFifoPush := true, txFifoDataIn := i.wdata.setWidth 8 }
      else s
    else s.respond
  else if offset = UartOffset.ier then
    if !s.uartDlab then { s.respond with uartIrqEn := i.wdata.getLsbD 0 } else s.respond
  else if offset = UartOffset.baudDivisor then
    if s.uartDlab then { s.respond with baudrateDivisor := i.wdata } else s.respond
  else if offset = UartOffset.lcr then { s.respond with uartConfig := i.wdata }
  else s.respond

/-- `write fsm: comb`. -/
def next : UartWriter :=
  match s.state with
  | .reset =>
    { reset with syncWren := s.syncWren, state := .idle }
  | .idle =>
    if i.wren then { s.decode i with bid := i.aw.id }
    else { s with awready := false, wready := false, bvalid := false, bresp := 0 }
  | .ack =>
    { s with
      awready := false, wready := false, bvalid := false, bresp := 0, bid := 0, txFifoPush := false,
      txFifoReset := false, uartBaudrateDiv := s.baudrateDivisor, state := .idle }

/-- **A rising clock** of the write machine. -/
def clock : UartWriter := { s.next i with syncWren := s.syncWrenNext i }

end UartWriter

/-! ## Reads -/

/-- The registers of the read machine. -/
structure UartReader where
  state : UartReadState
  arready : Bool
  rdata : BitVec 32
  rresp : BitVec 2
  rvalid : Bool
  rid : BitVec 12
  rxFifoReset : Bool
  rxFifoPull : Bool
  syncRden : Bool

/-- The inputs of the read machine; the line status register is one of them. -/
structure UartReadIn where
  arvalid : Bool
  ar : UartPortCmd
  dlab : Bool
  rxData : BitVec 8
  lsr : BitVec 32

namespace UartReader

/-- The values under `~axi_aresetn_i`. -/
def reset : UartReader where
  state := .reset
  arready := false
  rdata := 0
  rresp := 0
  rvalid := false
  rid := 0
  rxFifoReset := true
  rxFifoPull := false
  syncRden := false

variable (s : UartReader) (i : UartReadIn)

/-- The valid flag of a read answer, gated by `axi_rden`. -/
def rvalidO (rden : Bool) : Bool := rden && !s.syncRden && s.rvalid

/-- The response of a read, gated by `axi_rden`. -/
def rrespO (rden : Bool) : BitVec 2 := if rden && !s.syncRden then s.rresp else 0

/-- `axi_sync_rden_d`. -/
def syncRdenNext : Bool :=
  if s.syncRden then s.arready || s.rvalid else !(i.arvalid || s.rvalidO i.arvalid) && s.arready

/-- A read in the idle state; one from an address that is not present is not answered. -/
def decode : UartReader :=
  let offset := uartOffset i.ar.addr
  if offset = UartOffset.rbr then
    if !i.dlab then
      { s with
        arready := true, rdata := i.rxData.setWidth 32, rvalid := true, rresp := 0,
        rxFifoPull := true, state := .ack }
    else { s with arready := true, rresp := 0, rvalid := true, state := .ack }
  else if offset = UartOffset.lsr then
    { s with arready := true, rdata := i.lsr, rresp := 0, rvalid := true, state := .ack }
  else { s with arready := false, rresp := 0, rvalid := false, state := .ack }

/-- `read fsm: comb`. -/
def next : UartReader :=
  match s.state with
  | .reset =>
    { s with
      arready := false, rdata := 0, rresp := 0, rvalid := false, rid := 0, rxFifoReset := true,
      rxFifoPull := false, state := .config }
  | .config =>
    { s with
      arready := false, rresp := 0, rvalid := false, rid := 0, rxFifoReset := true, state := .idle }
  | .idle =>
    if i.arvalid then { s.decode i with rid := i.ar.id }
    else { s with arready := false, rresp := 0, rvalid := false }
  | .ack =>
    { s with
      arready := false, rresp := 0, rvalid := false, rid := 0, rxFifoPull := false,
      rxFifoReset := false, state := .idle }

/-- **A rising clock** of the read machine. -/
def clock : UartReader := { s.next i with syncRden := s.syncRdenNext i }

end UartReader

/-! ## The UART -/

/-- The registers of the UART. -/
structure AxiUart where
  wr : UartWriter
  rd : UartReader
  readInterrupt : Bool

/-- The requests of one cycle; the strobes and the ready inputs are not read. -/
structure AxiUartIn where
  awvalid : Bool
  aw : UartPortCmd
  wvalid : Bool
  wdata : BitVec 32
  arvalid : Bool
  ar : UartPortCmd

namespace AxiUart

/-- The values under `~axi_aresetn_i`. -/
def reset : AxiUart := ⟨.reset, .reset, false⟩

variable (s : AxiUart) (i : AxiUartIn) (t : UartStatus)

/-- `uart_lsr_reg_int`, bit 6 first: `TEMT`, `THRE` and `DATA_READY`. -/
def lsr : BitVec 32 :=
  (BitVec.ofBoolListBE [t.txSpace, t.txSpace, false, false, false, false,
    !t.rxEmpty && s.wr.uartIrqEn]).setWidth 32

/-- The inputs of the write machine. -/
def writeIn : UartWriteIn := ⟨i.awvalid, i.aw, i.wvalid, i.wdata, t.txFull⟩

/-- The inputs of the read machine. -/
def readIn : UartReadIn := ⟨i.arvalid, i.ar, s.wr.uartDlab, t.rxData, s.lsr t⟩

/-- **A rising clock.** -/
def clock : AxiUart where
  wr := s.wr.clock (writeIn i t)
  rd := s.rd.clock (s.readIn i t)
  readInterrupt := !t.rxEmpty && s.wr.uartIrqEn

end AxiUart

/-! ## The bridge -/

/-- The inputs of one cycle: the master of the adapter, and the status of the FIFOs. -/
structure UartBridgeIn where
  awvalid : Bool
  aw : UartReq .default
  wvalid : Bool
  w : UartWData .default
  bready : Bool
  arvalid : Bool
  ar : UartReq .default
  rready : Bool
  status : UartStatus

/-- The adapter and the UART behind it. -/
structure UartBridge where
  adapter : UartAdapter .default
  uart : AxiUart

namespace UartBridge

/-- The state after reset. -/
def reset : UartBridge := ⟨.reset _, .reset⟩

variable (p : UartBridge) (i : UartBridgeIn)

/-- The requests of the adapter. -/
def uartIn : AxiUartIn where
  awvalid := p.adapter.uartAwvalid
  aw := p.adapter.uartAw
  wvalid := p.adapter.uartWvalid
  wdata := p.adapter.wBuf.data
  arvalid := p.adapter.uartArvalid
  ar := p.adapter.uartAr

/-- `axi_uart_rvalid_o`. -/
def uartRvalid : Bool := p.uart.rd.rvalidO p.adapter.uartArvalid

/-- The inputs of the adapter: its master, and the responses of the UART. -/
def adapterIn : UartAdapterIn .default where
  awvalid := i.awvalid
  aw := i.aw
  wvalid := i.wvalid
  w := i.w
  bready := i.bready
  arvalid := i.arvalid
  ar := i.ar
  rready := i.rready
  uartBvalid := p.uart.wr.bvalidO (p.adapter.uartAwvalid && p.adapter.uartWvalid)
  uartBresp := p.uart.wr.brespO (p.adapter.uartAwvalid && p.adapter.uartWvalid)
  uartRvalid := p.uartRvalid
  uartR := ⟨p.uart.rd.rdata, p.uart.rd.rrespO p.adapter.uartArvalid⟩

/-- **A rising clock** of both. -/
def clock : UartBridge where
  adapter := p.adapter.clock (p.adapterIn i)
  uart := p.uart.clock p.uartIn i.status

end UartBridge

end PacketBuffering
