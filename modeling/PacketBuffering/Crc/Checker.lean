import PacketBuffering.Crc.Engine
import PacketBuffering.Lib.Packet

/-!
# The CRC checker

`crc_checker`: takes a packet stream, feeds it to the CRC engine and gives a verdict on each packet
in one verification cycle, during which the stream is stalled.

* `CheckerIn`, `CrcChecker`, **`CrcChecker.clock`**: the inputs of one cycle, the registers and the
  clock edge.
* `Beat`, `CrcChecker.beats`: a word taken from the stream, with the polynomial and the seed in force
  at that cycle; `CrcChecker.pulses`: the verdict reported by `crc_done_o`.
-/

namespace PacketBuffering

/-- `CRC_MODE_REGISTER`. -/
def crcModeRegister : BitVec 2 := 0b01

/-- `CRC_MODE_COMPUTE_ONLY`. -/
def crcModeComputeOnly : BitVec 2 := 0b10

/-- `count_bytes`: the number of enabled lanes. -/
def countBytes (be : BitVec 4) : BitVec 3 :=
  (if be.getLsbD 0 then 1 else 0) + (if be.getLsbD 1 then 1 else 0) +
    (if be.getLsbD 2 then 1 else 0) + (if be.getLsbD 3 then 1 else 0)

theorem countBytes_eq (d : BitVec 32) (be : BitVec 4) :
    (countBytes be).setWidth 32 = BitVec.ofNat 32 (enabledBytes d be).length := by
  rw [enabledBytes, List.length_map]
  revert be
  decide

/-! ## Inputs and registers -/

/-- The inputs of one cycle. -/
structure CheckerIn where
  enable : Bool
  softReset : Bool
  modeConfig : BitVec 2
  autoClear : Bool
  polyRev : BitVec 32
  initVal : BitVec 32
  expCrcReg : BitVec 32
  expCrcWe : Bool
  clearCounters : Bool
  manualDataValid : Bool
  manualDataBe : BitVec 4
  manualDataIn : BitVec 32
  manualDataLast : Bool
  sAxisTvalid : Bool
  sAxis : Payload

/-- The states of the checker; the fourth code of the two-bit register is never entered. -/
inductive CheckState
  | idle
  | stream
  | verify
deriving DecidableEq

/-- The registers of `crc_checker`, the engine's included. -/
structure CrcChecker where
  state : CheckState
  packetActive : Bool
  crcPass : Bool
  crcError : Bool
  crcDone : Bool
  statusDone : Bool
  statusPass : Bool
  statusError : Bool
  calcCrcResult : BitVec 32
  expCrcResult : BitVec 32
  byteCount : BitVec 32
  passCount : BitVec 32
  errorCount : BitVec 32
  expCrcHold : BitVec 32
  engine : Crc32Engine

namespace CrcChecker

/-- The values under `!rst_n`. -/
def reset : CrcChecker where
  state := .idle
  packetActive := false
  crcPass := false
  crcError := false
  crcDone := false
  statusDone := false
  statusPass := false
  statusError := false
  calcCrcResult := 0
  expCrcResult := 0
  byteCount := 0
  passCount := 0
  errorCount := 0
  expCrcHold := 0
  engine := .reset

variable (s : CrcChecker) (i : CheckerIn)

/-- `s_axis_tready`. -/
def sAxisTready : Bool := i.enable && s.state != .verify

/-- `stream_fire`. -/
def streamFire : Bool := i.sAxisTvalid && s.sAxisTready i

/-- `start_of_new_packet`. -/
def startOfNewPacket : Bool := s.state == .idle && s.streamFire i && i.autoClear

/-- `crc_busy`. -/
def crcBusy : Bool := s.state == .stream || s.state == .verify

/-- The engine's inputs: the stream has priority over the manual port. -/
def engineIn : EngineIn where
  init := i.softReset || s.startOfNewPacket i
  dataValid := s.streamFire i || i.manualDataValid
  byteEn :=
    if s.streamFire i then i.sAxis.tkeep else if i.manualDataValid then i.manualDataBe else 0
  dataIn :=
    if s.streamFire i then i.sAxis.tdata else if i.manualDataValid then i.manualDataIn else 0
  polyRevIn := i.polyRev
  initValIn := i.initVal

/-- The registers outside the state machine. -/
def clockDatapath : CrcChecker :=
  { s with
    engine := s.engine.clock (s.engineIn i)
    expCrcHold := if i.expCrcWe then i.expCrcReg else s.expCrcHold }

/-- The default assignments of a cycle out of reset: the pulses fall, and the counters are cleared
on demand. -/
def clockDefaults : CrcChecker :=
  { s.clockDatapath i with
    crcPass := false
    crcError := false
    crcDone := false
    passCount := if i.clearCounters then 0 else s.passCount
    errorCount := if i.clearCounters then 0 else s.errorCount }

/-- A rising clock in `STATE_IDLE`. -/
def clockIdle : CrcChecker :=
  if i.enable && s.streamFire i then
    { s.clockDefaults i with
      state := if i.sAxis.tlast then .verify else .stream
      packetActive := true
      statusDone := false
      byteCount := (countBytes i.sAxis.tkeep).setWidth 32 }
  else if i.enable && i.manualDataValid then
    { s.clockDefaults i with
      state := if i.manualDataLast then .verify else .idle
      byteCount := s.byteCount + (countBytes i.manualDataBe).setWidth 32 }
  else s.clockDefaults i

/-- A rising clock in `STATE_STREAM`. -/
def clockStream : CrcChecker :=
  if s.streamFire i then
    { s.clockDefaults i with
      state := if i.sAxis.tlast then .verify else .stream
      byteCount := s.byteCount + (countBytes i.sAxis.tkeep).setWidth 32 }
  else s.clockDefaults i

/-- The verification cycle; a count overrides a clear of the same counter. -/
def clockVerify : CrcChecker :=
  let t : CrcChecker :=
    { s.clockDefaults i with
      state := .idle
      packetActive := false
      crcDone := true
      statusDone := true
      calcCrcResult := s.engine.crcOut
      expCrcResult := s.expCrcHold }
  if i.modeConfig = crcModeComputeOnly then { t with statusPass := false, statusError := false }
  else if s.engine.crcOut = s.expCrcHold then
    { t with
      crcPass := true, statusPass := true, statusError := false, passCount := s.passCount + 1 }
  else
    { t with
      crcError := true, statusPass := false, statusError := true, errorCount := s.errorCount + 1 }

/-- The soft reset: the results and the counters are kept. -/
def clockSoftReset : CrcChecker :=
  { s.clockDatapath i with
    state := .idle
    packetActive := false
    crcPass := false
    crcError := false
    crcDone := false
    statusDone := false
    statusPass := false
    statusError := false
    byteCount := 0 }

/-- **A rising `clk`.** -/
def clock : CrcChecker :=
  if i.softReset then s.clockSoftReset i
  else
    match s.state with
    | .idle => s.clockIdle i
    | .stream => s.clockStream i
    | .verify => s.clockVerify i

end CrcChecker

/-! ## What is observed -/

/-- The enabled bytes of a stream word. -/
def Payload.bytes (w : Payload) : List (BitVec 8) := enabledBytes w.tdata w.tkeep

/-- A word taken from the stream, with the polynomial and the seed in force. -/
structure Beat where
  word : Payload
  poly : BitVec 32
  seed : BitVec 32

namespace Beat

/-- The mark of the last word of a packet. -/
def last (b : Beat) : Bool := b.word.tlast

/-- The enabled bytes of the word. -/
def bytes (b : Beat) : List (BitVec 8) := b.word.bytes

/-- The engine's register after the word. -/
def feed (c : BitVec 32) (b : Beat) : BitVec 32 :=
  b.bytes.foldl (fun c d => updateByte c d b.poly) c

/-- The engine's register after a packet: seeded with its first word. -/
def packetReg : List Beat → BitVec 32
  | [] => crc32DefaultInit
  | b :: bs => (b :: bs).foldl feed b.seed

/-- The CRC of a packet. -/
def packetCrc (p : List Beat) : BitVec 32 := packetReg p ^^^ crc32DefaultXorout

/-- The number of enabled bytes of a packet. -/
def byteLength (p : List Beat) : ℕ := (p.flatMap bytes).length

end Beat

/-- What is reported in a cycle with `crc_done_o = 1`, with the expected CRC held in the verification
cycle before it. -/
structure Verdict where
  calcCrc : BitVec 32
  byteCount : BitVec 32
  pass : Bool
  error : Bool
  expHold : BitVec 32
deriving DecidableEq

namespace CrcChecker

variable (s : CrcChecker) (i : CheckerIn)

/-- The word taken from the stream at the edge. -/
def streamWords : List Payload := if s.streamFire i then [i.sAxis] else []

/-- The same, with the engine's parameters. -/
def beats : List Beat :=
  if s.streamFire i then [⟨i.sAxis, effectivePoly i.polyRev, effectiveInit i.initVal⟩] else []

/-- The report after the edge. -/
def pulses : List Verdict :=
  let t := s.clock i
  if t.crcDone then [⟨t.calcCrcResult, t.byteCount, t.crcPass, t.crcError, s.expCrcHold⟩] else []

end CrcChecker

end PacketBuffering
