import PacketBuffering.Crc.Checker
import PacketBuffering.Crc.Slave

/-!
# The CRC unit

`crc_top`: the checker behind its register interface, on one clock. The register interface drives the
control, configuration and manual-data inputs of the checker from registers, and reads its results.
-/

namespace PacketBuffering

/-- The registers of `crc_top`. -/
structure CrcTop where
  slave : CrcSlave
  checker : CrcChecker

/-- The inputs of one cycle. -/
structure CrcTopIn where
  axi : AxiLiteIn
  sAxisTvalid : Bool
  sAxis : Payload

namespace CrcTop

/-- The values under `!rst_n`. -/
def reset : CrcTop := ⟨.reset, .reset⟩

variable (s : CrcTop) (e : CrcTopIn)

/-- What the checker sees. -/
def checkerIn : CheckerIn where
  enable := s.slave.ctrlEnable
  softReset := s.slave.ctrlSoftReset
  modeConfig := s.slave.modeConfig
  autoClear := s.slave.ctrlAutoClear
  polyRev := s.slave.polyRev
  initVal := s.slave.initVal
  expCrcReg := s.slave.expCrcReg
  expCrcWe := s.slave.expCrcWe
  clearCounters := s.slave.clearCounters
  manualDataValid := s.slave.manualDataValid
  manualDataBe := s.slave.manualDataBe
  manualDataIn := s.slave.manualDataIn
  manualDataLast := s.slave.manualDataLast
  sAxisTvalid := e.sAxisTvalid
  sAxis := e.sAxis

/-- What the register interface sees of the checker. -/
def status : CrcStatus where
  busy := s.checker.crcBusy
  done := s.checker.crcDone
  pass := s.checker.crcPass
  error := s.checker.crcError
  calcCrcResult := s.checker.calcCrcResult
  byteCount := s.checker.byteCount
  passCount := s.checker.passCount
  errorCount := s.checker.errorCount

/-- **A rising `clk`.** -/
def step : CrcTop where
  slave := s.slave.clock e.axi s.status
  checker := s.checker.clock (s.checkerIn e)

/-! ## What is observed -/

/-- The word taken from the stream. -/
def streamWords : List Payload := s.checker.streamWords (s.checkerIn e)

/-- The word on the manual port, with the mark of the last one. -/
def manualWords : List Payload :=
  if s.slave.manualDataValid then
    [⟨s.slave.manualDataLast, s.slave.manualDataBe, s.slave.manualDataIn⟩]
  else []

/-- The report after the edge. -/
def pulses : List Verdict := s.checker.pulses (s.checkerIn e)

end CrcTop

end PacketBuffering
