import PacketBuffering.Crc.Engine
import PacketBuffering.Lib.Handshake
import PacketBuffering.Lib.Lanes

/-!
# The register interface of the CRC unit

`crc_axi4lite_slave`: the AXI4-Lite channels, the control, status and configuration registers behind
them and the port for manual data. An address selects a register by its bits `5:2`. Write and read
channel are independent.

The input `exp_crc_result_i` is not read by the source.
-/

namespace PacketBuffering

/-! ## The register map -/

namespace CrcReg

/-- Bits 5 to 2 of `CRC_REG_CTRL`. -/
def ctrl : BitVec 4 := 0x0

/-- Bits 5 to 2 of `CRC_REG_STATUS`. -/
def status : BitVec 4 := 0x1

/-- Bits 5 to 2 of `CRC_REG_CALC_RESULT`. -/
def calcResult : BitVec 4 := 0x2

/-- Bits 5 to 2 of `CRC_REG_EXP_RESULT`. -/
def expResult : BitVec 4 := 0x3

/-- Bits 5 to 2 of `CRC_REG_POLY`. -/
def poly : BitVec 4 := 0x4

/-- Bits 5 to 2 of `CRC_REG_INIT_VAL`. -/
def initVal : BitVec 4 := 0x5

/-- Bits 5 to 2 of `CRC_REG_BYTE_COUNT`. -/
def byteCount : BitVec 4 := 0x6

/-- Bits 5 to 2 of `CRC_REG_MANUAL_DATA`. -/
def manualData : BitVec 4 := 0x7

/-- Bits 5 to 2 of `CRC_REG_ERROR_COUNT`. -/
def errorCount : BitVec 4 := 0x8

/-- Bits 5 to 2 of `CRC_REG_PASS_COUNT`. -/
def passCount : BitVec 4 := 0x9

/-- Bits 5 to 2 of `CRC_REG_MODE_CONFIG`. -/
def modeConfig : BitVec 4 := 0xA

end CrcReg

/-- The register an address selects, its bits `5:2`. -/
def crcRegOf (addr : BitVec 32) : BitVec 4 := addr.extractLsb' 2 4

/-- Bit `k` of a register, if `b`. -/
def bitIf (b : Bool) (k : ℕ) : BitVec 32 := if b then 1#32 <<< k else 0

/-! ## Ports and registers -/

/-- The status inputs from the checker. -/
structure CrcStatus where
  busy : Bool
  done : Bool
  pass : Bool
  error : Bool
  calcCrcResult : BitVec 32
  byteCount : BitVec 32
  passCount : BitVec 32
  errorCount : BitVec 32

/-- The registers of `crc_axi4lite_slave`. -/
structure CrcSlave where
  awready : Bool
  wready : Bool
  bvalid : Bool
  bresp : BitVec 2
  awEn : Bool
  regCtrl : BitVec 32
  regStatus : BitVec 32
  regModeConfig : BitVec 32
  polyRev : BitVec 32
  initVal : BitVec 32
  expCrcReg : BitVec 32
  expCrcWe : Bool
  ctrlSoftReset : Bool
  clearCounters : Bool
  manualDataValid : Bool
  manualDataBe : BitVec 4
  manualDataIn : BitVec 32
  manualDataLast : Bool
  arready : Bool
  rvalid : Bool
  rresp : BitVec 2
  rdata : BitVec 32
  raddrLatched : BitVec 32

namespace CrcSlave

/-- The values under `!aresetn`: enabled with `auto_clear`, in register mode. -/
def reset : CrcSlave where
  awready := false
  wready := false
  bvalid := false
  bresp := 0
  awEn := true
  regCtrl := 0x00000011
  regStatus := 0
  regModeConfig := 0x00000001
  polyRev := crc32DefaultPolyRev
  initVal := crc32DefaultInit
  expCrcReg := 0
  expCrcWe := false
  ctrlSoftReset := false
  clearCounters := false
  manualDataValid := false
  manualDataBe := 0
  manualDataIn := 0
  manualDataLast := false
  arready := false
  rvalid := false
  rresp := 0
  rdata := 0
  raddrLatched := 0

variable (s : CrcSlave) (i : AxiLiteIn) (t : CrcStatus)

/-- `ctrl_enable`. -/
def ctrlEnable : Bool := s.regCtrl.getLsbD 0

/-- `ctrl_auto_clear`. -/
def ctrlAutoClear : Bool := s.regCtrl.getLsbD 4

/-- `mode_config`. -/
def modeConfig : BitVec 2 := s.regModeConfig.extractLsb' 0 2

/-- `irq_o`: done or error, each under its enable. -/
def irq : Bool :=
  (s.regStatus.getLsbD 1 && s.regCtrl.getLsbD 2) || (s.regStatus.getLsbD 3 && s.regCtrl.getLsbD 3)

/-! ## The write channels -/

/-- The ready pulse is raised: both channels offer, and no write awaits its response. -/
def writeReady : Bool := !s.awready && i.awvalid && i.wvalid && s.awEn

/-- A register write executes at this edge: both channels are handshaken. -/
def writeExec : Bool := s.awready && s.wready && i.awvalid && i.wvalid

/-- A write to the register `a` executes. -/
def writesTo (a : BitVec 4) : Bool := s.writeExec i && crcRegOf i.awaddr == a

/-- The response is accepted. -/
def bFire : Bool := i.bready && s.bvalid

/-- A configuration register with the index `a` after the edge. -/
def configNext (a : BitVec 4) (old : BitVec 32) : BitVec 32 :=
  if s.writesTo i a then strobed i.wstrb i.wdata old else old

/-- `reg_status`: busy and interrupt follow their inputs, a report sets its flag, and a write of `1`
clears it with priority. -/
def regStatusNext : BitVec 32 :=
  ((s.regStatus &&& ~~~(0x21 : BitVec 32)) ||| bitIf t.busy 0 ||| bitIf s.irq 5 ||| bitIf t.done 1 |||
      bitIf t.pass 2 ||| bitIf t.error 3) &&&
    ~~~(if s.writesTo i CrcReg.status && i.wstrb.getLsbD 0 then i.wdata &&& 0xE else 0)

/-! ## The read channels -/

/-- The read address is handshaken and the read executes. -/
def arFire : Bool := s.arready && i.arvalid

/-- The read data is accepted. -/
def rFire : Bool := i.rready && s.rvalid

/-- The word of the register `s_axi_araddr` selects. -/
def readWord : BitVec 32 :=
  let a := crcRegOf i.araddr
  if a = CrcReg.ctrl then s.regCtrl
  else if a = CrcReg.status then s.regStatus
  else if a = CrcReg.calcResult then t.calcCrcResult
  else if a = CrcReg.expResult then s.expCrcReg
  else if a = CrcReg.poly then s.polyRev
  else if a = CrcReg.initVal then s.initVal
  else if a = CrcReg.byteCount then t.byteCount
  else if a = CrcReg.manualData then 0
  else if a = CrcReg.errorCount then t.errorCount
  else if a = CrcReg.passCount then t.passCount
  else if a = CrcReg.modeConfig then s.regModeConfig
  else 0xDEADBEEF

/-! ## The clock edge -/

/-- **A rising `aclk`.** An accepted response wins over the other assignments to `s_axi_bvalid` and
`aw_en`; a read that executes wins over an accepted response. -/
def clock : CrcSlave where
  awready := s.writeReady i
  wready := s.writeReady i
  bvalid := !s.bFire i && (s.writeExec i || s.bvalid)
  bresp := if s.writeExec i then 0 else s.bresp
  awEn := s.bFire i || (!s.writeReady i && s.awEn)
  regCtrl := s.configNext i CrcReg.ctrl s.regCtrl
  regStatus := s.regStatusNext i t
  regModeConfig := s.configNext i CrcReg.modeConfig s.regModeConfig
  polyRev := s.configNext i CrcReg.poly s.polyRev
  initVal := s.configNext i CrcReg.initVal s.initVal
  expCrcReg := s.configNext i CrcReg.expResult s.expCrcReg
  expCrcWe := s.writesTo i CrcReg.expResult
  ctrlSoftReset := s.writesTo i CrcReg.ctrl && i.wdata.getLsbD 1
  clearCounters := s.writesTo i CrcReg.errorCount || s.writesTo i CrcReg.passCount
  manualDataValid := s.writesTo i CrcReg.manualData
  manualDataBe := if s.writesTo i CrcReg.manualData then i.wstrb else s.manualDataBe
  manualDataIn := if s.writesTo i CrcReg.manualData then i.wdata else s.manualDataIn
  manualDataLast := s.writesTo i CrcReg.manualData && s.regCtrl.getLsbD 7
  arready := !s.arready && i.arvalid
  rvalid := s.arFire i || (s.rvalid && !i.rready)
  rresp := if s.arFire i then 0 else s.rresp
  rdata := if s.arFire i then s.readWord i t else s.rdata
  raddrLatched := if !s.arready && i.arvalid then i.araddr else s.raddrLatched

end CrcSlave

end PacketBuffering
