import PacketBuffering.Lib.Lanes
import PacketBuffering.Periph.Channels

/-!
# The GPIO block

`gpio_core`, for any number of pins: the input synchroniser, the configuration registers and the
interrupt logic; `gpio_top`: its registers behind the AXI channels, for 32 pins. A write is staged in
`gpio_top` and reaches the core one cycle later.
-/

namespace PacketBuffering

/-! ## The core -/

section Core

variable (w : ℕ)

/-- The configuration registers of the core. -/
@[ext] structure GpioRegs where
  dataOut : BitVec w
  dir : BitVec w
  intEn : BitVec w
  intType : BitVec w
  intPol : BitVec w
deriving DecidableEq

/-- The control inputs of the core. -/
structure GpioCtrl where
  dataOutWrite : BitVec w
  dataOutWe : Bool
  dirWrite : BitVec w
  dirWe : Bool
  setPulse : BitVec w
  clearPulse : BitVec w
  intEnWrite : BitVec w
  intEnWe : Bool
  intTypeWrite : BitVec w
  intTypeWe : Bool
  intPolWrite : BitVec w
  intPolWe : Bool
  intStatClear : BitVec w

/-- The registers of `gpio_core`. -/
structure GpioCore where
  syncFf1 : BitVec w
  syncFf2 : BitVec w
  syncFf2Prev : BitVec w
  regs : GpioRegs w
  intStat : BitVec w

/-- The registers under reset. -/
def GpioRegs.reset : GpioRegs w := ⟨0, 0, 0, 0, 0⟩

/-- The controls under reset. -/
def GpioCtrl.reset : GpioCtrl w := ⟨0, false, 0, false, 0, 0, 0, false, 0, false, 0, false, 0⟩

/-- The core under reset. -/
def GpioCore.reset : GpioCore w := ⟨0, 0, 0, .reset w, 0⟩

variable {w}

/-- The configuration registers behind a rising clock; a write of `DATA_OUT` has priority over the
atomic set and clear. -/
def GpioRegs.update (r : GpioRegs w) (c : GpioCtrl w) : GpioRegs w where
  dataOut := if c.dataOutWe then c.dataOutWrite else (r.dataOut ||| c.setPulse) &&& ~~~c.clearPulse
  dir := if c.dirWe then c.dirWrite else r.dir
  intEn := if c.intEnWe then c.intEnWrite else r.intEn
  intType := if c.intTypeWe then c.intTypeWrite else r.intType
  intPol := if c.intPolWe then c.intPolWrite else r.intPol

namespace GpioCore

variable (s : GpioCore w)

/-- The interrupt condition of pin `k`: an edge, or a level, of the polarity that is set. -/
def fires (k : ℕ) : Bool :=
  s.regs.intEn.getLsbD k &&
    if !s.regs.intType.getLsbD k then
      if !s.regs.intPol.getLsbD k then s.syncFf2.getLsbD k && !s.syncFf2Prev.getLsbD k
      else !s.syncFf2.getLsbD k && s.syncFf2Prev.getLsbD k
    else if !s.regs.intPol.getLsbD k then s.syncFf2.getLsbD k
    else !s.syncFf2.getLsbD k

/-- The pins whose interrupt condition is met. -/
def fired : BitVec w := (BitVec.ofBoolListLE ((List.range w).map s.fires)).cast (by simp)

/-- **A rising clock** of the core; an interrupt condition has priority over a clear. -/
def clock (c : GpioCtrl w) (gpioI : BitVec w) : GpioCore w where
  syncFf1 := gpioI
  syncFf2 := s.syncFf1
  syncFf2Prev := s.syncFf2
  regs := s.regs.update c
  intStat := (s.intStat &&& ~~~c.intStatClear) ||| s.fired

end GpioCore

end Core

/-! ## The register map -/

namespace GpioReg

/-- `GPIO_REG_DATA_IN`. -/
def dataIn : BitVec 8 := 0x00

/-- `GPIO_REG_DATA_OUT`. -/
def dataOut : BitVec 8 := 0x04

/-- `GPIO_REG_DIR`. -/
def dir : BitVec 8 := 0x08

/-- `GPIO_REG_SET`. -/
def set : BitVec 8 := 0x0C

/-- `GPIO_REG_CLEAR`. -/
def clear : BitVec 8 := 0x10

/-- `GPIO_REG_INT_EN`. -/
def intEn : BitVec 8 := 0x14

/-- `GPIO_REG_INT_TYPE`. -/
def intType : BitVec 8 := 0x18

/-- `GPIO_REG_INT_POL`. -/
def intPol : BitVec 8 := 0x1C

/-- `GPIO_REG_INT_STATUS`. -/
def intStatus : BitVec 8 := 0x20

/-- The registers that can be written. -/
def writable : List (BitVec 8) := [dataOut, dir, set, clear, intEn, intType, intPol, intStatus]

end GpioReg

/-! ## The top -/

variable {n : ℕ}

/-- The self-clearing write strobes fall back. -/
def GpioCtrl.relaxed (c : GpioCtrl 32) : GpioCtrl 32 :=
  { c with
    dataOutWe := false, dirWe := false, setPulse := 0, clearPulse := 0, intEnWe := false,
    intTypeWe := false, intPolWe := false, intStatClear := 0 }

/-- The control registers behind the execution of a write: strobed bytes are merged with what the core
holds. -/
def GpioCtrl.stage (c : GpioCtrl 32) (r : GpioRegs 32) (x : PeriphWrite n) : GpioCtrl 32 :=
  let c := c.relaxed
  let merge := strobed x.w.strb x.w.data
  if !x.req.plain then c
  else if x.req.offset = GpioReg.dataOut then
    { c with dataOutWe := true, dataOutWrite := merge r.dataOut }
  else if x.req.offset = GpioReg.dir then { c with dirWe := true, dirWrite := merge r.dir }
  else if x.req.offset = GpioReg.set then { c with setPulse := merge 0 }
  else if x.req.offset = GpioReg.clear then { c with clearPulse := merge 0 }
  else if x.req.offset = GpioReg.intEn then { c with intEnWe := true, intEnWrite := merge r.intEn }
  else if x.req.offset = GpioReg.intType then
    { c with intTypeWe := true, intTypeWrite := merge r.intType }
  else if x.req.offset = GpioReg.intPol then
    { c with intPolWe := true, intPolWrite := merge r.intPol }
  else if x.req.offset = GpioReg.intStatus then { c with intStatClear := merge 0 }
  else c

/-- The write is answered with `OKAY`. -/
def gpioOk (x : PeriphWrite n) : Bool := x.req.plain && GpioReg.writable.contains x.req.offset

/-- The answer to a read. -/
def GpioCore.answer (s : GpioCore 32) (r : PeriphReq n) : BitVec 32 × BitVec 2 :=
  if !r.plain then (0, axiRespSlverr)
  else if r.offset = GpioReg.dataIn then (s.syncFf2, axiRespOkay)
  else if r.offset = GpioReg.dataOut then (s.regs.dataOut, axiRespOkay)
  else if r.offset = GpioReg.dir then (s.regs.dir, axiRespOkay)
  else if r.offset = GpioReg.intEn then (s.regs.intEn, axiRespOkay)
  else if r.offset = GpioReg.intType then (s.regs.intType, axiRespOkay)
  else if r.offset = GpioReg.intPol then (s.regs.intPol, axiRespOkay)
  else if r.offset = GpioReg.intStatus then (s.intStat, axiRespOkay)
  else (0, axiRespSlverr)

variable (n) in
/-- The registers of `gpio_top`. -/
structure GpioTop where
  ctrl : GpioCtrl 32
  wr : WriteChannel n
  rd : ReadChannel n
  core : GpioCore 32

variable (n) in
/-- The inputs of one cycle: the channels and the pins. -/
structure GpioIn where
  axi : PeriphIn n
  gpioI : BitVec 32

namespace GpioTop

variable (n) in
/-- The values under `sys_rst`. -/
def reset : GpioTop n := ⟨.reset 32, .reset n, .reset n, .reset 32⟩

/-- **A rising clock.** -/
def clock (s : GpioTop n) (i : GpioIn n) : GpioTop n where
  ctrl := if s.wr.writeFire then s.ctrl.stage s.core.regs (s.wr.eff i.axi) else s.ctrl.relaxed
  wr := s.wr.clock i.axi gpioOk
  rd := s.rd.clock i.axi s.core.answer
  core := s.core.clock s.ctrl i.gpioI

variable (n) in
/-- The block as a peripheral. -/
def periph : Periph n (GpioTop n) (GpioIn n) where
  step := clock
  start := reset n
  axi := GpioIn.axi
  wr := wr
  rd := rd
  ok := gpioOk
  answer := fun s => s.core.answer
  wr_start := rfl
  rd_start := rfl
  wr_step := fun _ _ => rfl
  rd_step := fun _ _ => rfl

end GpioTop

end PacketBuffering
