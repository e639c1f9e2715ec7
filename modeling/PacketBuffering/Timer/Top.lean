import PacketBuffering.Lib.Lanes
import PacketBuffering.Periph.Channels

/-!
# The timer

`timer_core`: a counter behind a prescaler, with a compare value and latched flags; `timer_top`: its
registers behind the AXI channels. The assignments of the core are in the order of the source, a later
one over an earlier one.
-/

namespace PacketBuffering

/-! ## The core -/

/-- The control inputs of the core. -/
structure TimerCtrl where
  en : Bool
  reload : Bool
  rst : Bool
  ie : Bool
  pwmEn : Bool
  loadVal : BitVec 32
  loadWe : Bool
  compare : BitVec 32
  prescaler : BitVec 16
  clearMatch : Bool
  clearOvf : Bool

/-- The registers of `timer_core`. -/
structure TimerCore where
  count : BitVec 32
  prescCnt : BitVec 16
  matchFlag : Bool
  ovfFlag : Bool
  matchPulse : Bool
  running : Bool
  oneShotDone : Bool
  ctrlEnPrev : Bool

namespace TimerCore

/-- The values under `!rst_n`. -/
def reset : TimerCore := ⟨0, 0, false, false, false, false, false, false⟩

variable (s : TimerCore) (c : TimerCtrl)

/-- The pulse falls back, flags are cleared, and a rising enable arms the one-shot mode. -/
def prepare : TimerCore :=
  { s with
    matchPulse := false
    ctrlEnPrev := c.en
    matchFlag := if c.clearMatch then false else s.matchFlag
    ovfFlag := if c.clearOvf then false else s.ovfFlag
    oneShotDone := if c.en && !s.ctrlEnPrev then false else s.oneShotDone }

/-- A reset or a load of the counter. -/
def preload (t : TimerCore) : TimerCore :=
  if c.rst then { t with count := 0, prescCnt := c.prescaler, oneShotDone := false }
  else if c.loadWe then { t with count := c.loadVal, oneShotDone := false }
  else t

/-- A tick of the prescaler, on the registers `s` before the clock. -/
def tick (t : TimerCore) : TimerCore :=
  if s.count ≥ c.compare then
    let t := { t with matchFlag := true, matchPulse := true }
    if c.reload then { t with count := 0 } else { t with oneShotDone := true, running := false }
  else if s.count = 0xFFFFFFFF then { t with ovfFlag := true, count := 0 }
  else { t with count := s.count + 1 }

/-- The running logic. -/
def advance (t : TimerCore) : TimerCore :=
  if !c.en || s.oneShotDone then
    { t with running := false, prescCnt := if !c.en then c.prescaler else t.prescCnt }
  else
    let t := { t with running := true }
    if s.prescCnt = 0 then s.tick c { t with prescCnt := c.prescaler }
    else { t with prescCnt := s.prescCnt - 1 }

/-- **A rising clock** of the core. -/
def clock : TimerCore := s.advance c (preload c (s.prepare c))

end TimerCore

/-! ## The register map -/

namespace TimerReg

/-- `TIMER_REG_CTRL`. -/
def ctrl : BitVec 8 := 0x00

/-- `TIMER_REG_STATUS`. -/
def status : BitVec 8 := 0x04

/-- `TIMER_REG_VALUE`. -/
def value : BitVec 8 := 0x08

/-- `TIMER_REG_COMPARE`. -/
def compare : BitVec 8 := 0x0C

/-- `TIMER_REG_PRESCALER`. -/
def prescaler : BitVec 8 := 0x10

/-- The registers that are known. -/
def known : List (BitVec 8) := [ctrl, status, value, compare, prescaler]

end TimerReg

/-! ## The top -/

variable {n : ℕ}

namespace TimerCtrl

/-- The values under `sys_rst`: periodic, and the largest compare value. -/
def reset : TimerCtrl where
  en := false
  reload := true
  rst := false
  ie := false
  pwmEn := false
  loadVal := 0
  loadWe := false
  compare := 0xFFFFFFFF
  prescaler := 0
  clearMatch := false
  clearOvf := false

variable (c : TimerCtrl)

/-- The self-clearing strobes fall back. -/
def relaxed : TimerCtrl :=
  { c with rst := false, loadWe := false, clearMatch := false, clearOvf := false }

/-- The control registers behind the execution of a write. -/
def execute (x : PeriphWrite n) : TimerCtrl :=
  let c := c.relaxed
  let d := x.w.data
  if !x.req.plain then c
  else if x.req.offset = TimerReg.ctrl then
    if x.w.strb.getLsbD 0 then
      { c with
        en := d.getLsbD 0, reload := d.getLsbD 1, rst := d.getLsbD 2, ie := d.getLsbD 3,
        pwmEn := d.getLsbD 4 }
    else c
  else if x.req.offset = TimerReg.status then
    if x.w.strb.getLsbD 0 then { c with clearMatch := d.getLsbD 1, clearOvf := d.getLsbD 2 } else c
  else if x.req.offset = TimerReg.value then
    { c with loadWe := true, loadVal := strobed x.w.strb d c.loadVal }
  else if x.req.offset = TimerReg.compare then { c with compare := strobed x.w.strb d c.compare }
  else if x.req.offset = TimerReg.prescaler then
    { c with prescaler := (strobed x.w.strb d (c.prescaler.setWidth 32)).setWidth 16 }
  else c

end TimerCtrl

/-- The write is answered with `OKAY`. -/
def timerOk (x : PeriphWrite n) : Bool := x.req.plain && TimerReg.known.contains x.req.offset

variable (n) in
/-- The registers of `timer_top`. -/
structure TimerTop where
  ctrl : TimerCtrl
  wr : WriteChannel n
  rd : ReadChannel n
  core : TimerCore

namespace TimerTop

variable (n) in
/-- The values under `sys_rst`. -/
def reset : TimerTop n := ⟨.reset, .reset n, .reset n, .reset⟩

variable (s : TimerTop n)

/-- The answer to a read. -/
def answer (r : PeriphReq n) : BitVec 32 × BitVec 2 :=
  if !r.plain then (0, axiRespSlverr)
  else if r.offset = TimerReg.ctrl then
    ((BitVec.ofBoolListBE [s.ctrl.pwmEn, s.ctrl.ie, false, s.ctrl.reload, s.ctrl.en]).setWidth 32,
      axiRespOkay)
  else if r.offset = TimerReg.status then
    ((BitVec.ofBoolListBE [s.core.ovfFlag, s.core.matchFlag, s.core.running]).setWidth 32,
      axiRespOkay)
  else if r.offset = TimerReg.value then (s.core.count, axiRespOkay)
  else if r.offset = TimerReg.compare then (s.ctrl.compare, axiRespOkay)
  else if r.offset = TimerReg.prescaler then (s.ctrl.prescaler.setWidth 32, axiRespOkay)
  else (0, axiRespSlverr)

/-- **A rising clock.** -/
def clock (i : PeriphIn n) : TimerTop n where
  ctrl := if s.wr.writeFire then s.ctrl.execute (s.wr.eff i) else s.ctrl.relaxed
  wr := s.wr.clock i timerOk
  rd := s.rd.clock i s.answer
  core := s.core.clock s.ctrl

variable (n) in
/-- The timer as a peripheral. -/
def periph : Periph n (TimerTop n) (PeriphIn n) where
  step := clock
  start := reset n
  axi := id
  wr := wr
  rd := rd
  ok := timerOk
  answer := answer
  wr_start := rfl
  rd_start := rfl
  wr_step := fun _ _ => rfl
  rd_step := fun _ _ => rfl

end TimerTop

end PacketBuffering
