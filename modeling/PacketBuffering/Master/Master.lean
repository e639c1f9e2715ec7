import PacketBuffering.Ram.Ram

/-!
# The project master on the AXI memory

`axi_master_project`: a command interface in front of an AXI4 master with one outstanding transaction
of a single beat; and its direct connection to `axi_ram`.

The attributes `prot`, `cache` and `qos` of a command, which are sent on and which the memory does not
read, are left out, and so is the latch of `cmd_write`, which nothing reads.
-/

namespace PacketBuffering

variable {R : RamParams}

variable (R) in
/-- A command. -/
structure MasterCmd where
  write : Bool
  addr : BitVec R.addrWidth
  wdata : BitVec 32
  wstrb : BitVec 4

variable (R) in
/-- The inputs of one cycle. -/
structure MasterIn where
  cmdValid : Bool
  cmd : MasterCmd R
  awready : Bool
  wready : Bool
  bvalid : Bool
  b : BResp R
  arready : Bool
  rvalid : Bool
  r : RBeat R

/-- The states of the master; the other codes are never entered. -/
inductive MasterState
  | idle
  | wAw
  | wW
  | wB
  | rAr
  | rR
deriving DecidableEq

variable (R) in
/-- The registers of the master. -/
structure AxiMaster where
  state : MasterState
  idReg : BitVec R.idWidth
  addrReg : BitVec R.addrWidth
  wdataReg : BitVec 32
  wstrbReg : BitVec 4
  done : Bool
  error : Bool
  resp : BitVec 2
  readData : BitVec 32

/-- A response code of success: `OKAY` or `EXOKAY`. -/
def respOk (resp : BitVec 2) : Bool := resp == 0b00 || resp == 0b01

namespace AxiMaster

/-- The values under `rst`. -/
def reset (idValue : BitVec R.idWidth) : AxiMaster R where
  state := .idle
  idReg := idValue
  addrReg := 0
  wdataReg := 0
  wstrbReg := 0
  done := false
  error := false
  resp := 0b00
  readData := 0

section Outputs

variable (s : AxiMaster R)

/-- `busy`. -/
def busy : Bool := s.state != .idle

/-- `cmd_ready`. -/
def cmdReady : Bool := s.state == .idle

/-- `m_axi_awvalid`. -/
def awvalid : Bool := s.state == .wAw

/-- `m_axi_wvalid`. -/
def wvalid : Bool := s.state == .wW

/-- `m_axi_bready`. -/
def bready : Bool := s.state == .wB

/-- `m_axi_arvalid`. -/
def arvalid : Bool := s.state == .rAr

/-- `m_axi_rready`. -/
def rready : Bool := s.state == .rR

/-- The request, on either address channel: a single beat. -/
def request : BurstReq R := ⟨s.idReg, s.addrReg, 0⟩

/-- The write beat. -/
def w : WBeat := ⟨s.wdataReg, s.wstrbReg, true⟩

end Outputs

/-- A rising `clk`. -/
def clock (idValue : BitVec R.idWidth) (s : AxiMaster R) (i : MasterIn R) : AxiMaster R :=
  match s.state with
  | .idle =>
    if i.cmdValid then
      { s with
        state := if i.cmd.write then .wAw else .rAr
        idReg := idValue
        addrReg := i.cmd.addr
        wdataReg := i.cmd.wdata
        wstrbReg := i.cmd.wstrb
        done := false
        error := false }
    else { s with done := false, error := false }
  | .wAw =>
    { s with
      state := if s.awvalid && i.awready then .wW else .wAw
      done := false
      error := false }
  | .wW =>
    { s with
      state := if s.wvalid && i.wready then .wB else .wW
      done := false
      error := false }
  | .wB =>
    if i.bvalid && s.bready then
      { s with
        state := .idle
        done := true
        error := !(respOk i.b.resp && i.b.id == s.idReg)
        resp := i.b.resp }
    else { s with done := false, error := false }
  | .rAr =>
    { s with
      state := if s.arvalid && i.arready then .rR else .rAr
      done := false
      error := false }
  | .rR =>
    if i.rvalid && s.rready then
      { s with
        state := .idle
        done := true
        error := !(respOk i.r.resp && i.r.id == s.idReg && i.r.last)
        resp := i.r.resp
        readData := i.r.data }
    else { s with done := false, error := false }

end AxiMaster

/-! ## Master and memory -/

variable (R) in
/-- The master on the memory. -/
structure MasterRam where
  master : AxiMaster R
  ram : AxiRam R

namespace MasterRam

/-- After reset, over the contents `m`. -/
def reset (idValue : BitVec R.idWidth) (m : LaneMem R.wordBits) : MasterRam R :=
  ⟨.reset idValue, .reset m⟩

/-- The inputs of the memory. -/
def ramIn (s : MasterRam R) : RamIn R where
  awvalid := s.master.awvalid
  aw := s.master.request
  wvalid := s.master.wvalid
  w := s.master.w
  bready := s.master.bready
  arvalid := s.master.arvalid
  ar := s.master.request
  rready := s.master.rready

/-- The inputs of the master, with a command that may be offered. -/
def masterIn (s : MasterRam R) (cmdValid : Bool) (cmd : MasterCmd R) : MasterIn R where
  cmdValid := cmdValid
  cmd := cmd
  awready := s.ram.wr.awready
  wready := s.ram.wr.wready
  bvalid := s.ram.wr.bvalid
  b := s.ram.wr.b
  arready := s.ram.rd.arready
  rvalid := s.ram.rd.rvalid
  r := s.ram.rd.r

/-- **A rising `clk`** with the command inputs `i`: `cmd_valid` and the command. -/
def step (idValue : BitVec R.idWidth) (s : MasterRam R) (i : Bool × MasterCmd R) : MasterRam R where
  master := s.master.clock idValue (s.masterIn i.1 i.2)
  ram := s.ram.step s.ramIn

end MasterRam

end PacketBuffering
