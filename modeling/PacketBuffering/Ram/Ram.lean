import PacketBuffering.Lib.Handshake
import PacketBuffering.Lib.Lanes

/-!
# The AXI memory

`axi_ram`: a 32-bit memory with byte strobes behind AXI4, single beats and incrementing bursts. The
write and the read state machine are independent and share the four byte arrays, which have no reset.

Size, burst type and the attributes of a request are not read. The outputs `buser` and `ruser`, which
are always zero, are left out.
-/

namespace PacketBuffering

/-- The widths of addresses and identifiers, and the size `2 ^ MEM_ADDR_BITS` in bytes. -/
structure RamParams where
  addrWidth : ℕ
  idWidth : ℕ
  memAddrBits : ℕ
  two_lt_memAddrBits : 2 < memAddrBits
  memAddrBits_le : memAddrBits ≤ addrWidth

namespace RamParams

/-- The instantiated memory of 64 KB. -/
def default : RamParams := ⟨32, 8, 16, by decide, by decide⟩

/-- The width of a word address, `[MEM_ADDR_BITS-1:2]`. -/
def wordBits (R : RamParams) : ℕ := R.memAddrBits - 2

end RamParams

variable {R : RamParams}

variable (R) in
/-- A burst request. -/
structure BurstReq where
  id : BitVec R.idWidth
  addr : BitVec R.addrWidth
  len : BitVec 8

namespace BurstReq

/-- The word address of the first beat. -/
def wordAddr (r : BurstReq R) : BitVec R.wordBits := r.addr.extractLsb' 2 R.wordBits

end BurstReq

/-- A write beat. -/
structure WBeat where
  data : BitVec 32
  strb : BitVec 4
  last : Bool

variable (R) in
/-- A write response. -/
structure BResp where
  id : BitVec R.idWidth
  resp : BitVec 2

variable (R) in
/-- A read beat. -/
structure RBeat where
  id : BitVec R.idWidth
  data : BitVec 32
  resp : BitVec 2
  last : Bool

variable (R) in
/-- The inputs of one cycle. -/
structure RamIn where
  awvalid : Bool
  aw : BurstReq R
  wvalid : Bool
  w : WBeat
  bready : Bool
  arvalid : Bool
  ar : BurstReq R
  rready : Bool

/-- The states of the write machine; the fourth code is never entered. -/
inductive RamWrState
  | idle
  | data
  | resp
deriving DecidableEq

/-- The states of the read machine; the other codes are never entered. -/
inductive RamRdState
  | idle
  | data
deriving DecidableEq

variable (R) in
/-- The registers of the write machine. -/
structure RamWriter where
  wrState : RamWrState
  awready : Bool
  wready : Bool
  bvalid : Bool
  b : BResp R
  wrIdReg : BitVec R.idWidth
  wrWordAddr : BitVec R.wordBits
  wrLenCnt : BitVec 8

variable (R) in
/-- The registers of the read machine. -/
structure RamReader where
  rdState : RamRdState
  arready : Bool
  rvalid : Bool
  r : RBeat R
  rdIdReg : BitVec R.idWidth
  rdWordAddr : BitVec R.wordBits
  rdLenCnt : BitVec 8

namespace RamWriter

variable (R) in
/-- The values under `rst`. -/
def reset : RamWriter R where
  wrState := .idle
  awready := true
  wready := false
  bvalid := false
  b := ⟨0, axiRespOkay⟩
  wrIdReg := 0
  wrWordAddr := 0
  wrLenCnt := 0

variable (s : RamWriter R) (i : RamIn R)

/-- A write request is handed over. -/
def awFire : Bool := i.awvalid && s.awready

/-- A beat is handed over. -/
def wFire : Bool := i.wvalid && s.wready

/-- A response is handed over. -/
def bFire : Bool := s.bvalid && i.bready

/-- The write beat ends its burst: it is marked as last, or the count has run out. -/
def ends : Bool := i.w.last || s.wrLenCnt == 0

/-- A rising clock in `W_IDLE`. -/
def clockIdle : RamWriter R :=
  if s.awFire i then
    { s with
      wrState := .data
      awready := false
      wready := true
      wrIdReg := i.aw.id
      wrWordAddr := i.aw.wordAddr
      wrLenCnt := i.aw.len }
  else { s with awready := true, wready := false }

/-- A rising clock in `W_DATA`. -/
def clockData : RamWriter R :=
  if s.wFire i then
    if s.ends i then
      { s with
        wrState := .resp
        awready := false
        wready := false
        bvalid := true
        b := ⟨s.wrIdReg, axiRespOkay⟩
        wrWordAddr := s.wrWordAddr + 1 }
    else
      { s with
        awready := false
        wready := true
        wrWordAddr := s.wrWordAddr + 1
        wrLenCnt := s.wrLenCnt - 1 }
  else { s with awready := false, wready := true }

/-- A rising clock in `W_RESP`. -/
def clockResp : RamWriter R :=
  if s.bFire i then { s with wrState := .idle, awready := true, bvalid := false } else s

/-- A rising `clk`. -/
def clock : RamWriter R :=
  match s.wrState with
  | .idle => s.clockIdle i
  | .data => s.clockData i
  | .resp => s.clockResp i

/-- The store of a write beat. -/
def stores : List (Store R.wordBits) :=
  if s.wrState = .data ∧ s.wFire i = true then [⟨s.wrWordAddr, i.w.data, i.w.strb⟩] else []

end RamWriter

namespace RamReader

variable (R) in
/-- The values under `rst`. -/
def reset : RamReader R where
  rdState := .idle
  arready := true
  rvalid := false
  r := ⟨0, 0, axiRespOkay, false⟩
  rdIdReg := 0
  rdWordAddr := 0
  rdLenCnt := 0

variable (s : RamReader R) (m : LaneMem R.wordBits) (i : RamIn R)

/-- A read request is handed over. -/
def arFire : Bool := i.arvalid && s.arready

/-- A beat of read data is handed over. -/
def rFire : Bool := s.rvalid && i.rready

/-- A rising clock in `R_IDLE`. -/
def clockIdle : RamReader R :=
  if s.arFire i then
    { s with
      rdState := .data
      arready := false
      rvalid := true
      r := ⟨i.ar.id, m.word i.ar.wordAddr, axiRespOkay, i.ar.len == 0⟩
      rdIdReg := i.ar.id
      rdWordAddr := i.ar.wordAddr + 1
      rdLenCnt := i.ar.len }
  else { s with arready := true }

/-- The next beat is loaded when the last one is accepted. -/
def clockData : RamReader R :=
  if s.rFire i then
    if s.r.last then
      { s with rdState := .idle, arready := true, rvalid := false, r := { s.r with last := false } }
    else
      { s with
        rvalid := true
        r := { s.r with data := m.word s.rdWordAddr, last := s.rdLenCnt == 1 }
        rdWordAddr := s.rdWordAddr + 1
        rdLenCnt := s.rdLenCnt - 1 }
  else s

/-- A rising `clk`. -/
def clock : RamReader R :=
  match s.rdState with
  | .idle => s.clockIdle m i
  | .data => s.clockData m i

end RamReader

variable (R) in
/-- The memory with its two state machines. -/
structure AxiRam where
  mem : LaneMem R.wordBits
  wr : RamWriter R
  rd : RamReader R

namespace AxiRam

/-- After reset, over the contents `m`. -/
def reset (m : LaneMem R.wordBits) : AxiRam R := ⟨m, .reset R, .reset R⟩

/-- **A rising `clk`.** A beat that is read at the edge of a store sees the old contents. -/
def step (s : AxiRam R) (i : RamIn R) : AxiRam R where
  mem := s.mem.after (s.wr.stores i)
  wr := s.wr.clock i
  rd := s.rd.clock s.mem i

end AxiRam

end PacketBuffering
