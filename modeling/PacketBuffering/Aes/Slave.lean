import PacketBuffering.Lib.Handshake
import Mathlib.Data.Nat.Log

/-!
# The AXI slave of the AES unit

`axi_aes_slave`: bursts of any length and type in front of the register bus, one write burst and one
read burst at a time. The registers of the two directions are disjoint, and kept here apart; each
`clock` has the assignments of the source in their order, a later one overriding an earlier one.

The sideband inputs, which are not read, and the outputs `buser` and `ruser`, which are always zero,
are left out.
-/

namespace PacketBuffering

/-- The widths; the length of a burst is extended to the width of an address. -/
structure AesParams where
  dataWidth : ℕ
  addrWidth : ℕ
  strbWidth : ℕ
  idWidth : ℕ
  eight_lt_addrWidth : 8 < addrWidth

namespace AesParams

/-- The instantiated widths. -/
def default : AesParams := ⟨32, 32, 4, 8, by decide⟩

/-- `MAX_SIZE`: the largest `AxSIZE` of a beat. -/
def maxSize (R : AesParams) : ℕ := Nat.clog 2 (R.dataWidth / 8)

end AesParams

variable {R : AesParams}

/-! ## Requests and beats -/

variable (R) in
/-- A burst request. -/
structure AesReq where
  id : BitVec R.idWidth
  addr : BitVec R.addrWidth
  len : BitVec 8
  size : BitVec 3
  burst : BitVec 2

variable (R) in
/-- A write beat. -/
structure AesWBeat where
  data : BitVec R.dataWidth
  strb : BitVec R.strbWidth
  last : Bool

variable (R) in
/-- A write of the register bus. -/
structure BusWrite where
  addr : BitVec R.addrWidth
  data : BitVec R.dataWidth
  strb : BitVec R.strbWidth

variable (R) in
/-- A write response. -/
@[ext] structure AesBResp where
  id : BitVec R.idWidth
  resp : BitVec 2

variable (R) in
/-- A read beat. -/
@[ext] structure AesRBeat where
  id : BitVec R.idWidth
  data : BitVec R.dataWidth
  resp : BitVec 2
  last : Bool

/-- `next_burst_addr`. -/
def nextBurstAddr (currentAddr startAddr : BitVec R.addrWidth) (len : BitVec 8) (size : BitVec 3)
    (burst : BitVec 2) : BitVec R.addrWidth :=
  let beatBytes : BitVec R.addrWidth := 1 <<< size.toNat
  let incrAddr := currentAddr + beatBytes
  match burst with
  | 0b00 => currentAddr
  | 0b01 => incrAddr
  | 0b10 =>
    let wrapBytes : BitVec R.addrWidth := (len.setWidth R.addrWidth + 1) <<< size.toNat
    let wrapBase := startAddr &&& ~~~(wrapBytes - 1)
    if incrAddr ≥ wrapBase + wrapBytes then wrapBase else incrAddr
  | _ => currentAddr

namespace AesReq

variable (r : AesReq R)

/-- The address behind `a` in the burst. -/
def next (a : BitVec R.addrWidth) : BitVec R.addrWidth :=
  nextBurstAddr a r.addr r.len r.size r.burst

/-- The size is larger than the data bus, or the burst type is the reserved one. -/
def error : Bool := decide (r.size.toNat > R.maxSize) || r.burst == 0b11

end AesReq

variable (R) in
/-- The inputs of one cycle. -/
structure AesSlaveIn where
  awvalid : Bool
  aw : AesReq R
  wvalid : Bool
  w : AesWBeat R
  bready : Bool
  arvalid : Bool
  ar : AesReq R
  rready : Bool
  regRdData : BitVec R.dataWidth

/-! ## The write direction -/

variable (R) in
/-- The registers of the write direction; `req` holds `wr_id`, `wr_start_addr`, `wr_len`, `wr_size`
and `wr_burst`. -/
structure AesWriter where
  wrActive : Bool
  req : AesReq R
  wrAddr : BitVec R.addrWidth
  wrBeat : BitVec 8
  wrError : Bool
  bvalid : Bool
  b : AesBResp R
  regWrEn : Bool
  regWr : BusWrite R

namespace AesWriter

variable (R) in
/-- The values under `rst`. -/
def reset : AesWriter R where
  wrActive := false
  req := ⟨0, 0, 0, 0, 0b01⟩
  wrAddr := 0
  wrBeat := 0
  wrError := false
  bvalid := false
  b := ⟨0, axiRespOkay⟩
  regWrEn := false
  regWr := ⟨0, 0, 0⟩

variable (s : AesWriter R) (i : AesSlaveIn R)

/-- A request is accepted while no burst and no response is open. -/
def awready : Bool := !s.wrActive && !s.bvalid

/-- A beat is accepted while a burst is open. -/
def wready : Bool := s.wrActive && !s.bvalid

/-- A write request is handed over. -/
def awFire : Bool := i.awvalid && s.awready

/-- A beat is handed over. -/
def wFire : Bool := i.wvalid && s.wready

/-- A response is handed over. -/
def bFire : Bool := s.bvalid && i.bready

/-- `WLAST` against `AWLEN`. -/
def mismatch : Bool := (s.wrBeat == s.req.len) != i.w.last

/-- The beat ends the burst. -/
def ends : Bool := s.wrBeat == s.req.len || i.w.last

/-- A request is accepted. -/
def clockAw (t : AesWriter R) : AesWriter R :=
  if s.awFire i then
    { t with
      wrActive := true, req := i.aw, wrAddr := i.aw.addr, wrBeat := 0, wrError := i.aw.error }
  else t

/-- A beat is accepted. -/
def clockW (t : AesWriter R) : AesWriter R :=
  if s.wFire i then
    let t :=
      if !s.wrError then
        { t with regWrEn := true, regWr := ⟨s.wrAddr, i.w.data, i.w.strb⟩ }
      else t
    let t := if s.mismatch i then { t with wrError := true } else t
    if s.ends i then
      { t with
        wrActive := false
        bvalid := true
        b := ⟨s.req.id, if s.wrError || s.mismatch i then axiRespSlverr else axiRespOkay⟩ }
    else { t with wrBeat := s.wrBeat + 1, wrAddr := s.req.next s.wrAddr }
  else t

/-- A response is accepted. -/
def clockB (t : AesWriter R) : AesWriter R := if s.bFire i then { t with bvalid := false } else t

/-- A rising `clk`. -/
def clock : AesWriter R := s.clockB i (s.clockW i (s.clockAw i { s with regWrEn := false }))

end AesWriter

/-! ## The read direction -/

variable (R) in
/-- The registers of the read direction. -/
structure AesReader where
  rdActive : Bool
  req : AesReq R
  rdAddr : BitVec R.addrWidth
  rdBeat : BitVec 8
  rdError : Bool
  rvalid : Bool
  r : AesRBeat R

namespace AesReader

variable (R) in
/-- The values under `rst`. -/
def reset : AesReader R where
  rdActive := false
  req := ⟨0, 0, 0, 0, 0b01⟩
  rdAddr := 0
  rdBeat := 0
  rdError := false
  rvalid := false
  r := ⟨0, 0, axiRespOkay, false⟩

variable (s : AesReader R) (i : AesSlaveIn R)

/-- A read request is accepted while no read burst is open. -/
def arready : Bool := !s.rdActive

/-- A read request is handed over. -/
def arFire : Bool := i.arvalid && s.arready

/-- A beat of read data is handed over. -/
def rFire : Bool := s.rvalid && i.rready

/-- The read request of the register bus. -/
def regRdEn : Bool := s.rdActive && !s.rvalid

/-- The address of the read on the register bus. -/
def regRdAddr : BitVec R.addrWidth := s.rdAddr

/-- A request is accepted. -/
def clockAr (t : AesReader R) : AesReader R :=
  if s.arFire i then
    { t with
      rdActive := true, req := i.ar, rdAddr := i.ar.addr, rdBeat := 0, rdError := i.ar.error }
  else t

/-- A beat is loaded when none is pending. -/
def clockLoad (t : AesReader R) : AesReader R :=
  if s.rdActive && !s.rvalid then
    { t with
      rvalid := true
      r := ⟨s.req.id, i.regRdData, if s.rdError then axiRespSlverr else axiRespOkay,
        s.rdBeat == s.req.len⟩ }
  else t

/-- A beat is accepted. -/
def clockR (t : AesReader R) : AesReader R :=
  if s.rFire i then
    let t := { t with rvalid := false }
    if s.r.last then { t with rdActive := false, r := { t.r with last := false } }
    else { t with rdBeat := s.rdBeat + 1, rdAddr := s.req.next s.rdAddr }
  else t

/-- A rising `clk`. -/
def clock : AesReader R := s.clockR i (s.clockLoad i (s.clockAr i s))

end AesReader

/-! ## The slave -/

variable (R) in
/-- Both directions. -/
structure AxiAesSlave where
  wr : AesWriter R
  rd : AesReader R

namespace AxiAesSlave

variable (R) in
/-- The values under `rst`. -/
def reset : AxiAesSlave R := ⟨.reset R, .reset R⟩

/-- A rising `clk`. -/
def clock (s : AxiAesSlave R) (i : AesSlaveIn R) : AxiAesSlave R := ⟨s.wr.clock i, s.rd.clock i⟩

end AxiAesSlave

end PacketBuffering
