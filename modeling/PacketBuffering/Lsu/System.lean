import PacketBuffering.Lib.Lanes
import PacketBuffering.Lib.Run
import PacketBuffering.Lsu.Wrapper

/-!
# The LSU adapter with a 32-bit memory behind it

The downstream memory takes address and data of a write in any order, performs the write when it has
both and answers it; it performs a read when it has its address. All its delays are inputs of the
event: the ready signals, when it performs an access and with which response, and when it presents
the answer.

* `MemSlave`: the memory with the transactions it has taken; `LsuSystem`, **`LsuSystem.step`**: the
  adapter wired to it.
* `LsuSystem.bResponses`, `LsuSystem.rWords`, `LsuSystem.fetches`: what the load/store unit is
  answered, and the memory contents a read was performed on.
-/

namespace PacketBuffering

variable {L : LsuParams}

/-- The response `OKAY`. -/
def respOkay : BitVec 2 := 0b00

variable (L) in
/-- A 32-bit memory: its bytes, the write address, write beat and read address taken, and the
answers not yet accepted. -/
structure MemSlave where
  mem : BitVec 32 → BitVec 8
  aw : Option (AddrReq L.mIdWidth)
  w : Option Beat32
  b : Option (BitVec L.mIdWidth × BitVec 2)
  ar : Option (AddrReq L.mIdWidth)
  r : Option (BitVec 32 × BitVec 2)

variable (L) in
/-- One cycle: the signals of the load/store unit, and what the memory does. -/
structure LsuEvent where
  sAwvalid : Bool
  sAw : AddrReq L.lsuBusTag
  sWvalid : Bool
  sW : Beat64
  sBready : Bool
  sArvalid : Bool
  sAr : AddrReq L.lsuBusTag
  sRready : Bool
  awready : Bool
  wready : Bool
  commit : Option (BitVec 2)
  bvalid : Bool
  arready : Bool
  fetch : Option (BitVec 2)
  rvalid : Bool

/-- A doubleword request to address `a`, with the attributes of cacheable memory. -/
def AddrReq.doubleword (a : BitVec 32) : AddrReq L.lsuBusTag := ⟨0, a, 3, 1, false, 0b1111, 1, 0⟩

/-- No request and no activity of the memory; the load/store unit accepts every response. -/
def LsuEvent.idle (aw : AddrReq L.lsuBusTag) (w : Beat64) (ar : AddrReq L.lsuBusTag) : LsuEvent L where
  sAwvalid := false
  sAw := aw
  sWvalid := false
  sW := w
  sBready := true
  sArvalid := false
  sAr := ar
  sRready := true
  awready := false
  wready := false
  commit := none
  bvalid := false
  arready := false
  fetch := none
  rvalid := false

variable (L) in
/-- The adapter and the memory. -/
structure LsuSystem where
  wrapper : LsuWrapper L
  slave : MemSlave L

namespace LsuSystem

variable (L) in
/-- After reset, over the memory contents `mem`. -/
def reset (mem : BitVec 32 → BitVec 8) : LsuSystem L :=
  ⟨.reset L, ⟨mem, none, none, none, none, none⟩⟩

variable (s : LsuSystem L) (e : LsuEvent L)

/-- The adapter's inputs. -/
def input : LsuIn L where
  sAwvalid := e.sAwvalid
  sAw := e.sAw
  sWvalid := e.sWvalid
  sW := e.sW
  sBready := e.sBready
  sArvalid := e.sArvalid
  sAr := e.sAr
  sRready := e.sRready
  mAwready := e.awready
  mWready := e.wready
  mBvalid := e.bvalid && s.slave.b.isSome
  mBid := (s.slave.b.map Prod.fst).getD 0
  mBresp := (s.slave.b.map Prod.snd).getD respOkay
  mArready := e.arready
  mRvalid := e.rvalid && s.slave.r.isSome
  mRdata := (s.slave.r.map Prod.fst).getD 0
  mRresp := (s.slave.r.map Prod.snd).getD respOkay

/-- The slave takes a write address. -/
def awFire : Bool := s.wrapper.awFire (s.input e)

/-- The slave takes a beat. -/
def wFire : Bool := s.wrapper.wFire (s.input e)

/-- The response of a write reaches the core. -/
def bFire : Bool := s.wrapper.sAxiBvalid (s.input e) && e.sBready

/-- The slave takes a read address. -/
def arFire : Bool := s.wrapper.mAxiArvalid && e.arready

/-- The answer of a read reaches the core. -/
def rFire : Bool := s.wrapper.sAxiRvalid (s.input e) && e.sRready

/-- The write the memory performs. -/
def commits : Option (AddrReq L.mIdWidth × Beat32 × BitVec 2) :=
  match s.slave.aw, s.slave.w, e.commit with
  | some a, some w, some resp => some (a, w, resp)
  | _, _, _ => none

/-- The read the memory performs. -/
def fetched : Option (AddrReq L.mIdWidth × BitVec 2) :=
  match s.slave.ar, e.fetch with
  | some a, some resp => some (a, resp)
  | _, _ => none

/-- A write answered `OKAY` stores byte `j` of the beat at `(awaddr & ~3) + j` where strobed. -/
def memNext : BitVec 32 → BitVec 8 :=
  match s.commits e with
  | some (a, w, resp) =>
    if resp = respOkay then storeLanes s.slave.mem (alignDown 2 a.addr) w.strb w.data
    else s.slave.mem
  | none => s.slave.mem

/-- The slave after the cycle. -/
def slaveNext : MemSlave L where
  mem := s.memNext e
  aw :=
    if s.awFire e then some s.wrapper.mAxiAw
    else if (s.commits e).isSome then none else s.slave.aw
  w :=
    if s.wFire e then some s.wrapper.mAxiW
    else if (s.commits e).isSome then none else s.slave.w
  b :=
    match s.commits e with
    | some (a, _, resp) => some (a.id, resp)
    | none => if s.bFire e then none else s.slave.b
  ar :=
    if s.arFire e then some s.wrapper.mAxiAr
    else if (s.fetched e).isSome then none else s.slave.ar
  r :=
    match s.fetched e with
    | some (a, resp) => some (loadWord s.slave.mem (alignDown 2 a.addr), resp)
    | none => if s.rFire e then none else s.slave.r

/-- **One cycle.** -/
def step : LsuSystem L := ⟨s.wrapper.clock (s.input e), s.slaveNext e⟩

/-! ## What is observed -/

/-- The write response accepted by the load/store unit. -/
def bResponses : List (BitVec 2) := if s.bFire e then [LsuWrapper.sAxiBresp (s.input e)] else []

/-- The read data accepted by the load/store unit. -/
def rWords : List (BitVec 64) := if s.rFire e then [s.wrapper.sAxiRdata (s.input e)] else []

/-- The memory contents on which a read is performed. -/
def fetches : List (BitVec 32 → BitVec 8) := if (s.fetched e).isSome then [s.slave.mem] else []

end LsuSystem

/-! ## The halves of a doubleword -/

/-- The first byte of the half of the doubleword that address bit `2` selects. -/
def halfOffset (r : AddrReq L.lsuBusTag) : ℕ := if r.addr.getLsbD 2 then 4 else 0

theorem alignDown_two (r : AddrReq L.lsuBusTag) :
    alignDown 2 r.addr = alignDown 3 r.addr + BitVec.ofNat 32 (halfOffset r) := by
  rw [alignDown_eq_add, halfOffset]
  split_ifs <;> rfl

theorem base_add (r : AddrReq L.lsuBusTag) (j : ℕ) :
    alignDown 2 r.addr + BitVec.ofNat 32 j =
      alignDown 3 r.addr + BitVec.ofNat 32 (halfOffset r + j) := by
  rw [alignDown_two, BitVec.ofNat_add, BitVec.add_assoc]

end PacketBuffering
