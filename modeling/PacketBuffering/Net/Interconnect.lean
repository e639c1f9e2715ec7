import PacketBuffering.Lib.Packet
import PacketBuffering.Lib.Skid
import PacketBuffering.Net.Arbiter
import PacketBuffering.Net.Map

/-!
# The interconnect

`axi_interconnect.v`: one transaction at a time between the masters at its slave interfaces and the
slaves at its master interfaces.

* `NetReq`, `NetFwd`, `NetW`, `NetB`, `NetR`: the payloads of the channels.
* `Interconnect`: the registers; `rInt`, `wInt`: the internal datapath; `clockIdle` … `clockWaitIdle`: the
  states; **`Interconnect.clock`**: a rising edge of `clk`.
* `Wire`, `NetBeat`, `Interconnect.events`: the channels of all ports, and what is handed over on each.
-/

namespace PacketBuffering

/-! ## Payloads -/

/-- A request of a master. -/
structure NetReq (N : NetParams) (userWidth : ℕ) where
  id : BitVec N.idWidth
  addr : BitVec N.addrWidth
  len : BitVec 8
  size : BitVec 3
  burst : BitVec 2
  lock : Bool
  cache : BitVec 4
  prot : BitVec 3
  qos : BitVec 4
  user : BitVec userWidth
deriving DecidableEq

/-- A request to a slave. -/
structure NetFwd (N : NetParams) (userWidth : ℕ) extends NetReq N userWidth where
  region : BitVec 4
deriving DecidableEq

/-- A word of write data. -/
structure NetW (N : NetParams) where
  data : BitVec N.dataWidth
  strb : BitVec N.strbWidth
  last : Bool
  user : BitVec N.wuserWidth
deriving DecidableEq

/-- A write response. -/
structure NetB (N : NetParams) where
  id : BitVec N.idWidth
  resp : BitVec 2
  user : BitVec N.buserWidth
deriving DecidableEq

/-- A word of read data. -/
structure NetR (N : NetParams) where
  id : BitVec N.idWidth
  data : BitVec N.dataWidth
  resp : BitVec 2
  last : Bool
  user : BitVec N.ruserWidth
deriving DecidableEq

/-- The response `DECERR`. -/
def axiRespDecerr : BitVec 2 := 0b11

/-- `AUSER_WIDTH` -/
def NetParams.auserWidth (N : NetParams) : ℕ :=
  if N.aruserWidth < N.awuserWidth then N.awuserWidth else N.aruserWidth

/-- The states of `axi_interconnect`. -/
inductive NetState
  | idle | decode | write | writeResp | writeDrop | read | readDrop | waitIdle
deriving DecidableEq

/-- The registers of `axi_interconnect`, with those of its arbiter and of its two output datapaths. -/
structure Interconnect (N : NetParams) where
  state : NetState
  mSelect : ℕ
  axi : NetReq N N.auserWidth
  region : BitVec 4
  addrValid : Bool
  bresp : BitVec 2
  buser : BitVec N.buserWidth
  sAwready : ℕ → Bool
  sWready : ℕ → Bool
  sBvalid : ℕ → Bool
  sArready : ℕ → Bool
  mAwvalid : ℕ → Bool
  mBready : ℕ → Bool
  mArvalid : ℕ → Bool
  mRready : ℕ → Bool
  arb : Arbiter
  rOut : Skid (NetR N)
  wOut : Skid (NetW N)

/-- The inputs at a rising edge, for each port. -/
structure NetIn (N : NetParams) where
  rst : Bool
  sAwvalid : ℕ → Bool
  sAw : ℕ → NetReq N N.awuserWidth
  sWvalid : ℕ → Bool
  sW : ℕ → NetW N
  sBready : ℕ → Bool
  sArvalid : ℕ → Bool
  sAr : ℕ → NetReq N N.aruserWidth
  sRready : ℕ → Bool
  mAwready : ℕ → Bool
  mWready : ℕ → Bool
  mBvalid : ℕ → Bool
  mB : ℕ → NetB N
  mArready : ℕ → Bool
  mRvalid : ℕ → Bool
  mR : ℕ → NetR N

variable {N : NetParams}

/-- The request with its `user` in a register of another width. -/
def NetReq.withUser {u : ℕ} (r : NetReq N u) (v : ℕ) : NetReq N v :=
  { r with user := r.user.setWidth v }

/-- The parameters of `arb_inst`. -/
def NetParams.arbiter (N : NetParams) : ArbiterParams := ⟨N.sCount * 2, true, true, true, true⟩

/-- A vector with nothing set. -/
def allOff : ℕ → Bool := fun _ => false

namespace Interconnect

/-- The registers after configuration. -/
def reset (N : NetParams) : Interconnect N where
  state := .idle
  mSelect := 0
  axi := ⟨0, 0, 0, 0, 0, false, 0, 0, 0, 0⟩
  region := 0
  addrValid := false
  bresp := 0
  buser := 0
  sAwready := allOff
  sWready := allOff
  sBvalid := allOff
  sArready := allOff
  mAwvalid := allOff
  mBready := allOff
  mArvalid := allOff
  mRready := allOff
  arb := .reset
  rOut := ⟨⟨0, 0, 0, false, 0⟩, allOff, ⟨0, 0, 0, false, 0⟩, false, false⟩
  wOut := ⟨⟨0, 0, false, 0⟩, allOff, ⟨0, 0, false, 0⟩, false, false⟩

variable (s : Interconnect N) (i : NetIn N)

/-! ## Outputs -/

/-- A request as the slaves see it. -/
def forward (v : ℕ) (enable : Bool) : NetFwd N v where
  toNetReq := { s.axi with
    id := if N.forwardId then s.axi.id else 0
    user := if enable then s.axi.user.setWidth v else 0 }
  region := s.region

/-- The write request as the slaves see it. -/
def mAw : NetFwd N N.awuserWidth := s.forward N.awuserWidth N.awuserEnable

/-- The read request as the slaves see it. -/
def mAr : NetFwd N N.aruserWidth := s.forward N.aruserWidth N.aruserEnable

/-- The response at the slave interfaces. -/
def sB : NetB N := ⟨s.axi.id, s.bresp, if N.buserEnable then s.buser else 0⟩

/-- A word of read data as the masters see it. -/
def sROf (b : NetR N) : NetR N := { b with user := if N.ruserEnable then b.user else 0 }

/-- A word of write data as the slaves see it. -/
def mWOf (b : NetW N) : NetW N := { b with user := if N.wuserEnable then b.user else 0 }

/-! ## Arbitration -/

/-- `s_select` -/
def sSelect : ℕ := s.arb.grantEncoded >>> 1

/-- `read` -/
def isRead : Bool := s.arb.grantEncoded.testBit 0

/-- The requests: that of the write channel of port `n` at `2 * n`, that of its read channel behind. -/
def request (k : ℕ) : Bool := if k % 2 = 0 then i.sAwvalid (k / 2) else i.sArvalid (k / 2)

/-- The acknowledgements: a response is taken, or the last word of read data. -/
def acknowledge (k : ℕ) : Bool :=
  if k % 2 = 0 then s.arb.grant k && s.sBvalid (k / 2) && i.sBready (k / 2)
  else s.arb.grant k && s.rOut.valid (k / 2) && i.sRready (k / 2) && s.rOut.out.last

/-- The inputs of the arbiter. -/
def arbIn : ArbiterIn := ⟨i.rst, request i, s.acknowledge i⟩

/-! ## The internal datapath -/

/-- `s_axi_rvalid_int` -/
def rIntValid : Bool :=
  match s.state with
  | .read => s.mRready s.mSelect && i.mRvalid s.mSelect
  | .readDrop => true
  | _ => false

/-- `s_axi_rid_int`, … -/
def rInt : NetR N :=
  match s.state with
  | .readDrop => ⟨s.axi.id, 0, axiRespDecerr, s.axi.len == 0, 0⟩
  | _ => { i.mR s.mSelect with id := s.axi.id }

/-- The inputs of the skid buffer of the read data. -/
def rIn : SkidIn (NetR N) := ⟨i.rst, s.sSelect, i.sRready s.sSelect, s.rInt i, s.rIntValid i⟩

/-- `m_axi_wvalid_int` -/
def wIntValid : Bool :=
  match s.state with
  | .write => s.sWready s.sSelect && i.sWvalid s.sSelect
  | _ => false

/-- The inputs of the skid buffer of the write data. -/
def wIn : SkidIn (NetW N) := ⟨i.rst, s.mSelect, i.mWready s.mSelect, i.sW s.sSelect, s.wIntValid i⟩

/-! ## The state machine -/

/-- The registers at the head of the `always` block: the offers that are not taken stay. -/
def defaults : Interconnect N :=
  { s with
    state := .idle
    sAwready := allOff
    sWready := allOff
    sBvalid := fun n => s.sBvalid n && !i.sBready n
    sArready := allOff
    mAwvalid := fun m => s.mAwvalid m && !i.mAwready m
    mBready := allOff
    mArvalid := fun m => s.mArvalid m && !i.mArready m
    mRready := allOff }

/-- `STATE_IDLE` -/
def clockIdle : Interconnect N :=
  let d := s.defaults i
  if s.arb.grantValid then
    if s.isRead then
      { d with
        addrValid := true
        axi := (i.sAr s.sSelect).withUser _
        sArready := Function.update d.sArready s.sSelect true
        state := .decode }
    else
      { d with
        addrValid := true
        axi := (i.sAw s.sSelect).withUser _
        sAwready := Function.update d.sAwready s.sSelect true
        state := .decode }
  else { d with state := .idle }

/-- `STATE_DECODE` -/
def clockDecode : Interconnect N :=
  let d := s.defaults i
  match N.decode s.isRead s.sSelect s.axi.prot s.axi.addr with
  | some (m, j) =>
    if s.isRead then
      { d with
        mSelect := m
        region := BitVec.ofNat 4 j
        mRready := Function.update d.mRready s.mSelect (s.rOut.early (s.rIn i))
        state := .read }
    else
      { d with
        mSelect := m
        region := BitVec.ofNat 4 j
        sWready := Function.update d.sWready s.sSelect (s.wOut.early (s.wIn i))
        state := .write }
  | none =>
    if s.isRead then { d with state := .readDrop }
    else
      { d with
        bresp := axiRespDecerr
        sWready := Function.update d.sWready s.sSelect true
        state := .writeDrop }

/-- `STATE_WRITE` -/
def clockWrite : Interconnect N :=
  let d := s.defaults i
  let d := if s.addrValid then { d with mAwvalid := Function.update d.mAwvalid s.mSelect true } else d
  if s.wIntValid i && (i.sW s.sSelect).last then
    { d with
      addrValid := false
      sWready := Function.update d.sWready s.sSelect false
      mBready := Function.update d.mBready s.mSelect true
      state := .writeResp }
  else
    { d with
      addrValid := false
      sWready := Function.update d.sWready s.sSelect (s.wOut.early (s.wIn i))
      state := .write }

/-- `STATE_WRITE_RESP` -/
def clockWriteResp : Interconnect N :=
  let d := s.defaults i
  if s.mBready s.mSelect && i.mBvalid s.mSelect then
    { d with
      mBready := Function.update d.mBready s.mSelect false
      bresp := (i.mB s.mSelect).resp
      sBvalid := Function.update d.sBvalid s.sSelect true
      state := .waitIdle }
  else { d with mBready := Function.update d.mBready s.mSelect true, state := .writeResp }

/-- `STATE_WRITE_DROP` -/
def clockWriteDrop : Interconnect N :=
  let d := s.defaults i
  if s.sWready s.sSelect && i.sWvalid s.sSelect && (i.sW s.sSelect).last then
    { d with
      addrValid := false
      sWready := Function.update d.sWready s.sSelect false
      sBvalid := Function.update d.sBvalid s.sSelect true
      state := .waitIdle }
  else
    { d with
      addrValid := false
      sWready := Function.update d.sWready s.sSelect true
      state := .writeDrop }

/-- `STATE_READ` -/
def clockRead : Interconnect N :=
  let d := s.defaults i
  let d := if s.addrValid then { d with mArvalid := Function.update d.mArvalid s.mSelect true } else d
  if s.rIntValid i && (i.mR s.mSelect).last then
    { d with
      addrValid := false
      mRready := Function.update d.mRready s.mSelect false
      state := .waitIdle }
  else
    { d with
      addrValid := false
      mRready := Function.update d.mRready s.mSelect (s.rOut.early (s.rIn i))
      state := .read }

/-- `STATE_READ_DROP` -/
def clockReadDrop : Interconnect N :=
  let d := s.defaults i
  if s.rOut.ready then
    { d with
      axi := { s.axi with len := s.axi.len - 1 }
      state := if s.axi.len = 0 then .waitIdle else .readDrop }
  else { d with state := .readDrop }

/-- `STATE_WAIT_IDLE` -/
def clockWaitIdle : Interconnect N :=
  let d := s.defaults i
  if !s.arb.grantValid || anyBit (N.sCount * 2) (s.acknowledge i) then { d with state := .idle }
  else { d with state := .waitIdle }

/-- The state machine, without `rst`. -/
def next : Interconnect N :=
  match s.state with
  | .idle => s.clockIdle i
  | .decode => s.clockDecode i
  | .write => s.clockWrite i
  | .writeResp => s.clockWriteResp i
  | .writeDrop => s.clockWriteDrop i
  | .read => s.clockRead i
  | .readDrop => s.clockReadDrop i
  | .waitIdle => s.clockWaitIdle i

/-- `rst` takes back every offer and every `ready`; the datapath registers go on. -/
def clear : Interconnect N :=
  { s with
    state := .idle
    sAwready := allOff
    sWready := allOff
    sBvalid := allOff
    sArready := allOff
    mAwvalid := allOff
    mBready := allOff
    mArvalid := allOff
    mRready := allOff }

/-- **A rising edge of `clk`.** -/
def clock : Interconnect N :=
  { (if i.rst then (s.next i).clear else s.next i) with
    arb := s.arb.clock N.arbiter (s.arbIn i)
    rOut := s.rOut.clock (s.rIn i)
    wOut := s.wOut.clock (s.wIn i) }

end Interconnect

/-! ## What is handed over -/

/-- The channels: those of the masters at port `n`, and those of the slaves at port `m`. -/
inductive Wire
  | sAw (n : ℕ) | sW (n : ℕ) | sB (n : ℕ) | sAr (n : ℕ) | sR (n : ℕ)
  | mAw (m : ℕ) | mW (m : ℕ) | mB (m : ℕ) | mAr (m : ℕ) | mR (m : ℕ)

/-- What a channel carries. -/
inductive NetBeat (N : NetParams)
  | aw (r : NetReq N N.awuserWidth)
  | ar (r : NetReq N N.aruserWidth)
  | fwdAw (r : NetFwd N N.awuserWidth)
  | fwdAr (r : NetFwd N N.aruserWidth)
  | w (x : NetW N)
  | b (x : NetB N)
  | r (x : NetR N)
deriving DecidableEq

/-- The last word of a burst. -/
def NetBeat.isLast : NetBeat N → Bool
  | .w x => x.last
  | .r x => x.last
  | _ => false

/-- **What is handed over on a channel in a cycle.** -/
def Interconnect.events (s : Interconnect N) (i : NetIn N) : Wire → List (NetBeat N)
  | .sAw n => if i.sAwvalid n && s.sAwready n then [.aw (i.sAw n)] else []
  | .sW n => if i.sWvalid n && s.sWready n then [.w (i.sW n)] else []
  | .sB n => if s.sBvalid n && i.sBready n then [.b s.sB] else []
  | .sAr n => if i.sArvalid n && s.sArready n then [.ar (i.sAr n)] else []
  | .sR n => if s.rOut.valid n && i.sRready n then [.r (sROf s.rOut.out)] else []
  | .mAw m => if s.mAwvalid m && i.mAwready m then [.fwdAw s.mAw] else []
  | .mW m => if s.wOut.valid m && i.mWready m then [.w (mWOf s.wOut.out)] else []
  | .mB m => if i.mBvalid m && s.mBready m then [.b (i.mB m)] else []
  | .mAr m => if s.mArvalid m && i.mArready m then [.fwdAr s.mAr] else []
  | .mR m => if i.mRvalid m && s.mRready m then [.r (i.mR m)] else []

end PacketBuffering
