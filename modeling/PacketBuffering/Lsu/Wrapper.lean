import Mathlib.Data.BitVec
import Mathlib.Tactic.Common

/-!
# The LSU bus adapter

`veer_lsu_axi64_to_axi32_wrapper`: single-beat 64-bit AXI transactions of the load/store unit on a
32-bit bus. Write and read path are independent, with one transaction outstanding each. Address bit
`2` selects the half of the 64-bit data that goes to, or comes from, the 32-bit bus.

`awlen`, `arlen`, `wlast`, `m_axi_rid`, `m_axi_rlast` and the region and user inputs are not read; the
outputs it ties to constants (`m_axi_awlen`, `m_axi_wlast`, the user signals, `s_axi_rlast`) are left
out.
-/

namespace PacketBuffering

/-- The widths of the upstream and the downstream transaction identifiers. -/
structure LsuParams where
  lsuBusTag : ℕ
  mIdWidth : ℕ
  le_mIdWidth : lsuBusTag ≤ mIdWidth

/-- The widths of the instantiated adapter. -/
def LsuParams.default : LsuParams := ⟨4, 8, by decide⟩

variable {L : LsuParams}

/-- A request on an address channel with identifiers of width `n`. -/
@[ext] structure AddrReq (n : ℕ) where
  id : BitVec n
  addr : BitVec 32
  size : BitVec 3
  burst : BitVec 2
  lock : Bool
  cache : BitVec 4
  prot : BitVec 3
  qos : BitVec 4

/-- The request registers under `!rst_n`. -/
def AddrReq.zero (n : ℕ) : AddrReq n := ⟨0, 0, 0, 0, false, 0, 0, 0⟩

/-- A 64-bit write beat with its strobes. -/
@[ext] structure Beat64 where
  data : BitVec 64
  strb : BitVec 8

/-- A 32-bit write beat with its strobes. -/
@[ext] structure Beat32 where
  data : BitVec 32
  strb : BitVec 4

/-- The states of the write path. -/
inductive WsState
  | idle
  | wait
  | cmd
  | bresp
deriving DecidableEq

/-- The states of the read path; the fourth code of the two-bit register is never entered. -/
inductive RsState
  | idle
  | cmd
  | data
deriving DecidableEq

variable (L) in
/-- The inputs of one cycle, from the load/store unit and from the 32-bit bus. -/
structure LsuIn where
  sAwvalid : Bool
  sAw : AddrReq L.lsuBusTag
  sWvalid : Bool
  sW : Beat64
  sBready : Bool
  sArvalid : Bool
  sAr : AddrReq L.lsuBusTag
  sRready : Bool
  mAwready : Bool
  mWready : Bool
  mBvalid : Bool
  mBid : BitVec L.mIdWidth
  mBresp : BitVec 2
  mArready : Bool
  mRvalid : Bool
  mRdata : BitVec 32
  mRresp : BitVec 2

variable (L) in
/-- The registers of the adapter. -/
structure LsuWrapper where
  wrState : WsState
  wrAw : AddrReq L.lsuBusTag
  wrAwValid : Bool
  wrW : Beat64
  wrWValid : Bool
  wrAwSent : Bool
  wrWSent : Bool
  mAwvalidR : Bool
  mWvalidR : Bool
  rdState : RsState
  rdAr : AddrReq L.lsuBusTag

namespace LsuWrapper

variable (L) in
/-- The values under `!rst_n`. -/
def reset : LsuWrapper L where
  wrState := .idle
  wrAw := .zero _
  wrAwValid := false
  wrW := ⟨0, 0⟩
  wrWValid := false
  wrAwSent := false
  wrWSent := false
  mAwvalidR := false
  mWvalidR := false
  rdState := .idle
  rdAr := .zero _

variable (s : LsuWrapper L) (i : LsuIn L)

/-! ## The write path -/

/-- `s_axi_awready`. -/
def sAxiAwready : Bool := (s.wrState == .idle || s.wrState == .wait) && !s.wrAwValid

/-- `s_axi_wready`. -/
def sAxiWready : Bool := (s.wrState == .idle || s.wrState == .wait) && !s.wrWValid

/-- `aw_take`. -/
def awTake : Bool := i.sAwvalid && s.sAxiAwready

/-- `w_take`. -/
def wTake : Bool := i.sWvalid && s.sAxiWready

/-- The downstream bus takes the address in this cycle. -/
def awFire : Bool := s.mAwvalidR && i.mAwready

/-- The downstream bus takes the data in this cycle. -/
def wFire : Bool := s.mWvalidR && i.mWready

/-- The next state of the write path. -/
def wrStateNext : WsState :=
  match s.wrState with
  | .idle =>
    if s.awTake i && s.wTake i then .cmd else if s.awTake i || s.wTake i then .wait else .idle
  | .wait => if s.awTake i || s.wTake i then .cmd else .wait
  | .cmd =>
    if s.wrAwSent && s.wrWSent then .bresp
    else if (s.awFire i || s.wrAwSent) && (s.wFire i || s.wrWSent) then .bresp
    else .cmd
  | .bresp => if i.mBvalid && i.sBready then .idle else .bresp

/-- The transaction retires: the path returns to `WS_IDLE`. -/
def retires : Bool := s.wrStateNext i == .idle && s.wrState != .idle

/-- The path enters `WS_CMD`. -/
def entersCmd : Bool := s.wrStateNext i == .cmd && s.wrState != .cmd

/-- The adapter converts the size of a doubleword to that of a word. -/
def sizeConv (size : BitVec 3) : BitVec 3 := if size = 0b011 then 0b010 else size

/-- A request as it is forwarded: the identifier is extended, the size converted. -/
def forward (r : AddrReq L.lsuBusTag) : AddrReq L.mIdWidth :=
  ⟨r.id.setWidth L.mIdWidth, r.addr, sizeConv r.size, r.burst, r.lock, r.cache, r.prot, r.qos⟩

/-- The half of the beat that `wr_addr[2]` selects. -/
def selectHalf (r : AddrReq L.lsuBusTag) (w : Beat64) : Beat32 :=
  if r.addr.getLsbD 2 then ⟨w.data.extractLsb' 32 32, w.strb.extractLsb' 4 4⟩
  else ⟨w.data.extractLsb' 0 32, w.strb.extractLsb' 0 4⟩

/-- `m_axi_awvalid`. -/
def mAxiAwvalid : Bool := s.mAwvalidR

/-- `m_axi_wvalid`. -/
def mAxiWvalid : Bool := s.mWvalidR

/-- The write address offered downstream. -/
def mAxiAw : AddrReq L.mIdWidth := forward s.wrAw

/-- The beat offered downstream. -/
def mAxiW : Beat32 := selectHalf s.wrAw s.wrW

/-- `s_axi_bvalid`. -/
def sAxiBvalid : Bool := s.wrState == .bresp && i.mBvalid

/-- `s_axi_bid`. -/
def sAxiBid : BitVec L.lsuBusTag := i.mBid.setWidth L.lsuBusTag

/-- `s_axi_bresp`. -/
def sAxiBresp : BitVec 2 := i.mBresp

/-- `m_axi_bready`. -/
def mAxiBready : Bool := s.wrState == .bresp && i.sBready

/-! ## The read path -/

/-- `s_axi_arready`. -/
def sAxiArready : Bool := s.rdState == .idle

/-- The core hands over a read address. -/
def arTake : Bool := i.sArvalid && s.sAxiArready

/-- `m_axi_arvalid`. -/
def mAxiArvalid : Bool := s.rdState == .cmd

/-- The read address offered downstream. -/
def mAxiAr : AddrReq L.mIdWidth := forward s.rdAr

/-- `s_axi_rvalid`. -/
def sAxiRvalid : Bool := s.rdState == .data && i.mRvalid

/-- `m_axi_rready`. -/
def mAxiRready : Bool := s.rdState == .data && i.sRready

/-- `s_axi_rid`. -/
def sAxiRid : BitVec L.lsuBusTag := s.rdAr.id

/-- `s_axi_rresp`. -/
def sAxiRresp : BitVec 2 := i.mRresp

/-- `rdata64_out`: the word in the half that `rd_addr[2]` selects, zeros in the other. -/
def sAxiRdata : BitVec 64 :=
  if s.rdAr.addr.getLsbD 2 then i.mRdata ++ 0#32 else 0#32 ++ i.mRdata

/-- The next state of the read path. -/
def rdStateNext : RsState :=
  match s.rdState with
  | .idle => if s.arTake i then .cmd else .idle
  | .cmd => if s.mAxiArvalid && i.mArready then .data else .cmd
  | .data => if i.mRvalid && s.mAxiRready i then .idle else .data

/-! ## The clock edge -/

/-- **A rising `clk`.** -/
def clock : LsuWrapper L where
  wrState := s.wrStateNext i
  wrAw := if s.awTake i then i.sAw else s.wrAw
  wrAwValid := s.awTake i || (s.wrAwValid && !s.retires i)
  wrW := if s.wTake i then i.sW else s.wrW
  wrWValid := s.wTake i || (s.wrWValid && !s.retires i)
  wrAwSent := !s.retires i && (s.wrAwSent || s.awFire i)
  wrWSent := !s.retires i && (s.wrWSent || s.wFire i)
  mAwvalidR := !s.retires i && !s.awFire i && (s.mAwvalidR || s.entersCmd i)
  mWvalidR := !s.retires i && !s.wFire i && (s.mWvalidR || s.entersCmd i)
  rdState := s.rdStateNext i
  rdAr := if s.arTake i then i.sAr else s.rdAr

end LsuWrapper

end PacketBuffering
