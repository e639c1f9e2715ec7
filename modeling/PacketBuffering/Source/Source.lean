import PacketBuffering.Lib.Packet

/-!
# The packet source

`packet_source`: a generator of packets on a 32-bit AXI stream, of a programmable length and with a gap
between the packets. It starts a packet in three places: from idle, right behind the last word of the
packet before, and at the end of a gap.
-/

namespace PacketBuffering

/-- The parameter `DEFAULT_PKT_WORDS`, a length that fits its register. -/
structure SourceParams where
  defaultPktWords : ℕ
  pos : 0 < defaultPktWords
  lt : defaultPktWords < 2 ^ 16

/-- The default value. -/
def SourceParams.default : SourceParams := ⟨4, by decide, by decide⟩

/-- The inputs of one cycle. -/
structure SourceIn where
  enable : Bool
  triggerPulse : Bool
  pktWords : BitVec 16
  interPktGap : BitVec 8
  injectError : Bool
  tready : Bool

/-- The states of the generator; the fourth code is never entered. -/
inductive SourceState
  | idle
  | send
  | gap
deriving DecidableEq

/-- The registers of `packet_source`; `axis` is `{tlast, tkeep, tdata}`. -/
structure PacketSource where
  state : SourceState
  wordIdx : BitVec 16
  targetWords : BitVec 16
  gapCnt : BitVec 8
  pktSeq : BitVec 16
  axis : Payload
  tvalid : Bool
  packetSent : Bool

variable (D : SourceParams)

namespace SourceIn

variable (i : SourceIn)

/-- The length that is asked for. -/
def asked : BitVec 16 := if i.pktWords > 0 then i.pktWords else BitVec.ofNat 16 D.defaultPktWords

/-- The header word of the packet number `seq`. -/
def header (seq : BitVec 16) : BitVec 32 := (if i.injectError then 0xDEAD#16 else 0xA5A5#16) ++ seq

end SourceIn

namespace PacketSource

/-- The values under `!rst_n`. -/
def reset : PacketSource := ⟨.idle, 0, 0, 0, 0, ⟨false, 0xF, 0⟩, false, false⟩

variable (s : PacketSource) (i : SourceIn)

/-- The next packet of the length that is held. -/
def restart : PacketSource :=
  { s with
    state := .send
    wordIdx := 0
    pktSeq := s.pktSeq + 1
    tvalid := true
    axis := ⟨s.targetWords == 1, 0xF, i.header (s.pktSeq + 1)⟩ }

/-- A rising clock in `ST_IDLE`. -/
def clockIdle : PacketSource :=
  let t := { s with
    packetSent := false, tvalid := false, axis := { s.axis with tlast := false }, wordIdx := 0 }
  if i.enable || i.triggerPulse then
    { t with
      targetWords := i.asked D
      state := .send
      pktSeq := s.pktSeq + 1
      tvalid := true
      axis := ⟨i.pktWords == 1 || i.pktWords == 0 && D.defaultPktWords == 1, 0xF,
        i.header s.pktSeq⟩ }
  else t

/-- A word is handed over. -/
def fires : Bool := s.tvalid && i.tready

/-- A rising clock in `ST_SEND`. -/
def clockSend : PacketSource :=
  let t := { s with packetSent := false, tvalid := true }
  if s.fires i then
    if s.axis.tlast then
      let t := { t with tvalid := false, axis := { s.axis with tlast := false }, packetSent := true }
      if i.interPktGap > 0 then { t with gapCnt := i.interPktGap, state := .gap }
      else if i.enable then t.restart i
      else { t with state := .idle }
    else
      { t with
        wordIdx := s.wordIdx + 1
        axis := ⟨s.wordIdx + 2 == s.targetWords, 0xF, s.pktSeq ++ (s.wordIdx + 1)⟩ }
  else t

/-- A rising clock in `ST_GAP`. -/
def clockGap : PacketSource :=
  let t := { s with packetSent := false, tvalid := false, axis := { s.axis with tlast := false } }
  if s.gapCnt > 1 then { t with gapCnt := s.gapCnt - 1 }
  else if i.enable then t.restart i
  else { t with state := .idle }

/-- **A rising clock.** -/
def clock : PacketSource :=
  match s.state with
  | .idle => s.clockIdle D i
  | .send => s.clockSend i
  | .gap => s.clockGap i

end PacketSource

end PacketBuffering
