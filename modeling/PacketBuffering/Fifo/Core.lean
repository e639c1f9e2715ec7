import PacketBuffering.Lib.Gray
import PacketBuffering.Lib.Stale

/-!
# The asynchronous FIFO core

`async_fifo_top` and the blocks it instantiates: `wr_domain`, `rd_domain`, `sync_ptr` (twice),
`fifo_mem` and `fifo_diag`.

An event of the two-clock machine is an instant at which `wr_clk`, `rd_clk` or both rise. Every
register clocked at the event sees the values from before it. The one exception is the first
register of a pointer synchroniser when the other domain's pointer changes at the same instant:
each bit is then sampled old or new, as `rd2wrPick` and `wr2rdPick` say.

The memory has no reset, so a reset state is one for some contents of the memory and its read
register.
-/

namespace PacketBuffering

/-- Parameters of the FIFO: `DEPTH = 2 ^ ADDR_WIDTH` with `DEPTH ≥ 4` (the full test splits off the
two top pointer bits) and at least one synchroniser stage. -/
structure FifoParams where
  addrWidth : ℕ
  syncStages : ℕ
  two_le_addrWidth : 2 ≤ addrWidth
  syncStages_pos : 0 < syncStages

namespace FifoParams

variable (P : FifoParams)

/-- `PTR_WIDTH`, one bit more than an address. -/
abbrev ptrWidth : ℕ := P.addrWidth + 1

/-- `DEPTH`. -/
def depth : ℕ := 2 ^ P.addrWidth

/-- A pointer, binary or in Gray code. -/
abbrev Ptr : Type := BitVec P.ptrWidth

end FifoParams

variable {P : FifoParams}

/-! ## `wr_domain` -/

variable (P) in
/-- The registers of `wr_domain`. -/
structure WrDomain where
  wrBinPtr : P.Ptr
  wrGrayPtrReg : P.Ptr
  wrFullReg : Bool
  rdGraySyncReg : P.Ptr
  wrOverflowReg : Bool

namespace WrDomain

variable (d : WrDomain P) (wrEn : Bool)

variable (P) in
/-- The values under `wr_rst_n` low. -/
def reset : WrDomain P := ⟨0, 0, false, 0, false⟩

/-- `wr_allow`. -/
def wrAllow : Bool := wrEn && !d.wrFullReg

/-- `wr_addr`. -/
def wrAddr : BitVec P.addrWidth := d.wrBinPtr.setWidth P.addrWidth

/-- `wr_bin_next`. -/
def wrBinNext : P.Ptr := d.wrBinPtr + if d.wrAllow wrEn then 1#P.ptrWidth else 0#P.ptrWidth

/-- `wr_gray_next`. -/
def wrGrayNext : P.Ptr := gray (d.wrBinNext wrEn)

/-- `wr_full_next`: the next code against the stale read pointer with its top two bits inverted. -/
def wrFullNext : Bool := d.wrGrayNext wrEn == invTopTwo d.rdGraySyncReg

/-- A rising `wr_clk` out of reset. -/
def clock (rdGraySync : P.Ptr) : WrDomain P where
  wrBinPtr := d.wrBinNext wrEn
  wrGrayPtrReg := d.wrGrayNext wrEn
  wrFullReg := d.wrFullNext wrEn
  rdGraySyncReg := rdGraySync
  wrOverflowReg := wrEn && d.wrFullReg

end WrDomain

/-! ## `rd_domain` -/

variable (P) in
/-- The registers of `rd_domain`. -/
structure RdDomain where
  rdBinPtr : P.Ptr
  rdGrayPtrReg : P.Ptr
  rdEmptyReg : Bool
  rdUnderflowReg : Bool
  wrGraySyncReg : P.Ptr

namespace RdDomain

variable (d : RdDomain P) (rdEn : Bool)

variable (P) in
/-- The values under `rd_rst_n` low. -/
def reset : RdDomain P := ⟨0, 0, true, false, 0⟩

/-- `rd_allow`, which is also the output `rd_valid`. -/
def rdAllow : Bool := rdEn && !d.rdEmptyReg

/-- `rd_addr`. -/
def rdAddr : BitVec P.addrWidth := d.rdBinPtr.setWidth P.addrWidth

/-- `rd_bin_next`. -/
def rdBinNext : P.Ptr := d.rdBinPtr + if d.rdAllow rdEn then 1#P.ptrWidth else 0#P.ptrWidth

/-- `rd_gray_next`. -/
def rdGrayNext : P.Ptr := gray (d.rdBinNext rdEn)

/-- `rd_empty_next`. -/
def rdEmptyNext : Bool := d.rdGrayNext rdEn == d.wrGraySyncReg

/-- A rising `rd_clk` out of reset. -/
def clock (wrGraySync : P.Ptr) : RdDomain P where
  rdBinPtr := d.rdBinNext rdEn
  rdGrayPtrReg := d.rdGrayNext rdEn
  rdEmptyReg := d.rdEmptyNext rdEn
  rdUnderflowReg := rdEn && d.rdEmptyReg
  wrGraySyncReg := wrGraySync

end RdDomain

/-! ## `fifo_diag` -/

variable (P) in
/-- The diagnostic registers of one clock domain; the two halves of `fifo_diag` are the same
circuit. -/
structure DomainDiag where
  prevGray : P.Ptr
  grayErrorReg : Bool
  stickyReg : Bool
  stuckCount : BitVec 5
  pointerStuckReg : Bool

namespace DomainDiag

variable (P) in
/-- The values under reset. -/
def reset : DomainDiag P := ⟨0, false, false, 0, false⟩

/-- `STUCK_THRESHOLD`. -/
def stuckThreshold : BitVec 5 := 16

/-- A rising clock out of reset: `fault` is `wr_overflow` or `rd_underflow`, `active` is
`wr_en && !wr_full` or `rd_en && !rd_empty`. -/
def clock (d : DomainDiag P) (clear fault active : Bool) (grayPtr : P.Ptr) : DomainDiag P :=
  let diff := grayPtr ^^^ d.prevGray
  if clear then
    { d with grayErrorReg := false, stickyReg := false, pointerStuckReg := false }
  else
    { prevGray := grayPtr
      grayErrorReg := d.grayErrorReg || (diff != 0 && (diff &&& (diff - 1)) != 0)
      stickyReg := d.stickyReg || fault
      stuckCount :=
        if active && diff == 0 then
          if d.stuckCount == stuckThreshold then d.stuckCount else d.stuckCount + 1
        else 0
      pointerStuckReg :=
        d.pointerStuckReg || (active && diff == 0 && d.stuckCount == stuckThreshold) }

end DomainDiag

/-! ## `async_fifo_top` -/

variable (P) in
/-- The registers of `async_fifo_top`: `sync_reg` of the two pointer synchronisers, the memory and
its read register, and the diagnostics. -/
structure AsyncFifo (α : Type*) where
  wr : WrDomain P
  rd : RdDomain P
  syncRd2Wr : Fin P.syncStages → P.Ptr
  syncWr2Rd : Fin P.syncStages → P.Ptr
  mem : BitVec P.addrWidth → α
  rdData : α
  wrDiag : DomainDiag P
  rdDiag : DomainDiag P

variable (P) in
/-- One event: which clocks rise, the levels of the resets and the other inputs at that instant,
and how the synchronisers resolve a pointer that changes under them. -/
structure CoreEvent (α : Type*) where
  wrClk : Bool
  rdClk : Bool
  wrRstN : Bool
  rdRstN : Bool
  wrEn : Bool
  wrData : α
  rdEn : Bool
  wrDiagClear : Bool
  rdDiagClear : Bool
  rd2wrPick : P.Ptr
  wr2rdPick : P.Ptr

namespace AsyncFifo

variable {α : Type*} (s : AsyncFifo P α) (e : CoreEvent P α)

/-- The reset state over the memory contents `mem` and the read register `rdData`. -/
def reset (mem : BitVec P.addrWidth → α) (rdData : α) : AsyncFifo P α where
  wr := .reset P
  rd := .reset P
  syncRd2Wr := fun _ => 0
  syncWr2Rd := fun _ => 0
  mem := mem
  rdData := rdData
  wrDiag := .reset P
  rdDiag := .reset P

/-- The assertion of both asynchronous resets: the memory and its read register keep their
contents. -/
def asyncReset : AsyncFifo P α := reset s.mem s.rdData

/-- The read pointer as the write side sees it. -/
def rdGraySync : P.Ptr := chainOut P.syncStages_pos s.syncRd2Wr

/-- The write pointer as the read side sees it. -/
def wrGraySync : P.Ptr := chainOut P.syncStages_pos s.syncWr2Rd

/-- The write domain after the event. -/
def wrNext : WrDomain P :=
  if !e.wrRstN then .reset P else if e.wrClk then s.wr.clock e.wrEn s.rdGraySync else s.wr

/-- The read domain after the event. -/
def rdNext : RdDomain P :=
  if !e.rdRstN then .reset P else if e.rdClk then s.rd.clock e.rdEn s.wrGraySync else s.rd

/-- The synchroniser of the read pointer after the event. -/
def syncRd2WrNext : Fin P.syncStages → P.Ptr :=
  if !e.wrRstN then fun _ => 0
  else if e.wrClk then
    shift (mix e.rd2wrPick s.rd.rdGrayPtrReg (s.rdNext e).rdGrayPtrReg) s.syncRd2Wr
  else s.syncRd2Wr

/-- The synchroniser of the write pointer after the event. -/
def syncWr2RdNext : Fin P.syncStages → P.Ptr :=
  if !e.rdRstN then fun _ => 0
  else if e.rdClk then
    shift (mix e.wr2rdPick s.wr.wrGrayPtrReg (s.wrNext e).wrGrayPtrReg) s.syncWr2Rd
  else s.syncWr2Rd

/-- `fifo_mem`'s array after the event; it is not reset. -/
def memNext : BitVec P.addrWidth → α := fun a =>
  if e.wrClk && s.wr.wrAllow e.wrEn && a == s.wr.wrAddr then e.wrData else s.mem a

/-- The diagnostics of the write side after the event. -/
def wrDiagNext : DomainDiag P :=
  if !e.wrRstN then .reset P
  else if e.wrClk then
    s.wrDiag.clock e.wrDiagClear s.wr.wrOverflowReg (e.wrEn && !s.wr.wrFullReg) s.wr.wrGrayPtrReg
  else s.wrDiag

/-- The diagnostics of the read side after the event. -/
def rdDiagNext : DomainDiag P :=
  if !e.rdRstN then .reset P
  else if e.rdClk then
    s.rdDiag.clock e.rdDiagClear s.rd.rdUnderflowReg (e.rdEn && !s.rd.rdEmptyReg) s.rd.rdGrayPtrReg
  else s.rdDiag

/-- **One event of `async_fifo_top`.** -/
def step : AsyncFifo P α where
  wr := s.wrNext e
  rd := s.rdNext e
  syncRd2Wr := s.syncRd2WrNext e
  syncWr2Rd := s.syncWr2RdNext e
  mem := s.memNext e
  rdData := if e.rdClk then s.mem s.rd.rdAddr else s.rdData
  wrDiag := s.wrDiagNext e
  rdDiag := s.rdDiagNext e

/-- The event accepts a write: the pointer moves. -/
def pushes : Bool := e.wrRstN && e.wrClk && s.wr.wrAllow e.wrEn

/-- The event accepts a read, a cycle of `rd_clk` with `rd_valid = 1`. -/
def pops : Bool := e.rdRstN && e.rdClk && s.rd.rdAllow e.rdEn

/-- The data of the write the event accepts. -/
def accepted : List α := if s.pushes e then [e.wrData] else []

/-- `rd_data` right after the clock edge of a cycle with `rd_valid = 1`. -/
def delivered : List α := if s.pops e then [(s.step e).rdData] else []

end AsyncFifo

end PacketBuffering
