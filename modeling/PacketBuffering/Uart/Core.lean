import Mathlib.Data.List.ReduceOption
import PacketBuffering.Uart.Controller
import PacketBuffering.Uart.Top

/-!
# The whole UART

`axi_uart_top` with everything in it: the register interface, the two FIFOs, `uart_controller` and the
serial side, with one common clock.

* `UartCore`, `UartCore.clock`: the UART; `UartWriter.config`: its configuration registers.
* `UartCore.writes`, `Reconfigures`: what the register interface does in a cycle.
* `UartCore.WriteInv`: the transmit FIFO gets a byte only when there is room for it.
* **`UartCore.accepted_log`**: the transmit FIFO gets the bytes written, but for the first write.
-/

namespace PacketBuffering

/-- `UART_CONFIG_STOP_BITS`. -/
def uartConfigStopBits : ℕ := 2

/-- `UART_CONFIG_PARITY_EN`. -/
def uartConfigParityEn : ℕ := 3

/-- `UART_CONFIG_PARITY_MODE`. -/
def uartConfigParityMode : ℕ := 4

/-- The configuration of the serial side. -/
def UartWriter.config (s : UartWriter) : UartConfig 32 where
  stopBits := s.uartConfig.getLsbD uartConfigStopBits
  parityBit := s.uartConfig.getLsbD uartConfigParityEn
  parityBitMode := s.uartConfig.getLsbD uartConfigParityMode
  baudDiv := s.uartBaudrateDiv

/-- The registers of `axi_uart_top`; `a` is `AXI_FIFO_ADDR`. -/
structure UartCore (a : ℕ) where
  uart : AxiUart
  path : TxPath a 32
  rx : UartRx 32
  rxFifo : InternalFifo a 8

/-- The inputs of a cycle. -/
structure UartCoreIn where
  axi : AxiUartIn
  rx : Bool

namespace UartCore

variable {a : ℕ}

/-- The registers after `axi_aresetn_i`, whatever the memories of the FIFOs hold. -/
def reset (txMem rxMem : BitVec a → BitVec 8) : UartCore a := ⟨.reset, .reset txMem, .reset, .reset rxMem⟩

variable (s : UartCore a) (i : UartCoreIn)

/-- What the FIFOs show; the receive FIFO is empty if the highest bit of its space is set. -/
def status : UartStatus where
  rxData := s.rxFifo.dataO
  rxEmpty := s.rxFifo.space.getLsbD a
  txFull := s.path.fifo.full
  txSpace := s.path.fifo.availableWriteSpace

/-- The inputs of the transmit path. -/
def pathIn : TxPathIn := ⟨s.uart.wr.txFifoReset, s.uart.wr.txFifoPush, s.uart.wr.txFifoDataIn⟩

/-- The inputs of the receive FIFO. -/
def rxFifoIn : FifoIn 8 :=
  ⟨s.uart.rd.rxFifoReset, s.rx.core.rxValid, s.uart.rd.rxFifoPull, s.rx.core.rxData⟩

/-- **A rising clock.** -/
def clock : UartCore a where
  uart := s.uart.clock i.axi s.status
  path := s.path.clock s.uart.wr.config s.pathIn
  rx := s.rx.clock s.uart.wr.config true i.rx
  rxFifo := s.rxFifo.clock s.rxFifoIn

/-! ## The serial side -/

/-- The byte that the transmitter takes. -/
def takes (_ : UartCoreIn) : List (BitVec 8) := s.path.takes s.pathIn

/-- The line. -/
def line (_ : UartCoreIn) : List Bool := [s.path.tx.tx]

/-- The byte that the receiver shows. -/
def results (_ : UartCoreIn) : List (BitVec 8) := s.rx.core.results

/-! ## Writes -/

/-- The inputs of the write machine. -/
def writeIn : UartWriteIn := AxiUart.writeIn i.axi s.status

/-- A write is decoded. -/
def Writes : Prop := s.uart.wr.state = .idle ∧ (s.writeIn i).wren = true

instance : Decidable (s.Writes i) := inferInstanceAs (Decidable (_ ∧ _))

/-- A write to `THR`. -/
def ToThr : Prop := uartOffset i.axi.aw.addr = UartOffset.thr ∧ s.uart.wr.uartDlab = false

instance : Decidable (s.ToThr i) := inferInstanceAs (Decidable (_ ∧ _))

/-- The write that is answered, with the byte for the line if it is one to `THR`. A write to `THR` waits
while the FIFO is full. -/
def writes : List (Option (BitVec 8)) :=
  if s.Writes i then
    if s.ToThr i then if s.path.fifo.full then [] else [some (i.axi.wdata.setWidth 8)]
    else [none]
  else []

/-- A write to a configuration register. -/
def Reconfigures : Prop :=
  s.Writes i ∧ (uartOffset i.axi.aw.addr = UartOffset.lcr ∨
    uartOffset i.axi.aw.addr = UartOffset.baudDivisor ∧ s.uart.wr.uartDlab = true)

instance : Decidable (s.Reconfigures i) := inferInstanceAs (Decidable (_ ∧ _))

/-- The byte on its way to the transmit FIFO, which gets it unless it is held in reset. -/
def pending : List (BitVec 8) :=
  if s.uart.wr.txFifoPush && !s.uart.wr.txFifoReset then [s.uart.wr.txFifoDataIn] else []

/-- The bytes written while the transmit FIFO is not held in reset. -/
def accepted : List (BitVec 8) := if s.uart.wr.txFifoReset then [] else (s.writes i).reduceOption

end UartCore

/-! ## The write machine and the transmit FIFO -/

namespace UartWriter

variable (s : UartWriter) (i : UartWriteIn)

theorem decode_thr (haddr : uartOffset i.aw.addr = UartOffset.thr) (hdlab : s.uartDlab = false) :
    s.decode i = if i.txFull then s
      else { s.respond with txFifoPush := true, txFifoDataIn := i.wdata.setWidth 8 } := by
  cases hfull : i.txFull <;> simp [decode, haddr, hdlab, hfull]

theorem decode_other (h : ¬ (uartOffset i.aw.addr = UartOffset.thr ∧ s.uartDlab = false)) :
    (s.decode i).state = .ack ∧ (s.decode i).txFifoReset = s.txFifoReset ∧
      (s.decode i).txFifoPush = s.txFifoPush := by
  unfold decode respond
  by_cases haddr : uartOffset i.aw.addr = UartOffset.thr
  · have hdlab : s.uartDlab = true := by
      cases hd : s.uartDlab with
      | false => exact absurd ⟨haddr, hd⟩ h
      | true => rfl
    simp [haddr, hdlab]
  · simp only [haddr, if_false]
    split_ifs <;> trivial

theorem decode_config (h : ¬ (uartOffset i.aw.addr = UartOffset.lcr ∨
      uartOffset i.aw.addr = UartOffset.baudDivisor ∧ s.uartDlab = true)) :
    (s.decode i).uartConfig = s.uartConfig ∧ (s.decode i).baudrateDivisor = s.baudrateDivisor ∧
      (s.decode i).uartBaudrateDiv = s.uartBaudrateDiv := by
  obtain ⟨hlcr, hdiv⟩ := not_or.mp h
  have hdiv' : ∀ h : uartOffset i.aw.addr = UartOffset.baudDivisor, s.uartDlab = false := fun h => by
    simpa [h] using hdiv
  simp only [decode, hlcr, if_false]
  split_ifs with hthr hdlab hfull hier hdlab' hbaud hdlab''
  · exact ⟨rfl, rfl, rfl⟩
  · exact ⟨rfl, rfl, rfl⟩
  · exact ⟨rfl, rfl, rfl⟩
  · exact ⟨rfl, rfl, rfl⟩
  · exact ⟨rfl, rfl, rfl⟩
  · exact absurd hdlab'' (by simp [hdiv' hbaud])
  · exact ⟨rfl, rfl, rfl⟩
  · exact ⟨rfl, rfl, rfl⟩

end UartWriter

namespace UartCore

variable {a : ℕ} {s : UartCore a} {i : UartCoreIn}

/-- **A cycle of the write machine.** Nothing but a write in the idle state matters, and that is answered
in the next cycle. -/
theorem wr_cases (s : UartCore a) (i : UartCoreIn) :
    (s.uart.wr.state = .reset ∧ s.writes i = [] ∧ (s.clock i).uart.wr.state = .idle ∧
      (s.clock i).uart.wr.txFifoReset = true ∧ (s.clock i).uart.wr.txFifoPush = false) ∨
    (s.uart.wr.state = .ack ∧ s.writes i = [] ∧ (s.clock i).uart.wr.state = .idle ∧
      (s.clock i).uart.wr.txFifoReset = false ∧ (s.clock i).uart.wr.txFifoPush = false) ∨
    (s.uart.wr.state = .idle ∧ s.writes i = [] ∧ (s.clock i).uart.wr.state = .idle ∧
      (s.clock i).uart.wr.txFifoReset = s.uart.wr.txFifoReset ∧
      (s.clock i).uart.wr.txFifoPush = s.uart.wr.txFifoPush) ∨
    (s.uart.wr.state = .idle ∧ s.writes i = [none] ∧ (s.clock i).uart.wr.state = .ack ∧
      (s.clock i).uart.wr.txFifoReset = s.uart.wr.txFifoReset ∧
      (s.clock i).uart.wr.txFifoPush = s.uart.wr.txFifoPush) ∨
    (s.uart.wr.state = .idle ∧ s.path.fifo.full = false ∧
      s.writes i = [some (s.clock i).uart.wr.txFifoDataIn] ∧ (s.clock i).uart.wr.state = .ack ∧
      (s.clock i).uart.wr.txFifoReset = s.uart.wr.txFifoReset ∧
      (s.clock i).uart.wr.txFifoPush = true) := by
  have hwr : (s.clock i).uart.wr =
      { s.uart.wr.next (s.writeIn i) with syncWren := s.uart.wr.syncWrenNext (s.writeIn i) } := rfl
  have hidle : s.uart.wr.state ≠ .idle → s.writes i = [] := fun h => if_neg fun hw => h hw.1
  rw [hwr]
  unfold UartWriter.next
  cases hstate : s.uart.wr.state with
  | reset => exact .inl ⟨rfl, hidle (by simp [hstate]), rfl, rfl, rfl⟩
  | ack => exact .inr (.inl ⟨rfl, hidle (by simp [hstate]), rfl, rfl, rfl⟩)
  | idle =>
    cases hwren : (s.writeIn i).wren with
    | false =>
      have hnot : ¬ s.Writes i := fun h => absurd h.2 (by rw [hwren]; exact Bool.false_ne_true)
      exact .inr (.inr (.inl ⟨rfl, if_neg hnot, rfl, rfl, rfl⟩))
    | true =>
      have hyes : s.Writes i := ⟨hstate, hwren⟩
      by_cases hthr : s.ToThr i
      · have hdecode := s.uart.wr.decode_thr (s.writeIn i) hthr.1 hthr.2
        cases hfull : s.path.fifo.full with
        | true =>
          rw [show (s.writeIn i).txFull = true from hfull, if_pos rfl] at hdecode
          refine .inr (.inr (.inl ⟨rfl, ?_, ?_, ?_, ?_⟩))
          · rw [writes, if_pos hyes, if_pos hthr, if_pos hfull]
          · simp only [if_true, hdecode, hstate]
          · simp only [if_true, hdecode]
          · simp only [if_true, hdecode]
        | false =>
          rw [show (s.writeIn i).txFull = false from hfull, if_neg Bool.false_ne_true] at hdecode
          refine .inr (.inr (.inr (.inr ⟨rfl, rfl, ?_, ?_, ?_, ?_⟩)))
          · rw [writes, if_pos hyes, if_pos hthr, if_neg (by simp [hfull])]
            simp only [if_true, hdecode]
            rfl
          · simp only [if_true, hdecode, UartWriter.respond]
          · simp only [if_true, hdecode, UartWriter.respond]
          · simp only [if_true, hdecode]
      · obtain ⟨hack, hreset, hpush⟩ := s.uart.wr.decode_other (s.writeIn i) hthr
        refine .inr (.inr (.inr (.inl ⟨rfl, ?_, ?_, ?_, ?_⟩)))
        · rw [writes, if_pos hyes, if_neg hthr]
        · simp only [if_true, hack]
        · simp only [if_true, hreset]
        · simp only [if_true, hpush]

/-- **The configuration** stays without a write to one of its registers, and the divisor in use is the one
that is set but for the cycle behind a write. -/
theorem config_clock (hdiv : s.uart.wr.state ≠ .ack → s.uart.wr.baudrateDivisor = s.uart.wr.uartBaudrateDiv) :
    ((s.clock i).uart.wr.state ≠ .ack →
      (s.clock i).uart.wr.baudrateDivisor = (s.clock i).uart.wr.uartBaudrateDiv) ∧
    (s.uart.wr.state ≠ .reset → s.uart.wr.baudrateDivisor = s.uart.wr.uartBaudrateDiv → ¬ s.Reconfigures i →
      (s.clock i).uart.wr.config = s.uart.wr.config ∧
        (s.clock i).uart.wr.baudrateDivisor = (s.clock i).uart.wr.uartBaudrateDiv) := by
  have hwr : (s.clock i).uart.wr =
      { s.uart.wr.next (s.writeIn i) with syncWren := s.uart.wr.syncWrenNext (s.writeIn i) } := rfl
  rw [hwr]
  unfold UartWriter.next UartWriter.config
  cases hstate : s.uart.wr.state with
  | reset => exact ⟨fun _ => rfl, fun h => absurd rfl h⟩
  | ack => exact ⟨fun _ => rfl, fun _ heq _ => by simp [heq]⟩
  | idle =>
    have heq : s.uart.wr.baudrateDivisor = s.uart.wr.uartBaudrateDiv := hdiv (by simp [hstate])
    cases hwren : (s.writeIn i).wren with
    | false => exact ⟨fun _ => heq, fun _ _ _ => ⟨rfl, heq⟩⟩
    | true =>
      simp only [if_true]
      constructor
      · intro hack
        by_cases hthr : s.ToThr i
        · rw [s.uart.wr.decode_thr (s.writeIn i) hthr.1 hthr.2]
          split_ifs <;> exact heq
        · exact absurd (s.uart.wr.decode_other (s.writeIn i) hthr).1 hack
      · intro _ _ hnot
        have hwrites : s.Writes i := ⟨hstate, hwren⟩
        obtain ⟨hconfig, hset, hused⟩ :=
          s.uart.wr.decode_config (s.writeIn i) fun h => hnot ⟨hwrites, h⟩
        rw [hconfig, hset, hused]
        exact ⟨rfl, heq⟩

/-- The registers of the transmit side between cycles. -/
structure WriteInv (s : UartCore a) : Prop where
  path : s.path.Inv
  push : s.uart.wr.txFifoPush = true → s.uart.wr.state = .ack ∧ s.path.fifo.full = false
  rst : s.uart.wr.txFifoReset = true → s.path.fifo.words = []
  boot : s.uart.wr.state = .reset → s.uart.wr.txFifoReset = true

namespace WriteInv

open InternalFifo

theorem room (h : s.WriteInv) : s.path.Room s.pathIn :=
  ⟨fun hpush _ => (h.push hpush).2, h.rst⟩

theorem pushes_eq (s : UartCore a) : s.path.pushes s.pathIn = s.pending := rfl

theorem reset (txMem rxMem : BitVec a → BitVec 8) : WriteInv (reset txMem rxMem) where
  path := TxPath.inv_reset txMem
  push := fun h => absurd h Bool.false_ne_true
  rst := fun _ => words_eq (holds_reset txMem)
  boot := fun _ => rfl

theorem clock (h : s.WriteInv) : (s.clock i).WriteInv := by
  have hpath : (s.clock i).path.Inv := h.path.clock h.room
  have hwords : (s.clock i).path.fifo.words = _ := TxPath.words_clock h.path.holds h.room
  have hlen : s.uart.wr.txFifoPush = false →
      (s.clock i).path.fifo.words.length ≤ s.path.fifo.words.length := by
    intro hpush
    rw [hwords, pushes_eq, pending, hpush]
    cases s.path.ctl.txPullInt <;> simp
  have hfull : s.uart.wr.txFifoPush = false → s.path.fifo.full = false →
      (s.clock i).path.fifo.full = false := by
    intro hpush hroom
    rw [full_eq h.path.holds] at hroom
    have hne : s.path.fifo.words.length ≠ 2 ^ a := of_decide_eq_false hroom
    have hle := h.path.holds.le
    have := hlen hpush
    rw [full_eq hpath.holds]
    exact decide_eq_false (by omega)
  have hempty : s.uart.wr.txFifoReset = true → (s.clock i).path.fifo.words = [] := by
    intro hrst
    rw [hwords, pushes_eq, pending, hrst, h.rst hrst]
    cases s.path.ctl.txPullInt <;> simp
  obtain ⟨hstate, -, hstate', hrst', hpush'⟩ | ⟨hstate, -, hstate', hrst', hpush'⟩ |
    ⟨hstate, -, hstate', hrst', hpush'⟩ | ⟨hstate, -, hstate', hrst', hpush'⟩ |
    ⟨hstate, hroom, -, hstate', hrst', hpush'⟩ := wr_cases s i
  · exact ⟨hpath, by simp [hpush'], fun _ => hempty (h.boot hstate), by simp [hstate']⟩
  · exact ⟨hpath, by simp [hpush'], by simp [hrst'], by simp [hstate']⟩
  · refine ⟨hpath, fun hpush => ?_, fun hrst => hempty (hrst' ▸ hrst), by simp [hstate']⟩
    exact absurd (hstate.symm.trans (h.push (hpush' ▸ hpush)).1) (by decide)
  · refine ⟨hpath, fun hpush => ?_, fun hrst => hempty (hrst' ▸ hrst), by simp [hstate']⟩
    exact absurd (hstate.symm.trans (h.push (hpush' ▸ hpush)).1) (by decide)
  · refine ⟨hpath, fun _ => ⟨hstate', hfull ?_ hroom⟩, fun hrst => hempty (hrst' ▸ hrst), by simp [hstate']⟩
    by_contra hpush
    exact absurd (hstate.symm.trans (h.push (Bool.eq_true_of_not_eq_false hpush)).1) (by decide)

/-- **The byte on its way** is the one written in the last cycle. -/
theorem pending_clock (h : s.WriteInv) : (s.clock i).pending = s.accepted i := by
  have hpush : s.uart.wr.state = .idle → s.uart.wr.txFifoPush = false := by
    intro hidle
    by_contra hpush
    exact absurd (hidle.symm.trans (h.push (Bool.eq_true_of_not_eq_false hpush)).1) (by decide)
  unfold pending accepted
  obtain ⟨-, hw, -, -, hpush'⟩ | ⟨-, hw, -, -, hpush'⟩ | ⟨hstate, hw, -, -, hpush'⟩ |
    ⟨hstate, hw, -, -, hpush'⟩ | ⟨-, -, hw, -, hrst', hpush'⟩ := wr_cases s i
  · simp [hw, hpush', List.reduceOption_nil]
  · simp [hw, hpush', List.reduceOption_nil]
  · simp [hw, hpush', hpush hstate, List.reduceOption_nil]
  · rw [hw, hpush', hpush hstate]
    cases s.uart.wr.txFifoReset <;> rfl
  · rw [hw, hpush', hrst']
    cases s.uart.wr.txFifoReset <;> rfl

end WriteInv

/-- **The bytes accepted are those written, but for the first write**: the transmit FIFO is held in reset
until a write is answered. -/
theorem accepted_log (txMem rxMem : BitVec a → BitVec 8) (is : List UartCoreIn) :
    log clock accepted (reset txMem rxMem) is =
      (log clock writes (reset txMem rxMem) is).tail.reduceOption := by
  have hrun : ∀ is, let s := run clock (reset txMem rxMem) is
      let ws := log clock writes (reset txMem rxMem) is
      log clock accepted (reset txMem rxMem) is = ws.tail.reduceOption ∧
        (s.uart.wr.txFifoReset = true → s.uart.wr.state ≠ .ack → ws = []) ∧
        (s.uart.wr.txFifoReset = false → ws ≠ []) ∧
        (s.uart.wr.state = .reset → s.uart.wr.txFifoReset = true) ∧
        (s.uart.wr.state = .ack → ws ≠ []) := by
    intro is
    induction is using List.reverseRecOn with
    | nil => exact ⟨rfl, fun _ _ => rfl, fun h => absurd h.symm Bool.false_ne_true, fun _ => rfl, nofun⟩
    | append_singleton is i ih =>
      obtain ⟨heq, hnone, hsome, hboot, hack⟩ := ih
      simp only [log_snoc, run_snoc]
      generalize run clock (reset txMem rxMem) is = s at hnone hsome hboot hack ⊢
      generalize log clock writes (reset txMem rxMem) is = ws at heq hnone hsome hack ⊢
      -- one more write is the first one, or the FIFO is out of reset
      have hone : ∀ o, s.uart.wr.state = .idle → s.writes i = [o] →
          ws.tail.reduceOption ++ s.accepted i = (ws ++ [o]).tail.reduceOption := by
        intro o hstate hw
        rw [accepted, hw]
        cases hrst : s.uart.wr.txFifoReset with
        | true =>
          rw [hnone hrst (by simp [hstate])]
          rfl
        | false =>
          rw [List.tail_append_of_ne_nil (hsome hrst), List.reduceOption_append]
          rfl
      have hzero : s.writes i = [] → s.accepted i = [] := by
        intro hw
        rw [accepted, hw, List.reduceOption_nil, ite_self]
      rw [heq]
      obtain ⟨hstate, hw, hstate', hrst', -⟩ | ⟨hstate, hw, hstate', hrst', -⟩ |
        ⟨hstate, hw, hstate', hrst', -⟩ | ⟨hstate, hw, hstate', hrst', -⟩ |
        ⟨hstate, -, hw, hstate', hrst', -⟩ := wr_cases s i
      · rw [hzero hw, hw, hstate', hrst', List.append_nil, List.append_nil]
        exact ⟨rfl, fun _ _ => hnone (hboot hstate) (by simp [hstate]), by simp, by simp, by simp⟩
      · rw [hzero hw, hw, hstate', hrst', List.append_nil, List.append_nil]
        exact ⟨rfl, by simp, fun _ => hack hstate, by simp, by simp⟩
      · rw [hzero hw, hw, hstate', hrst', List.append_nil, List.append_nil]
        exact ⟨rfl, fun h _ => hnone h (by simp [hstate]), hsome, by simp, by simp⟩
      · rw [hone _ hstate hw, hw, hstate', hrst']
        exact ⟨rfl, by simp, by simp, by simp, by simp⟩
      · rw [hone _ hstate hw, hw, hstate', hrst']
        exact ⟨rfl, by simp, by simp, by simp, by simp⟩
  exact (hrun is).1

end UartCore

end PacketBuffering
