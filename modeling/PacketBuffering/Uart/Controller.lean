import PacketBuffering.Lib.Drain
import PacketBuffering.Uart.InternalFifo
import PacketBuffering.Uart.Link

/-!
# From the transmit FIFO to the transmitter

`uart_controller` takes the words of the transmit FIFO one by one: it shows the oldest one to the
transmitter and takes it off the FIFO while the transmitter starts, and waits for `tx_ready`.

* `InternalFifo.words`: the words of a FIFO, read off its ring.
* `TxController`: the state machine; `TxPath`, `TxPath.clock`: with its FIFO and the transmitter.
* `TxPhase`: what the three do together; `TxPhase.step`: a cycle.
* **`TxPath.drains`**: the bytes pushed are taken in their order, each within a bounded time.
-/

namespace PacketBuffering

variable {a w : ℕ}

/-! ## The words of a FIFO -/

namespace InternalFifo

variable {d : ℕ} {s : InternalFifo a d}

/-- The words in the ring, oldest first. -/
def words (s : InternalFifo a d) : List (BitVec d) :=
  (List.range s.available.toNat).map fun k => s.fifo (s.head + BitVec.ofNat a k)

theorem words_eq {q : List (BitVec d)} (h : RingHolds s q) : s.words = q := by
  have hle := h.le
  have hpos := Nat.two_pow_pos a
  have hlen : s.available.toNat = q.length := by
    rw [h.available, BitVec.toNat_ofNat, Nat.mod_eq_of_lt (by rw [Nat.pow_succ]; omega)]
  apply List.ext_getElem
  · rw [words, List.length_map, List.length_range, hlen]
  · intro k hk hk'
    simpa [words] using h.fifo k hk'

theorem ringHolds_clock (h : RingHolds s s.words) (i : FifoIn d) :
    RingHolds (s.clock i) (s.clock i).words ∧ (s.clock i).words = queueStep (2 ^ a) s.words i := by
  have hnext := holds_clock h i
  have heq := words_eq hnext
  exact ⟨heq ▸ hnext, heq⟩

end InternalFifo

/-! ## The state machine -/

/-- The states of `uart_controller`. -/
inductive TxCtlState
  | reset
  | idle
  | send
deriving DecidableEq

/-- The registers of `uart_controller`. -/
structure TxController where
  state : TxCtlState
  txDataInt : BitVec 8
  txSendInt : Bool
  txPullInt : Bool

namespace TxController

/-- The registers after `rstn_i`. -/
def reset : TxController := ⟨.reset, 0, false, false⟩

/-- A rising `clk_i`. -/
def clock (s : TxController) (load : Bool) (data : BitVec 8) (ready busy : Bool) : TxController :=
  match s.state with
  | .reset => ⟨.idle, 0, false, false⟩
  | .idle => if load && !busy then ⟨.send, data, true, true⟩ else s
  | .send =>
    { s with
      state := if ready then .idle else .send
      txSendInt := if busy then false else s.txSendInt
      txPullInt := false }

end TxController

/-! ## The transmit path -/

/-- The controller between the transmit FIFO and the transmitter. -/
structure TxPath (a w : ℕ) where
  fifo : InternalFifo a 8
  ctl : TxController
  tx : UartTx w

/-- The inputs of the FIFO. -/
structure TxPathIn where
  rst : Bool
  push : Bool
  data : BitVec 8

namespace TxPath

/-- The registers after reset, whatever the memory of the FIFO holds. -/
def reset (mem : BitVec a → BitVec 8) : TxPath a w := ⟨.reset mem, .reset, .reset⟩

variable (c : UartConfig w) (s : TxPath a w) (i : TxPathIn)

/-- The inputs of the transmitter; `uart_en_int` is tied to one. -/
def txIn : TxIn := ⟨true, s.ctl.txSendInt, s.ctl.txDataInt⟩

/-- A rising `clk_i`. -/
def clock : TxPath a w where
  fifo := s.fifo.clock ⟨i.rst, i.push, s.ctl.txPullInt, i.data⟩
  ctl := s.ctl.clock s.fifo.load s.fifo.dataO s.tx.txReady s.tx.busy
  tx := s.tx.clock c s.txIn

/-- The byte that the transmitter takes. -/
def takes (_ : TxPathIn) : List (BitVec 8) := s.tx.takes s.txIn

/-- The byte that the FIFO gets. -/
def pushes (_ : TxPath a w) (i : TxPathIn) : List (BitVec 8) := if i.push && !i.rst then [i.data] else []

/-- A push finds room in the FIFO, and a soft reset finds it empty. -/
structure Room : Prop where
  push : i.push = true → i.rst = false → s.fifo.full = false
  rst : i.rst = true → s.fifo.words = []

end TxPath

/-! ## What the three do together -/

/-- **The phases of the transmit path**: out of reset, without a byte, with a byte that the transmitter is
about to take, with a frame on the line, and behind one. -/
inductive TxPhase (s : TxPath a w) : Prop
  | boot (ctl : s.ctl = .reset) (tx : s.tx.state = .reset)
  | idle (ctl : s.ctl.state = .idle) (send : s.ctl.txSendInt = false) (pull : s.ctl.txPullInt = false)
    (tx : s.tx.state = .idle) (busy : s.tx.busy = false)
  | start (ctl : s.ctl.state = .send) (send : s.ctl.txSendInt = true) (pull : s.ctl.txPullInt = true)
    (word : s.fifo.words.head? = some s.ctl.txDataInt) (tx : s.tx.state = .idle)
    (ready : s.tx.txReady = false)
  | sending (ctl : s.ctl.state = .send) (pull : s.ctl.txPullInt = false) (tx : s.tx.sending = true)
    (busy : s.tx.busy = true) (ready : s.tx.txReady = false)
  | done (ctl : s.ctl.state = .send) (send : s.ctl.txSendInt = false) (pull : s.ctl.txPullInt = false)
    (tx : s.tx.state = .idle) (busy : s.tx.busy = false) (ready : s.tx.txReady = true)

theorem UartTx.flags_of_sending (c : UartConfig w) {s : UartTx w} (hsend : s.sending = true) (i : TxIn) :
    (s.clock c i).sending = true ∧ (s.clock c i).busy = s.busy ∧ (s.clock c i).txReady = s.txReady ∨
      (s.clock c i).state = .idle ∧ (s.clock c i).busy = false ∧ (s.clock c i).txReady = true := by
  obtain ⟨hreset, hidle⟩ : s.state ≠ .reset ∧ s.state ≠ .idle := of_decide_eq_true hsend
  unfold clock next sending
  cases hstate : s.state with
  | reset => exact absurd hstate hreset
  | idle => exact absurd hstate hidle
  | data =>
    left
    simp only [clockData]
    split_ifs <;> simp [hstate]
  | parity =>
    left
    simp only [clockParity]
    split_ifs <;> simp [hstate]
  | stop =>
    simp only [clockStop]
    by_cases hend : s.counterInt ≥ c.baudDiv
    · rw [if_pos hend]
      by_cases hlast : s.txStopBitsInt = if c.stopBits then 2 else 1
      · right
        simp only [hlast, if_true]
        trivial
      · left
        simp only [hlast, if_false]
        simp
    · rw [if_neg hend]
      exact .inl (by simp [hstate])

namespace TxPath

open InternalFifo

variable {c : UartConfig w} {s : TxPath a w} {i : TxPathIn}

/-- The registers between cycles. -/
structure Inv (s : TxPath a w) : Prop where
  holds : RingHolds s.fifo s.fifo.words
  phase : TxPhase s

theorem inv_reset (mem : BitVec a → BitVec 8) : Inv (reset mem : TxPath a w) := by
  have hwords : (InternalFifo.reset mem).words = [] := words_eq (holds_reset mem)
  exact ⟨by rw [reset, hwords]; exact holds_reset mem, .boot rfl rfl⟩

/-- **What a cycle does to the FIFO**: the byte taken leaves it, and the byte pushed enters it. -/
theorem words_clock (h : RingHolds s.fifo s.fifo.words) (hok : s.Room i) :
    (s.clock c i).fifo.words =
      (if s.ctl.txPullInt then s.fifo.words.tail else s.fifo.words) ++ s.pushes i := by
  have hstep := (ringHolds_clock h ⟨i.rst, i.push, s.ctl.txPullInt, i.data⟩).2
  rw [clock, hstep, queueStep, pushes]
  cases hrst : i.rst with
  | true => simp [hok.rst hrst]
  | false =>
    cases hpush : i.push with
    | false => cases hpull : s.ctl.txPullInt <;> simp
    | true =>
      have hfull : s.fifo.words.length ≠ 2 ^ a := by
        have := hok.push hpush hrst
        rw [full_eq h] at this
        exact of_decide_eq_false this
      cases hpull : s.ctl.txPullInt <;> simp [hfull]

theorem takes_eq (h : TxPhase s) : s.takes i = if s.ctl.txPullInt then s.fifo.words.take 1 else [] := by
  unfold takes UartTx.takes txIn
  cases h with
  | boot ctl tx => simp [ctl, TxController.reset]
  | idle ctl send pull tx busy => simp [send, pull]
  | start ctl send pull word tx ready =>
    obtain ⟨q, hq⟩ := List.head?_eq_some_iff.mp word
    simp [send, pull, tx, hq]
  | sending ctl pull tx busy ready =>
    have hidle : s.tx.state ≠ .idle := (of_decide_eq_true tx : s.tx.state ≠ .reset ∧ s.tx.state ≠ .idle).2
    simp [hidle, pull]
  | done ctl send pull tx busy ready => simp [send, pull]

/-- **A cycle of the transmit path.** -/
theorem phase_clock (h : s.Inv) (hok : s.Room i) : TxPhase (s.clock c i) := by
  have hwords := words_clock (c := c) h.holds hok
  cases h.phase with
  | boot ctl tx =>
    refine .idle ?_ ?_ ?_ ?_ ?_
    · simp [clock, ctl, TxController.clock, TxController.reset]
    · simp [clock, ctl, TxController.clock, TxController.reset]
    · simp [clock, ctl, TxController.clock, TxController.reset]
    · simp [clock, UartTx.clock, UartTx.next, UartTx.clockReset, tx]
    · simp [clock, UartTx.clock, UartTx.next, UartTx.clockReset, tx]
  | idle ctl send pull tx busy =>
    have htx : (s.clock c i).tx.state = .idle ∧ (s.clock c i).tx.busy = false ∧
        (s.clock c i).tx.txReady = false := by
      simp [clock, UartTx.clock, UartTx.next, UartTx.clockIdle, tx, txIn, send, busy]
    cases hload : s.fifo.load with
    | false =>
      have hctl : (s.clock c i).ctl = s.ctl := by simp [clock, TxController.clock, ctl, hload]
      exact .idle (hctl ▸ ctl) (hctl ▸ send) (hctl ▸ pull) htx.1 htx.2.1
    | true =>
      have hctl : (s.clock c i).ctl = ⟨.send, s.fifo.dataO, true, true⟩ := by
        simp [clock, TxController.clock, ctl, hload, busy]
      refine .start (by rw [hctl]) (by rw [hctl]) (by rw [hctl]) ?_ htx.1 htx.2.2
      have hne : s.fifo.words ≠ [] := by
        intro hnil
        rw [load_eq h.holds, hnil] at hload
        cases hload
      obtain ⟨x, q, hq⟩ := List.exists_cons_of_ne_nil hne
      rw [hwords, pull, hctl, dataO_eq h.holds, hq]
      rfl
  | start ctl send pull word tx ready =>
    refine .sending ?_ ?_ ?_ ?_ ?_
    · simp [clock, TxController.clock, ctl, ready]
    · simp [clock, TxController.clock, ctl]
    · simp [clock, UartTx.sending, UartTx.clock, UartTx.next, UartTx.clockIdle, tx, txIn, send]
    · simp [clock, UartTx.clock, UartTx.next, UartTx.clockIdle, tx, txIn, send]
    · simp [clock, UartTx.clock, UartTx.next, UartTx.clockIdle, tx, txIn, send]
  | sending ctl pull tx busy ready =>
    have hctl : (s.clock c i).ctl.state = .send ∧ (s.clock c i).ctl.txSendInt = false ∧
        (s.clock c i).ctl.txPullInt = false := by
      simp [clock, TxController.clock, ctl, ready, busy]
    rcases UartTx.flags_of_sending c tx s.txIn with ⟨htx, hbusy, hready⟩ | ⟨htx, hbusy, hready⟩
    · exact .sending hctl.1 hctl.2.2 htx (hbusy.trans busy) (hready.trans ready)
    · exact .done hctl.1 hctl.2.1 hctl.2.2 htx hbusy hready
  | done ctl send pull tx busy ready =>
    refine .idle ?_ ?_ ?_ ?_ ?_
    · simp [clock, TxController.clock, ctl, ready]
    · simp [clock, TxController.clock, ctl, busy, send]
    · simp [clock, TxController.clock, ctl]
    · simp [clock, UartTx.clock, UartTx.next, UartTx.clockIdle, tx, txIn, send]
    · simp [clock, UartTx.clock, UartTx.next, UartTx.clockIdle, tx, txIn, send, busy]

theorem Inv.clock (h : s.Inv) (hok : s.Room i) : (s.clock c i).Inv :=
  ⟨(ringHolds_clock h.holds _).1, phase_clock h hok⟩

/-- **A cycle** takes the oldest byte, or none. -/
theorem Inv.pass (h : s.Inv) (hok : s.Room i) :
    s.takes i ++ (s.clock c i).fifo.words = s.fifo.words ++ s.pushes i := by
  rw [words_clock h.holds hok, takes_eq h.phase]
  cases s.ctl.txPullInt
  · rfl
  · simp only [if_true]
    rw [← List.append_assoc, ← List.drop_one, List.take_append_drop]

/-! ## How long a byte waits -/

variable (c s) in
/-- The cycles until the next byte is taken. -/
def wait : ℕ :=
  match s.ctl.state with
  | .reset => 3
  | .idle => 2
  | .send => if s.ctl.txPullInt then 1 else (s.tx.held c).length + 3

variable (c) in
/-- The cycles for a byte: a frame of at most twelve bits, and three cycles of the state machines. -/
def byteTime : ℕ := 12 * c.period + 3

theorem wait_pos : 0 < s.wait c := by
  unfold wait
  cases s.ctl.state with
  | reset | idle => exact Nat.succ_pos _
  | send =>
    dsimp only
    split_ifs <;> omega

theorem wait_le : s.wait c ≤ byteTime c := by
  have hheld := UartTx.length_held_le (c := c) (s := s.tx)
  have hperiod : 0 < c.period := Nat.succ_pos _
  unfold wait byteTime
  cases s.ctl.state with
  | reset | idle => dsimp only; omega
  | send =>
    dsimp only
    split_ifs <;> omega

/-- **A byte that is not taken yet** is nearer to it after a cycle. -/
theorem wait_clock (hdiv : c.parityBit = true → c.baudDiv ≠ 0) (h : s.Inv) (htx : s.tx.Inv c)
    (hpull : s.ctl.txPullInt = false) (hne : s.fifo.words ≠ []) :
    (s.clock c i).wait c < s.wait c := by
  cases h.phase with
  | boot ctl tx => simp [wait, clock, ctl, TxController.clock, TxController.reset]
  | idle ctl send pull tx busy =>
    have hload : s.fifo.load = true := by
      rw [load_eq h.holds]
      simpa using hne
    simp [wait, clock, ctl, TxController.clock, hload, busy]
  | start ctl send pull word tx ready => exact absurd (pull.symm.trans hpull) (by decide)
  | sending ctl pull tx busy ready =>
    have hpass := (UartTx.inv_pass (i := s.txIn) hdiv htx).2
    rw [UartTx.adds, if_pos tx, List.append_nil] at hpass
    have hlen := congrArg List.length hpass
    rw [List.length_append, List.length_singleton] at hlen
    have hctl : (s.clock c i).ctl.state = .send ∧ (s.clock c i).ctl.txPullInt = false := by
      simp [clock, TxController.clock, ctl, ready]
    have htx' : (s.clock c i).tx = s.tx.clock c s.txIn := rfl
    simp only [wait, ctl, pull, hctl, htx']
    simp only [Bool.false_eq_true, if_false]
    omega
  | done ctl send pull tx busy ready => simp [wait, clock, ctl, TxController.clock, ready, pull]

variable (c) in
/-- **The transmit path drains**: a byte is taken within a bounded time for each byte in front of it. -/
def drains (hdiv : c.parityBit = true → c.baudDiv ≠ 0) :
    Drains (clock (a := a) c) Room (pushes (a := a) (w := w)) takes where
  Inv s := s.Inv ∧ s.tx.Inv c
  held s := s.fifo.words
  rank s m := s.wait c + (m - 1) * byteTime c
  keep _ _ h hok := ⟨h.1.clock hok, (UartTx.inv_pass hdiv h.2).1⟩
  pass _ _ h hok := h.1.pass hok
  pos _ _ _ _ _ := Nat.add_pos_left wait_pos _
  next := by
    intro s i m h hok hle hlt
    cases hpull : s.ctl.txPullInt with
    | false =>
      have htakes : s.takes i = [] := by rw [takes_eq h.1.phase, hpull]; rfl
      rw [htakes, List.length_nil] at hlt
      rw [htakes, List.length_nil, Nat.sub_zero]
      exact Nat.add_lt_add_right (wait_clock hdiv h.1 h.2 hpull (List.ne_nil_of_length_pos (by omega))) _
    | true =>
      have htakes : (s.takes i).length = min 1 s.fifo.words.length := by
        rw [takes_eq h.1.phase, hpull, if_pos rfl, List.length_take]
      have hwait := wait_le (c := c) (s := s.clock c i)
      have hpos := wait_pos (c := c) (s := s)
      obtain ⟨k, rfl⟩ : ∃ k, m = k + 2 := ⟨m - 2, by omega⟩
      rw [htakes, show k + 2 - min 1 s.fifo.words.length - 1 = k by omega, show k + 2 - 1 = k + 1 by omega,
        Nat.succ_mul]
      omega

end TxPath

end PacketBuffering
