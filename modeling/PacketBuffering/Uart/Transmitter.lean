import Mathlib.Data.BitVec
import Mathlib.Tactic.IntervalCases
import PacketBuffering.Lib.Run

/-!
# The UART transmitter

`uart_transmitter` with its `uart_parity_bit_compute`. A byte goes out behind a start bit, lowest bit
first, with an optional parity bit behind it and one or two stop bits; every bit stands for one cycle
more than the divisor says.

* `UartConfig`: the configuration; `UartTx`, `UartTx.clock`: the transmitter.
* `frameBits`, `frame`: the bits of a byte on the line, and the line cycle by cycle.
* `UartTx.held`: what the line is still going to show of a frame; `UartTx.Inv.pass`.
* **`transmitter_law`**: the line shows the frames of the bytes taken, in their order, and ones
  in between.
-/

namespace PacketBuffering

/-! ## The transmitter -/

/-- The configuration of a UART; `w` is `DIV_SIZE`. -/
structure UartConfig (w : ℕ) where
  stopBits : Bool
  parityBit : Bool
  parityBitMode : Bool
  baudDiv : BitVec w

namespace UartConfig

variable {w : ℕ} (c : UartConfig w)

/-- The cycles that a bit of the transmitter stands. -/
def period : ℕ := c.baudDiv.toNat + 1

/-- The number of stop bits. -/
def stops : ℕ := if c.stopBits then 2 else 1

end UartConfig

/-- The states of the transmitter. -/
inductive TxState
  | reset
  | idle
  | data
  | parity
  | stop
deriving DecidableEq

/-- The inputs of a cycle. -/
structure TxIn where
  en : Bool
  txSend : Bool
  txData : BitVec 8

/-- The registers of `uart_transmitter`; `parityCounter` is the one of `uart_parity_bit_compute`. -/
structure UartTx (w : ℕ) where
  tx : Bool
  txReady : Bool
  busy : Bool
  txDataInt : BitVec 8
  bitcountInt : BitVec 4
  txStopBitsInt : BitVec 2
  counterInt : BitVec w
  txSampleResetInt : Bool
  txSampleDataInt : Bool
  txSampleValidInt : Bool
  state : TxState
  parityCounter : Bool

namespace UartTx

variable {w : ℕ}

/-- The registers after `rstn_i`. -/
def reset : UartTx w where
  tx := true
  txReady := false
  busy := true
  txDataInt := 0
  bitcountInt := 0
  txStopBitsInt := 0
  counterInt := 0
  txSampleResetInt := false
  txSampleDataInt := false
  txSampleValidInt := false
  state := .reset
  parityCounter := false

variable (c : UartConfig w) (s : UartTx w) (i : TxIn)

/-- `parity_bit_o`. -/
def parityBitInt : Bool := if !c.parityBitMode then !s.parityCounter else s.parityCounter

/-- The parity counter after a cycle. -/
def parityNext : Bool :=
  if s.txSampleResetInt then false
  else if s.txSampleValidInt && s.txSampleDataInt then !s.parityCounter
  else s.parityCounter

/-- A cycle of `DataState`. -/
def clockData : UartTx w :=
  if s.counterInt ≥ c.baudDiv then
    { s with
      state := if s.bitcountInt = 7 then if c.parityBit then .parity else .stop else .data
      tx := s.txDataInt.getLsbD 0
      txDataInt := (s.txDataInt &&& 0x80#8) ||| (s.txDataInt >>> 1)
      txSampleDataInt := s.txDataInt.getLsbD 0
      txSampleValidInt := true
      bitcountInt := s.bitcountInt + 1
      counterInt := 0 }
  else
    { s with
      txSampleValidInt := false
      counterInt := s.counterInt + 1 }

/-- A cycle of `ParityState`. -/
def clockParity : UartTx w :=
  if s.counterInt ≥ c.baudDiv then
    { s with
      tx := s.parityBitInt c
      counterInt := 0
      state := .stop
      txSampleValidInt := false }
  else
    { s with
      counterInt := s.counterInt + 1
      txSampleValidInt := false }

/-- A cycle of `StopState`. -/
def clockStop : UartTx w :=
  if s.counterInt ≥ c.baudDiv then
    let finished := s.txStopBitsInt = if c.stopBits then 2 else 1
    { s with
      txReady := if finished then true else s.txReady
      busy := if finished then false else s.busy
      state := if finished then .idle else .stop
      tx := true
      txStopBitsInt := s.txStopBitsInt + 1
      counterInt := 0
      txSampleValidInt := false
      txSampleResetInt := true }
  else
    { s with
      counterInt := s.counterInt + 1
      txSampleValidInt := false
      txSampleResetInt := true }

/-- A cycle of `IdleState`. -/
def clockIdle : UartTx w :=
  let s' : UartTx w :=
    { s with
      counterInt := 0
      bitcountInt := 0
      txSampleValidInt := false
      txStopBitsInt := 0
      txReady := false }
  if i.txSend && i.en then
    { s' with
      tx := false
      txDataInt := i.txData
      txSampleResetInt := false
      busy := true
      state := .data }
  else s'

/-- A cycle of `ResetState`. -/
def clockReset : UartTx w :=
  { s with
    tx := true
    txDataInt := 0
    counterInt := 0
    bitcountInt := 0
    txSampleResetInt := true
    txSampleDataInt := false
    txSampleValidInt := false
    txStopBitsInt := 0
    txReady := false
    busy := false
    state := .idle }

/-- The state machine of the transmitter. -/
def next : UartTx w :=
  match s.state with
  | .reset => s.clockReset
  | .idle => s.clockIdle i
  | .data => s.clockData c
  | .parity => s.clockParity c
  | .stop => s.clockStop c

/-- A rising `clk_i`. -/
def clock : UartTx w := { s.next c i with parityCounter := s.parityNext }

/-- The byte that is taken in this cycle. -/
def takes : List (BitVec 8) := if s.state = .idle ∧ i.txSend = true ∧ i.en = true then [i.txData] else []

end UartTx

/-! ## Frames -/

/-- The parity of a list of bits. -/
def parityOf (bs : List Bool) : Bool := bs.foldr xor false

/-- The data bits of a byte, lowest first. -/
def dataBits (d : BitVec 8) : List Bool := (List.range 8).map d.getLsbD

variable {w : ℕ}

/-- **The bits of a frame.** The parity bit makes the number of ones odd, or even with
`parity_bit_mode_i`. -/
def frameBits (c : UartConfig w) (d : BitVec 8) : List Bool :=
  [false] ++ dataBits d ++ (if c.parityBit then [parityOf (dataBits d) ^^ !c.parityBitMode] else []) ++
    List.replicate c.stops true

/-- The line while it shows these bits. -/
def stretch (c : UartConfig w) (bs : List Bool) : List Bool := bs.flatMap (List.replicate c.period)

/-- **A frame on the line**, cycle by cycle. -/
def frame (c : UartConfig w) (d : BitVec 8) : List Bool := stretch c (frameBits c d)

/-! ## What the line is still going to show -/

namespace UartTx

variable (c : UartConfig w) (s : UartTx w)

/-- The parity of the data bits sent, with the one that the parity counter has not seen yet. -/
def paritySoFar : Bool := s.parityCounter ^^ (s.txSampleValidInt && s.txSampleDataInt)

/-- The data bits that are not begun yet, if `k` are. -/
def dataLeft (d : BitVec 8) (k : ℕ) : List Bool := (List.range (8 - k)).map d.getLsbD

/-- The bits of the frame that are not begun yet. -/
def bitsLeft : List Bool :=
  match s.state with
  | .reset | .idle => []
  | .data =>
    let left := dataLeft s.txDataInt s.bitcountInt.toNat
    left ++ (if c.parityBit then [s.paritySoFar ^^ parityOf left ^^ !c.parityBitMode] else []) ++
      List.replicate c.stops true
  | .parity => (s.paritySoFar ^^ !c.parityBitMode) :: List.replicate c.stops true
  | .stop => List.replicate (c.stops - s.txStopBitsInt.toNat) true

/-- A frame is under way. -/
def sending : Bool := decide (s.state ≠ .reset ∧ s.state ≠ .idle)

/-- What the line is still going to show of the frame under way. -/
def held : List Bool :=
  if s.sending then List.replicate (c.period - s.counterInt.toNat) s.tx ++ stretch c (s.bitsLeft c) else []

/-- The registers between cycles. -/
def Inv : Prop :=
  match s.state with
  | .reset => s.tx = true
  | .idle => s.tx = true ∧ s.txSampleResetInt = true
  | .data => s.counterInt ≤ c.baudDiv ∧ s.txStopBitsInt = 0 ∧ s.txSampleResetInt = false ∧
      s.bitcountInt.toNat ≤ 7
  | .parity => s.counterInt ≤ c.baudDiv ∧ s.txStopBitsInt = 0 ∧ s.txSampleResetInt = false ∧
      (s.counterInt ≠ 0 → s.txSampleValidInt = false) ∧ c.parityBit = true
  | .stop => s.counterInt ≤ c.baudDiv ∧ s.txStopBitsInt.toNat ≤ c.stops

/-- **What a cycle does to a frame under way**: the bit on the line stays, or the next one begins, or the
frame is through. -/
def Ticks (s' : UartTx w) : Prop :=
  (s.counterInt < c.baudDiv ∧ s'.counterInt = s.counterInt + 1 ∧ s'.sending = true ∧ s'.tx = s.tx ∧
      s'.bitsLeft c = s.bitsLeft c) ∨
  (s.counterInt = c.baudDiv ∧ s'.counterInt = 0 ∧ s'.sending = true ∧
      s.bitsLeft c = s'.tx :: s'.bitsLeft c) ∨
  (s.counterInt = c.baudDiv ∧ s'.sending = false ∧ s.bitsLeft c = [])

variable {c s} {i : TxIn}

theorem parityNext_eq (hreset : s.txSampleResetInt = false) : s.parityNext = s.paritySoFar := by
  rw [parityNext, hreset, paritySoFar]
  cases s.txSampleValidInt <;> cases s.txSampleDataInt <;> simp

theorem add_one_le {a b : BitVec w} (h : a < b) : a + 1 ≤ b ∧ (a + 1).toNat = a.toNat + 1 := by
  have hlt : a.toNat + 1 < 2 ^ w := Nat.lt_of_le_of_lt (BitVec.lt_def.mp h) b.isLt
  have hone : (a + 1).toNat = a.toNat + 1 := by
    rw [BitVec.toNat_add, BitVec.ofNat_eq_ofNat, BitVec.toNat_ofNat, Nat.add_mod_mod, Nat.mod_eq_of_lt hlt]
  exact ⟨BitVec.le_def.mpr (hone ▸ BitVec.lt_def.mp h), hone⟩

theorem lt_or_eq_baudDiv {a b : BitVec w} (h : a ≤ b) : a < b ∨ a = b :=
  (Nat.lt_or_eq_of_le (BitVec.le_def.mp h)).imp BitVec.lt_def.mpr BitVec.eq_of_toNat_eq

theorem getLsbD_shifted (d : BitVec 8) {j : ℕ} (hj : j < 7) :
    ((d &&& 0x80#8) ||| (d >>> 1)).getLsbD j = d.getLsbD (j + 1) := by
  interval_cases j <;> simp

theorem dataLeft_succ (d : BitVec 8) {k : ℕ} (hk : k ≤ 7) :
    dataLeft d k = d.getLsbD 0 :: dataLeft ((d &&& 0x80#8) ||| (d >>> 1)) (k + 1) := by
  rw [dataLeft, dataLeft, show 8 - k = 8 - (k + 1) + 1 by omega, List.range_succ_eq_map, List.map_cons,
    List.map_map]
  congr 1
  apply List.map_congr_left
  intro j hj
  rw [getLsbD_shifted _ (by rw [List.mem_range] at hj; omega)]
  rfl

/-- **A cycle of `DataState`.** -/
theorem inv_ticks_data (h : s.Inv c) (hstate : s.state = .data) :
    (s.clock c i).Inv c ∧ s.Ticks c (s.clock c i) := by
  obtain ⟨hle, hstop, hreset, hcount⟩ : s.counterInt ≤ c.baudDiv ∧ s.txStopBitsInt = 0 ∧
      s.txSampleResetInt = false ∧ s.bitcountInt.toNat ≤ 7 := by
    rw [Inv, hstate] at h
    exact h
  have hnext : s.next c i = s.clockData c := by rw [next, hstate]
  rcases lt_or_eq_baudDiv hle with hlt | heq
  · have hge : ¬ s.counterInt ≥ c.baudDiv := BitVec.not_le.mpr hlt
    rw [clock, hnext, clockData, if_neg hge]
    refine ⟨?_, .inl ⟨hlt, rfl, ?_, rfl, ?_⟩⟩
    · simp only [Inv, hstate]
      exact ⟨(add_one_le hlt).1, hstop, hreset, hcount⟩
    · simp [sending, hstate]
    · simp only [bitsLeft, hstate, dataLeft, paritySoFar, Bool.false_and, Bool.xor_false]
      rw [parityNext_eq hreset, paritySoFar]
  · have hge : s.counterInt ≥ c.baudDiv := heq ▸ BitVec.le_refl _
    have hzero : (0 : BitVec w) ≤ c.baudDiv := BitVec.le_def.mpr (by simp)
    have hcount' : (s.bitcountInt + 1).toNat = s.bitcountInt.toNat + 1 := by
      rw [BitVec.toNat_add]
      exact Nat.mod_eq_of_lt (by simp; omega)
    rw [clock, hnext, clockData, if_pos hge]
    rcases Nat.lt_or_ge s.bitcountInt.toNat 7 with hmore | hlast
    · -- another data bit
      have hne : s.bitcountInt ≠ 7 := by
        intro h7
        rw [h7] at hmore
        exact absurd hmore (by decide)
      rw [if_neg hne]
      refine ⟨?_, .inr (.inl ⟨heq, rfl, by simp [sending], ?_⟩)⟩
      · simp only [Inv]
        exact ⟨hzero, hstop, hreset, by omega⟩
      · simp only [bitsLeft, hstate, paritySoFar, parityNext_eq hreset, hcount']
        rw [dataLeft_succ _ hcount]
        simp [parityOf]
    · -- the last data bit
      have h7 : s.bitcountInt = 7 := BitVec.eq_of_toNat_eq (le_antisymm hcount hlast)
      have hlast' : dataLeft s.txDataInt s.bitcountInt.toNat = [s.txDataInt.getLsbD 0] := by
        rw [h7]
        rfl
      rw [if_pos h7]
      cases hp : c.parityBit with
      | true =>
        refine ⟨?_, .inr (.inl ⟨heq, rfl, by simp [sending], ?_⟩)⟩
        · simp only [Inv, if_true]
          exact ⟨hzero, hstop, hreset, fun h => absurd rfl h, hp⟩
        · simp only [bitsLeft, hstate, paritySoFar, parityNext_eq hreset, hp, if_true, hlast']
          simp [parityOf]
      | false =>
        refine ⟨?_, .inr (.inl ⟨heq, rfl, by simp [sending], ?_⟩)⟩
        · simp only [Inv]
          exact ⟨hzero, by simp [hstop]⟩
        · simp only [bitsLeft, hstate, hp, hlast', hstop]
          simp

/-- **A cycle of `ParityState`.** The parity counter has seen the last data bit by the time the parity
bit is sent, because the divisor is not zero. -/
theorem inv_ticks_parity (h : s.Inv c) (hstate : s.state = .parity)
    (hdiv : c.parityBit = true → c.baudDiv ≠ 0) :
    (s.clock c i).Inv c ∧ s.Ticks c (s.clock c i) := by
  obtain ⟨hle, hstop, hreset, hvalid, hp⟩ : s.counterInt ≤ c.baudDiv ∧ s.txStopBitsInt = 0 ∧
      s.txSampleResetInt = false ∧ (s.counterInt ≠ 0 → s.txSampleValidInt = false) ∧
      c.parityBit = true := by
    rw [Inv, hstate] at h
    exact h
  have hnext : s.next c i = s.clockParity c := by rw [next, hstate]
  rcases lt_or_eq_baudDiv hle with hlt | heq
  · have hge : ¬ s.counterInt ≥ c.baudDiv := BitVec.not_le.mpr hlt
    rw [clock, hnext, clockParity, if_neg hge]
    refine ⟨?_, .inl ⟨hlt, rfl, ?_, rfl, ?_⟩⟩
    · simp only [Inv, hstate]
      exact ⟨(add_one_le hlt).1, hstop, hreset, fun _ => trivial, hp⟩
    · simp [sending, hstate]
    · simp only [bitsLeft, hstate, paritySoFar, Bool.false_and, Bool.xor_false]
      rw [parityNext_eq hreset, paritySoFar]
  · have hge : s.counterInt ≥ c.baudDiv := heq ▸ BitVec.le_refl _
    have hseen := hvalid (heq ▸ hdiv hp)
    rw [clock, hnext, clockParity, if_pos hge]
    refine ⟨?_, .inr (.inl ⟨heq, rfl, by simp [sending], ?_⟩)⟩
    · simp only [Inv]
      exact ⟨BitVec.le_def.mpr (by simp), by simp [hstop]⟩
    · simp only [bitsLeft, hstate, paritySoFar, hseen, hstop, parityBitInt]
      cases c.parityBitMode <;> simp

/-- **A cycle of `StopState`.** -/
theorem inv_ticks_stop (h : s.Inv c) (hstate : s.state = .stop) :
    (s.clock c i).Inv c ∧ s.Ticks c (s.clock c i) := by
  obtain ⟨hle, hstop⟩ : s.counterInt ≤ c.baudDiv ∧ s.txStopBitsInt.toNat ≤ c.stops := by
    rw [Inv, hstate] at h
    exact h
  have hnext : s.next c i = s.clockStop c := by rw [next, hstate]
  rcases lt_or_eq_baudDiv hle with hlt | heq
  · have hge : ¬ s.counterInt ≥ c.baudDiv := BitVec.not_le.mpr hlt
    rw [clock, hnext, clockStop, if_neg hge]
    refine ⟨?_, .inl ⟨hlt, rfl, ?_, rfl, ?_⟩⟩
    · simp only [Inv, hstate]
      exact ⟨(add_one_le hlt).1, hstop⟩
    · simp [sending, hstate]
    · simp only [bitsLeft, hstate]
  · have hge : s.counterInt ≥ c.baudDiv := heq ▸ BitVec.le_refl _
    have hlast : s.txStopBitsInt = (if c.stopBits then 2 else 1) ↔ s.txStopBitsInt.toNat = c.stops := by
      rw [UartConfig.stops, ← BitVec.toNat_inj]
      cases c.stopBits <;> rfl
    rw [clock, hnext, clockStop, if_pos hge]
    by_cases hend : s.txStopBitsInt.toNat = c.stops
    · -- the last stop bit is over
      simp only [hlast, hend, if_true]
      refine ⟨?_, .inr (.inr ⟨heq, by simp [sending], ?_⟩)⟩
      · simp only [Inv]
        exact ⟨trivial, trivial⟩
      · simp only [bitsLeft, hstate, hend, Nat.sub_self]
        rfl
    · -- another stop bit
      have hlt2 : s.txStopBitsInt.toNat < c.stops := lt_of_le_of_ne hstop hend
      have hstops : c.stops ≤ 2 := by
        rw [UartConfig.stops]
        split_ifs <;> omega
      have hcount : (s.txStopBitsInt + 1).toNat = s.txStopBitsInt.toNat + 1 := by
        rw [BitVec.toNat_add]
        exact Nat.mod_eq_of_lt (by simp; omega)
      simp only [hlast, hend, if_false]
      refine ⟨?_, .inr (.inl ⟨heq, rfl, by simp [sending], ?_⟩)⟩
      · simp only [Inv]
        exact ⟨BitVec.le_def.mpr (by simp), by omega⟩
      · simp only [bitsLeft, hstate, hcount]
        rw [show c.stops - s.txStopBitsInt.toNat = c.stops - (s.txStopBitsInt.toNat + 1) + 1 by omega,
          List.replicate_succ]

/-- **A cycle of a frame under way** takes one value off what the line is going to show. -/
theorem held_of_ticks (hsend : s.sending = true) {s' : UartTx w}
    (h : s.Ticks c s') : s.held c = s.tx :: s'.held c := by
  have hperiod : c.period = c.baudDiv.toNat + 1 := rfl
  rw [held, if_pos hsend]
  rcases h with ⟨hlt, hcnt, hsend', htx, hbits⟩ | ⟨heq, hcnt, hsend', hbits⟩ | ⟨heq, hsend', hbits⟩
  · rw [held, if_pos hsend', htx, hbits, hcnt, (add_one_le hlt).2,
      show c.period - s.counterInt.toNat = c.period - (s.counterInt.toNat + 1) + 1 by
        have := BitVec.lt_def.mp hlt
        omega]
    rfl
  · rw [held, if_pos hsend', hbits, hcnt, heq, show c.period - c.baudDiv.toNat = 1 by omega]
    simp [stretch]
  · rw [held, if_neg (by simp [hsend']), hbits, heq, show c.period - c.baudDiv.toNat = 1 by omega]
    rfl

/-- What a cycle adds to the line: one value if no frame is under way, and the frame of a byte that is
taken. -/
def adds (c : UartConfig w) (s : UartTx w) (i : TxIn) : List Bool :=
  if s.sending then [] else true :: (s.takes i).flatMap (frame c)

theorem held_of_send (hreset : s.txSampleResetInt = true) (hstate : s.state = .idle)
    (hsend : (i.txSend && i.en) = true) : (s.clock c i).held c = frame c i.txData := by
  have hparity : s.parityNext = false := by rw [parityNext, if_pos hreset]
  rw [clock, next, hstate]
  simp only [clockIdle, hsend, if_true, held, sending, bitsLeft, paritySoFar, hparity]
  simp [frame, stretch, frameBits, dataLeft, dataBits]

/-- **A cycle of the transmitter.** -/
theorem inv_pass (hdiv : c.parityBit = true → c.baudDiv ≠ 0) (h : s.Inv c) :
    (s.clock c i).Inv c ∧ [s.tx] ++ (s.clock c i).held c = s.held c ++ s.adds c i := by
  have hbusy (hsend : s.sending = true) (hticks : (s.clock c i).Inv c ∧ s.Ticks c (s.clock c i)) :
      (s.clock c i).Inv c ∧ [s.tx] ++ (s.clock c i).held c = s.held c ++ s.adds c i := by
    refine ⟨hticks.1, ?_⟩
    rw [held_of_ticks hsend hticks.2, adds, if_pos hsend]
    simp
  cases hstate : s.state with
  | reset =>
    have htx : s.tx = true := by
      rw [Inv, hstate] at h
      exact h
    have hnext : s.clock c i = { s.clockReset with parityCounter := s.parityNext } := by
      rw [clock, next, hstate]
    rw [hnext]
    refine ⟨⟨rfl, rfl⟩, ?_⟩
    simp [held, sending, adds, takes, hstate, htx, clockReset]
  | idle =>
    obtain ⟨htx, hreset⟩ : s.tx = true ∧ s.txSampleResetInt = true := by
      rw [Inv, hstate] at h
      exact h
    have hidle : s.held c = [] := by simp [held, sending, hstate]
    cases hsend : i.txSend && i.en with
    | true =>
      have hboth := Bool.and_eq_true_iff.mp hsend
      refine ⟨?_, ?_⟩
      · rw [clock, next, hstate]
        simp only [clockIdle, hsend, if_true, Inv]
        exact ⟨BitVec.le_def.mpr (by simp), trivial, trivial, by simp⟩
      · rw [held_of_send hreset hstate hsend, hidle, htx]
        simp [adds, sending, takes, hstate, hboth]
    | false =>
      have hnot : ¬ (i.txSend = true ∧ i.en = true) := by
        rw [← Bool.and_eq_true_iff, hsend]
        exact Bool.false_ne_true
      rw [clock, next, hstate]
      simp only [clockIdle, hsend, Bool.false_eq_true, if_false, hidle]
      refine ⟨?_, ?_⟩
      · simp only [Inv, hstate]
        exact ⟨htx, hreset⟩
      · simp [held, adds, sending, takes, hstate, htx, hnot]
  | data => exact hbusy (by simp [sending, hstate]) (inv_ticks_data h hstate)
  | parity => exact hbusy (by simp [sending, hstate]) (inv_ticks_parity h hstate hdiv)
  | stop => exact hbusy (by simp [sending, hstate]) (inv_ticks_stop h hstate)

theorem line_append (hdiv : c.parityBit = true → c.baudDiv ≠ 0) (h : s.Inv c) (is : List TxIn) :
    log (clock c) (fun s _ => [s.tx]) s is ++ (run (clock c) s is).held c =
      s.held c ++ log (clock c) (adds c) s is :=
  (along_true (clock c) s is).log_buffer (Inv c) (held c) (fun _ _ h _ => (inv_pass hdiv h).1)
    (fun _ _ h _ => (inv_pass hdiv h).2) h

end UartTx

/-- **The transmitter.** In every run, cycle by cycle, the line shows ones while no frame is under way and,
behind the cycle in which a byte is taken, the frame of that byte from its start bit to the end of its
last stop bit: what it has shown, with what it is still going to show of the last frame, is that. A
parity bit needs a divisor other than zero. -/
theorem transmitter_law {c : UartConfig w} (hdiv : c.parityBit = true → c.baudDiv ≠ 0) (is : List TxIn) :
    log (UartTx.clock c) (fun s _ => [s.tx]) .reset is ++ (run (UartTx.clock c) .reset is).held c =
      log (UartTx.clock c) (UartTx.adds c) .reset is := by
  have hinv : UartTx.Inv c .reset := rfl
  exact UartTx.line_append hdiv hinv is

/-- The byte `0x35` with even parity and two cycles a bit. -/
theorem transmitter_law_even :
    let c : UartConfig 32 := ⟨false, true, true, 1⟩
    let is : List TxIn := [⟨true, false, 0⟩, ⟨true, true, 0x35⟩]
    log (UartTx.clock c) (fun s _ => [s.tx]) .reset is ++ (run (UartTx.clock c) .reset is).held c =
      [true, true] ++ stretch c [false, true, false, true, false, true, true, false, false, false, true] :=
  (transmitter_law (c := ⟨false, true, true, 1⟩) (by decide) [⟨true, false, 0⟩, ⟨true, true, 0x35⟩]).trans
    (by decide)

end PacketBuffering
