import Mathlib.Tactic.Ring
import PacketBuffering.Uart.Transmitter

/-!
# The UART receiver

`uart_receiver`. A start bit is counted from half a divisor on, to sample the bits behind it near their
middle; every further sample is one divisor later. The bits of the transmitter of the same core are one
cycle longer than that, so that the samples move towards the beginning of the bits.

* `RxCore`, `RxCore.clock`: the state machine; `UartRx`: behind three synchronising registers.
* `RxCore.run_segments`: the samples of a run, one from each divisor of cycles.
* `Aligned`: the samples stay within their bits; `frame_cut`: a frame, cut where it is sampled.
* **`RxCore.run_frame`**: a frame is then received.
-/

namespace PacketBuffering

variable {w : ℕ}

/-! ## The receiver -/

/-- `baud_div_i - 1`, as wide as a literal makes it. -/
def UartConfig.lastTick (c : UartConfig w) : ℕ :=
  (c.baudDiv.toNat + (2 ^ max w 32 - 1)) % 2 ^ max w 32

/-- The states of the receiver. -/
inductive RxState
  | reset
  | idle
  | startBit
  | dataUart
  | parityBit
  | stopBits
deriving DecidableEq

/-- The registers of `uart_receiver` but for `rx_trigger_int`. -/
structure RxCore (w : ℕ) where
  rxData : BitVec 8
  rxValid : Bool
  counterInt : BitVec w
  bitcountInt : BitVec 4
  rxDataInt : BitVec 8
  rxStopBitsInt : Bool
  state : RxState

namespace RxCore

/-- The registers after `rstn_i`. -/
def reset : RxCore w := ⟨0, false, 0, 0, 0, false, .reset⟩

variable (c : UartConfig w) (s : RxCore w)

/-- What a state does when its count is full. -/
def sample (rx : Bool) : RxCore w :=
  match s.state with
  | .reset | .idle => s
  | .startBit => { s with counterInt := 0, state := .dataUart }
  | .dataUart =>
    { s with
      rxDataInt := (if rx then 0x80#8 else 0) ||| (s.rxDataInt >>> 1)
      bitcountInt := s.bitcountInt + 1
      counterInt := 0
      state := if s.bitcountInt = 7 then if c.parityBit then .parityBit else .stopBits else .dataUart }
  | .parityBit => { s with counterInt := 0, state := .stopBits }
  | .stopBits =>
    if c.stopBits && !s.rxStopBitsInt then { s with rxStopBitsInt := true, counterInt := 0 }
    else { s with rxData := s.rxDataInt, rxValid := true, state := .idle }

/-- A rising `clk_i`, with the synchronised line. -/
def clock (en rx : Bool) : RxCore w :=
  match s.state with
  | .reset => ⟨0, false, 0, 0, 0, false, .idle⟩
  | .idle =>
    { s with
      counterInt := if !rx && en then c.baudDiv >>> 1 else s.counterInt
      state := if !rx && en then .startBit else .idle
      bitcountInt := 0
      rxValid := false
      rxStopBitsInt := false }
  | .startBit | .dataUart | .parityBit | .stopBits =>
    if s.counterInt.toNat ≥ c.lastTick then s.sample c rx
    else { s with counterInt := s.counterInt + 1 }

/-- The byte that `rx_valid_o` marks. -/
def results : List (BitVec 8) := if s.rxValid then [s.rxData] else []

end RxCore

/-- `uart_receiver`. -/
structure UartRx (w : ℕ) where
  core : RxCore w
  rxTriggerInt : BitVec 3

namespace UartRx

/-- The registers after `rstn_i`. -/
def reset : UartRx w := ⟨.reset, 0b111⟩

/-- A rising `clk_i`. -/
def clock (c : UartConfig w) (s : UartRx w) (en rx : Bool) : UartRx w where
  core := s.core.clock c en (s.rxTriggerInt.getLsbD 2)
  rxTriggerInt := (s.rxTriggerInt <<< 1) ||| (if rx then 1 else 0)

end UartRx

/-! ## Counting -/

namespace RxCore

variable {c : UartConfig w} {s : RxCore w}

theorem lastTick_eq (hdiv : c.baudDiv ≠ 0) : c.lastTick = c.baudDiv.toNat - 1 := by
  have hpos : 0 < c.baudDiv.toNat := by
    rcases Nat.eq_zero_or_pos c.baudDiv.toNat with h | h
    · exact absurd (BitVec.eq_of_toNat_eq (by simpa using h)) hdiv
    · exact h
  have hlt : c.baudDiv.toNat < 2 ^ max w 32 :=
    c.baudDiv.isLt.trans_le (Nat.pow_le_pow_right (by omega) (le_max_left w 32))
  rw [UartConfig.lastTick, show c.baudDiv.toNat + (2 ^ max w 32 - 1) = c.baudDiv.toNat - 1 + 2 ^ max w 32 by omega,
    Nat.add_mod_right, Nat.mod_eq_of_lt (by omega)]

/-- The states that count. -/
def Counting (s : RxCore w) : Prop := s.state ≠ .reset ∧ s.state ≠ .idle

theorem clock_of_counting (h : s.Counting) (en rx : Bool) :
    s.clock c en rx = if s.counterInt.toNat ≥ c.lastTick then s.sample c rx
      else { s with counterInt := s.counterInt + 1 } := by
  unfold clock
  cases hstate : s.state with
  | reset => exact absurd hstate h.1
  | idle => exact absurd hstate h.2
  | startBit | dataUart | parityBit | stopBits => rfl

theorem results_of_not_valid (h : s.rxValid = false) : s.results = [] := by simp [results, h]

/-- A cycle with the receiver enabled. -/
def feed (c : UartConfig w) (s : RxCore w) (rx : Bool) : RxCore w := s.clock c true rx

/-- The end of a count, wherever it began. -/
def tick (c : UartConfig w) (s : RxCore w) (rx : Bool) : RxCore w :=
  sample c { s with counterInt := c.baudDiv - 1 } rx

/-- **A count**: nothing happens but at its end, where the line is sampled. -/
theorem run_segment (hdiv : c.baudDiv ≠ 0) (h : s.Counting) (xs : List Bool) (x : Bool)
    (hlen : s.counterInt.toNat + xs.length + 1 = c.baudDiv.toNat) (hvalid : s.rxValid = false) :
    run (feed c) s (xs ++ [x]) = tick c s x ∧ log (feed c) (fun s _ => s.results) s (xs ++ [x]) = [] := by
  have hlast := lastTick_eq hdiv
  induction xs generalizing s with
  | nil =>
    have hcounter : s.counterInt = c.baudDiv - 1 := by
      apply BitVec.eq_of_toNat_eq
      have hone : (1 : BitVec w).toNat = 1 := by
        rcases Nat.eq_zero_or_pos w with rfl | hw
        · exact absurd (Subsingleton.elim _ _) hdiv
        · exact Nat.mod_eq_of_lt (Nat.one_lt_two_pow hw.ne')
      rw [List.length_nil, Nat.add_zero] at hlen
      rw [BitVec.toNat_sub_of_le (BitVec.le_def.mpr (by omega)), hone]
      omega
    refine ⟨?_, by simp [results, hvalid]⟩
    show s.clock c true x = tick c s x
    rw [clock_of_counting h, if_pos (by rw [hlast]; simp only [List.length_nil] at hlen; omega), tick,
      ← hcounter]
  | cons y xs ih =>
    rw [List.length_cons] at hlen
    have hnot : ¬ s.counterInt.toNat ≥ c.lastTick := by omega
    have hnext : feed c s y = { s with counterInt := s.counterInt + 1 } := by
      rw [feed, clock_of_counting h, if_neg hnot]
    have hadd : (s.counterInt + 1).toNat = s.counterInt.toNat + 1 :=
      (UartTx.add_one_le (b := c.baudDiv) (BitVec.lt_def.mpr (by omega))).2
    obtain ⟨hrun, hlog⟩ := ih (s := { s with counterInt := s.counterInt + 1 }) h
      (by simp only; omega) hvalid
    rw [List.cons_append, run_cons, log_cons, hnext, results_of_not_valid hvalid, hrun, hlog]
    exact ⟨rfl, rfl⟩

/-- **Several counts** from zero on. -/
theorem run_segments (hdiv : c.baudDiv ≠ 0) {segs : List (List Bool × Bool)}
    (hsegs : ∀ p ∈ segs, p.1.length + 1 = c.baudDiv.toNat)
    (h : Along (tick c) (fun s _ => s.Counting ∧ s.counterInt = 0 ∧ s.rxValid = false) s
      (segs.map Prod.snd)) :
    run (feed c) s (segs.flatMap fun p => p.1 ++ [p.2]) = run (tick c) s (segs.map Prod.snd) ∧
      log (feed c) (fun s _ => s.results) s (segs.flatMap fun p => p.1 ++ [p.2]) = [] := by
  induction segs generalizing s with
  | nil => exact ⟨rfl, rfl⟩
  | cons p segs ih =>
    obtain ⟨⟨hcount, hzero, hvalid⟩, hrest⟩ := h
    obtain ⟨hrun, hlog⟩ := run_segment hdiv hcount p.1 p.2
      (by rw [hzero]; simpa using hsegs p (List.mem_cons_self ..)) hvalid
    obtain ⟨hrun', hlog'⟩ := ih (fun q hq => hsegs q (List.mem_cons_of_mem _ hq)) hrest
    rw [List.flatMap_cons, run_append, log_append, hrun, hlog, hrun', hlog']
    exact ⟨rfl, rfl⟩

/-! ## A frame by its samples -/

/-- A bit shifted into the data register. -/
def shiftIn (d : BitVec 8) (x : Bool) : BitVec 8 := (if x then 0x80#8 else 0) ||| (d >>> 1)

theorem getLsbD_shiftIn (d : BitVec 8) (x : Bool) {j : ℕ} (hj : j < 8) :
    (shiftIn d x).getLsbD j = if j = 7 then x else d.getLsbD (j + 1) := by
  unfold shiftIn
  interval_cases j <;> cases x <;> simp

theorem foldl_shiftIn (d₀ d : BitVec 8) : (dataBits d).foldl shiftIn d₀ = d := by
  apply BitVec.eq_of_getLsbD_eq
  intro j hj
  rw [show dataBits d = [d.getLsbD 0, d.getLsbD 1, d.getLsbD 2, d.getLsbD 3, d.getLsbD 4, d.getLsbD 5,
    d.getLsbD 6, d.getLsbD 7] from rfl]
  simp only [List.foldl_cons, List.foldl_nil]
  interval_cases j <;> simp [getLsbD_shiftIn, -BitVec.getLsbD_eq_getElem]

theorem run_data (hstate : s.state = .dataUart) (hcount : s.bitcountInt = 0) (hzero : s.counterInt = 0)
    (hvalid : s.rxValid = false) (d : BitVec 8) :
    run (tick c) s (dataBits d) =
        { s with
          rxDataInt := d, bitcountInt := 8, state := if c.parityBit then .parityBit else .stopBits } ∧
      Along (tick c) (fun s _ => s.Counting ∧ s.counterInt = 0 ∧ s.rxValid = false) s (dataBits d) := by
  obtain ⟨rxData, rxValid, counterInt, bitcountInt, rxDataInt, rxStopBitsInt, state⟩ := s
  simp only at hstate hcount hzero hvalid
  subst hstate hcount hzero hvalid
  constructor
  · have hrun : run (tick c) ⟨rxData, false, 0, 0, rxDataInt, rxStopBitsInt, .dataUart⟩ (dataBits d) =
        ⟨rxData, false, 0, 8, (dataBits d).foldl shiftIn rxDataInt, rxStopBitsInt,
          if c.parityBit then .parityBit else .stopBits⟩ := rfl
    rw [hrun, foldl_shiftIn]
  · simp [dataBits, List.range_succ_eq_map, Along, tick, sample, Counting]

/-- The number of samples behind the start bit. -/
def samples (c : UartConfig w) : ℕ := 8 + (if c.parityBit then 1 else 0) + c.stops

theorem run_tail (hstate : s.state = if c.parityBit then .parityBit else .stopBits)
    (hzero : s.counterInt = 0) (hvalid : s.rxValid = false) (hstop : s.rxStopBitsInt = false)
    {ys : List Bool} (hlen : ys.length + 8 = samples c) :
    (run (tick c) s ys).state = .idle ∧ (run (tick c) s ys).results = [s.rxDataInt] ∧
      Along (tick c) (fun s _ => s.Counting ∧ s.counterInt = 0 ∧ s.rxValid = false) s ys := by
  obtain ⟨rxData, rxValid, counterInt, bitcountInt, rxDataInt, rxStopBitsInt, state⟩ := s
  obtain ⟨stopBits, parityBit, parityBitMode, baudDiv⟩ := c
  simp only at hstate hzero hvalid hstop
  subst hstate hzero hvalid hstop
  cases parityBit <;> cases stopBits <;> simp [samples, UartConfig.stops] at hlen
  · obtain ⟨y, rfl⟩ := List.length_eq_one_iff.mp hlen
    simp [Along, tick, sample, Counting, results, run]
  · obtain ⟨y, y', rfl⟩ := List.length_eq_two.mp hlen
    simp [Along, tick, sample, Counting, results, run]
  · obtain ⟨y, y', rfl⟩ := List.length_eq_two.mp hlen
    simp [Along, tick, sample, Counting, results, run]
  · obtain ⟨y, y', y'', rfl⟩ := List.length_eq_three.mp hlen
    simp [Along, tick, sample, Counting, results, run]

theorem run_samples (hstate : s.state = .dataUart) (hcount : s.bitcountInt = 0) (hzero : s.counterInt = 0)
    (hvalid : s.rxValid = false) (hstop : s.rxStopBitsInt = false) (d : BitVec 8) {ys : List Bool}
    (hlen : ys.length + 8 = samples c) :
    (run (tick c) s (dataBits d ++ ys)).state = .idle ∧
      (run (tick c) s (dataBits d ++ ys)).results = [d] ∧
      Along (tick c) (fun s _ => s.Counting ∧ s.counterInt = 0 ∧ s.rxValid = false) s
        (dataBits d ++ ys) := by
  obtain ⟨hrun, halong⟩ := run_data (c := c) hstate hcount hzero hvalid d
  rw [run_append, along_append, hrun]
  obtain ⟨hidle, hresults, htail⟩ := run_tail (c := c)
    (s := { s with rxDataInt := d, bitcountInt := 8, state := if c.parityBit then .parityBit else .stopBits })
    rfl hzero hvalid hstop hlen
  exact ⟨hidle, hresults, halong, htail⟩

theorem run_ones (hstate : s.state = .idle) (k : ℕ) :
    (run (feed c) s (List.replicate (k + 1) true)).state = .idle ∧
      (run (feed c) s (List.replicate (k + 1) true)).rxValid = false ∧
      log (feed c) (fun s _ => s.results) s (List.replicate (k + 1) true) = s.results := by
  have hstep : ∀ s : RxCore w, s.state = .idle → (feed c s true).state = .idle ∧
      (feed c s true).rxValid = false := by
    intro s hs
    rw [feed, clock, hs]
    exact ⟨rfl, rfl⟩
  induction k generalizing s with
  | zero =>
    refine ⟨(hstep s hstate).1, (hstep s hstate).2, ?_⟩
    show s.results ++ [] = s.results
    rw [List.append_nil]
  | succ k ih =>
    obtain ⟨hidle, hvalid⟩ := hstep s hstate
    obtain ⟨hrun, hrun', hlog⟩ := ih hidle
    rw [List.replicate_succ, run_cons, log_cons, hlog, results_of_not_valid hvalid, List.append_nil]
    exact ⟨hrun, hrun', rfl⟩

end RxCore

/-! ## The samples of a line -/

theorem exists_segments {α : Type*} {b : ℕ} (hb : 0 < b) (n : ℕ) (l : List α) (hlen : n * b ≤ l.length) :
    ∃ segs : List (List α × α), segs.length = n ∧ (∀ p ∈ segs, p.1.length + 1 = b) ∧
      l = (segs.flatMap fun p => p.1 ++ [p.2]) ++ l.drop (n * b) ∧
      ∀ m < n, (segs.map Prod.snd)[m]? = l[(m + 1) * b - 1]? := by
  induction n generalizing l with
  | zero => exact ⟨[], rfl, by simp, by simp, by simp⟩
  | succ n ih =>
    rw [Nat.succ_mul] at hlen
    obtain ⟨segs, hcount, hsegs, heq, hlast⟩ := ih (l.drop b) (by rw [List.length_drop]; omega)
    have hlt : b - 1 < l.length := by omega
    have htake : l.take b = l.take (b - 1) ++ [l[b - 1]] := by
      rw [List.take_append_getElem, Nat.sub_add_cancel hb]
    refine ⟨(l.take (b - 1), l[b - 1]) :: segs, by simp [hcount], ?_, ?_, ?_⟩
    · intro p hp
      rcases List.mem_cons.mp hp with rfl | hp
      · simp only [List.length_take]
        omega
      · exact hsegs p hp
    · rw [List.flatMap_cons, ← htake, List.append_assoc, Nat.succ_mul, Nat.add_comm, ← List.drop_drop, ← heq,
        List.take_append_drop]
    · intro m hm
      cases m with
      | zero => simp [hlt]
      | succ m =>
        rw [List.map_cons, List.getElem?_cons_succ, hlast m (by omega), List.getElem?_drop]
        congr 1
        have : 0 < (m + 1) * b := Nat.mul_pos (by omega) hb
        rw [Nat.succ_mul (m + 1)]
        omega

theorem length_stretch (c : UartConfig w) (bs : List Bool) : (stretch c bs).length = bs.length * c.period := by
  induction bs with
  | nil => simp [stretch]
  | cons b bs ih =>
    rw [stretch, List.flatMap_cons, List.length_append, List.length_replicate, List.length_cons, Nat.succ_mul]
    rw [stretch] at ih
    omega

theorem getElem?_stretch (c : UartConfig w) (bs : List Bool) (k : ℕ) :
    (stretch c bs)[k]? = bs[k / c.period]? := by
  have hpos : 0 < c.period := Nat.succ_pos _
  induction bs generalizing k with
  | nil => simp [stretch]
  | cons b bs ih =>
    rw [stretch, List.flatMap_cons, List.getElem?_append, List.length_replicate]
    split_ifs with hk
    · rw [Nat.div_eq_of_lt hk]
      simp [hk]
    · have hdiv : k / c.period = (k - c.period) / c.period + 1 := by
        rw [← Nat.add_div_right _ hpos, Nat.sub_add_cancel (Nat.le_of_not_lt hk)]
      rw [hdiv, List.getElem?_cons_succ]
      exact ih (k - c.period)

section Bits

variable (c : UartConfig w) (d : BitVec 8)

theorem length_frameBits : (frameBits c d).length = RxCore.samples c + 1 := by
  simp only [frameBits, RxCore.samples, dataBits]
  split_ifs
  · simp
    omega
  · simp

theorem frameBits_data {m : ℕ} (hm : m < 8) : (frameBits c d)[m + 1]? = some (d.getLsbD m) := by
  have hlen : (dataBits d).length = 8 := by simp [dataBits]
  rw [frameBits, List.append_assoc, List.append_assoc, List.singleton_append, List.getElem?_cons_succ,
    List.getElem?_append_left (by omega)]
  simp [dataBits, hm]

theorem frameBits_stop {q : ℕ} (hq : 9 + (if c.parityBit then 1 else 0) ≤ q) {x : Bool}
    (hx : (frameBits c d)[q]? = some x) : x = true := by
  rw [frameBits, List.getElem?_append_right] at hx
  · exact (List.eq_of_mem_replicate (List.mem_of_getElem? hx))
  · simp only [dataBits]
    split_ifs at hq ⊢ <;> simpa using hq

end Bits

/-- **The samples stay within their bits**: that of the last data bit, and the cycle behind the last
sample, which has to be in the stop bits. -/
structure Aligned (c : UartConfig w) : Prop where
  data : 8 ≤ (c.baudDiv.toNat + 1) / 2
  stop : 8 + (if c.parityBit then 1 else 0) ≤ (c.baudDiv.toNat + 1) / 2 + (c.stops - 1) * c.baudDiv.toNat

theorem Aligned.baudDiv_ne_zero {c : UartConfig w} (h : Aligned c) : c.baudDiv ≠ 0 := by
  intro hzero
  have := h.data
  simp [hzero] at this

/-- **A frame, cut where it is sampled**: the start bit to the end of its count, one divisor of cycles for
each sample, and nothing but ones behind them. -/
theorem frame_cut {c : UartConfig w} (h : Aligned c) (d : BitVec 8) :
    ∃ (xs : List Bool) (x : Bool) (segs : List (List Bool × Bool)) (ys : List Bool) (k : ℕ),
      frame c d = false :: (xs ++ [x]) ++ (segs.flatMap fun p => p.1 ++ [p.2]) ++
        List.replicate (k + 1) true ∧
      c.baudDiv.toNat / 2 + xs.length + 1 = c.baudDiv.toNat ∧
      (∀ p ∈ segs, p.1.length + 1 = c.baudDiv.toNat) ∧
      segs.map Prod.snd = dataBits d ++ ys ∧ ys.length + 8 = RxCore.samples c := by
  obtain ⟨hdata, hstop⟩ := h
  obtain ⟨b, hb⟩ : ∃ b, c.baudDiv.toNat = b := ⟨_, rfl⟩
  obtain ⟨n, hn⟩ : ∃ n, RxCore.samples c = n := ⟨_, rfl⟩
  have hperiod : c.period = b + 1 := by rw [UartConfig.period, hb]
  rw [hb] at hdata hstop ⊢
  have hlen : (frame c d).length = (n + 1) * (b + 1) := by
    rw [frame, length_stretch, length_frameBits, hn, hperiod]
  have hexpand : (n + 1) * (b + 1) = n * b + n + b + 1 := by ring
  have hget : ∀ k, (frame c d)[k]? = (frameBits c d)[k / (b + 1)]? := by
    intro k
    rw [frame, getElem?_stretch, hperiod]
  -- the first cycle, and the count of the start bit
  obtain ⟨g, hg⟩ : ∃ g, frame c d = false :: g := by
    have hzero := hget 0
    rw [Nat.zero_div] at hzero
    obtain ⟨g, hg⟩ := List.head?_eq_some_iff.mp (List.head?_eq_getElem?.trans hzero)
    exact ⟨g, hg⟩
  rw [hg, List.length_cons] at hlen
  have hget' : ∀ k, g[k]? = (frameBits c d)[(k + 1) / (b + 1)]? := by
    intro k
    rw [← hget, hg, List.getElem?_cons_succ]
  obtain ⟨start, hcount, hstart, heq, -⟩ := exists_segments (b := b - b / 2) (by omega) 1 g (by omega)
  obtain ⟨⟨xs, x⟩, rfl⟩ := List.length_eq_one_iff.mp hcount
  have hxs : xs.length + 1 = b - b / 2 := hstart _ (List.mem_singleton_self _)
  rw [Nat.one_mul] at heq
  -- the samples
  obtain ⟨segs, hcount', hsegs, heq', hlast⟩ := exists_segments (b := b) (by omega) n (g.drop (b - b / 2))
    (by rw [List.length_drop]; omega)
  have hsample : ∀ m < n, (segs.map Prod.snd)[m]? =
      (frameBits c d)[((b - b / 2) + (m + 1) * b) / (b + 1)]? := by
    intro m hm
    have hpos : 0 < (m + 1) * b := Nat.mul_pos (by omega) (by omega)
    rw [hlast m hm, List.getElem?_drop, hget']
    congr 2
    omega
  have hn8 : 8 < n := by
    rw [← hn, RxCore.samples, UartConfig.stops]
    split_ifs <;> omega
  have hbits : (segs.map Prod.snd).take 8 = dataBits d := by
    apply List.ext_getElem?
    intro m
    rcases Nat.lt_or_ge m 8 with hm | hm
    · have hmul : b - b / 2 + (m + 1) * b = b - b / 2 - (m + 1) + (b + 1) * (m + 1) := by
        have hring : (b + 1) * (m + 1) = (m + 1) * b + (m + 1) := by ring
        omega
      rw [List.getElem?_take_of_lt hm, hsample m (by omega), hmul, Nat.add_mul_div_left _ _ (Nat.succ_pos b),
        Nat.div_eq_of_lt (by omega), Nat.zero_add, frameBits_data c d hm]
      simp [dataBits, hm]
    · rw [List.getElem?_eq_none (by simp; omega), List.getElem?_eq_none (by simp [dataBits]; omega)]
  -- the ones behind them
  obtain ⟨k, hk⟩ : ∃ k, n + b - (b - b / 2) = k + 1 := ⟨n + b - (b - b / 2) - 1, by omega⟩
  have hrest : (g.drop (b - b / 2)).drop (n * b) = List.replicate (k + 1) true := by
    rw [List.eq_replicate_iff]
    refine ⟨by rw [List.length_drop, List.length_drop]; omega, fun x hx => ?_⟩
    obtain ⟨j, hj⟩ := List.mem_iff_getElem?.mp hx
    rw [List.getElem?_drop, List.getElem?_drop, hget'] at hj
    refine frameBits_stop c d ((Nat.le_div_iff_mul_le (Nat.succ_pos b)).mpr ?_) hj
    -- the cycle behind the last sample is in the stop bits
    have hstops : 1 ≤ c.stops := by
      rw [UartConfig.stops]
      split_ifs <;> omega
    have hsplit : n * b = (9 + if c.parityBit then 1 else 0) * b + (c.stops - 1) * b := by
      rw [← Nat.add_mul, ← hn, RxCore.samples]
      congr 1
      omega
    rw [Nat.mul_succ]
    omega
  refine ⟨xs, x, segs, (segs.map Prod.snd).drop 8, k, ?_, by omega, hsegs, ?_, ?_⟩
  · rw [hg, List.cons_append, List.cons_append, List.append_assoc, ← hrest, ← heq']
    simpa using heq
  · rw [← hbits, List.take_append_drop]
  · rw [List.length_drop, List.length_map, hcount', hn]
    omega

namespace RxCore

variable {c : UartConfig w} {s : RxCore w}

theorem run_start (hdiv : c.baudDiv ≠ 0) (hstate : s.state = .idle) (hvalid : s.rxValid = false)
    {xs : List Bool} {x : Bool} (hlen : c.baudDiv.toNat / 2 + xs.length + 1 = c.baudDiv.toNat) :
    ∃ s' : RxCore w, run (feed c) s (false :: (xs ++ [x])) = s' ∧ s'.state = .dataUart ∧
      s'.bitcountInt = 0 ∧ s'.counterInt = 0 ∧ s'.rxValid = false ∧ s'.rxStopBitsInt = false ∧
      log (feed c) (fun s _ => s.results) s (false :: (xs ++ [x])) = [] := by
  obtain ⟨t, ht⟩ : ∃ t, feed c s false = t := ⟨_, rfl⟩
  have hfeed : t = { s with
      counterInt := c.baudDiv >>> 1, state := .startBit, bitcountInt := 0, rxValid := false,
      rxStopBitsInt := false } := by
    rw [← ht, feed, clock, hstate]
    rfl
  have hcounting : t.Counting := by
    rw [hfeed]
    simp [Counting]
  have hhalf : t.counterInt.toNat = c.baudDiv.toNat / 2 := by
    rw [hfeed, BitVec.toNat_ushiftRight, Nat.shiftRight_one]
  obtain ⟨hrun, hlog⟩ := run_segment hdiv hcounting xs x (by rw [hhalf]; exact hlen) (by rw [hfeed])
  refine ⟨tick c t x, by rw [run_cons, ht, hrun], ?_⟩
  rw [log_cons, ht, hlog, results_of_not_valid hvalid, hfeed]
  exact ⟨rfl, rfl, rfl, rfl, rfl, rfl⟩

/-- **A frame is received** by an idle receiver. -/
theorem run_frame (h : Aligned c) (hstate : s.state = .idle) (hvalid : s.rxValid = false) (d : BitVec 8) :
    (run (feed c) s (frame c d)).state = .idle ∧ (run (feed c) s (frame c d)).rxValid = false ∧
      log (feed c) (fun s _ => s.results) s (frame c d) = [d] := by
  have hdiv := h.baudDiv_ne_zero
  obtain ⟨xs, x, segs, ys, k, hframe, hlen, hsegs, hsamples, hys⟩ := frame_cut h d
  obtain ⟨s', hrun, hstate', hcount, hzero, hvalid', hstop, hlog⟩ :=
    run_start (c := c) hdiv hstate hvalid (x := x) hlen
  obtain ⟨hidle, hresults, halong⟩ := run_samples (c := c) hstate' hcount hzero hvalid' hstop d hys
  rw [← hsamples] at hidle hresults halong
  obtain ⟨hrun', hlog'⟩ := run_segments hdiv hsegs halong
  rw [← hrun'] at hidle hresults
  obtain ⟨hidle', hvalid'', hlog''⟩ := run_ones (c := c) hidle k
  rw [hframe, run_append, run_append, log_append, log_append, run_append, hrun, hlog, hlog', hlog'', hresults]
  exact ⟨hidle', hvalid'', rfl⟩

end RxCore

end PacketBuffering
