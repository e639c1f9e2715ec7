import PacketBuffering.Lib.Edges
import PacketBuffering.Uart.Receiver

/-!
# Transmitter and receiver on one line

A transmitter and a receiver of the same configuration and clock, as the bench connects them. The
receiver sees the line three cycles late.

* `UartLink`, `UartLink.clock`: the two on one line.
* `RxCore.run_items`: what a receiver makes of frames with ones in between.
* `Quiet`: nothing is under way; `Quiet.received`: the link from there on.
* **`uart_link`**: the bytes taken are received, in their order, each within twelve periods of the
  transmitter and three cycles of synchronisation.
-/

namespace PacketBuffering

variable {w : ℕ}

/-! ## Frames one behind another -/

/-- **What a receiver makes of a line** that shows a one and frames, again and again. -/
theorem RxCore.run_items {c : UartConfig w} (h : Aligned c) (items : List (List (BitVec 8))) {s : RxCore w}
    (hstate : s.state = .idle) (hvalid : s.rxValid = false) :
    log (feed c) (fun s _ => s.results) s (items.flatMap fun ds => true :: ds.flatMap (frame c)) =
      items.flatten := by
  have hframes : ∀ (ds : List (BitVec 8)) (s : RxCore w), s.state = .idle → s.rxValid = false →
      (run (feed c) s (ds.flatMap (frame c))).state = .idle ∧
        (run (feed c) s (ds.flatMap (frame c))).rxValid = false ∧
        log (feed c) (fun s _ => s.results) s (ds.flatMap (frame c)) = ds := by
    intro ds
    induction ds with
    | nil => exact fun s hs hv => ⟨hs, hv, rfl⟩
    | cons d ds ih =>
      intro s hs hv
      obtain ⟨hs', hv', hlog⟩ := run_frame h hs hv d
      obtain ⟨hs'', hv'', hlog'⟩ := ih _ hs' hv'
      rw [List.flatMap_cons, run_append, log_append, hlog, hlog']
      exact ⟨hs'', hv'', rfl⟩
  induction items generalizing s with
  | nil => rfl
  | cons ds items ih =>
    obtain ⟨hs, hv, hlog⟩ := run_ones (c := c) hstate 0
    obtain ⟨hs', hv', hlog'⟩ := hframes ds _ hs hv
    have hone : log (feed c) (fun s _ => s.results) s [true] = [] := by
      rw [← results_of_not_valid hvalid]
      exact hlog
    rw [List.flatMap_cons, ← List.singleton_append, List.append_assoc, log_append, log_append, hone,
      List.flatten_cons, List.nil_append]
    exact congrArg₂ (· ++ ·) hlog' (ih hs' hv')

/-! ## The link -/

/-- A transmitter and a receiver. -/
structure UartLink (w : ℕ) where
  tx : UartTx w
  rx : UartRx w

namespace UartLink

/-- Both after reset. -/
def reset : UartLink w := ⟨.reset, .reset⟩

variable (c : UartConfig w)

/-- A rising `clk_i`. -/
def clock (s : UartLink w) (i : TxIn) : UartLink w where
  tx := s.tx.clock c i
  rx := s.rx.clock c i.en s.tx.tx

/-- The byte that the receiver shows. -/
def results (s : UartLink w) (_ : TxIn) : List (BitVec 8) := s.rx.core.results

/-- The synchronised line. -/
def seen (s : UartLink w) (_ : TxIn) : List Bool := [s.rx.rxTriggerInt.getLsbD 2]

variable {c} {s : UartLink w}

theorem log_part {σ τ ι ο : Type*} {step : σ → ι → σ} {pstep : τ → ι → τ} (part : σ → τ)
    (h : ∀ s e, part (step s e) = pstep (part s) e) (pobs : τ → ι → List ο) (s : σ) (es : List ι) :
    log step (fun s e => pobs (part s) e) s es = log pstep pobs (part s) es := by
  induction es generalizing s with
  | nil => rfl
  | cons e es ih => rw [log_cons, log_cons, ih, h]

/-- What the synchronising registers hold. -/
def late (s : UartLink w) : List Bool :=
  [s.rx.rxTriggerInt.getLsbD 2, s.rx.rxTriggerInt.getLsbD 1, s.rx.rxTriggerInt.getLsbD 0]

theorem late_pass (s : UartLink w) (i : TxIn) : s.seen i ++ (s.clock c i).late = s.late ++ [s.tx.tx] := by
  have hsync : ∀ (t : BitVec 3) (rx : Bool),
      [t.getLsbD 2] ++ [((t <<< 1) ||| (if rx then 1 else 0)).getLsbD 2,
          ((t <<< 1) ||| (if rx then 1 else 0)).getLsbD 1,
          ((t <<< 1) ||| (if rx then 1 else 0)).getLsbD 0] =
        [t.getLsbD 2, t.getLsbD 1, t.getLsbD 0] ++ [rx] := by decide
  exact hsync s.rx.rxTriggerInt s.tx.tx

/-- **The receiver is three cycles behind the line.** -/
theorem seen_append (s : UartLink w) (is : List TxIn) :
    log (clock c) seen s is ++ (run (clock c) s is).late =
      s.late ++ log (UartTx.clock c) (fun s _ => [s.tx]) s.tx is := by
  have hline : log (clock c) (fun s _ => [s.tx.tx]) s is =
      log (UartTx.clock c) (fun s _ => [s.tx]) s.tx is :=
    log_part (fun s : UartLink w => s.tx) (fun _ _ => rfl) (fun s _ => [s.tx]) s is
  rw [← hline]
  exact (along_true (clock c) s is).log_buffer (fun _ => True) late (fun _ _ _ _ => trivial)
    (fun s i _ _ => late_pass s i) trivial

theorem length_seen (s : UartLink w) (is : List TxIn) : (log (clock c) seen s is).length = is.length :=
  length_log_signal s is

theorem results_eq {is : List TxIn} (hen : ∀ i ∈ is, i.en = true) (s : UartLink w) :
    log (clock c) results s is =
      log (RxCore.feed c) (fun s _ => s.results) s.rx.core (log (clock c) seen s is) := by
  induction is generalizing s with
  | nil => rfl
  | cons i is ih =>
    have hstep : (s.clock c i).rx.core = RxCore.feed c s.rx.core (s.rx.rxTriggerInt.getLsbD 2) := by
      show s.rx.core.clock c i.en _ = _
      rw [hen i (List.mem_cons_self ..)]
      rfl
    have hone : log (RxCore.feed c) (fun s _ => s.results) s.rx.core (s.seen i) = s.results i :=
      List.append_nil _
    rw [log_cons, log_cons, log_append, hone, ih fun j hj => hen j (List.mem_cons_of_mem _ hj), hstep]
    rfl

end UartLink

theorem UartTx.length_held_le {c : UartConfig w} {s : UartTx w} : (s.held c).length ≤ 12 * c.period := by
  have hstops : c.stops ≤ 2 := by
    rw [UartConfig.stops]
    split_ifs <;> omega
  have hbits : (s.bitsLeft c).length ≤ 11 := by
    unfold bitsLeft
    cases s.state with
    | reset | idle => simp
    | data =>
      simp only [dataLeft]
      split_ifs <;> simp <;> omega
    | parity => simp; omega
    | stop => simp; omega
  unfold held
  split_ifs
  · rw [List.length_append, List.length_replicate, length_stretch]
    have := Nat.mul_le_mul_right c.period hbits
    omega
  · simp

namespace UartLink

variable {c : UartConfig w}

/-- **Nothing is under way**: neither part is at a frame, and the line has been at one for a while. -/
structure Quiet (c : UartConfig w) (s : UartLink w) : Prop where
  inv : s.tx.Inv c
  sending : s.tx.sending = false
  late : s.late = [true, true, true]
  core : s.rx.core.state = .reset ∨ s.rx.core.state = .idle
  valid : s.rx.core.rxValid = false

theorem quiet_reset : Quiet c reset := by
  refine ⟨rfl, rfl, ?_, .inl rfl, rfl⟩
  show [(0b111 : BitVec 3).getLsbD 2, (0b111 : BitVec 3).getLsbD 1, (0b111 : BitVec 3).getLsbD 0] = _
  decide

/-- The line with everything that the frames taken are going to show on it. -/
def fullLine (c : UartConfig w) (s : UartLink w) (is : List TxIn) : List Bool :=
  [true, true, true] ++ log (UartTx.clock c) (UartTx.adds c) s.tx is

/-- What a cycle takes, if no frame is under way. -/
def item (s : UartTx w) (i : TxIn) : List (List (BitVec 8)) := if s.sending then [] else [s.takes i]

theorem adds_eq (s : UartTx w) (i : TxIn) :
    s.adds c i = (item s i).flatMap fun ds => true :: ds.flatMap (frame c) := by
  rw [UartTx.adds, item]
  split_ifs <;> simp

theorem takes_eq (s : UartTx w) (i : TxIn) : s.takes i = (item s i).flatten := by
  rw [item]
  split_ifs with hsend
  · have hbusy : s.state ≠ .reset ∧ s.state ≠ .idle := of_decide_eq_true hsend
    simp [UartTx.takes, hbusy.2]
  · simp

theorem log_adds (s : UartTx w) (is : List TxIn) :
    log (UartTx.clock c) (UartTx.adds c) s is =
      (log (UartTx.clock c) item s is).flatMap fun ds => true :: ds.flatMap (frame c) := by
  rw [← log_hom (UartTx.clock c) item (f := fun l => l.flatMap fun ds => true :: ds.flatMap (frame c)) rfl
    (fun l m => List.flatMap_append)]
  congr 1
  funext s i
  exact adds_eq s i

theorem log_takes (s : UartTx w) (is : List TxIn) :
    log (UartTx.clock c) UartTx.takes s is = (log (UartTx.clock c) item s is).flatten := by
  rw [← log_hom (UartTx.clock c) item (f := List.flatten) rfl (fun l m => List.flatten_append)]
  congr 1
  funext s i
  exact takes_eq s i

variable {s : UartLink w}

theorem Quiet.feed_one (hs : Quiet c s) :
    (RxCore.feed c s.rx.core true).state = .idle ∧ (RxCore.feed c s.rx.core true).rxValid = false := by
  unfold RxCore.feed RxCore.clock
  rcases hs.core with hstate | hstate
  · rw [hstate]
    exact ⟨rfl, rfl⟩
  · rw [hstate]
    exact ⟨rfl, rfl⟩

/-- **What the receiver makes of it are the bytes taken.** -/
theorem results_fullLine (h : Aligned c) (hs : Quiet c s) (is : List TxIn) :
    log (RxCore.feed c) (fun s _ => s.results) s.rx.core (fullLine c s is) =
      log (UartTx.clock c) UartTx.takes s.tx is := by
  obtain ⟨hstate, hvalid⟩ := hs.feed_one
  have hitems := RxCore.run_items h ([[], []] ++ log (UartTx.clock c) item s.tx is) hstate hvalid
  rw [log_takes, fullLine, log_adds, List.cons_append, log_cons, RxCore.results_of_not_valid hs.valid]
  rw [List.flatMap_append, List.flatten_append] at hitems
  exact hitems

/-- **Transmitter and receiver**, from any state in which nothing is under way. -/
theorem Quiet.received (h : Aligned c) (hs : Quiet c s) {is is' : List TxIn}
    (hen : ∀ i ∈ is ++ is', i.en = true) (hlen : 12 * c.period + 3 ≤ is'.length) :
    let taken (is : List TxIn) := log (clock c) (fun s i => s.tx.takes i) s is
    taken is <+: log (clock c) results s (is ++ is') ∧
      log (clock c) results s (is ++ is') <+: taken (is ++ is') := by
  intro taken
  have hdiv := h.baudDiv_ne_zero
  have htaken : ∀ is, taken is = log (RxCore.feed c) (fun s _ => s.results) s.rx.core (fullLine c s is) := by
    intro is
    rw [results_fullLine h hs]
    exact log_part (fun s : UartLink w => s.tx) (fun _ _ => rfl) UartTx.takes s is
  have hheld : s.tx.held c = [] := by
    rw [UartTx.held, if_neg]
    simp [hs.sending]
  -- what the receiver has seen, with what it has not seen yet
  have hseen : ∀ is, log (clock c) seen s is ++ (run (clock c) s is).late ++
      (run (UartTx.clock c) s.tx is).held c = fullLine c s is := by
    intro is
    rw [seen_append, List.append_assoc, UartTx.line_append (fun _ => hdiv) hs.inv, hs.late, hheld]
    rfl
  have hresults := results_eq (c := c) hen s
  have hpre : log (clock c) seen s (is ++ is') <+: fullLine c s (is ++ is') :=
    ⟨_, by rw [← List.append_assoc]; exact hseen (is ++ is')⟩
  rw [htaken, htaken, hresults]
  refine ⟨log_isPrefix _ _ _ ?_, log_isPrefix _ _ _ hpre⟩
  -- the receiver has seen all of what the frames taken in `is` are going to show
  have hlong : fullLine c s is <+: fullLine c s (is ++ is') :=
    (List.prefix_append_right_inj _).mpr (log_isPrefix _ _ _ (List.prefix_append _ _))
  refine List.prefix_of_prefix_length_le hlong hpre ?_
  have hheld := UartTx.length_held_le (c := c) (s := run (UartTx.clock c) s.tx is)
  rw [← hseen is, List.length_append, List.length_append, length_seen, length_seen, List.length_append]
  show is.length + 3 + _ ≤ _
  omega

end UartLink

open UartLink

/-- **Transmitter and receiver.** For every divisor under which the samples stay within their bits, in
every run from reset: the receiver shows the bytes that the transmitter takes, in their order; and each of
them is there twelve periods and three cycles after it was taken. -/
theorem uart_link {c : UartConfig w} (h : Aligned c) {is is' : List TxIn}
    (hen : ∀ i ∈ is ++ is', i.en = true) (hlen : 12 * c.period + 3 ≤ is'.length) :
    let taken (is : List TxIn) := log (clock c) (fun s i => s.tx.takes i) reset is
    taken is <+: log (clock c) results reset (is ++ is') ∧
      log (clock c) results reset (is ++ is') <+: taken (is ++ is') :=
  quiet_reset.received h hen hlen

/-- Eight data bits, even parity, two stop bits and the smallest divisor. -/
theorem uart_link_smallest :
    let c : UartConfig 32 := ⟨true, true, true, 15⟩
    let is : List TxIn := [⟨true, false, 0⟩, ⟨true, true, 0xa5⟩]
    [0xa5] <+: log (clock c) results reset (is ++ List.replicate 195 ⟨true, false, 0⟩) := by
  intro c is
  have hen : ∀ i ∈ is ++ List.replicate 195 (⟨true, false, 0⟩ : TxIn), i.en = true := by
    decide +kernel
  exact (uart_link (c := c) ⟨by decide, by decide⟩ hen (by rw [List.length_replicate]; decide)).1

end PacketBuffering
