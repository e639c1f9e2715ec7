import PacketBuffering.Timer.Top

/-!
# Reset, load and overflow of the timer

* `TimerCore.ticks`, `TimerCore.matched`: the cycles in which the prescaler ticks, and in which the
  counter matches; `TimerCore.clock_count` and its companions: each register behind a clock.
* **`TimerCore.preloaded_iff`**: the runs in which every reset and every load reaches the counter. A
  tick in the same cycle overrides it.
* **`TimerCore.overflow_never_reported`**: the overflow flag stays 0, also when the counter wraps.
-/

namespace PacketBuffering

namespace TimerCore

variable (s : TimerCore) (c : TimerCtrl)

/-! ## One clock -/

/-- The prescaler ticks. -/
def ticks : Bool := c.en && !s.oneShotDone && s.prescCnt == 0

/-- The counter matches at a tick. -/
def matched : Bool := s.ticks c && decide (c.compare ≤ s.count)

/-- The enable rises. -/
def enRises : Bool := c.en && !s.ctrlEnPrev

variable {s c}

theorem matched_eq_true :
    s.matched c = true ↔
      c.en = true ∧ s.oneShotDone = false ∧ s.prescCnt = 0 ∧ c.compare ≤ s.count := by
  simp [matched, ticks, and_assoc]

theorem ticks_of_matched (h : s.matched c = true) : s.ticks c = true :=
  (Bool.and_eq_true _ _ ▸ h).1

variable (s c)

theorem clock_count :
    (s.clock c).count =
      if s.matched c && c.reload then 0
      else if s.ticks c && !s.matched c then s.count + 1
      else if c.rst then 0
      else if c.loadWe then c.loadVal
      else s.count := by
  unfold clock advance tick preload prepare matched ticks
  grind

theorem clock_prescCnt :
    (s.clock c).prescCnt =
      if !c.en then c.prescaler
      else if s.oneShotDone then if c.rst then c.prescaler else s.prescCnt
      else if s.prescCnt = 0 then c.prescaler
      else s.prescCnt - 1 := by
  unfold clock advance tick preload prepare
  grind

theorem clock_matchFlag :
    (s.clock c).matchFlag = (s.matched c || s.matchFlag && !c.clearMatch) := by
  unfold clock advance tick preload prepare matched ticks
  grind

theorem clock_matchPulse : (s.clock c).matchPulse = s.matched c := by
  unfold clock advance tick preload prepare matched ticks
  grind

theorem clock_oneShotDone :
    (s.clock c).oneShotDone =
      (s.matched c && !c.reload || s.oneShotDone && !(s.enRises c || c.rst || c.loadWe)) := by
  unfold clock advance tick preload prepare matched ticks enRises
  grind

theorem clock_running :
    (s.clock c).running = (c.en && !s.oneShotDone && !(s.matched c && !c.reload)) := by
  unfold clock advance tick preload prepare matched ticks
  grind

theorem clock_ctrlEnPrev : (s.clock c).ctrlEnPrev = c.en := by
  unfold clock advance tick preload prepare
  grind

/-- The overflow is looked for behind the match, where the counter is below the compare value. -/
theorem clock_ovfFlag : (s.clock c).ovfFlag = (s.ovfFlag && !c.clearOvf) := by
  unfold clock advance tick preload prepare
  grind

/-! ## Reset and load -/

/-- A reset brings the counter to 0, and a load without a reset to the value that is loaded. -/
def Preloaded : Prop :=
  (c.rst = true → (s.clock c).count = 0) ∧
    (c.rst = false → c.loadWe = true → (s.clock c).count = c.loadVal)

/-- No tick stands in the way of a reset or a load, or it leads to the same count. A match in the
one-shot mode leaves the counter alone. -/
def Undisturbed : Prop :=
  (c.rst || c.loadWe) = true → s.ticks c = true →
    if s.matched c then c.reload = true → 0 = if c.rst then 0 else c.loadVal
    else s.count + 1 = if c.rst then 0 else c.loadVal

instance : Decidable (Preloaded s c) := inferInstanceAs (Decidable (_ ∧ _))

instance : Decidable (Undisturbed s c) := inferInstanceAs (Decidable (_ → _ → _))

/-- **One cycle.** -/
theorem preloaded_iff_undisturbed : Preloaded s c ↔ Undisturbed s c := by
  have hmatched := ticks_of_matched (s := s) (c := c)
  unfold Preloaded Undisturbed
  rw [clock_count]
  cases hm : s.matched c with
  | true =>
    rw [hmatched hm]
    cases c.reload <;> cases c.rst <;> cases c.loadWe <;> simp
  | false =>
    cases s.ticks c <;> cases c.rst <;> cases c.loadWe <;> simp

/-- **Every reset and every load of a run** reaches the counter iff none of them meets a tick that
disturbs it. -/
theorem preloaded_iff (s : TimerCore) (cs : List TimerCtrl) :
    Along clock Preloaded s cs ↔ Along clock Undisturbed s cs := by
  constructor
  · exact Along.mono fun t c => (preloaded_iff_undisturbed t c).mp
  · exact Along.mono fun t c => (preloaded_iff_undisturbed t c).mpr

/-- The timer runs for two cycles; the reset in the third one is lost. -/
theorem reset_while_running :
    ¬ ∀ cs, Along clock Preloaded reset cs := by
  intro h
  let c := { TimerCtrl.reset with en := true }
  have : ¬ Along clock Preloaded reset [c, c, { c with rst := true }] := by decide
  exact this (h _)

/-! ## Overflow -/

/-- The counter wraps by itself. -/
def Wraps : Prop :=
  s.count = 0xFFFFFFFF ∧ (s.clock c).count = 0 ∧ c.rst = false ∧ c.loadWe = false

instance : Decidable (Wraps s c) := inferInstanceAs (Decidable (_ ∧ _))

theorem ovfFlag_run (cs : List TimerCtrl) : (run clock reset cs).ovfFlag = false :=
  Along.invariant (fun s => s.ovfFlag = false)
    (fun s c hs _ => by rw [clock_ovfFlag, hs, Bool.false_and]) rfl (along_true clock reset cs)

/-- **No wrap is reported**: the flag is 0 in the next cycle, whatever led to it. -/
theorem overflow_never_reported (cs : List TimerCtrl) (c : TimerCtrl)
    (_ : Wraps (run clock reset cs) c) : ((run clock reset cs).clock c).ovfFlag = false := by
  have h := ovfFlag_run (cs ++ [c])
  rwa [run_snoc] at h

/-- A load of the largest value, and the next tick. -/
theorem overflow_never_reported_load :
    let load := { TimerCtrl.reset with loadVal := 0xFFFFFFFF, loadWe := true }
    let go := { TimerCtrl.reset with en := true }
    Wraps (run clock reset [load]) go ∧ ((run clock reset [load]).clock go).ovfFlag = false := by
  have h : Wraps (run clock reset [{ TimerCtrl.reset with loadVal := 0xFFFFFFFF, loadWe := true }])
      { TimerCtrl.reset with en := true } := by decide
  exact ⟨h, overflow_never_reported _ _ h⟩

/-- It wraps, and the flag is 0. -/
theorem wrap_unreported :
    ¬ ∀ cs c, Wraps (run clock reset cs) c → ((run clock reset cs).clock c).ovfFlag = true := by
  intro h
  have hwrap := h [{ TimerCtrl.reset with loadVal := 0xFFFFFFFF, loadWe := true }]
    { TimerCtrl.reset with en := true } (by decide)
  exact absurd hwrap (by decide)

end TimerCore

end PacketBuffering
