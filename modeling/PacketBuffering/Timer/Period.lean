import PacketBuffering.Timer.Preload

/-!
# The period of the timer

* `TimerCtrl.Steady`: the settings of a stretch in periodic mode; `TimerCore.Phase`: the counter and the
  prescaler `k` cycles behind a match.
* `TimerCore.Phase.matched_iff`, `TimerCore.Phase.next`: the match ends the period, and any other cycle
  leads to the next phase.
* **`TimerCore.period`**: the distance of two matches, and how often each count is taken.
-/

namespace PacketBuffering

/-- Periodic mode under constant settings, without a reset or a load. -/
structure TimerCtrl.Steady (compare : BitVec 32) (prescaler : BitVec 16) (c : TimerCtrl) : Prop where
  en : c.en = true
  reload : c.reload = true
  rst : c.rst = false
  loadWe : c.loadWe = false
  compare_eq : c.compare = compare
  prescaler_eq : c.prescaler = prescaler

namespace TimerCore

variable {compare : BitVec 32} {prescaler : BitVec 16} {s : TimerCore} {c : TimerCtrl} {k : ℕ}

/-! ## Phases -/

/-- **Phase** `k` of the period: what the two counters have counted since the match. -/
structure Phase (compare : BitVec 32) (prescaler : BitVec 16) (k : ℕ) (s : TimerCore) : Prop where
  armed : s.oneShotDone = false
  count_le : s.count.toNat ≤ compare.toNat
  prescCnt_le : s.prescCnt.toNat ≤ prescaler.toNat
  counted : k + s.prescCnt.toNat = s.count.toNat * (prescaler.toNat + 1) + prescaler.toNat

theorem phase_zero (hc : c.Steady compare prescaler) (h : s.matched c = true) :
    Phase compare prescaler 0 (s.clock c) := by
  obtain ⟨hen, hdone, hpresc, -⟩ := matched_eq_true.mp h
  have hcount : (s.clock c).count = 0 := by
    rw [clock_count, h, hc.reload]
    rfl
  have hnext : (s.clock c).prescCnt = prescaler := by
    rw [clock_prescCnt, hen, hdone, hpresc, hc.prescaler_eq]
    rfl
  refine ⟨?_, ?_, ?_, ?_⟩
  · rw [clock_oneShotDone, h, hdone, hc.reload]
    rfl
  · rw [hcount]
    exact Nat.zero_le _
  · rw [hnext]
  · rw [hcount, hnext]
    simp

namespace Phase

theorem count_eq (h : Phase compare prescaler k s) :
    s.count.toNat = k / (prescaler.toNat + 1) := by
  have hle := h.prescCnt_le
  have hk : k = prescaler.toNat - s.prescCnt.toNat + (prescaler.toNat + 1) * s.count.toNat := by
    have := h.counted
    rw [Nat.mul_comm] at this
    omega
  rw [hk, Nat.add_mul_div_left _ _ (Nat.succ_pos _), Nat.div_eq_of_lt (by omega), Nat.zero_add]

theorem ticks_iff (h : Phase compare prescaler k s) (hc : c.Steady compare prescaler) :
    s.ticks c = true ↔ s.prescCnt.toNat = 0 := by
  simp [ticks, hc.en, h.armed, BitVec.toNat_eq]

/-- **The match ends the period**, in the cycle in which both counters are through. -/
theorem matched_iff (h : Phase compare prescaler k s) (hc : c.Steady compare prescaler) :
    s.matched c = true ↔ k + 1 = (compare.toNat + 1) * (prescaler.toNat + 1) := by
  have hcounted := h.counted
  have hcount := h.count_le
  rw [matched, Bool.and_eq_true, h.ticks_iff hc, hc.compare_eq, decide_eq_true_iff, BitVec.le_def,
    Nat.succ_mul]
  constructor
  · rintro ⟨hpresc, hle⟩
    rw [Nat.le_antisymm hcount hle] at hcounted
    omega
  · intro hk
    have hmul := Nat.mul_le_mul_right (prescaler.toNat + 1) hcount
    refine ⟨by omega, Nat.le_of_mul_le_mul_right ?_ (Nat.succ_pos prescaler.toNat)⟩
    rw [Nat.succ_eq_add_one]
    omega

theorem next_of_ticks (h : Phase compare prescaler k s) (hc : c.Steady compare prescaler)
    (hm : s.matched c = false) (ht : s.ticks c = true) :
    (s.clock c).count.toNat = s.count.toNat + 1 ∧ s.count.toNat < compare.toNat ∧
      (s.clock c).prescCnt = prescaler := by
  have hzero := (h.ticks_iff hc).mp ht
  have hlt : s.count.toNat < compare.toNat := by
    rw [matched, ht, hc.compare_eq, Bool.true_and, decide_eq_false_iff_not, BitVec.le_def] at hm
    exact Nat.lt_of_not_le hm
  have hsucc : (s.clock c).count = s.count + 1 := by
    rw [clock_count, hm, ht]
    rfl
  refine ⟨?_, hlt, ?_⟩
  · -- The counter is below the compare value, so it cannot wrap.
    rw [hsucc]
    exact BitVec.toNat_add_of_lt (Nat.lt_of_le_of_lt hlt compare.isLt)
  · rw [clock_prescCnt, hc.en, h.armed, hc.prescaler_eq]
    simp [BitVec.toNat_eq, hzero]

theorem next_of_not_ticks (h : Phase compare prescaler k s) (hc : c.Steady compare prescaler)
    (hm : s.matched c = false) (ht : s.ticks c = false) :
    (s.clock c).count = s.count ∧ s.prescCnt.toNat = (s.clock c).prescCnt.toNat + 1 := by
  have hpos : s.prescCnt.toNat ≠ 0 := fun h0 => by
    rw [(h.ticks_iff hc).mpr h0] at ht
    exact Bool.noConfusion ht
  have hne : s.prescCnt ≠ 0 := fun h0 => hpos (by rw [h0]; rfl)
  have hdown : (s.clock c).prescCnt.toNat = s.prescCnt.toNat - 1 := by
    rw [clock_prescCnt, hc.en, h.armed, if_neg (by simp), if_neg (by simp), if_neg hne]
    exact BitVec.toNat_sub_of_le (Nat.one_le_iff_ne_zero.mpr hpos)
  constructor
  · rw [clock_count, hm, ht, hc.rst, hc.loadWe]
    rfl
  · omega

/-- **Any other cycle leads to the next phase.** -/
theorem next (h : Phase compare prescaler k s) (hc : c.Steady compare prescaler)
    (hm : s.matched c = false) : Phase compare prescaler (k + 1) (s.clock c) := by
  have hcounted := h.counted
  have hcount := h.count_le
  have hpresc := h.prescCnt_le
  have harmed : (s.clock c).oneShotDone = false := by
    rw [clock_oneShotDone, hm, h.armed]
    rfl
  cases ht : s.ticks c with
  | true =>
    obtain ⟨hnext, hlt, hagain⟩ := h.next_of_ticks hc hm ht
    have hzero := (h.ticks_iff hc).mp ht
    refine ⟨harmed, ?_, ?_, ?_⟩
    · rw [hnext]
      exact hlt
    · rw [hagain]
    · rw [hagain, hnext, Nat.succ_mul]
      omega
  | false =>
    obtain ⟨hsame, hdown⟩ := h.next_of_not_ticks hc hm ht
    refine ⟨harmed, ?_, ?_, ?_⟩
    · rw [hsame]
      exact hcount
    · omega
    · rw [hsame]
      omega

/-- **A stretch without a match** moves on by one phase in each cycle. -/
theorem run_counts (h : Phase compare prescaler k s) {cs : List TimerCtrl}
    (hsteady : ∀ c ∈ cs, c.Steady compare prescaler)
    (hnone : Along clock (fun s c => s.matched c = false) s cs) :
    Phase compare prescaler (k + cs.length) (run clock s cs) ∧
      log clock (fun s _ => [s.count.toNat]) s cs =
        (List.range' k cs.length).map (· / (prescaler.toNat + 1)) := by
  induction cs generalizing s k with
  | nil => exact ⟨h, rfl⟩
  | cons c cs ih =>
    have hphase := h.next (hsteady c List.mem_cons_self) hnone.1
    obtain ⟨hrun, hlog⟩ := ih hphase (fun c' hc' => hsteady c' (List.mem_cons_of_mem c hc')) hnone.2
    constructor
    · rw [List.length_cons, Nat.add_comm cs.length, ← Nat.add_assoc]
      exact hrun
    · rw [log_cons, hlog, List.length_cons, List.range'_succ, List.map_cons, h.count_eq]
      rfl

end Phase

/-! ## Two matches -/

theorem count_div_range {d : ℕ} (hd : 0 < d) (n v : ℕ) :
    ((List.range (n * d)).map (· / d)).count v = if v < n then d else 0 := by
  induction n with
  | zero => simp
  | succ n ih =>
    have hlast : (List.range d).map ((· / d) ∘ (n * d + ·)) = List.replicate d n := by
      refine List.eq_replicate_iff.mpr ⟨by simp, fun x hx => ?_⟩
      obtain ⟨i, hi, rfl⟩ := List.mem_map.mp hx
      simp only [Function.comp_apply]
      rw [Nat.mul_comm, Nat.mul_add_div hd, Nat.div_eq_of_lt (List.mem_range.mp hi), Nat.add_zero]
    rw [Nat.succ_mul, List.range_add, List.map_append, List.map_map, List.count_append, ih, hlast,
      List.count_replicate]
    simp only [beq_iff_eq]
    split_ifs <;> omega

/-- **The period.** In a steady stretch, two matches with none between them are
`(compare + 1) * (prescaler + 1)` cycles apart, and from the cycle behind the first one to that of the
second one the counter takes each value up to `compare` in `prescaler + 1` cycles. -/
theorem period {a b : TimerCtrl} {ms : List TimerCtrl}
    (hsteady : ∀ c ∈ a :: ms ++ [b], c.Steady compare prescaler) (ha : s.matched a = true)
    (hnone : Along clock (fun s c => s.matched c = false) (s.clock a) ms)
    (hb : (run clock s (a :: ms)).matched b = true) :
    (a :: ms).length = (compare.toNat + 1) * (prescaler.toNat + 1) ∧
      ∀ v ≤ compare.toNat,
        (log clock (fun s _ => [s.count.toNat]) (s.clock a) (ms ++ [b])).count v =
          prescaler.toNat + 1 := by
  have hfirst := phase_zero (hsteady a (by simp)) ha
  obtain ⟨hlast, hlog⟩ := hfirst.run_counts (fun c hc => hsteady c (by simp [hc])) hnone
  have hlength := (hlast.matched_iff (hsteady b (by simp))).mp hb
  have hcounts : log clock (fun s _ => [s.count.toNat]) (s.clock a) (ms ++ [b]) =
      (List.range (ms.length + 1)).map (· / (prescaler.toNat + 1)) := by
    rw [log_append, hlog, log_cons, log_nil, hlast.count_eq, List.range_eq_range', List.range'_concat,
      List.map_append]
    simp
  refine ⟨by rw [List.length_cons, ← hlength, Nat.zero_add], fun v hv => ?_⟩
  rw [Nat.zero_add] at hlength
  rw [hcounts, hlength, count_div_range (Nat.succ_pos _), if_pos (Nat.lt_succ_of_le hv)]

/-- Four cycles for the compare value 1 and the divisor 1. -/
theorem period_four :
    let c := { TimerCtrl.reset with en := true, compare := 1, prescaler := 1 }
    [c, c, c, c].length = ((1 : BitVec 32).toNat + 1) * ((1 : BitVec 16).toNat + 1) ∧
      ∀ v ≤ (1 : BitVec 32).toNat,
        (log clock (fun s _ => [s.count.toNat]) ((run clock reset [c, c]).clock c)
          ([c, c, c] ++ [c])).count v = (1 : BitVec 16).toNat + 1 := by
  intro c
  have hc : c.Steady 1 1 := ⟨rfl, rfl, rfl, rfl, rfl, rfl⟩
  have hsteady : ∀ c' ∈ c :: [c, c, c] ++ [c], c'.Steady 1 1 := by simpa using hc
  refine period (s := run clock reset [c, c]) hsteady ?_ ?_ ?_
  · decide
  · decide
  · decide

end TimerCore

end PacketBuffering
