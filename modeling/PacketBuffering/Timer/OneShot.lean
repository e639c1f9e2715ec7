import PacketBuffering.Lib.Sticky
import PacketBuffering.Timer.Preload

/-!
# One-shot mode and the match flag

* `TimerCore.rearms`: the cycles that arm the one-shot mode again; `TimerCore.halted_run`: until then a
  timer that has fired stands still.
* **`TimerCore.one_shot`**: it fires once per arming, in every run; and the match flag shows the matches
  behind which no clear came.
-/

namespace PacketBuffering

namespace TimerCore

variable {s : TimerCore} {c : TimerCtrl}

/-- A reset, a load or a rising enable. -/
def rearms (s : TimerCore) (c : TimerCtrl) : Bool := s.enRises c || c.rst || c.loadWe

theorem enRises_run (cs : List TimerCtrl) (p c : TimerCtrl) :
    (run clock reset (cs ++ [p])).enRises c = (c.en && !p.en) := by
  rw [run_snoc, enRises, clock_ctrlEnPrev]

/-- **A halted timer** has fired and stands at the count `n`. -/
structure Halted (n : BitVec 32) (s : TimerCore) : Prop where
  done : s.oneShotDone = true
  count : s.count = n
  running : s.running = false

theorem not_matched_of_done (h : s.oneShotDone = true) (c : TimerCtrl) : s.matched c = false := by
  simp [matched, ticks, h]

theorem halted_of_matched (hmode : c.reload = false) (h : s.matched c = true) :
    Halted (s.clock c).count (s.clock c) where
  done := by rw [clock_oneShotDone, h, hmode]; rfl
  count := rfl
  running := by rw [clock_running, h, hmode]; simp

theorem Halted.step {n : BitVec 32} (h : Halted n s) (hc : s.rearms c = false) :
    Halted n (s.clock c) := by
  have hm := not_matched_of_done h.done c
  have hticks : s.ticks c = false := by simp [ticks, h.done]
  simp only [rearms, Bool.or_eq_false_iff] at hc
  obtain ⟨⟨hen, hrst⟩, hload⟩ := hc
  refine ⟨?_, ?_, ?_⟩
  · rw [clock_oneShotDone, hm, h.done, hen, hrst, hload]
    rfl
  · rw [clock_count, hm, hticks, hrst, hload]
    simpa using h.count
  · rw [clock_running, h.done]
    simp

theorem halted_run {n : BitVec 32} (h : Halted n s) {cs : List TimerCtrl}
    (hcs : Along clock (fun s c => s.rearms c = false) s cs) : Halted n (run clock s cs) :=
  hcs.invariant (Halted n) (fun _ _ hs hc => hs.step hc) h

theorem rearmed_between {a b : TimerCtrl} {ms : List TimerCtrl} (hmode : a.reload = false)
    (ha : s.matched a = true) (hb : (run clock s (a :: ms)).matched b = true) :
    ∃ ks k ls, ms = ks ++ k :: ls ∧ (run clock s (a :: ks)).rearms k = true := by
  by_contra hnone
  push Not at hnone
  have hcs : Along clock (fun s c => s.rearms c = false) (s.clock a) ms := by
    refine along_iff_forall_isPrefix.mpr fun ks k hk => ?_
    obtain ⟨ls, rfl⟩ := hk
    exact Bool.eq_false_iff.mpr (hnone ks k ls (by simp))
  have hdone := (halted_run (halted_of_matched hmode ha) hcs).done
  rw [run_cons, not_matched_of_done hdone] at hb
  exact Bool.false_ne_true hb

/-- **One-shot mode and the match flag.** Behind a match in the one-shot mode the next one comes only
after an arming, and until then the counter and `running` stand still, where the match itself leaves
the counter alone. In either mode the flag is set iff a match has not been cleared. The pulse comes with
each match, and the enable rises against the cycle before. -/
theorem one_shot :
    (∀ as a ms, a.reload = false → (run clock reset as).matched a = true →
      (∀ b, (run clock reset (as ++ a :: ms)).matched b = true →
        ∃ ks k ls, ms = ks ++ k :: ls ∧ (run clock reset (as ++ a :: ks)).rearms k = true) ∧
      (Along clock (fun s c => s.rearms c = false) (run clock reset (as ++ [a])) ms →
        (run clock reset (as ++ a :: ms)).count = (run clock reset (as ++ [a])).count ∧
        (run clock reset (as ++ a :: ms)).running = false) ∧
      (a.rst = false → a.loadWe = false →
        (run clock reset (as ++ [a])).count = (run clock reset as).count)) ∧
    (∀ cs, (run clock reset cs).matchFlag = true ↔
      Pending clock matched TimerCtrl.clearMatch reset cs) ∧
    (∀ cs c, (run clock reset (cs ++ [c])).matchPulse = (run clock reset cs).matched c) ∧
    ∀ cs p c, (run clock reset (cs ++ [p])).enRises c = (c.en && !p.en) := by
  refine ⟨fun as a ms hmode ha => ⟨fun b hb => ?_, fun hms => ?_, fun hrst hload => ?_⟩, fun cs => ?_,
    fun cs c => ?_, enRises_run⟩
  · rw [run_append] at hb
    obtain ⟨ks, k, ls, hk, hrearms⟩ := rearmed_between hmode ha hb
    exact ⟨ks, k, ls, hk, by rwa [run_append]⟩
  · rw [run_snoc] at hms
    have h := halted_run (halted_of_matched hmode ha) hms
    rw [run_append, run_cons, run_snoc]
    exact ⟨h.count, h.running⟩
  · rw [run_snoc, clock_count, ha, hmode, hrst, hload]
    simp
  · exact run_sticky matchFlag clock_matchFlag rfl cs
  · rw [run_snoc]
    exact clock_matchPulse _ c

/-- A one-shot timer that fires at the count 2, and stands still. -/
theorem one_shot_halts :
    let c : TimerCtrl := { TimerCtrl.reset with en := true, reload := false, compare := 2 }
    let s := run clock reset ([c, c] ++ c :: [c, c, c])
    (run clock reset [c, c]).matched c = true ∧ s.count = 2 ∧ s.running = false ∧
      s.matchFlag = true := by
  intro c s
  have hmatched : (run clock reset [c, c]).matched c = true := by decide
  have hhalted := (one_shot.1 [c, c] c [c, c, c] rfl hmatched).2.1 (by decide)
  refine ⟨hmatched, hhalted.1.trans (by decide), hhalted.2, ?_⟩
  exact (one_shot.2.1 _).mpr ⟨[c, c], c, [c, c, c], rfl, hmatched, by decide⟩

end TimerCore

end PacketBuffering
