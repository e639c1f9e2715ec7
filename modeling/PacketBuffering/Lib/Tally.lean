import PacketBuffering.Lib.Run

/-!
# Counters with a clear

A counter counts the events of one kind since it was cleared last. When an event and a clear fall into
the same step, either order may be meant, and the event may be counted or not.

* `tally`: what the counter may show after a history; `Counted`: it shows one of these values.
* `counted_step_iff`: one step of a counter in which the count has priority over the clear.
* **`counted_iff`**: the runs in which such a counter is right in every state.
-/

namespace PacketBuffering

/-! ## Histories -/

/-- What a counter may show after a history of pairs (cleared, counted): the events counted since the
last clear, where one in the very step of that clear may be counted or not. -/
def tally (l : List (Bool × Bool)) : List ℕ :=
  let n := (l.rtakeWhile fun t => !t.1).countP Prod.snd
  if (l.rdropWhile fun t => !t.1).getLast? = some (true, true) then [n, n + 1] else [n]

@[simp] theorem tally_nil : tally [] = [0] := rfl

theorem tally_snoc_of_clear (l : List (Bool × Bool)) (on : Bool) :
    tally (l ++ [(true, on)]) = if on then [0, 1] else [0] := by
  unfold tally
  rw [List.rtakeWhile_concat_neg _ _ _ (by simp), List.rdropWhile_concat_neg _ _ _ (by simp),
    List.getLast?_concat]
  cases on <;> rfl

theorem tally_snoc_of_not_clear (l : List (Bool × Bool)) (on : Bool) :
    tally (l ++ [(false, on)]) = (tally l).map (· + on.toNat) := by
  unfold tally
  rw [List.rtakeWhile_concat_pos _ _ _ (by simp), List.rdropWhile_concat_pos _ _ _ (by simp),
    List.countP_append]
  cases on with
  | false => split_ifs <;> simp
  | true => split_ifs <;> simp

variable {w : ℕ} {l : List (Bool × Bool)} {c : BitVec w}

/-- The counter `c` shows, up to its width, what the history allows. -/
def Counted (l : List (Bool × Bool)) (c : BitVec w) : Prop := ∃ n ∈ tally l, c = BitVec.ofNat w n

instance : Decidable (Counted l c) := inferInstanceAs (Decidable (∃ n ∈ tally l, _))

theorem counted_snoc_of_clear (on : Bool) :
    Counted (l ++ [(true, on)]) c ↔ c = 0 ∨ on = true ∧ c = 1 := by
  unfold Counted
  rw [tally_snoc_of_clear]
  cases on <;> simp

theorem Counted.snoc (h : Counted l c) (on : Bool) :
    Counted (l ++ [(false, on)]) (if on then c + 1 else c) := by
  obtain ⟨n, hn, rfl⟩ := h
  refine ⟨n + on.toNat, ?_, ?_⟩
  · rw [tally_snoc_of_not_clear]
    exact List.mem_map_of_mem hn
  · cases on with
    | false => simp
    | true => simp [BitVec.ofNat_add]

/-! ## Runs -/

section Run

variable {σ ι : Type*} {step : σ → ι → σ} {count : σ → BitVec w} {clear on wipe : σ → ι → Bool}

/-- A clear is harmless: it reaches the counter and nothing is counted, or the counter comes to zero
or one all the same. -/
def Harmless (count : σ → BitVec w) (clear on wipe : σ → ι → Bool) (s : σ) (e : ι) : Prop :=
  clear s e = true →
    if on s e then count s + 1 = 0 ∨ count s = 0 else wipe s e = true ∨ count s = 0

instance (s : σ) (e : ι) : Decidable (Harmless count clear on wipe s e) :=
  inferInstanceAs (Decidable (_ → ite _ _ _))

/-- **One step.** The count has priority over the clear, and some clears do not reach the counter. -/
theorem counted_step_iff (hwipe : ∀ s e, wipe s e = true → clear s e = true) {s : σ} {e : ι}
    (hnext : count (step s e) = if on s e then count s + 1 else if wipe s e then 0 else count s)
    (h : Counted l (count s)) :
    Counted (l ++ [(clear s e, on s e)]) (count (step s e)) ↔ Harmless count clear on wipe s e := by
  unfold Harmless
  rw [hnext]
  cases hclear : clear s e with
  | false =>
    have hw : wipe s e = false := by
      by_contra hw
      rw [Bool.not_eq_false] at hw
      exact absurd (hwipe s e hw) (by simp [hclear])
    rw [hw]
    simpa using h.snoc (on s e)
  | true =>
    rw [counted_snoc_of_clear]
    cases on s e with
    | false => cases wipe s e <;> simp
    | true => simp

variable (step) in
/-- **A counter with a race** is right in every state of a run iff every clear of the run is
harmless. -/
theorem counted_iff (hwipe : ∀ s e, wipe s e = true → clear s e = true)
    (hnext : ∀ s e, count (step s e) =
      if on s e then count s + 1 else if wipe s e then 0 else count s)
    {s : σ} (h₀ : count s = 0) (es : List ι) :
    (∀ es', es' <+: es → Counted (log step (fun s e => [(clear s e, on s e)]) s es')
        (count (run step s es'))) ↔
      Along step (Harmless count clear on wipe) s es := by
  have hsnoc : ∀ es' e, Counted (log step (fun s e => [(clear s e, on s e)]) s es')
      (count (run step s es')) →
      (Counted (log step (fun s e => [(clear s e, on s e)]) s (es' ++ [e]))
          (count (run step s (es' ++ [e]))) ↔
        Harmless count clear on wipe (run step s es') e) := by
    intro es' e hold
    rw [log_snoc, run_snoc]
    exact counted_step_iff hwipe (hnext _ e) hold
  constructor
  · intro hall
    refine along_iff_forall_isPrefix.mpr fun es' e hp => ?_
    exact (hsnoc es' e (hall es' ((List.prefix_append _ _).trans hp))).mp (hall _ hp)
  · intro hok es' hp
    refine Along.snocInduction (P := fun es' => Counted _ (count (run step s es')))
      ⟨0, by simp, by simpa using h₀⟩ ?_ es' (hok.of_isPrefix hp)
    intro es e _ ih he
    exact (hsnoc es e ih).mpr he

end Run

end PacketBuffering
