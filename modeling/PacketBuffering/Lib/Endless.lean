import PacketBuffering.Lib.Run

/-!
# Endless runs

What a machine does under an endless sequence of events, for statements that something happens some
time.

* `firsts`: the beginnings of the sequence.
* `LeadsTo`: a condition that is followed by another one; `LeadsTo.of_step`, `LeadsTo.of_event`: by the
  next event, or by an event that is sure to come while the condition lasts.
-/

namespace PacketBuffering

variable {σ ι : Type*} {step : σ → ι → σ}

/-- The first `n` events. -/
def firsts (f : ℕ → ι) (n : ℕ) : List ι := (List.range n).map f

@[simp] theorem firsts_zero (f : ℕ → ι) : firsts f 0 = [] := rfl

theorem firsts_succ (f : ℕ → ι) (n : ℕ) : firsts f (n + 1) = firsts f n ++ [f n] := by
  rw [firsts, List.range_succ, List.map_append, List.map_singleton, firsts]

theorem run_firsts_succ (s : σ) (f : ℕ → ι) (n : ℕ) :
    run step s (firsts f (n + 1)) = step (run step s (firsts f n)) (f n) := by
  rw [firsts_succ, run_snoc]

variable (step) in
/-- Whenever `P` holds, `Q` holds some time later. -/
def LeadsTo (s : σ) (f : ℕ → ι) (P Q : σ → Prop) : Prop :=
  ∀ n, P (run step s (firsts f n)) → ∃ m, n ≤ m ∧ Q (run step s (firsts f m))

namespace LeadsTo

variable {s : σ} {f : ℕ → ι} {P Q T : σ → Prop}

theorem trans (h : LeadsTo step s f P Q) (h' : LeadsTo step s f Q T) : LeadsTo step s f P T := by
  intro n hn
  obtain ⟨m, hnm, hm⟩ := h n hn
  obtain ⟨l, hml, hl⟩ := h' m hm
  exact ⟨l, Nat.le_trans hnm hml, hl⟩

theorem of_step (next : ∀ t e, P t → Q (step t e)) : LeadsTo step s f P Q := by
  intro n hn
  refine ⟨n + 1, n.le_succ, ?_⟩
  rw [run_firsts_succ]
  exact next _ _ hn

/-- **Waiting for an event** that comes some time, while the condition lasts. -/
theorem of_event {A : ι → Prop} (last : ∀ t e, P t → ¬ A e → P (step t e))
    (next : ∀ t e, P t → A e → Q (step t e))
    (comes : ∀ n, P (run step s (firsts f n)) → ∃ m, n ≤ m ∧ A (f m)) :
    LeadsTo step s f P Q := by
  intro n hn
  obtain ⟨m, hnm, hm⟩ := comes n hn
  -- Induction on the time that is left until the event is known to come.
  obtain ⟨k, rfl⟩ := Nat.exists_eq_add_of_le hnm
  clear hnm
  induction k generalizing n with
  | zero =>
    refine ⟨n + 1, n.le_succ, ?_⟩
    rw [run_firsts_succ]
    exact next _ _ hn hm
  | succ k ih =>
    by_cases he : A (f n)
    · refine ⟨n + 1, n.le_succ, ?_⟩
      rw [run_firsts_succ]
      exact next _ _ hn he
    · have hlast : P (run step s (firsts f (n + 1))) := by
        rw [run_firsts_succ]
        exact last _ _ hn he
      obtain ⟨l, hnl, hl⟩ := ih (n + 1) hlast (by rwa [Nat.add_right_comm, Nat.add_assoc])
      exact ⟨l, Nat.le_trans n.le_succ hnl, hl⟩

end LeadsTo

end PacketBuffering
