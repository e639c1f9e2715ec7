import PacketBuffering.Lib.Run

/-!
# Sticky flags

A flag that an event sets and a command clears, where the event has priority: a clear in the very step
of an event does not lose it.

* `Pending`: some event of the run is followed by no clear.
* **`run_sticky`**: the flag after a run is set iff an event is pending.
-/

namespace PacketBuffering

section Sticky

variable {σ ι : Type*} (step : σ → ι → σ) (set : σ → ι → Bool) (clear : ι → Bool)

/-- Some event of the run came at or after the last clear. -/
def Pending (s : σ) (es : List ι) : Prop :=
  ∃ as e bs, es = as ++ e :: bs ∧ set (run step s as) e = true ∧ ∀ b ∈ bs, clear b = false

theorem not_pending_nil (s : σ) : ¬ Pending step set clear s [] := by
  rintro ⟨as, e, bs, h, -⟩
  exact List.append_ne_nil_of_right_ne_nil as (List.cons_ne_nil e bs) h.symm

/-- **One step.** -/
theorem pending_snoc (s : σ) (es : List ι) (e : ι) :
    Pending step set clear s (es ++ [e]) ↔
      set (run step s es) e = true ∨ Pending step set clear s es ∧ clear e = false := by
  constructor
  · rintro ⟨as, a, bs, h, hset, hbs⟩
    rcases List.eq_nil_or_concat bs with rfl | ⟨bs, b, rfl⟩
    · obtain ⟨rfl, rfl⟩ := List.append_singleton_inj.mp h
      exact .inl hset
    · have h' : es ++ [e] = (as ++ a :: bs) ++ [b] := by simpa using h
      obtain ⟨rfl, rfl⟩ := List.append_singleton_inj.mp h'
      refine .inr ⟨⟨as, a, bs, rfl, hset, fun b hb => hbs b ?_⟩, hbs e ?_⟩ <;> simp [*]
  · rintro (hset | ⟨⟨as, a, bs, rfl, hset, hbs⟩, he⟩)
    · exact ⟨es, e, [], rfl, hset, by simp⟩
    · refine ⟨as, a, bs ++ [e], by simp, hset, fun b hb => ?_⟩
      rcases List.mem_append.mp hb with hb | hb
      · exact hbs b hb
      · rwa [List.mem_singleton.mp hb]

variable {step set clear}

/-- **A sticky flag.** -/
theorem run_sticky (flag : σ → Bool)
    (h : ∀ s e, flag (step s e) = (set s e || flag s && !clear e)) {s : σ} (h₀ : flag s = false)
    (es : List ι) : flag (run step s es) = true ↔ Pending step set clear s es := by
  induction es using List.reverseRecOn with
  | nil => simp [h₀, not_pending_nil]
  | append_singleton es e ih =>
    rw [pending_snoc, run_snoc, h, Bool.or_eq_true, Bool.and_eq_true, Bool.not_eq_true', ih]

end Sticky

end PacketBuffering
