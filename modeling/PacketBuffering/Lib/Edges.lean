import PacketBuffering.Lib.Run

/-!
# Rising edges behind a delay

A signal passes through a line of registers; an edge detector compares the last two of them, and a
latch keeps what it finds.

* `rises`: a bit string contains a rising edge.
* **`Along.latch_eq`**: the latch after a run, from the line and the signal at the start and during
  the run.
-/

namespace PacketBuffering

/-- A rising edge somewhere in the bits, oldest first. -/
def rises : List Bool → Bool
  | a :: b :: l => (!a && b) || rises (b :: l)
  | _ => false

theorem rises_cons_cons (a b : Bool) (l : List Bool) :
    rises (a :: b :: l) = ((!a && b) || rises (b :: l)) := rfl

theorem rises_of_isPrefix {l m : List Bool} (h : l <+: m) (hl : rises l = true) : rises m = true := by
  induction l generalizing m with
  | nil => cases hl
  | cons a l ih =>
    cases l with
    | nil => cases hl
    | cons b l =>
      obtain ⟨t, rfl⟩ := h
      rw [List.cons_append, List.cons_append, rises_cons_cons, Bool.or_eq_true]
      rw [rises_cons_cons, Bool.or_eq_true] at hl
      refine hl.imp_right fun hrest => ?_
      exact ih (List.prefix_append (b :: l) t) hrest

theorem rises_append_cons (l : List Bool) (x : Bool) (m : List Bool) :
    rises (l ++ x :: m) = (rises (l ++ [x]) || rises (x :: m)) := by
  induction l with
  | nil => rfl
  | cons a l ih =>
    cases l with
    | nil => simp [rises]
    | cons b l =>
      simp only [List.cons_append, rises_cons_cons] at ih ⊢
      rw [ih, Bool.or_assoc]

theorem rises_append_edge (l : List Bool) : rises (l ++ [false, true]) = true := by
  rw [rises_append_cons, Bool.or_eq_true]
  exact .inr rfl

section Run

variable {σ ι : Type*} {step : σ → ι → σ} {ok : σ → ι → Prop} {line : σ → List Bool}
  {signal latch : σ → Bool}

theorem length_log_signal {ο : Type*} {signal : σ → ο} (s : σ) (es : List ι) :
    (log step (fun s _ => [signal s]) s es).length = es.length := by
  induction es generalizing s with
  | nil => rfl
  | cons e es ih => rw [log_cons, List.length_append, ih, List.length_singleton, List.length_cons,
      Nat.add_comm]

/-- **The latch of a run** is set iff it was, or an edge has come to the end of the line. -/
theorem Along.latch_eq (Inv : σ → Prop) (keep : ∀ s e, Inv s → ok s e → Inv (step s e))
    (hlen : ∀ s, 2 ≤ (line s).length)
    (hline : ∀ s e, Inv s → ok s e → line (step s e) = (line s).tail ++ [signal s])
    (hlatch : ∀ s e, Inv s → ok s e → latch (step s e) = (latch s || rises ((line s).take 2)))
    {s : σ} (h₀ : Inv s) {es : List ι} (h : Along step ok s es) :
    latch (run step s es) =
      (latch s || rises ((line s ++ log step (fun s _ => [signal s]) s es).take (es.length + 1))) := by
  induction es generalizing s with
  | nil =>
    obtain ⟨a, l, hl⟩ : ∃ a l, line s = a :: l := List.exists_cons_of_length_pos (by
      have := hlen s
      omega)
    simp [hl, rises]
  | cons e es ih =>
    obtain ⟨a, b, l, hl⟩ : ∃ a b l, line s = a :: b :: l := by
      have := hlen s
      match hl : line s with
      | a :: b :: l => exact ⟨a, b, l, rfl⟩
      | [] => simp [hl] at this
      | [_] => simp [hl] at this
    have hnext : line (step s e) ++ log step (fun s _ => [signal s]) (step s e) es =
        b :: (l ++ signal s :: log step (fun s _ => [signal s]) (step s e) es) := by
      rw [hline s e h₀ h.1, hl]
      simp
    rw [run_cons, ih (keep s e h₀ h.1) h.2, hlatch s e h₀ h.1, hnext, hl, log_cons, List.length_cons]
    simp [rises_cons_cons, Bool.or_assoc, rises]

end Run

end PacketBuffering
