import PacketBuffering.Lib.Run

/-!
# Buffers that drain

A machine shows what it is given after a while: what it holds comes out with a step, or is kept and
comes nearer to it.

* `Drains`: such a machine; `Drains.atOnce`: one that shows all it holds in one step.
* `Drains.take_isPrefix`: the first words held come out within their rank.
* **`Drains.served`**: what enters comes out in its order, and all of it within a fixed number of steps.
* **`log_buffer_iff`**: a buffer that passes words on in some steps and loses one in all others.
-/

namespace PacketBuffering

variable {σ ι ο : Type*}

/-- **A buffer that drains**: under the invariant, what leaves and is held after a step is what was held
and enters; `rank s m` bounds the steps until the first `m` words held are out, and falls with every step
that does not let them out. -/
structure Drains (step : σ → ι → σ) (ok : σ → ι → Prop) (inp out : σ → ι → List ο) where
  Inv : σ → Prop
  held : σ → List ο
  rank : σ → ℕ → ℕ
  keep : ∀ s e, Inv s → ok s e → Inv (step s e)
  pass : ∀ s e, Inv s → ok s e → out s e ++ held (step s e) = held s ++ inp s e
  pos : ∀ s m, Inv s → 0 < m → m ≤ (held s).length → 0 < rank s m
  next : ∀ s e m, Inv s → ok s e → m ≤ (held s).length → (out s e).length < m →
    rank (step s e) (m - (out s e).length) < rank s m

namespace Drains

variable {step : σ → ι → σ} {ok : σ → ι → Prop} {inp out : σ → ι → List ο}

/-- A buffer that lets out all it holds in one step. -/
def atOnce (Inv : σ → Prop) (held : σ → List ο) (rank : σ → ℕ)
    (keep : ∀ s e, Inv s → ok s e → Inv (step s e))
    (pass : ∀ s e, Inv s → ok s e → out s e ++ held (step s e) = held s ++ inp s e)
    (empty : ∀ s, Inv s → rank s = 0 → held s = [])
    (next : ∀ s e, Inv s → ok s e → rank s ≠ 0 →
      held s <+: out s e ∨ out s e = [] ∧ rank (step s e) < rank s) : Drains step ok inp out where
  Inv := Inv
  held := held
  rank s _ := rank s
  keep := keep
  pass := pass
  pos := by
    intro s m hs hm hle
    by_contra hzero
    rw [empty s hs (by omega), List.length_nil] at hle
    omega
  next := by
    intro s e m hs hok hle hlt
    have hne : rank s ≠ 0 := by
      intro hzero
      rw [empty s hs hzero, List.length_nil] at hle
      omega
    rcases next s e hs hok hne with hout | ⟨-, hrank⟩
    · exact absurd hout.length_le (by omega)
    · exact hrank

variable (D : Drains step ok inp out) {s : σ} {es es' : List ι}

theorem take_isPrefix (hs : D.Inv s) (hes : Along step ok s es) {m : ℕ} (hm : m ≤ (D.held s).length)
    (hlen : D.rank s m ≤ es.length) : (D.held s).take m <+: log step out s es := by
  induction es generalizing s m with
  | nil =>
    obtain rfl : m = 0 := by
      by_contra hne
      have := D.pos s m hs (Nat.pos_of_ne_zero hne) hm
      rw [List.length_nil] at hlen
      omega
    exact List.nil_prefix
  | cons e es ih =>
    obtain ⟨hok, hes⟩ := hes
    have hpass := D.pass s e hs hok
    have htake : (D.held s).take m = (out s e ++ D.held (step s e)).take m := by
      rw [hpass, List.take_append_of_le_length hm]
    rw [log_cons, htake]
    rcases Nat.lt_or_ge (out s e).length m with hlt | hge
    · have hrank := D.next s e m hs hok hm hlt
      have hheld : m - (out s e).length ≤ (D.held (step s e)).length := by
        have := congrArg List.length hpass
        rw [List.length_append, List.length_append] at this
        omega
      rw [List.take_append, List.take_of_length_le hlt.le, List.prefix_append_right_inj]
      refine ih (D.keep s e hs hok) hes hheld ?_
      rw [List.length_cons] at hlen
      omega
    · rw [List.take_append_of_le_length hge]
      exact (List.take_prefix _ _).trans (List.prefix_append _ _)

/-- **What enters comes out in its order**, and all of it within as many steps as the rank is at most. -/
theorem served {n : ℕ} (hrank : ∀ s, D.Inv s → D.rank s (D.held s).length ≤ n) (hs : D.Inv s)
    (hempty : D.held s = []) (hes : Along step ok s (es ++ es')) (hlen : n ≤ es'.length) :
    log step inp s es <+: log step out s (es ++ es') ∧
      log step out s (es ++ es') <+: log step inp s (es ++ es') := by
  have hbuffer : ∀ es, Along step ok s es →
      log step out s es ++ D.held (run step s es) = log step inp s es := by
    intro es hes
    rw [hes.log_buffer D.Inv D.held D.keep D.pass hs, hempty, List.nil_append]
  refine ⟨?_, ⟨_, hbuffer _ hes⟩⟩
  -- what is held after `es` comes out during `es'`
  rw [along_append] at hes
  have hmid : D.Inv (run step s es) := hes.1.invariant D.Inv D.keep hs
  rw [log_append, ← hbuffer es hes.1, List.prefix_append_right_inj]
  have hall := D.take_isPrefix hmid hes.2 le_rfl ((hrank _ hmid).trans hlen)
  rwa [List.take_length] at hall

end Drains

/-! ## Buffers that lose words -/

section Lossy

variable {step : σ → ι → σ} {good : σ → ι → Prop} {inp out : σ → ι → List ο} (Inv : σ → Prop)
  (held : σ → List ο) (keep : ∀ s e, Inv s → Inv (step s e))
  (pass : ∀ s e, Inv s → good s e → out s e ++ held (step s e) = held s ++ inp s e)
  (loss : ∀ s e, Inv s → ¬ good s e →
    (out s e).length + (held (step s e)).length < (held s).length + (inp s e).length)
  {s : σ} (hs : Inv s) (es : List ι)
include keep pass loss hs

theorem length_log_le : (log step out s es).length + (held (run step s es)).length ≤
      (held s).length + (log step inp s es).length ∧
    ((log step out s es).length + (held (run step s es)).length =
      (held s).length + (log step inp s es).length → Along step good s es) := by
  induction es generalizing s with
  | nil => exact ⟨by simp, fun _ => trivial⟩
  | cons e es ih =>
    obtain ⟨hle, heq⟩ := ih (keep s e hs)
    rw [log_cons, log_cons, run_cons, List.length_append, List.length_append, along_cons]
    by_cases hgood : good s e
    · have hlen := congrArg List.length (pass s e hs hgood)
      rw [List.length_append, List.length_append] at hlen
      exact ⟨by omega, fun h => ⟨hgood, heq (by omega)⟩⟩
    · have hlen := loss s e hs hgood
      exact ⟨by omega, fun h => by omega⟩

/-- **Nothing is lost** and nothing changes its place if and only if every step passes on what enters. -/
theorem log_buffer_iff : log step out s es ++ held (run step s es) = held s ++ log step inp s es ↔
    Along step good s es := by
  constructor
  · intro h
    have hlen := congrArg List.length h
    rw [List.length_append, List.length_append] at hlen
    exact (length_log_le Inv held keep pass loss hs es).2 hlen
  · exact fun h => h.log_buffer Inv held (fun s e hs _ => keep s e hs) pass hs

end Lossy

end PacketBuffering
