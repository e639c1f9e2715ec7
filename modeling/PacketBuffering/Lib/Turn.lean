import Mathlib.Data.List.Nodup
import Mathlib.Data.List.NodupEquivFin
import Mathlib.Data.Fintype.Card
import Mathlib.Tactic.SplitIfs

/-!
# Taking turns

`n` parties in a circle, served from a place `m` on in one of the two directions.

* `turn`: how many parties come before `q`; `turn_lt`, `turn_injOn`.
* `after`: the place from which one goes on after `q`; `turn_after`, `turn_after_self`: the parties
  behind `q` come closer, and `q` itself goes to the end.
* `Rotation`: a sequence of parties, each served in its turn while `p` waits;
  **`Rotation.nodup`**, **`Rotation.length_lt`**: none of them is served twice, and so there are at
  most `n - 1`.
-/

namespace PacketBuffering

/-- How many parties come before `q` when one starts at `m`: the parties `m`, `m + 1`, … going up, the
parties `m - 1`, `m - 2`, … going down. -/
def turn (up : Bool) (n m q : ℕ) : ℕ :=
  if up then if m ≤ q then q - m else n + q - m
  else if q < m then m - 1 - q else n + m - 1 - q

/-- Where to go on after `q`. -/
def after (up : Bool) (q : ℕ) : ℕ := if up then q + 1 else q

variable {up : Bool} {n m p q : ℕ}

theorem turn_lt (hm : m ≤ n) (hq : q < n) : turn up n m q < n := by
  unfold turn
  split_ifs <;> omega

theorem after_le (hq : q < n) : after up q ≤ n := by
  unfold after
  split_ifs <;> omega

theorem turn_injOn (hm : m ≤ n) (hp : p < n) (hq : q < n) (h : turn up n m p = turn up n m q) :
    p = q := by
  unfold turn at h
  split_ifs at h <;> omega

theorem turn_after (hm : m ≤ n) (hp : p < n) (hq : q < n) (h : turn up n m q < turn up n m p) :
    turn up n (after up q) p + turn up n m q + 1 = turn up n m p := by
  unfold turn after at *
  split_ifs at * <;> omega

theorem turn_after_self (hq : q < n) : turn up n (after up q) q + 1 = n := by
  unfold turn after
  split_ifs <;> omega

/-- The parties `qs` are served one after the other, from `m` on, each before `p`. -/
inductive Rotation (up : Bool) (n p : ℕ) : ℕ → List ℕ → Prop
  | nil {m : ℕ} : Rotation up n p m []
  | cons {m q : ℕ} {qs : List ℕ} (hq : q < n) (hturn : turn up n m q < turn up n m p)
      (hqs : Rotation up n p (after up q) qs) : Rotation up n p m (q :: qs)

namespace Rotation

variable {qs : List ℕ}

theorem turn_lt_of_mem (hm : m ≤ n) (hp : p < n) (h : Rotation up n p m qs) :
    ∀ q ∈ qs, q < n ∧ turn up n m q < turn up n m p := by
  induction h with
  | nil => intro q hq; cases hq
  | @cons m q qs hq hturn hqs ih =>
    intro q' hq'
    rcases List.mem_cons.mp hq' with rfl | hmem
    · exact ⟨hq, hturn⟩
    · obtain ⟨hq'n, hlt⟩ := ih (after_le hq) q' hmem
      refine ⟨hq'n, ?_⟩
      have hp' := turn_after hm hp hq hturn
      -- otherwise `q'` would have had to be behind `p` already
      by_contra hge
      rcases Nat.lt_or_ge (turn up n m q) (turn up n m q') with hlt' | hge'
      · have := turn_after hm hq'n hq hlt'
        omega
      · omega

/-- **No one is served twice.** -/
theorem nodup (hp : p < n) (h : Rotation up n p m qs) : qs.Nodup := by
  induction h with
  | nil => exact List.nodup_nil
  | @cons m q qs hq hturn hqs ih =>
    refine List.nodup_cons.mpr ⟨fun hmem => ?_, ih⟩
    have hlt := (hqs.turn_lt_of_mem (after_le hq) hp q hmem).2
    have hself : turn up n (after up q) q + 1 = n := turn_after_self hq
    have : turn up n (after up q) p < n := turn_lt (after_le hq) hp
    omega

theorem not_mem (hm : m ≤ n) (hp : p < n) (h : Rotation up n p m qs) : p ∉ qs := by
  intro hmem
  exact Nat.lt_irrefl _ (h.turn_lt_of_mem hm hp p hmem).2

/-- **At most `n - 1` are served.** -/
theorem length_lt (hm : m ≤ n) (hp : p < n) (h : Rotation up n p m qs) : qs.length < n := by
  have hnodup : (p :: qs).Nodup := List.nodup_cons.mpr ⟨h.not_mem hm hp, h.nodup hp⟩
  have hsub : (p :: qs) ⊆ List.range n := by
    intro q hq
    rcases List.mem_cons.mp hq with rfl | hq
    · exact List.mem_range.mpr hp
    · exact List.mem_range.mpr (h.turn_lt_of_mem hm hp q hq).1
  have := (hnodup.subperm hsub).length_le
  rw [List.length_cons, List.length_range] at this
  exact this

end Rotation

end PacketBuffering
