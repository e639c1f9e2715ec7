import Mathlib.Logic.Function.Iterate
import Mathlib.Tactic.Ring

/-!
# Addresses that wrap

Positions in a region of `m` steps of size `s` at `base`: behind the last step comes the first.

* `wrapNext`: the position behind one; `wrapNext_iterate`: the position after some steps.
* `wrapNextMod`: the same with sums that are cut off at `M`; it differs where the region ends at `M`.
* **`wrapNextMod_iterate_iff`**: when a round through the region is not disturbed by that.
-/

namespace PacketBuffering

/-- The position behind `x` in the region of length `n` at `base`. -/
def wrapNext (base n s x : ℕ) : ℕ := if base + n ≤ x + s then base else x + s

/-- The same, the sums taken modulo `M`. -/
def wrapNextMod (M base n s x : ℕ) : ℕ :=
  if (base + n) % M ≤ (x + s) % M then base else (x + s) % M

variable {M base m s q : ℕ}

theorem wrapNext_step (hs : 0 < s) (hq : q < m) :
    wrapNext base (m * s) s (base + q * s) = base + (q + 1) % m * s := by
  have hsum : base + q * s + s = base + (q + 1) * s := by ring
  rw [wrapNext, hsum]
  obtain hlt | rfl : q + 1 < m ∨ m = q + 1 := by omega
  · have : (q + 1) * s < m * s := Nat.mul_lt_mul_of_pos_right hlt hs
    rw [if_neg (by omega), Nat.mod_eq_of_lt hlt]
  · rw [if_pos le_rfl, Nat.mod_self, Nat.zero_mul, Nat.add_zero]

theorem wrapNext_iterate (hs : 0 < s) (hq : q < m) (i : ℕ) :
    (wrapNext base (m * s) s)^[i] (base + q * s) = base + (q + i) % m * s := by
  induction i with
  | zero => rw [Function.iterate_zero_apply, Nat.add_zero, Nat.mod_eq_of_lt hq]
  | succ i ih =>
    rw [Function.iterate_succ_apply', ih, wrapNext_step hs (Nat.mod_lt _ (by omega)), Nat.mod_add_mod,
      Nat.add_assoc]

/-! ## Sums that are cut off -/

theorem wrapNextMod_of_lt (h : base + m * s < M) (hq : q < m) :
    wrapNextMod M base (m * s) s (base + q * s) = wrapNext base (m * s) s (base + q * s) := by
  have hle : (q + 1) * s ≤ m * s := Nat.mul_le_mul_right s hq
  have hsum : base + q * s + s = base + (q + 1) * s := by ring
  rw [wrapNextMod, wrapNext, Nat.mod_eq_of_lt h, Nat.mod_eq_of_lt (by omega)]

theorem wrapNextMod_top (h : base + m * s = M) (x : ℕ) : wrapNextMod M base (m * s) s x = base := by
  rw [wrapNextMod, h, Nat.mod_self, if_pos (Nat.zero_le _)]

theorem wrapNextMod_iterate_of_lt (hs : 0 < s) (hq : q < m) (h : base + m * s < M) (i : ℕ) :
    (wrapNextMod M base (m * s) s)^[i] (base + q * s) = base + (q + i) % m * s := by
  rw [← wrapNext_iterate hs hq]
  induction i with
  | zero => rfl
  | succ i ih =>
    rw [Function.iterate_succ_apply', Function.iterate_succ_apply', ih, wrapNext_iterate hs hq,
      wrapNextMod_of_lt h (Nat.mod_lt _ (by omega))]

theorem wrapNextMod_iterate_top (h : base + m * s = M) (x i : ℕ) :
    (wrapNextMod M base (m * s) s)^[i + 1] x = base := by
  rw [Function.iterate_succ_apply', wrapNextMod_top h]

theorem wrapNextMod_iterate_top_iff (hs : 0 < s) (h : base + m * s = M) (x i k : ℕ) :
    (wrapNextMod M base (m * s) s)^[i + 1] x = base + k * s ↔ k = 0 := by
  rw [wrapNextMod_iterate_top h]
  constructor
  · intro hk
    obtain h0 | h0 : k = 0 ∨ s = 0 := Nat.mul_eq_zero.mp (by omega)
    · exact h0
    · omega
  · rintro rfl
    rw [Nat.zero_mul, Nat.add_zero]

/-- **A round through the region** visits the right positions exactly if the region ends below `M`, or
has no second step to go wrong, or steps from its last position at once. -/
theorem wrapNextMod_iterate_iff (hs : 0 < s) (hq : q < m) (hle : base + m * s ≤ M) :
    (∀ i < m, (wrapNextMod M base (m * s) s)^[i] (base + q * s) = base + (q + i) % m * s) ↔
      base + m * s < M ∨ m = 1 ∨ m = 2 ∧ q = 1 := by
  obtain hlt | heq := Nat.lt_or_eq_of_le hle
  · exact iff_of_true (fun i _ => wrapNextMod_iterate_of_lt hs hq hlt i) (.inl hlt)
  have hstep (i : ℕ) : (wrapNextMod M base (m * s) s)^[i + 1] (base + q * s) =
      base + (q + (i + 1)) % m * s ↔ (q + (i + 1)) % m = 0 :=
    wrapNextMod_iterate_top_iff hs heq _ _ _
  constructor
  · intro h
    right
    by_cases hm : m = 1
    · exact .inl hm
    have h1 : (q + 1) % m = 0 := (hstep 0).mp (h 1 (by omega))
    -- The first step leaves the last position, the second one would then have to do so again.
    have hlast : q + 1 = m := by
      by_contra hne
      rw [Nat.mod_eq_of_lt (by omega)] at h1
      omega
    refine .inr ?_
    by_contra hne
    have h2 : (q + 2) % m = 0 := (hstep 1).mp (h 2 (by omega))
    rw [show q + 2 = 1 + m by omega, Nat.add_mod_right, Nat.mod_eq_of_lt (by omega)] at h2
    omega
  · rintro (hlt | rfl | ⟨rfl, rfl⟩) i hi
    · omega
    · rw [Nat.lt_one_iff.mp hi, Function.iterate_zero_apply, Nat.add_zero, Nat.mod_eq_of_lt hq]
    · cases i with
      | zero => rw [Function.iterate_zero_apply, Nat.add_zero, Nat.mod_eq_of_lt hq]
      | succ i => exact (hstep i).mpr (by rw [show i = 0 by omega])

end PacketBuffering
