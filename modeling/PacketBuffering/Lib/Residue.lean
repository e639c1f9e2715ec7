import Mathlib.RingTheory.AdjoinRoot
import PacketBuffering.Lib.Crc

/-!
# Words as residues of polynomials over `GF(2)`

A word of `w` bits stands for a polynomial of degree below `w`, bit `i` for the coefficient of `X ^ i`,
and for its residue modulo a polynomial `X ^ w + poly`.

* `residue`, `residue_injective`: a word is determined by its residue.
* `residue_xor`: the sum of two words; `timesX`, `residue_timesX`: a word times `X`.
* `gfMul`, **`residue_gfMul`**: multiplication by shifts is the product of residues.
-/

namespace PacketBuffering

open Polynomial

variable {w : ℕ}

theorem wordPoly_xor (a b : BitVec w) : wordPoly (a ^^^ b) = wordPoly a + wordPoly b := by
  ext k
  rw [coeff_add, coeff_wordPoly, coeff_wordPoly, coeff_wordPoly, BitVec.getLsbD_xor, bit_xor]

@[simp] theorem wordPoly_zero : wordPoly (0#w) = 0 := by
  ext k
  rw [coeff_wordPoly]
  simp

theorem degree_wordPoly_lt (a : BitVec w) : (wordPoly a).degree < w := by
  rw [degree_lt_iff_coeff_zero]
  intro k hk
  rw [coeff_wordPoly, BitVec.getLsbD_of_ge a k hk, bit_false]

theorem wordPoly_injective : Function.Injective (wordPoly : BitVec w → (ZMod 2)[X]) := by
  intro a b hab
  apply BitVec.eq_of_getLsbD_eq
  intro k hk
  have hbit : bit (a.getLsbD k) = bit (b.getLsbD k) := by
    rw [← coeff_wordPoly, ← coeff_wordPoly, hab]
  rw [Bool.eq_iff_iff, ← bit_eq_one_iff, ← bit_eq_one_iff, hbit]

/-! ## Residues -/

/-- The polynomial `X ^ w + poly`. -/
noncomputable def modulus (poly : BitVec w) : (ZMod 2)[X] := X ^ w + wordPoly poly

theorem degree_modulus (poly : BitVec w) : (modulus poly).degree = w := by
  rw [modulus, degree_add_eq_left_of_degree_lt, degree_X_pow]
  rw [degree_X_pow]
  exact degree_wordPoly_lt poly

/-- The residue of a word. -/
noncomputable def residue (poly a : BitVec w) : AdjoinRoot (modulus poly) :=
  AdjoinRoot.mk (modulus poly) (wordPoly a)

variable {poly : BitVec w}

theorem residue_xor (a b : BitVec w) : residue poly (a ^^^ b) = residue poly a + residue poly b := by
  rw [residue, wordPoly_xor, map_add]
  rfl

@[simp] theorem residue_zero : residue poly 0#w = 0 := by
  rw [residue, wordPoly_zero, map_zero]

/-- **A word is determined by its residue**: its polynomial is the one of the lowest degree. -/
theorem residue_injective : Function.Injective (residue poly) := by
  intro a b hab
  have hdvd : modulus poly ∣ wordPoly a - wordPoly b := AdjoinRoot.mk_eq_mk.mp hab
  have hdeg : (wordPoly a - wordPoly b).degree < (modulus poly).degree := by
    rw [degree_modulus]
    exact (degree_sub_le _ _).trans_lt (max_lt (degree_wordPoly_lt a) (degree_wordPoly_lt b))
  apply wordPoly_injective
  exact sub_eq_zero.mp (eq_zero_of_dvd_of_degree_lt hdvd hdeg)

theorem residue_add_self (x : AdjoinRoot (modulus poly)) : x + x = 0 := by
  obtain ⟨p, rfl⟩ := AdjoinRoot.mk_surjective x
  rw [← map_add, CharTwo.add_self_eq_zero, map_zero]

theorem residue_two : (2 : AdjoinRoot (modulus poly)) = 0 := by
  have hone := residue_add_self (1 : AdjoinRoot (modulus poly))
  rwa [one_add_one_eq_two] at hone

/-! ## Multiplication by `X` -/

/-- A word times `X`, reduced by one subtraction. -/
def timesX (poly b : BitVec w) : BitVec w := (b <<< 1) ^^^ if b.getLsbD (w - 1) then poly else 0

theorem X_mul_wordPoly (b : BitVec w) :
    X * wordPoly b = wordPoly (b <<< 1) + C (bit (b.getLsbD (w - 1))) * X ^ w := by
  ext k
  rw [coeff_add, coeff_C_mul_X_pow, coeff_wordPoly, BitVec.getLsbD_shiftLeft]
  cases k with
  | zero =>
    rcases Nat.eq_zero_or_pos w with rfl | hw
    · simp
    · simp [hw.ne]
  | succ k =>
    rw [coeff_X_mul, coeff_wordPoly]
    rcases Nat.lt_trichotomy (k + 1) w with hlt | rfl | hgt
    · simp [hlt, hlt.ne]
    · simp
    · rw [BitVec.getLsbD_of_ge b k (by omega)]
      simp [hgt.not_gt, hgt.ne']

/-- **`timesX` multiplies by the residue of `X`.** -/
theorem residue_timesX (b : BitVec w) :
    residue poly (timesX poly b) = AdjoinRoot.root (modulus poly) * residue poly b := by
  have htwo : ∀ p : (ZMod 2)[X], p + p = 0 := CharTwo.add_self_eq_zero
  -- the two sides differ by the modulus if a bit left the word, and not at all otherwise
  have hpoly : wordPoly (timesX poly b) =
      X * wordPoly b + C (bit (b.getLsbD (w - 1))) * modulus poly := by
    rw [X_mul_wordPoly, modulus, timesX, wordPoly_xor]
    cases b.getLsbD (w - 1) with
    | false => simp
    | true =>
      simp only [if_true, bit_true, C_1]
      linear_combination - htwo (X ^ w)
  rw [residue, hpoly, map_add, map_mul, map_mul, AdjoinRoot.mk_self, mul_zero, add_zero, AdjoinRoot.mk_X]
  rfl

/-! ## Products -/

/-- The product of two words, by shifts and additions from the highest bit of `a` on. -/
def gfMul (poly a b : BitVec w) : BitVec w :=
  (List.range w).foldr (fun j p => (if a.getLsbD j then b else 0) ^^^ timesX poly p) 0

theorem residue_foldr (a b : BitVec w) (k n : ℕ) :
    residue poly ((List.range' k n).foldr
        (fun j p => (if a.getLsbD j then b else 0) ^^^ timesX poly p) 0) =
      AdjoinRoot.mk (modulus poly) (∑ i ∈ Finset.range n, C (bit (a.getLsbD (k + i))) * X ^ i) *
        residue poly b := by
  induction n generalizing k with
  | zero => simp
  | succ n ih =>
    have hsum : ∑ i ∈ Finset.range n, C (bit (a.getLsbD (k + (i + 1)))) * X ^ (i + 1) =
        X * ∑ i ∈ Finset.range n, C (bit (a.getLsbD (k + 1 + i))) * X ^ i := by
      rw [Finset.mul_sum]
      refine Finset.sum_congr rfl fun i _ => ?_
      rw [show k + (i + 1) = k + 1 + i by omega]
      ring
    rw [List.range'_succ, List.foldr_cons, residue_xor, residue_timesX, ih, Finset.sum_range_succ', hsum,
      map_add, map_mul, AdjoinRoot.mk_X, Nat.add_zero, pow_zero, mul_one]
    cases a.getLsbD k with
    | false =>
      rw [if_neg Bool.false_ne_true, bit_false, C_0, map_zero, BitVec.ofNat_eq_ofNat, residue_zero]
      ring
    | true =>
      rw [if_pos rfl, bit_true, C_1, map_one]
      ring

/-- **The product of two words is the product of their residues.** -/
theorem residue_gfMul (a b : BitVec w) :
    residue poly (gfMul poly a b) = residue poly a * residue poly b := by
  rw [gfMul, List.range_eq_range', residue_foldr]
  simp only [Nat.zero_add]
  rfl

end PacketBuffering
