import Mathlib.Algebra.CharP.Two
import Mathlib.Algebra.Field.ZMod
import Mathlib.Algebra.Polynomial.Div
import Mathlib.Data.BitVec
import Mathlib.Data.ZMod.Basic
import Mathlib.Tactic.LinearCombination

/-!
# Cyclic redundancy codes over `GF(2)`

A reflected register of width `w` shifts to the right: its bit `0` is the coefficient of
`X ^ (w - 1)`. One bit at a time it computes a remainder of polynomial division.

* `bitsPoly`: a bit string as a polynomial, the first bit highest; `wordPoly`, `reflPoly`: the
  polynomial of a word, and of a reflected word.
* `lfsrStep`: one step of the reflected register; **`reflPoly_lfsrStep`**: it multiplies by `X`, adds
  the bit at `X ^ w` and subtracts a multiple of the generator.
* `crcReference`: the code word by polynomial division.
* **`foldl_lfsrStep_eq_crcReference`**: the register computes it, for every width, generator, seed
  and bit string.
* `coast`: the register without input; `foldl_lfsrStep_xor`: a difference of two registers coasts;
  **`foldl_lfsrStep_word`**: feeding a whole word is adding it and coasting, which is injective for a
  generator with a constant term (`coast_injective`).
* **`foldl_lfsrStep_ne_of_differWithin`**: for such a generator the register tells two bit strings
  apart whose differences lie within `w` places.
-/

namespace PacketBuffering

open Polynomial

/-! ## Bits as polynomials -/

/-- A bit as an element of `GF(2)`. -/
def bit (b : Bool) : ZMod 2 := if b then 1 else 0

@[simp] theorem bit_false : bit false = 0 := rfl

@[simp] theorem bit_true : bit true = 1 := rfl

theorem bit_xor (a b : Bool) : bit (a ^^ b) = bit a + bit b := by
  cases a <;> cases b <;> rfl

theorem bit_eq_one_iff (b : Bool) : bit b = 1 ↔ b = true := by cases b <;> decide

/-- The polynomial of a bit string; the first bit is the highest coefficient. -/
noncomputable def bitsPoly : List Bool → (ZMod 2)[X]
  | [] => 0
  | b :: bs => C (bit b) * X ^ bs.length + bitsPoly bs

section Word

variable {w : ℕ}

/-- The polynomial of a word: bit `i` is the coefficient of `X ^ i`. -/
noncomputable def wordPoly (v : BitVec w) : (ZMod 2)[X] :=
  ∑ i ∈ Finset.range w, C (bit (v.getLsbD i)) * X ^ i

/-- The polynomial of a reflected word: bit `w - 1 - i` is the coefficient of `X ^ i`. -/
noncomputable def reflPoly (c : BitVec w) : (ZMod 2)[X] :=
  ∑ i ∈ Finset.range w, C (bit (c.getMsbD i)) * X ^ i

/-- The reflected word of a polynomial of degree less than `w`. -/
noncomputable def reflWord (w : ℕ) (p : (ZMod 2)[X]) : BitVec w :=
  (BitVec.ofBoolListBE ((List.range w).map fun k => decide (p.coeff k = 1))).cast (by simp)

theorem coeff_sum_range {f : ℕ → ZMod 2} (hf : ∀ k, w ≤ k → f k = 0) (k : ℕ) :
    (∑ i ∈ Finset.range w, C (f i) * X ^ i).coeff k = f k := by
  simp only [finsetSum_coeff, coeff_C_mul_X_pow, Finset.sum_ite_eq, Finset.mem_range]
  split_ifs with h
  · rfl
  · exact (hf k (not_lt.mp h)).symm

theorem coeff_wordPoly (v : BitVec w) (k : ℕ) : (wordPoly v).coeff k = bit (v.getLsbD k) := by
  refine coeff_sum_range (f := fun i => bit (v.getLsbD i)) ?_ k
  intro k hk
  simp only [BitVec.getLsbD_of_ge v k hk, bit_false]

theorem coeff_reflPoly (c : BitVec w) (k : ℕ) : (reflPoly c).coeff k = bit (c.getMsbD k) := by
  refine coeff_sum_range (f := fun i => bit (c.getMsbD i)) ?_ k
  intro k hk
  simp only [BitVec.getMsbD_of_ge c k hk, bit_false]

theorem reflPoly_xor (a b : BitVec w) : reflPoly (a ^^^ b) = reflPoly a + reflPoly b := by
  ext k
  rw [coeff_add, coeff_reflPoly, coeff_reflPoly, coeff_reflPoly, BitVec.getMsbD_xor, bit_xor]

theorem degree_reflPoly_lt (c : BitVec w) : (reflPoly c).degree < w := by
  rw [degree_lt_iff_coeff_zero]
  intro k hk
  rw [coeff_reflPoly, BitVec.getMsbD_of_ge c k hk, bit_false]

theorem reflWord_reflPoly (c : BitVec w) : reflWord w (reflPoly c) = c := by
  refine BitVec.eq_of_getMsbD_eq fun k hk => ?_
  have hbit : decide ((reflPoly c).coeff k = 1) = c.getMsbD k := by
    rw [coeff_reflPoly, decide_eq_decide.mpr (bit_eq_one_iff _)]
    exact Bool.decide_coe _
  rw [reflWord, BitVec.getMsbD_cast, BitVec.getMsbD_ofBoolListBE, List.getD_eq_getElem?_getD,
    List.getElem?_map, List.getElem?_range hk]
  exact hbit

/-! ## The register -/

/-- One step of the reflected register with the reflected generator `poly`. -/
def lfsrStep (poly c : BitVec w) (b : Bool) : BitVec w :=
  if c.getLsbD 0 ^^ b then c >>> 1 ^^^ poly else c >>> 1

/-- The generator `X ^ w + poly`, for the reflected word `poly`. -/
noncomputable def generator (poly : BitVec w) : (ZMod 2)[X] := X ^ w + reflPoly poly

theorem generator_monic (poly : BitVec w) : (generator poly).Monic :=
  monic_X_pow_add (degree_reflPoly_lt poly)

theorem degree_generator (poly : BitVec w) : (generator poly).degree = w := by
  rw [generator, degree_add_eq_left_of_degree_lt, degree_X_pow]
  rw [degree_X_pow]
  exact degree_reflPoly_lt poly

theorem X_mul_reflPoly (c : BitVec w) :
    X * reflPoly c = reflPoly (c >>> 1) + C (bit (c.getLsbD 0)) * X ^ w := by
  ext k
  rw [coeff_add, coeff_C_mul_X_pow, coeff_reflPoly, BitVec.getMsbD_ushiftRight]
  cases k with
  | zero =>
    rcases Nat.eq_zero_or_pos w with rfl | hw
    · simp
    · simp [hw.ne]
  | succ k =>
    rw [coeff_X_mul, coeff_reflPoly]
    rcases Nat.lt_trichotomy (k + 1) w with hlt | rfl | hgt
    · simp [hlt, hlt.ne]
    · simp [BitVec.getMsbD_eq_getLsbD]
    · rw [BitVec.getMsbD_of_ge c k (by omega)]
      simp [hgt.not_gt, hgt.ne']

/-- **One step of the register** is one step of the division. -/
theorem reflPoly_lfsrStep (poly c : BitVec w) (b : Bool) :
    reflPoly (lfsrStep poly c b) =
      X * reflPoly c + C (bit b) * X ^ w + C (bit (c.getLsbD 0 ^^ b)) * generator poly := by
  have htwo : ∀ p : (ZMod 2)[X], p + p = 0 := CharTwo.add_self_eq_zero
  rw [X_mul_reflPoly, generator, lfsrStep]
  cases c.getLsbD 0 <;> cases b
  · simp
  · simp only [Bool.false_xor, if_true, reflPoly_xor, bit_true, bit_false, C_1, C_0]
    linear_combination - htwo (X ^ w)
  · simp only [Bool.xor_false, if_true, reflPoly_xor, bit_true, bit_false, C_1, C_0]
    linear_combination - htwo (X ^ w)
  · simp only [Bool.xor_self, Bool.false_eq_true, if_false, bit_true, bit_false, C_1, C_0]
    linear_combination - htwo (X ^ w)

/-! ## Remainders -/

/-- **The code word by polynomial division**: the remainder of the message, moved up by `w` places
and with the seed added at its head, reflected and with `xorOut` added. -/
noncomputable def crcReference (g : (ZMod 2)[X]) (seed xorOut : BitVec w) (bits : List Bool) :
    BitVec w :=
  reflWord w ((bitsPoly bits * X ^ w + reflPoly seed * X ^ bits.length) %ₘ g) ^^^ xorOut

theorem exists_reflPoly_foldl (poly : BitVec w) (bits : List Bool) (c : BitVec w) :
    ∃ q, reflPoly (bits.foldl (lfsrStep poly) c) =
      bitsPoly bits * X ^ w + reflPoly c * X ^ bits.length + q * generator poly := by
  induction bits generalizing c with
  | nil => exact ⟨0, by simp [bitsPoly]⟩
  | cons b bs ih =>
    obtain ⟨q, hq⟩ := ih (lfsrStep poly c b)
    refine ⟨q + C (bit (c.getLsbD 0 ^^ b)) * X ^ bs.length, ?_⟩
    rw [List.foldl_cons, hq, reflPoly_lfsrStep, bitsPoly, List.length_cons]
    ring

/-- **The register computes the remainder.** -/
theorem foldl_lfsrStep_eq_crcReference (poly seed xorOut : BitVec w) (bits : List Bool) :
    bits.foldl (lfsrStep poly) seed ^^^ xorOut =
      crcReference (generator poly) seed xorOut bits := by
  obtain ⟨q, hq⟩ := exists_reflPoly_foldl poly bits seed
  have hdeg : (reflPoly (bits.foldl (lfsrStep poly) seed)).degree < (generator poly).degree := by
    rw [degree_generator]
    exact degree_reflPoly_lt _
  have hrem : reflPoly (bits.foldl (lfsrStep poly) seed) =
      (bitsPoly bits * X ^ w + reflPoly seed * X ^ bits.length) %ₘ generator poly := by
    refine ((div_modByMonic_unique (-q) _ (generator_monic poly) ⟨?_, hdeg⟩).2).symm
    rw [hq]
    ring
  rw [crcReference, ← hrem, reflWord_reflPoly]

/-! ## The register without input -/

/-- The register after `n` steps without input. -/
def coast (poly : BitVec w) (n : ℕ) (c : BitVec w) : BitVec w :=
  (List.replicate n false).foldl (lfsrStep poly) c

@[simp] theorem coast_zero (poly c : BitVec w) : coast poly 0 c = c := rfl

theorem coast_succ (poly c : BitVec w) (n : ℕ) :
    coast poly (n + 1) c = lfsrStep poly (coast poly n c) false := by
  rw [coast, List.replicate_succ', List.foldl_append]
  rfl

theorem coast_zero_right (poly : BitVec w) (n : ℕ) : coast poly n 0 = 0 := by
  induction n with
  | zero => rfl
  | succ n ih => rw [coast_succ, ih]; simp [lfsrStep]

theorem lfsrStep_xor (poly c d : BitVec w) (a b : Bool) :
    lfsrStep poly (c ^^^ d) (a ^^ b) = lfsrStep poly c a ^^^ lfsrStep poly d b := by
  have hshift : (c ^^^ d) >>> 1 = c >>> 1 ^^^ d >>> 1 := BitVec.ushiftRight_xor_distrib ..
  unfold lfsrStep
  rw [BitVec.getLsbD_xor, hshift]
  cases c.getLsbD 0 <;> cases d.getLsbD 0 <;> cases a <;> cases b <;>
    simp only [Bool.xor_false, Bool.xor_true, Bool.xor_self, Bool.not_false, Bool.false_eq_true,
      if_true, if_false]
  all_goals
    ext k hk
    simp only [BitVec.getElem_xor]
    cases (c >>> 1)[k] <;> cases (d >>> 1)[k] <;> cases poly[k] <;> rfl

theorem lfsrStep_self (poly c : BitVec w) : lfsrStep poly c (c.getLsbD 0) = c >>> 1 := by
  simp [lfsrStep]

theorem foldl_lfsrStep_xor (poly c d : BitVec w) (bits : List Bool) :
    bits.foldl (lfsrStep poly) (c ^^^ d) =
      bits.foldl (lfsrStep poly) c ^^^ coast poly bits.length d := by
  induction bits generalizing c d with
  | nil => rfl
  | cons b bs ih =>
    have hstep := lfsrStep_xor poly c d b false
    rw [Bool.xor_false] at hstep
    rw [List.foldl_cons, hstep, ih]
    rfl

theorem foldl_lfsrStep_range (poly c t : BitVec w) (k : ℕ) :
    ((List.range k).map t.getLsbD).foldl (lfsrStep poly) c =
      coast poly k (c ^^^ t) ^^^ t >>> k := by
  induction k with
  | zero =>
    rw [coast_zero, BitVec.ushiftRight_zero, BitVec.xor_assoc, BitVec.xor_self, BitVec.xor_zero]
    rfl
  | succ k ih =>
    have hbit : t.getLsbD k = (false ^^ (t >>> k).getLsbD 0) := by simp
    rw [List.range_succ, List.map_append, List.foldl_append, ih, List.map_singleton,
      List.foldl_cons, List.foldl_nil, hbit, lfsrStep_xor, lfsrStep_self, ← coast_succ,
      ← BitVec.shiftRight_add]

/-- **Feeding a word**, lowest bit first, is adding it to the register and coasting. -/
theorem foldl_lfsrStep_word (poly c t : BitVec w) :
    ((List.range w).map t.getLsbD).foldl (lfsrStep poly) c = coast poly w (c ^^^ t) := by
  have hout : t >>> w = 0 := by
    ext k
    simp
  rw [foldl_lfsrStep_range, hout]
  exact BitVec.xor_zero

theorem lfsrStep_injective {poly : BitVec w} (hpoly : poly.getMsbD 0 = true) (b : Bool) :
    Function.Injective fun c => lfsrStep poly c b := by
  intro c d (h : lfsrStep poly c b = lfsrStep poly d b)
  have hlow : ∀ c : BitVec w, (lfsrStep poly c b).getMsbD 0 = (c.getLsbD 0 ^^ b) := by
    intro c
    unfold lfsrStep
    split_ifs with hc
    · simp [BitVec.getMsbD_xor, hpoly, hc]
    · simp [hc]
  have h0 : (c.getLsbD 0 ^^ b) = (d.getLsbD 0 ^^ b) := by rw [← hlow, ← hlow, h]
  have hshift : c >>> 1 = d >>> 1 := by
    simp only [lfsrStep] at h
    rw [h0] at h
    split_ifs at h with hd
    · exact (BitVec.xor_left_inj poly).mp h
    · exact h
  refine BitVec.eq_of_getLsbD_eq fun k hk => ?_
  cases k with
  | zero => simpa using h0
  | succ k =>
    have := congrArg (fun v => v.getLsbD k) hshift
    simpa [Nat.add_comm 1 k] using this

theorem coast_injective {poly : BitVec w} (hpoly : poly.getMsbD 0 = true) (n : ℕ) :
    Function.Injective (coast poly n) := by
  induction n with
  | zero => exact fun _ _ h => h
  | succ n ih =>
    intro c d h
    rw [coast_succ, coast_succ] at h
    exact ih (lfsrStep_injective hpoly false h)

/-! ## Differences of two bit strings -/

/-- The registers of two bit strings of one length differ by the register of their difference. -/
theorem foldl_lfsrStep_zipWith (poly c d : BitVec w) (as bs : List Bool)
    (hlen : as.length = bs.length) :
    (List.zipWith xor as bs).foldl (lfsrStep poly) (c ^^^ d) =
      as.foldl (lfsrStep poly) c ^^^ bs.foldl (lfsrStep poly) d := by
  induction as generalizing bs c d with
  | nil =>
    obtain rfl : bs = [] := List.length_eq_zero_iff.mp hlen.symm
    rfl
  | cons a as ih =>
    obtain ⟨b, bs, rfl⟩ := List.exists_cons_of_length_eq_add_one hlen.symm
    rw [List.zipWith_cons_cons, List.foldl_cons, lfsrStep_xor]
    exact ih _ _ bs (Nat.succ.inj hlen)

theorem eq_replicate_of_foldl_lfsrStep_eq_zero {poly : BitVec w} (hpoly : poly.getMsbD 0 = true)
    {es : List Bool} (hlen : es.length ≤ w) (h : es.foldl (lfsrStep poly) 0 = 0) :
    es = List.replicate es.length false := by
  let t : BitVec w := (BitVec.ofBoolListLE es).setWidth w
  have hbit : ∀ i, i < w → t.getLsbD i = es[i]?.getD false := by
    intro i hi
    rw [BitVec.getLsbD_setWidth, BitVec.getLsbD_ofBoolListLE, List.getD_eq_getElem?_getD]
    simp [hi]
  have hes : (List.range es.length).map t.getLsbD = es := by
    refine List.ext_getElem (by simp) fun i _ hi => ?_
    rw [List.getElem_map, List.getElem_range, hbit i (by omega), List.getElem?_eq_getElem hi]
    rfl
  have hout : t >>> es.length = 0#w := by
    refine BitVec.eq_of_getLsbD_eq fun i hi => ?_
    rw [BitVec.getLsbD_ushiftRight]
    by_cases hw : es.length + i < w
    · rw [hbit _ hw]
      simp
    · simp [BitVec.getLsbD_of_ge t _ (not_lt.mp hw)]
  have hcoast : coast poly es.length t = 0 := by
    have hword := foldl_lfsrStep_range poly 0#w t es.length
    rw [hes, hout, BitVec.zero_xor, BitVec.xor_zero] at hword
    exact hword.symm.trans h
  have ht : t = 0 := coast_injective hpoly es.length (hcoast.trans (coast_zero_right poly _).symm)
  rw [← hes, ht, List.length_map, List.length_range]
  refine List.ext_getElem (by simp) fun i _ _ => ?_
  simp

theorem eq_replicate_of_window {poly : BitVec w} (hpoly : poly.getMsbD 0 = true) {es : List Bool}
    {k : ℕ} (hes : ∀ i (hi : i < es.length), ¬ (k ≤ i ∧ i < k + w) → es[i] = false)
    (h : es.foldl (lfsrStep poly) 0 = 0) : es = List.replicate es.length false := by
  have hhead : es.take k = List.replicate (es.take k).length false := by
    refine List.ext_getElem (by simp) fun i hi _ => ?_
    have hle := List.length_take_le k es
    rw [List.getElem_take, List.getElem_replicate]
    exact hes i _ (by omega)
  have htail : es.drop (k + w) = List.replicate (es.drop (k + w)).length false := by
    refine List.ext_getElem (by simp) fun i hi _ => ?_
    rw [List.getElem_drop, List.getElem_replicate]
    exact hes _ _ (by omega)
  have hsplit : es = es.take k ++ ((es.drop k).take w ++ es.drop (k + w)) := by
    rw [← List.drop_drop, List.take_append_drop, List.take_append_drop]
  -- the register is zero up to the window, and behind it a register that is not zero would coast
  have hmid : ((es.drop k).take w).foldl (lfsrStep poly) 0 = 0 := by
    have hzero : (es.take k).foldl (lfsrStep poly) 0 = 0 := by
      rw [hhead]
      exact coast_zero_right poly _
    rw [hsplit, List.foldl_append, hzero, List.foldl_append, htail] at h
    exact coast_injective hpoly _ (h.trans (coast_zero_right poly _).symm)
  have hwin := eq_replicate_of_foldl_lfsrStep_eq_zero hpoly (List.length_take_le w _) hmid
  rw [List.eq_replicate_iff]
  refine ⟨rfl, fun b hb => ?_⟩
  rw [hsplit, hhead, hwin, htail, List.mem_append, List.mem_append] at hb
  rcases hb with hb | hb | hb <;> exact List.eq_of_mem_replicate hb

/-- The places at which two bit strings differ lie within `n` consecutive ones. -/
def DifferWithin (n : ℕ) (as bs : List Bool) : Prop :=
  ∃ k, ∀ i, as[i]? ≠ bs[i]? → k ≤ i ∧ i < k + n

/-- **Short bursts change the register.** For a generator with a constant term, two different bit
strings of one length whose differences lie within `w` places leave different registers. -/
theorem foldl_lfsrStep_ne_of_differWithin {poly : BitVec w} (hpoly : poly.getMsbD 0 = true)
    (c : BitVec w) {as bs : List Bool} (hlen : as.length = bs.length) (hne : as ≠ bs)
    (h : DifferWithin w as bs) :
    as.foldl (lfsrStep poly) c ≠ bs.foldl (lfsrStep poly) c := by
  obtain ⟨k, hk⟩ := h
  intro heq
  have hdiff : (List.zipWith xor as bs).foldl (lfsrStep poly) 0 = 0 := by
    have := foldl_lfsrStep_zipWith poly c c as bs hlen
    rwa [heq, BitVec.xor_self, BitVec.xor_self] at this
  have hall := eq_replicate_of_window hpoly (k := k) ?_ hdiff
  · refine hne (List.ext_getElem hlen fun i hi hi' => ?_)
    have hbit : (List.zipWith xor as bs)[i]? = some false := by
      rw [hall, List.getElem?_replicate, if_pos (by simp; omega)]
    simpa [hi, hi'] using hbit
  · intro i hi hout
    have hsame : as[i]? = bs[i]? := not_imp_comm.mp (hk i) hout
    rw [List.length_zipWith] at hi
    rw [List.getElem?_eq_getElem (by omega), List.getElem?_eq_getElem (by omega)] at hsame
    simp [Option.some.inj hsame]

end Word

end PacketBuffering
