import Mathlib.Data.BitVec

/-!
# Words checked by parities

A check word is a function of the stored word that respects `^^^`.

* `XorLinear`: such functions, and how they are built; **`XorLinear.ext_twoPow`**: words of one bit are
  enough to tell them apart.
* `xorBits`: the parity of the bits at some positions.
* `check_flip`, `check_flip_flip`: the check word behind flipped bits is that of the flipped bits alone.
* **`check_flip_flip_ne_zero`**: a check that tells single flipped bits apart finds two.
-/

namespace PacketBuffering

variable {w v u : ℕ}

/-- A function of words that respects `^^^`. -/
def XorLinear (f : BitVec w → BitVec v) : Prop := ∀ x y, f (x ^^^ y) = f x ^^^ f y

/-- The parity of the bits of a word at the positions `is`. -/
def xorBits (x : BitVec w) (is : List ℕ) : Bool := is.foldr (fun i b => x.getLsbD i ^^ b) false

/-- `^x` -/
def xorAll (x : BitVec w) : Bool := xorBits x (List.range w)

theorem xorBits_xor (x y : BitVec w) (is : List ℕ) :
    xorBits (x ^^^ y) is = (xorBits x is ^^ xorBits y is) := by
  induction is with
  | nil => rfl
  | cons i is ih =>
    have hstep : ∀ z : BitVec w, xorBits z (i :: is) = (z.getLsbD i ^^ xorBits z is) := fun _ => rfl
    rw [hstep, hstep, hstep, ih, BitVec.getLsbD_xor]
    cases x.getLsbD i <;> cases y.getLsbD i <;> simp

theorem xorAll_xor (x y : BitVec w) : xorAll (x ^^^ y) = (xorAll x ^^ xorAll y) :=
  xorBits_xor x y _

namespace XorLinear

theorem id : XorLinear fun x : BitVec w => x := fun _ _ => rfl

theorem comp {g : BitVec v → BitVec u} {f : BitVec w → BitVec v} (hg : XorLinear g)
    (hf : XorLinear f) : XorLinear fun x => g (f x) := by
  intro x y
  change g (f (x ^^^ y)) = g (f x) ^^^ g (f y)
  rw [hf, hg]

theorem append {f : BitVec w → BitVec v} {g : BitVec w → BitVec u} (hf : XorLinear f)
    (hg : XorLinear g) : XorLinear fun x => f x ++ g x := by
  intro x y
  change f (x ^^^ y) ++ g (x ^^^ y) = (f x ++ g x) ^^^ (f y ++ g y)
  rw [hf, hg, BitVec.xor_append]

theorem extractLsb' (k n : ℕ) : XorLinear fun x : BitVec w => x.extractLsb' k n :=
  fun _ _ => BitVec.extractLsb'_xor

theorem ofBool {b : BitVec w → Bool} (hb : ∀ x y, b (x ^^^ y) = (b x ^^ b y)) :
    XorLinear fun x => BitVec.ofBool (b x) := by
  intro x y
  change BitVec.ofBool (b (x ^^^ y)) = BitVec.ofBool (b x) ^^^ BitVec.ofBool (b y)
  rw [hb, BitVec.ofBool_xor_ofBool]

theorem xor {f g : BitVec w → BitVec v} (hf : XorLinear f) (hg : XorLinear g) :
    XorLinear fun x => f x ^^^ g x := by
  intro x y
  change f (x ^^^ y) ^^^ g (x ^^^ y) = f x ^^^ g x ^^^ (f y ^^^ g y)
  rw [hf, hg]
  ac_rfl

theorem zero : XorLinear fun _ : BitVec w => 0#v := fun _ _ => BitVec.xor_self.symm

theorem map_zero {f : BitVec w → BitVec v} (hf : XorLinear f) : f 0#w = 0#v := by
  have h := hf 0#w 0#w
  rwa [BitVec.xor_self, BitVec.xor_self] at h

/-- **A function that respects `^^^` is known from the words of one bit.** -/
theorem ext_twoPow {f g : BitVec w → BitVec v} (hf : XorLinear f) (hg : XorLinear g)
    (h : ∀ i : Fin w, f (BitVec.twoPow w i) = g (BitVec.twoPow w i)) (x : BitVec w) : f x = g x := by
  -- induction on a bound for the bits that are set
  have hbound : ∀ k ≤ w, ∀ y : BitVec w, (∀ i, k ≤ i → y.getLsbD i = false) → f y = g y := by
    intro k
    induction k with
    | zero =>
      intro _ y hy
      have hzero : y = 0#w := BitVec.eq_of_getLsbD_eq fun i _ => by simp [hy i]
      rw [hzero, hf.map_zero, hg.map_zero]
    | succ k ih =>
      intro hk y hy
      by_cases hbit : y.getLsbD k
      · have hrest : f (y ^^^ BitVec.twoPow w k) = g (y ^^^ BitVec.twoPow w k) := by
          refine ih (by omega) _ fun i hi => ?_
          rw [BitVec.getLsbD_xor, BitVec.getLsbD_twoPow]
          rcases Nat.eq_or_lt_of_le hi with rfl | hi
          · simp [hbit, show k < w by omega]
          · simp [hy i hi, show ¬ k = i by omega]
        rw [hf, hg, h ⟨k, by omega⟩] at hrest
        exact (BitVec.xor_left_inj _).mp hrest
      · refine ih (by omega) y fun i hi => ?_
        rcases Nat.eq_or_lt_of_le hi with rfl | hi
        · simpa using hbit
        · exact hy i hi
  exact hbound w le_rfl x fun i hi => BitVec.getLsbD_of_ge x i hi

end XorLinear

/-! ## Flipped bits -/

section Flips

variable {check : BitVec w → BitVec v} (hlin : XorLinear check) {m : BitVec w} (hm : check m = 0#v)

include hlin hm

theorem check_flip (e : BitVec w) : check (m ^^^ e) = check e := by
  rw [hlin, hm, BitVec.zero_xor]

theorem check_flip_flip (e e' : BitVec w) : check (m ^^^ e ^^^ e') = check e ^^^ check e' := by
  rw [hlin, check_flip hlin hm]

/-- **Two flipped bits are found** by a check that tells single flipped bits apart. -/
theorem check_flip_flip_ne_zero
    (hinj : Function.Injective fun i : Fin w => check (BitVec.twoPow w i)) {i j : Fin w} (hij : i ≠ j) :
    check (m ^^^ BitVec.twoPow w i ^^^ BitVec.twoPow w j) ≠ 0#v := by
  intro hzero
  rw [check_flip_flip hlin hm, BitVec.xor_eq_zero_iff] at hzero
  exact hij (hinj hzero)

end Flips

end PacketBuffering
