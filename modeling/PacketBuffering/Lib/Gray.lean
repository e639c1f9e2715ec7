import Mathlib.Data.Nat.Bitwise
import Mathlib.Tactic.Common
import Mathlib.Tactic.Ring

/-!
# Gray-coded counters

The binary-reflected Gray code on bit vectors, as a counter that crosses between clock domains
uses it.

* `gray_xor`, `gray_inj`: the code is linear and injective.
* `gray_succ_xor`: counting changes exactly one bit.
* `mix`: a register that samples a changing word, each bit as the old or the new one;
  **`mix_gray_count`**: sampling a counter while it counts yields one of its two values.
* `gray_count_inj`, **`gray_count_opposite`**: equality of codes, and equality up to the two top
  bits, decide equality and distance `2 ^ (w - 1)` of counters that are close.
-/

namespace PacketBuffering

variable {w : ℕ}

/-- The binary-reflected Gray code. -/
def gray (x : BitVec w) : BitVec w := x ^^^ (x >>> 1)

/-- The Gray code of a counter modulo `2 ^ w`. -/
def grayCount (w n : ℕ) : BitVec w := gray (BitVec.ofNat w n)

/-- `{~x[w-1:w-2], x[w-3:0]}`: the word with its top two bits inverted. -/
def invTopTwo (x : BitVec w) : BitVec w := x ^^^ (3#w <<< (w - 2))

/-- Sample a word that changes from `old` to `new`: the bits in `pick` are seen new. -/
def mix (pick old new : BitVec w) : BitVec w := (old &&& ~~~pick) ||| (new &&& pick)

theorem getLsbD_gray (x : BitVec w) (i : ℕ) :
    (gray x).getLsbD i = (x.getLsbD i ^^ x.getLsbD (i + 1)) := by
  simp [gray, Nat.add_comm]

theorem gray_xor (x y : BitVec w) : gray (x ^^^ y) = gray x ^^^ gray y := by
  apply BitVec.eq_of_getLsbD_eq
  intro i _
  simp only [getLsbD_gray, BitVec.getLsbD_xor]
  cases x.getLsbD i <;> cases y.getLsbD i <;> simp

theorem eq_zero_of_gray_eq_zero {x : BitVec w} (h : gray x = 0#w) : x = 0#w := by
  have hstep : ∀ i, x.getLsbD i = x.getLsbD (i + 1) := fun i => by
    have := getLsbD_gray x i
    rw [h, BitVec.getLsbD_zero] at this
    cases h₁ : x.getLsbD i <;> cases h₂ : x.getLsbD (i + 1) <;> simp_all
  have hup : ∀ k i, x.getLsbD i = x.getLsbD (i + k) := fun k => by
    induction k with
    | zero => exact fun i => rfl
    | succ k ih => exact fun i => (ih i).trans (hstep (i + k))
  apply BitVec.eq_of_getLsbD_eq
  intro i _
  rw [hup w i, BitVec.getLsbD_of_ge _ _ (by omega), BitVec.getLsbD_zero]

theorem gray_inj {x y : BitVec w} : gray x = gray y ↔ x = y := by
  refine ⟨fun h => ?_, congrArg gray⟩
  have : gray (x ^^^ y) = 0#w := by rw [gray_xor, h, BitVec.xor_self]
  exact BitVec.xor_eq_zero_iff.mp (eq_zero_of_gray_eq_zero this)

/-! ## Counting changes one bit -/

theorem xor_succ_eq (n : ℕ) : ∃ j, n ^^^ (n + 1) = 2 ^ (j + 1) - 1 := by
  induction n using Nat.strongRecOn with
  | ind n ih =>
    rcases Nat.even_or_odd' n with ⟨m, rfl | rfl⟩
    · exact ⟨0, by simpa [Nat.bit] using Nat.xor_bit false m true m⟩
    · obtain ⟨j, hj⟩ := ih m (by omega)
      refine ⟨j + 1, ?_⟩
      have h := Nat.xor_bit true m false (m + 1)
      simp only [Nat.bit, cond_true, cond_false, hj] at h
      rw [show 2 * m + 1 + 1 = 2 * (m + 1) by ring, h]
      have : 0 < 2 ^ (j + 1) := Nat.two_pow_pos _
      rw [pow_succ 2 (j + 1)]
      simp only [bne, Bool.true_beq, Bool.not_false, cond_true]
      omega

theorem getLsbD_xor_succ (x : BitVec w) : ∃ j, ∀ i,
    (x ^^^ (x + 1#w)).getLsbD i = (decide (i < w) && decide (i < j + 1)) := by
  obtain ⟨j, hj⟩ := xor_succ_eq x.toNat
  refine ⟨j, fun i => ?_⟩
  by_cases hi : i < w
  · have h := congrArg (fun n => n.testBit i) hj
    simp only [Nat.testBit_xor, Nat.testBit_two_pow_sub_one] at h
    have hadd : (x + 1#w).getLsbD i = (x.toNat + 1).testBit i := by
      rw [← BitVec.testBit_toNat, BitVec.toNat_add, Nat.testBit_mod_two_pow]
      rcases w with _ | _ | w
      · omega
      · simp [hi]
      · simp [hi, Nat.mod_eq_of_lt]
    rw [BitVec.getLsbD_xor, hadd, ← BitVec.testBit_toNat, h]
    simp [hi]
  · rw [BitVec.getLsbD_of_ge _ _ (by omega)]
    simp [hi]

theorem gray_succ_bit (x : BitVec w) : ∃ j, ∀ i,
    (gray x).getLsbD i ≠ (gray (x + 1#w)).getLsbD i → i = j := by
  obtain ⟨j, hj⟩ := getLsbD_xor_succ x
  refine ⟨min j (w - 1), fun i hi => ?_⟩
  have h : (gray (x ^^^ (x + 1#w))).getLsbD i = true := by
    rw [gray_xor, BitVec.getLsbD_xor]
    simpa using hi
  rw [getLsbD_gray, hj, hj] at h
  by_cases h₁ : i < w <;> by_cases h₂ : i < j + 1 <;> by_cases h₃ : i + 1 < w <;>
    by_cases h₄ : i + 1 < j + 1 <;> simp [h₁, h₂, h₃, h₄] at h <;> omega

theorem and_sub_one_eq_zero {x : BitVec w} {j : ℕ} (h : ∀ i, x.getLsbD i = true → i = j) :
    x &&& (x - 1#w) = 0#w := by
  by_cases hj : x.getLsbD j = true
  · have hlt : j < w := BitVec.lt_of_getLsbD hj
    have hx : x.toNat = 2 ^ j := by
      have hpow : x = BitVec.twoPow w j := by
        apply BitVec.eq_of_getLsbD_eq
        intro i hi
        rw [BitVec.getLsbD_twoPow]
        by_cases hij : i = j
        · simp [hij, hj, hlt]
        · simp only [Ne.symm hij, decide_false, Bool.and_false]
          by_contra hset
          exact hij (h i (by simpa using hset))
      rw [hpow, BitVec.toNat_twoPow_of_lt hlt]
    have hpos : 0 < 2 ^ j := Nat.two_pow_pos j
    have hone : (1#w).toNat = 1 := by
      rw [BitVec.toNat_ofNat, Nat.mod_eq_of_lt (Nat.one_lt_two_pow (by omega))]
    apply BitVec.eq_of_toNat_eq
    rw [BitVec.toNat_and, BitVec.toNat_sub_of_le (by rw [BitVec.le_def]; omega), hx, hone,
      Nat.and_two_pow_sub_one_eq_mod, Nat.mod_self]
    rfl
  · have hx : x = 0#w := by
      apply BitVec.eq_of_getLsbD_eq
      intro i _
      rw [BitVec.getLsbD_zero]
      by_contra hset
      rw [Bool.not_eq_false] at hset
      exact hj (h i hset ▸ hset)
    rw [hx, BitVec.zero_and]

/-- **A step of the counter** changes exactly one bit of its code. -/
theorem gray_succ_xor (hw : 0 < w) (x : BitVec w) :
    gray (x + 1#w) ^^^ gray x ≠ 0#w ∧
      (gray (x + 1#w) ^^^ gray x) &&& ((gray (x + 1#w) ^^^ gray x) - 1#w) = 0#w := by
  constructor
  · intro h
    have heq : x + 1#w = x := gray_inj.mp (BitVec.xor_eq_zero_iff.mp h)
    have hone : (1#w).toNat = 0 := by
      rw [← BitVec.add_zero x, BitVec.add_assoc, BitVec.zero_add] at heq
      rw [(BitVec.add_right_inj x).mp heq]
      rfl
    rw [BitVec.toNat_ofNat, Nat.mod_eq_of_lt (Nat.one_lt_two_pow (by omega))] at hone
    omega
  · obtain ⟨j, hj⟩ := gray_succ_bit x
    refine and_sub_one_eq_zero fun i hi => hj i fun heq => ?_
    rw [BitVec.getLsbD_xor, heq, Bool.xor_self] at hi
    cases hi

theorem getLsbD_mix (pick old new : BitVec w) (i : ℕ) :
    (mix pick old new).getLsbD i = if pick.getLsbD i then new.getLsbD i else old.getLsbD i := by
  by_cases hi : i < w
  · simp only [mix, BitVec.getLsbD_or, BitVec.getLsbD_and, BitVec.getLsbD_not, hi, decide_true,
      Bool.true_and]
    cases pick.getLsbD i <;> simp
  · simp [BitVec.getLsbD_of_ge _ i (Nat.le_of_not_lt hi)]

@[simp] theorem mix_self (pick x : BitVec w) : mix pick x x = x := by
  apply BitVec.eq_of_getLsbD_eq
  intro i _
  rw [getLsbD_mix, ite_self]

theorem mix_gray_succ (pick x : BitVec w) :
    mix pick (gray x) (gray (x + 1#w)) = gray x ∨
      mix pick (gray x) (gray (x + 1#w)) = gray (x + 1#w) := by
  obtain ⟨j, hj⟩ := gray_succ_bit x
  have hoff : ∀ i, i ≠ j → (gray x).getLsbD i = (gray (x + 1#w)).getLsbD i := fun i hi => by
    by_contra h
    exact hi (hj i h)
  cases hp : pick.getLsbD j with
  | false =>
    left
    apply BitVec.eq_of_getLsbD_eq
    intro i _
    rw [getLsbD_mix]
    by_cases hi : i = j
    · rw [hi, hp]; rfl
    · rw [← hoff i hi, ite_self]
  | true =>
    right
    apply BitVec.eq_of_getLsbD_eq
    intro i _
    rw [getLsbD_mix]
    by_cases hi : i = j
    · rw [hi, hp]; rfl
    · rw [← hoff i hi, ite_self]

/-! ## Counters -/

theorem grayCount_succ (n : ℕ) : grayCount w (n + 1) = gray (BitVec.ofNat w n + 1#w) := by
  rw [grayCount, BitVec.ofNat_add]

/-- **Sampling a counter while it counts** from `m` to `n` yields one of the two values. -/
theorem mix_gray_count (pick : BitVec w) {m n : ℕ} (hmn : m ≤ n) (hn : n ≤ m + 1) :
    ∃ k, m ≤ k ∧ k ≤ n ∧ mix pick (grayCount w m) (grayCount w n) = grayCount w k := by
  obtain rfl | rfl : n = m ∨ n = m + 1 := by omega
  · exact ⟨n, le_rfl, le_rfl, mix_self _ _⟩
  · rw [grayCount_succ]
    rcases mix_gray_succ pick (BitVec.ofNat w m) with h | h
    · exact ⟨m, le_rfl, by omega, h⟩
    · exact ⟨m + 1, by omega, le_rfl, h.trans (grayCount_succ m).symm⟩

theorem ofNat_eq_ofNat {m n : ℕ} : BitVec.ofNat w m = BitVec.ofNat w n ↔ m % 2 ^ w = n % 2 ^ w := by
  rw [← BitVec.toNat_inj, BitVec.toNat_ofNat, BitVec.toNat_ofNat]

theorem gray_count_inj {m n : ℕ} (hmn : m ≤ n) (hn : n < m + 2 ^ w) :
    grayCount w n = grayCount w m ↔ n = m := by
  rw [grayCount, grayCount, gray_inj, ofNat_eq_ofNat]
  refine ⟨fun h => ?_, fun h => by rw [h]⟩
  have := Nat.sub_mod_eq_zero_of_mod_eq h
  rw [Nat.mod_eq_of_lt (by omega)] at this
  omega

theorem xor_twoPow_top (x : BitVec w) : x ^^^ BitVec.twoPow w (w - 1) = x + BitVec.twoPow w (w - 1) := by
  rcases w with _ | w
  · exact Subsingleton.elim _ _
  have hdisj : ∀ y : BitVec (w + 1), y.getLsbD w = false →
      y ^^^ BitVec.twoPow (w + 1) w = y + BitVec.twoPow (w + 1) w := by
    intro y hy
    have h0 : y &&& BitVec.twoPow (w + 1) w = 0#(w + 1) := by
      rw [BitVec.and_twoPow, hy]; rfl
    rw [BitVec.add_eq_or_of_and_eq_zero _ _ h0]
    apply BitVec.eq_of_getLsbD_eq
    intro i _
    have := congrArg (fun z => z.getLsbD i) h0
    simp only [BitVec.getLsbD_and, BitVec.getLsbD_zero] at this
    rw [BitVec.getLsbD_xor, BitVec.getLsbD_or]
    cases h₁ : y.getLsbD i <;> cases h₂ : (BitVec.twoPow (w + 1) w).getLsbD i <;> simp_all
  cases hx : x.getLsbD w with
  | false => exact hdisj x hx
  | true =>
    have hy : (x ^^^ BitVec.twoPow (w + 1) w).getLsbD w = false := by
      rw [BitVec.getLsbD_xor, hx, BitVec.getLsbD_twoPow]; simp
    have h := hdisj _ hy
    rw [BitVec.xor_assoc, BitVec.xor_self, BitVec.xor_zero] at h
    have htwo : BitVec.twoPow (w + 1) w + BitVec.twoPow (w + 1) w = 0#(w + 1) := by
      apply BitVec.eq_of_toNat_eq
      rw [BitVec.toNat_add, BitVec.toNat_twoPow_of_lt (by omega), BitVec.toNat_zero,
        show 2 ^ w + 2 ^ w = 2 ^ (w + 1) by ring, Nat.mod_self]
    simp only [Nat.add_sub_cancel]
    conv_rhs => rw [h, BitVec.add_assoc, htwo, BitVec.add_zero]

theorem gray_twoPow_top (hw : 2 ≤ w) : gray (BitVec.twoPow w (w - 1)) = 3#w <<< (w - 2) := by
  obtain ⟨v, rfl⟩ : ∃ v, w = v + 2 := ⟨w - 2, by omega⟩
  apply BitVec.eq_of_getLsbD_eq
  intro i hi
  have h3 : ∀ k, (3#(v + 2)).getLsbD k = decide (k < 2) := fun k => by
    rw [BitVec.getLsbD_ofNat, show (3 : ℕ) = 2 ^ 2 - 1 by rfl, Nat.testBit_two_pow_sub_one]
    by_cases hk : k < 2 <;> simp [hk]
    omega
  rw [getLsbD_gray, BitVec.getLsbD_twoPow, BitVec.getLsbD_twoPow, BitVec.getLsbD_shiftLeft, h3]
  simp only [Nat.add_sub_cancel]
  by_cases h₁ : i < v
  · simp [hi, h₁]; omega
  · obtain rfl | rfl : i = v ∨ i = v + 1 := by omega
    · simp
    · simp

/-- **Opposite counters.** Codes that agree up to their two top bits belong to counters at
distance `2 ^ (w - 1)`. -/
theorem gray_count_opposite (hw : 2 ≤ w) {m n : ℕ} (hmn : m ≤ n) (hn : n ≤ m + 2 ^ (w - 1)) :
    grayCount w n = invTopTwo (grayCount w m) ↔ n = m + 2 ^ (w - 1) := by
  have htop : invTopTwo (grayCount w m) = grayCount w (m + 2 ^ (w - 1)) := by
    have htp : BitVec.twoPow w (w - 1) = BitVec.ofNat w (2 ^ (w - 1)) := by
      apply BitVec.eq_of_toNat_eq
      rw [BitVec.toNat_twoPow, BitVec.toNat_ofNat]
    rw [invTopTwo, ← gray_twoPow_top hw, grayCount, ← gray_xor, xor_twoPow_top, grayCount,
      BitVec.ofNat_add, htp]
  have hpow : 2 ^ w = 2 ^ (w - 1) + 2 ^ (w - 1) := by
    rw [← two_mul, ← pow_succ', Nat.sub_add_cancel (by omega)]
  have hpos : 0 < 2 ^ (w - 1) := Nat.two_pow_pos _
  rw [htop, eq_comm, gray_count_inj hn (by omega), eq_comm]

end PacketBuffering
