import Mathlib.Data.Fintype.Card
import Mathlib.Logic.Equiv.Basic

/-!
# Block ciphers in rounds

A round substitutes, mixes and adds a round key; a key stands before the first round, and the last
one does not mix. The inverse cipher goes through the same keys backwards.

* `RoundCipher`: the layers of a round, each invertible.
* `RoundCipher.state`, `RoundCipher.encrypt`, `RoundCipher.invState`, `RoundCipher.decrypt`.
* **`RoundCipher.decrypt_encrypt`**: whatever the round keys are, decryption undoes encryption;
  `RoundCipher.encrypt_decrypt`: and the other way round.
-/

namespace PacketBuffering

/-- The layers of a round: `sub` substitutes, `mix` mixes, and a key is added by `add`, which undoes
itself. -/
structure RoundCipher (α κ : Type*) where
  sub : α ≃ α
  mix : α ≃ α
  add : α → κ → α
  add_add : ∀ a k, add (add a k) k = a

namespace RoundCipher

variable {α κ : Type*} (R : RoundCipher α κ) (ks : ℕ → κ)

/-- The state after `j` full rounds. -/
def state (x : α) : ℕ → α
  | 0 => R.add x (ks 0)
  | j + 1 => R.add (R.mix (R.sub (state x j))) (ks (j + 1))

/-- Encryption: `n` full rounds and one without `mix`. -/
def encrypt (n : ℕ) (x : α) : α := R.add (R.sub (R.state ks x n)) (ks (n + 1))

/-- The state of the inverse cipher after `j` of its full rounds. -/
def invState (n : ℕ) (y : α) : ℕ → α
  | 0 => R.add y (ks (n + 1))
  | j + 1 => R.mix.symm (R.add (R.sub.symm (invState n y j)) (ks (n - j)))

/-- Decryption. -/
def decrypt (n : ℕ) (y : α) : α := R.add (R.sub.symm (R.invState ks n y n)) (ks 0)

variable {R ks}

/-- **Where the inverse cipher is**: in front of the key addition that ends the round it undoes. -/
theorem invState_encrypt {n : ℕ} (x : α) {j : ℕ} (hj : j ≤ n) :
    R.invState ks n (R.encrypt ks n x) j = R.sub (R.state ks x (n - j)) := by
  induction j with
  | zero => exact R.add_add _ _
  | succ j ih =>
    have hpred : n - j = n - (j + 1) + 1 := by omega
    rw [invState, ih (Nat.le_of_succ_le hj), Equiv.symm_apply_apply, hpred, state, R.add_add,
      Equiv.symm_apply_apply]

/-- **Decryption undoes encryption.** -/
theorem decrypt_encrypt (n : ℕ) (x : α) : R.decrypt ks n (R.encrypt ks n x) = x := by
  rw [decrypt, invState_encrypt x le_rfl, Nat.sub_self, Equiv.symm_apply_apply, state, R.add_add]

/-- **Encryption undoes decryption**: an injective map of finitely many blocks is onto. -/
theorem encrypt_decrypt [Finite α] (n : ℕ) (y : α) : R.encrypt ks n (R.decrypt ks n y) = y := by
  have hleft : Function.LeftInverse (R.decrypt ks n) (R.encrypt ks n) := decrypt_encrypt n
  obtain ⟨x, rfl⟩ := (Finite.injective_iff_surjective.mp hleft.injective) y
  rw [decrypt_encrypt]

end RoundCipher

end PacketBuffering
