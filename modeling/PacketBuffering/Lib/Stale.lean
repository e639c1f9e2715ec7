import Mathlib.Data.Fin.Basic
import Mathlib.Tactic.Common

/-!
# Delay lines of a counter

A chain of registers that passes on samples of a counter of another clock domain. Each register
holds a count the counter had earlier, older ones further down the chain, so that the end of the
chain is a *stale* view that never runs ahead of the counter.

* `shift`: one clock of the chain; `Stale enc regs lo hi`: the chain holds codes of non-increasing
  counts between `lo` and `hi`.
* **`Stale.shift`**: a clock with a fresh sample keeps the chain stale, above the count that left it.
-/

namespace PacketBuffering

variable {α : Type*} {n : ℕ}

/-- One clock of a chain of `n` registers, fed with `src`. -/
def shift (src : α) (regs : Fin n → α) : Fin n → α := fun i =>
  if (i : ℕ) = 0 then src else regs ⟨i - 1, by have := i.2; omega⟩

/-- The end of a nonempty chain. -/
def chainOut (hn : 0 < n) (regs : Fin n → α) : α := regs ⟨n - 1, by omega⟩

/-- The registers hold codes of counts in `[lo, hi]`, not increasing along the chain. -/
def Stale (enc : ℕ → α) (regs : Fin n → α) (lo hi : ℕ) : Prop :=
  ∃ c : Fin n → ℕ, (∀ i, regs i = enc (c i)) ∧ (∀ i j, i ≤ j → c j ≤ c i) ∧
    (∀ i, lo ≤ c i) ∧ ∀ i, c i ≤ hi

namespace Stale

variable {enc : ℕ → α} {regs : Fin n → α} {lo hi : ℕ}

theorem const (enc : ℕ → α) (k : ℕ) : Stale (n := n) enc (fun _ => enc k) k k :=
  ⟨fun _ => k, fun _ => rfl, fun _ _ _ => le_rfl, fun _ => le_rfl, fun _ => le_rfl⟩

theorem le (hn : 0 < n) (h : Stale enc regs lo hi) : lo ≤ hi := by
  obtain ⟨c, _, _, hl, hu⟩ := h
  exact (hl ⟨0, hn⟩).trans (hu ⟨0, hn⟩)

theorem mono {hi' : ℕ} (h : Stale enc regs lo hi) (hh : hi ≤ hi') : Stale enc regs lo hi' := by
  obtain ⟨c, hc, hd, hl, hu⟩ := h
  exact ⟨c, hc, hd, hl, fun i => (hu i).trans hh⟩

/-- **A clock of the chain.** The sample is the code of a count `m ≥ hi`; the count `k` at the end
of the chain leaves it and bounds what stays. -/
theorem shift (hn : 0 < n) {m : ℕ} (h : Stale enc regs lo hi) (hm : hi ≤ m) :
    ∃ k, chainOut hn regs = enc k ∧ lo ≤ k ∧ k ≤ hi ∧ Stale enc (shift (enc m) regs) k m := by
  obtain ⟨c, hc, hd, hl, hu⟩ := h
  refine ⟨c ⟨n - 1, by omega⟩, hc _, hl _, hu _, PacketBuffering.shift m c, ?_, ?_, ?_, ?_⟩
  · intro i
    simp only [PacketBuffering.shift]
    split_ifs
    · rfl
    · exact hc _
  · intro i j hij
    have hij' : (i : ℕ) ≤ j := hij
    simp only [PacketBuffering.shift]
    split_ifs with h₁ h₂ h₂
    · exact le_rfl
    · omega
    · exact (hu _).trans hm
    · exact hd _ _ (Fin.mk_le_mk.mpr (by omega))
  · intro i
    have := i.2
    simp only [PacketBuffering.shift]
    split_ifs
    · exact (hu _).trans hm
    · exact hd _ _ (Fin.mk_le_mk.mpr (by omega))
  · intro i
    simp only [PacketBuffering.shift]
    split_ifs
    · exact le_rfl
    · exact (hu _).trans hm

end Stale

end PacketBuffering
