import Mathlib.Logic.Function.Basic
import Mathlib.Tactic.Common
import PacketBuffering.Lib.Handshake

/-!
# Skid buffers

An output register with a second register behind it, so that the `ready` of the input is itself a
register. The output is shared by several sinks, each with a `valid` of its own; one of them is selected.

* `Skid`, `Skid.early`, **`Skid.clock`**: the registers, the next `ready`, a rising edge.
* `Skid.taken`, `Skid.accepted`, `Skid.held`: what the selected sink takes, what enters, what is inside.
* `SkidInv`: the invariant; **`SkidInv.pass`**: nothing is lost, doubled or reordered;
  `SkidInv.keeps`: an offer stays until it is taken.
* `Skid.Empty`: nothing is inside; `SkidInv.of_empty`: then any sink can be selected.
-/

namespace PacketBuffering

variable {α : Type*}

/-- The registers of a skid buffer. -/
structure Skid (α : Type*) where
  out : α
  valid : ℕ → Bool
  temp : α
  tempValid : Bool
  ready : Bool

/-- Its inputs: the selected sink and its `ready`, and what is offered. -/
structure SkidIn (α : Type*) where
  rst : Bool
  select : ℕ
  sinkReady : Bool
  int : α
  intValid : Bool

namespace Skid

variable (s : Skid α) (i : SkidIn α)

/-- The sink takes the output, or the second register will not be filled. -/
def early : Bool := i.sinkReady || (!s.tempValid && (!s.valid i.select || !i.intValid))

/-- A step without `rst`. -/
def next : Skid α :=
  { (if s.ready then
      if i.sinkReady || !s.valid i.select then
        { s with valid := Function.update s.valid i.select i.intValid, out := i.int }
      else { s with tempValid := i.intValid, temp := i.int }
    else if i.sinkReady then
      { s with
        valid := Function.update s.valid i.select s.tempValid, tempValid := false, out := s.temp }
    else s) with
    ready := s.early i }

/-- **A rising edge.** -/
def clock : Skid α :=
  if i.rst then { s.next i with valid := fun _ => false, ready := false, tempValid := false }
  else s.next i

/-- What the selected sink takes. -/
def taken : List α := if s.valid i.select && i.sinkReady then [s.out] else []

/-- What enters. -/
def accepted : List α := if s.ready && i.intValid then [i.int] else []

/-- What is inside for the sink `k`. -/
def held (k : ℕ) : List α :=
  (if s.valid k then [s.out] else []) ++ if s.valid k && s.tempValid then [s.temp] else []

/-- Nothing is inside. -/
structure Empty : Prop where
  valid : ∀ k, s.valid k = false
  tempValid : s.tempValid = false

end Skid

/-- **The invariant**: only the sink `k` is offered anything, and the second register is filled only
behind an offer. -/
structure SkidInv (s : Skid α) (k : ℕ) : Prop where
  only : ∀ j, j ≠ k → s.valid j = false
  temp : s.tempValid = true → s.valid k = true ∧ s.ready = false

namespace SkidInv

variable {s : Skid α} {i : SkidIn α}

theorem of_empty (h : s.Empty) (k : ℕ) : SkidInv s k :=
  ⟨fun j _ => h.valid j, fun ht => by rw [h.tempValid] at ht; cases ht⟩

theorem valid_next (s : Skid α) (i : SkidIn α) : (s.next i).valid i.select =
    if s.ready then if i.sinkReady || !s.valid i.select then i.intValid else s.valid i.select
    else if i.sinkReady then s.tempValid else s.valid i.select := by
  unfold Skid.next
  split_ifs <;> simp

theorem clock_eq (hrst : i.rst = false) : s.clock i = s.next i := by
  rw [Skid.clock, hrst, if_neg Bool.false_ne_true]

theorem next (h : SkidInv s i.select) : SkidInv (s.next i) i.select := by
  obtain ⟨honly, htemp⟩ := h
  constructor
  · intro j hj
    unfold Skid.next
    split_ifs <;> simp [Function.update_of_ne hj, honly j hj]
  · intro ht
    rw [valid_next]
    unfold Skid.next at *
    cases hr : s.ready <;> cases hs : i.sinkReady <;> cases hv : s.valid i.select <;>
      cases hT : s.tempValid <;> cases hi : i.intValid <;>
        simp_all [Skid.early]

/-- **What is taken, followed by what is inside, is what was inside, followed by what enters.** -/
theorem pass (h : SkidInv s i.select) :
    s.taken i ++ (s.next i).held i.select = s.held i.select ++ s.accepted i := by
  have htemp := h.temp
  unfold Skid.taken Skid.held Skid.accepted
  rw [valid_next]
  unfold Skid.next
  cases hr : s.ready <;> cases hs : i.sinkReady <;> cases hv : s.valid i.select <;>
    cases hT : s.tempValid <;> cases hi : i.intValid <;> simp_all

/-- **An offer stays until it is taken.** -/
theorem keeps (s : Skid α) (i : SkidIn α) :
    Keeps (owed (s.valid i.select) i.sinkReady s.out) ((s.next i).valid i.select) (s.next i).out := by
  rw [valid_next]
  unfold Skid.next
  cases hr : s.ready <;> cases hs : i.sinkReady <;> cases hv : s.valid i.select <;>
    cases hT : s.tempValid <;> cases hi : i.intValid <;> simp_all

theorem exists_held_next (h : SkidInv s i.select) : ∃ rest, s.held i.select = s.taken i ++ rest ∧
    (s.next i).held i.select = rest ++ s.accepted i := by
  have hpass := h.pass
  unfold Skid.taken at hpass ⊢
  split_ifs at hpass ⊢ with hv
  · rw [Bool.and_eq_true] at hv
    have hheld : s.held i.select =
        [s.out] ++ if s.valid i.select && s.tempValid then [s.temp] else [] := by
      rw [Skid.held, if_pos hv.1]
    rw [hheld, List.append_assoc] at hpass
    exact ⟨_, hheld, List.append_cancel_left hpass⟩
  · exact ⟨_, rfl, hpass⟩

theorem held_of_ne (h : SkidInv s i.select) {k : ℕ} (hk : k ≠ i.select) : s.held k = [] := by
  simp [Skid.held, h.only k hk]

theorem empty_of_held (h : SkidInv s i.select) (hheld : s.held i.select = []) : s.Empty := by
  have hv : s.valid i.select = false := by
    by_contra hv
    simp [Skid.held, Bool.eq_true_of_not_eq_false hv] at hheld
  refine ⟨fun k => ?_, ?_⟩
  · by_cases hk : k = i.select
    · rw [hk, hv]
    · exact h.only k hk
  · by_contra ht
    have := (h.temp (Bool.eq_true_of_not_eq_false ht)).1
    rw [hv] at this
    cases this

end SkidInv

namespace Skid

variable {s : Skid α} {i : SkidIn α}

theorem Empty.held (h : s.Empty) (k : ℕ) : s.held k = [] := by
  simp [Skid.held, h.valid]

theorem Empty.taken (h : s.Empty) : s.taken i = [] := by
  simp [Skid.taken, h.valid]

theorem Empty.next (h : s.Empty) (hi : i.intValid = false) : (s.next i).Empty := by
  obtain ⟨hv, ht⟩ := h
  constructor
  · intro k
    unfold Skid.next
    by_cases hk : k = i.select
    · subst hk
      split_ifs <;> simp [hv, hi, ht]
    · split_ifs <;> simp [hv, hk]
  · unfold Skid.next
    split_ifs <;> simp [hi, ht]

theorem Empty.early (h : s.Empty) : s.early i = true := by
  simp [Skid.early, h.valid, h.tempValid]

end Skid

end PacketBuffering
