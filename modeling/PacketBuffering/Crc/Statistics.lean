import PacketBuffering.Crc.StreamLaw
import PacketBuffering.Lib.Tally

/-!
# The statistics of the CRC checker

`pass_count_o` and `error_count_o` are cleared on demand and count the verifications. In a cycle in
which both happen the count is assigned last; the branch of the soft reset does not look at the clear.

* `verifies`, `passes`, `fails`: a verification, and its result.
* `counts_clock`: the counters over one cycle.
* `Tallied`: both counters show the verifications since the last clear.
* **`statistics_iff`**: the runs in which they do in every state.
* `clear_ignored`: a clear in the cycle of a verification.
-/

namespace PacketBuffering

namespace CrcChecker

variable (s : CrcChecker) (i : CheckerIn)

/-- A verification: `STATE_VERIFY` without a soft reset, in a mode that compares. -/
def verifies : Bool := s.state == .verify && !i.softReset && i.modeConfig != crcModeComputeOnly

/-- A verification with a matching CRC. -/
def passes : Bool := s.verifies i && s.engine.crcOut == s.expCrcHold

/-- A verification with another CRC than expected. -/
def fails : Bool := s.verifies i && s.engine.crcOut != s.expCrcHold

/-- The clear reaches the branch that obeys it. -/
def wipes : Bool := i.clearCounters && !i.softReset

/-- The history of `pass_count_o`. -/
def passHistory : List (Bool × Bool) := [(i.clearCounters, s.passes i)]

/-- The history of `error_count_o`. -/
def errorHistory : List (Bool × Bool) := [(i.clearCounters, s.fails i)]

variable {s i}

/-- **The counters over one cycle**: a count wins over a clear. -/
theorem counts_clock :
    (s.clock i).passCount =
        (if s.passes i then s.passCount + 1 else if wipes i then 0 else s.passCount) ∧
      (s.clock i).errorCount =
        if s.fails i then s.errorCount + 1 else if wipes i then 0 else s.errorCount := by
  cases hreset : i.softReset with
  | true => simp [clock, hreset, clockSoftReset, clockDatapath, passes, fails, verifies, wipes]
  | false =>
    by_cases hs : s.state = .verify
    · rw [clock_of_verify_state hreset hs]
      by_cases hmode : i.modeConfig = crcModeComputeOnly <;>
        by_cases heq : s.engine.crcOut = s.expCrcHold <;>
          simp [clockVerify, hs, hmode, heq, hreset, clockDefaults, passes, fails, verifies, wipes]
    · obtain ⟨st, a, d, n, hclock⟩ := clock_of_ne_verify hreset hs
      simp [hclock, hs, hreset, clockDefaults, passes, fails, verifies, wipes]

variable (s i) in
/-- A clear of the cycle does no harm: in a soft reset both counters are zero already, and a counter
that counts in the cycle comes to zero or one. -/
structure SafeClear : Prop where
  softReset : i.clearCounters = true → i.softReset = true → s.passCount = 0 ∧ s.errorCount = 0
  pass : i.clearCounters = true → s.passes i = true → s.passCount + 1 = 0 ∨ s.passCount = 0
  error : i.clearCounters = true → s.fails i = true → s.errorCount + 1 = 0 ∨ s.errorCount = 0

instance : Decidable (SafeClear s i) :=
  decidable_of_iff (_ ∧ _ ∧ _) ⟨fun ⟨h₁, h₂, h₃⟩ => ⟨h₁, h₂, h₃⟩, fun ⟨h₁, h₂, h₃⟩ => ⟨h₁, h₂, h₃⟩⟩

theorem not_verifies_of_softReset (h : i.softReset = true) :
    s.passes i = false ∧ s.fails i = false := by
  simp [passes, fails, verifies, h]

theorem harmless_iff_safeClear :
    (Harmless passCount (fun _ i => i.clearCounters) passes (fun _ i => wipes i) s i ∧
      Harmless errorCount (fun _ i => i.clearCounters) fails (fun _ i => wipes i) s i) ↔
      SafeClear s i := by
  unfold Harmless
  constructor
  · rintro ⟨hpass, herror⟩
    refine ⟨fun hclear hreset => ?_, fun hclear hp => ?_, fun hclear hf => ?_⟩
    · obtain ⟨hp, hf⟩ := not_verifies_of_softReset (s := s) hreset
      have hw : wipes i = false := by simp [wipes, hreset]
      exact ⟨by simpa [hp, hw] using hpass hclear, by simpa [hf, hw] using herror hclear⟩
    · simpa [hp] using hpass hclear
    · simpa [hf] using herror hclear
  · intro h
    have hwipe : i.clearCounters = true → i.softReset = false → wipes i = true := by
      intro hclear hreset
      simp [wipes, hclear, hreset]
    refine ⟨fun hclear => ?_, fun hclear => ?_⟩
    · split_ifs with hp
      · exact h.pass hclear hp
      · cases hreset : i.softReset with
        | false => exact .inl (hwipe hclear hreset)
        | true => exact .inr (h.softReset hclear hreset).1
    · split_ifs with hf
      · exact h.error hclear hf
      · cases hreset : i.softReset with
        | false => exact .inl (hwipe hclear hreset)
        | true => exact .inr (h.softReset hclear hreset).2

/-- Both counters show, modulo `2 ^ 32`, the verifications since the last clear, one in the cycle of
the clear itself counted or not. -/
structure Tallied (is : List CheckerIn) : Prop where
  pass : Counted (log clock passHistory reset is) (run clock reset is).passCount
  error : Counted (log clock errorHistory reset is) (run clock reset is).errorCount

instance (is : List CheckerIn) : Decidable (Tallied is) :=
  decidable_of_iff (_ ∧ _) ⟨fun h => ⟨h.1, h.2⟩, fun h => ⟨h.1, h.2⟩⟩

/-- **The runs with right counters**, those in which every clear is safe. -/
theorem tallied_iff (is : List CheckerIn) :
    (∀ is', is' <+: is → Tallied is') ↔ Along clock SafeClear reset is := by
  have hwipe : ∀ (_ : CrcChecker) (i : CheckerIn), wipes i = true → i.clearCounters = true := by
    intro _ i hw
    rw [wipes, Bool.and_eq_true] at hw
    exact hw.1
  have hpass := counted_iff clock hwipe (fun s i => (counts_clock (s := s) (i := i)).1)
    (s := reset) rfl is
  have herror := counted_iff clock hwipe (fun s i => (counts_clock (s := s) (i := i)).2)
    (s := reset) rfl is
  constructor
  · intro h
    have hp := hpass.mp fun is' hp => (h is' hp).pass
    have he := herror.mp fun is' hp => (h is' hp).error
    exact (hp.and he).mono fun s i => harmless_iff_safeClear.mp
  · intro h is' hp
    exact ⟨hpass.mpr (h.mono fun s i hs => (harmless_iff_safeClear.mpr hs).1) is' hp,
      herror.mpr (h.mono fun s i hs => (harmless_iff_safeClear.mpr hs).2) is' hp⟩

theorem le_one_of_counted {l : List (Bool × Bool)} {on : Bool} {c : BitVec 32}
    (h : Counted (l ++ [(true, on)]) c) : c ≤ 1 := by
  rcases (counted_snoc_of_clear on).mp h with rfl | ⟨-, rfl⟩
  · decide
  · decide

/-- **When the statistics are right.** In a run from reset both counters equal, modulo `2 ^ 32` and in
every state, the verifications with a match (a mismatch) since the last clear, and each clear brings
them to at most one, iff every clear of the run is safe. -/
theorem statistics_iff (is : List CheckerIn) :
    ((∀ is', is' <+: is → Tallied is') ∧
        ∀ is' i, is' ++ [i] <+: is → i.clearCounters = true →
          (run clock reset (is' ++ [i])).passCount ≤ 1 ∧
            (run clock reset (is' ++ [i])).errorCount ≤ 1) ↔
      Along clock SafeClear reset is := by
  rw [← tallied_iff]
  refine ⟨And.left, fun h => ⟨h, fun is' i hp hclear => ?_⟩⟩
  obtain ⟨hpass, herror⟩ := h _ hp
  rw [log_snoc] at hpass herror
  rw [passHistory, hclear] at hpass
  rw [errorHistory, hclear] at herror
  exact ⟨le_one_of_counted hpass, le_one_of_counted herror⟩

/-- **A clear that is ignored.** Two packets with a wrong CRC; the clear comes in the cycle in which the
second one is verified. The error counter goes on to two. -/
theorem clear_ignored :
    let word : CheckerIn :=
      { CheckerIn.quiet with sAxisTvalid := true, sAxis := ⟨true, 0b1111, 0x34333231⟩ }
    let is : List CheckerIn :=
      [word, CheckerIn.quiet, word, { CheckerIn.quiet with clearCounters := true }]
    log clock errorHistory reset is = [(false, false), (false, true), (false, false), (true, true)] ∧
      (run clock reset is).errorCount = 2 ∧ ¬ Tallied is := by
  decide +kernel

end CrcChecker

end PacketBuffering
