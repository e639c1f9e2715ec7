import Mathlib.Data.BitVec
import Mathlib.Data.List.TakeWhile

/-!
# The test dispatch of the firmware

`streq`, `test_map` and `main` of the test harness. What a test does to the hardware is left out: a run
of `main` is the list of the tests it calls and of the texts it prints, with the value it returns.

* `CString`: a C string; a pointer into it is what is left of its characters.
* **`streq_eq_ite`**: the comparison; `main_some`: what `main` does with it, which is to call the first
  entry with another identifier.
* `Dispatches`: what is asked of `main`; **`main_not_dispatches`**: it is met for no string.
-/

namespace PacketBuffering

/-! ## C strings -/

/-- The bytes of a text. -/
def textBytes (s : String) : List (BitVec 8) := s.toList.map fun c => BitVec.ofNat 8 c.toNat

/-- **A C string**: the characters before the terminating NUL. -/
structure CString where
  chars : List (BitVec 8)
  nul_not_mem : 0#8 ∉ chars
deriving DecidableEq

/-- A string literal: its bytes up to the first NUL. -/
def CString.lit (s : String) : CString where
  chars := (textBytes s).takeWhile (· ≠ 0#8)
  nul_not_mem := fun h => by simpa using List.mem_takeWhile_imp h

/-- `*p`: the character at a pointer, the NUL at the end. -/
def deref : List (BitVec 8) → BitVec 8
  | [] => 0
  | c :: _ => c

/-- The loop of `streq`, and the comparison behind it. -/
def streqFrom : List (BitVec 8) → List (BitVec 8) → Bool
  | [], b => 0 == deref b
  | c :: a, b => if c ≠ 0 ∧ c = deref b then streqFrom a b.tail else c == deref b

/-- `streq`. -/
def streq (a b : CString) : BitVec 32 := if streqFrom a.chars b.chars then 1 else 0

theorem streqFrom_iff {a b : List (BitVec 8)} (ha : 0#8 ∉ a) (hb : 0#8 ∉ b) :
    streqFrom a b = true ↔ a = b := by
  induction a generalizing b with
  | nil =>
    cases b with
    | nil => simp [streqFrom, deref]
    | cons d b =>
      have hd : 0#8 ≠ d := fun h => hb (h ▸ List.mem_cons_self)
      simp [streqFrom, deref, hd]
  | cons c a ih =>
    have hc : c ≠ 0#8 := fun h => ha (h ▸ List.mem_cons_self)
    cases b with
    | nil => simp [streqFrom, deref, hc]
    | cons d b =>
      have hrest := ih (fun h => ha (List.mem_cons_of_mem _ h)) fun h => hb (List.mem_cons_of_mem _ h)
      by_cases hcd : c = d
      · simp [streqFrom, deref, hc, ← hcd, hrest]
      · simp [streqFrom, deref, hcd]

/-- **`streq` is 1 exactly for equal strings**, and 0 for others. -/
theorem streq_eq_ite (a b : CString) : streq a b = if a = b then 1 else 0 := by
  have hiff := streqFrom_iff a.nul_not_mem b.nul_not_mem
  cases a
  cases b
  simp only [streq, hiff, CString.mk.injEq]

theorem streq_eq_zero_iff (a b : CString) : streq a b = 0 ↔ a ≠ b := by
  rw [streq_eq_ite]
  by_cases h : a = b <;> simp [h]

/-! ## The tests -/

/-- The test functions. -/
inductive TestFn
  | tp001 | tp002 | tp003 | tp004 | tp005 | tp006 | tp007 | tp008 | tp009 | tp010 | tp011 | tp012
  | tp013 | tp014 | tp015 | tp016 | tp017 | tp018 | tp019 | tp020 | tp021 | tp022 | tp023 | tp024
  | tp025 | tp026 | tp027 | tp028 | tp029 | tp030 | tp031 | tp032 | tp033 | tp034 | tp035 | tp036
deriving DecidableEq

/-- An entry of `test_map`. -/
structure TestEntry where
  id : CString
  fn : TestFn

/-- `test_map`. -/
def testMap : List TestEntry :=
  [⟨.lit "TP-001", .tp001⟩, ⟨.lit "TP-002", .tp002⟩, ⟨.lit "TP-003", .tp003⟩,
    ⟨.lit "TP-004", .tp004⟩, ⟨.lit "TP-005", .tp005⟩, ⟨.lit "TP-006", .tp006⟩,
    ⟨.lit "TP-007", .tp007⟩, ⟨.lit "TP-008", .tp008⟩, ⟨.lit "TP-009", .tp009⟩,
    ⟨.lit "TP-010", .tp010⟩, ⟨.lit "TP-011", .tp011⟩, ⟨.lit "TP-012", .tp012⟩,
    ⟨.lit "TP-013", .tp013⟩, ⟨.lit "TP-014", .tp014⟩, ⟨.lit "TP-015", .tp015⟩,
    ⟨.lit "TP-016", .tp016⟩, ⟨.lit "TP-017", .tp017⟩, ⟨.lit "TP-018", .tp018⟩,
    ⟨.lit "TP-019", .tp019⟩, ⟨.lit "TP-020", .tp020⟩, ⟨.lit "TP-021", .tp021⟩,
    ⟨.lit "TP-022", .tp022⟩, ⟨.lit "TP-023", .tp023⟩, ⟨.lit "TP-024", .tp024⟩,
    ⟨.lit "TP-025", .tp025⟩, ⟨.lit "TP-026", .tp026⟩, ⟨.lit "TP-027", .tp027⟩,
    ⟨.lit "TP-028", .tp028⟩, ⟨.lit "TP-029", .tp029⟩, ⟨.lit "TP-030", .tp030⟩,
    ⟨.lit "TP-031", .tp031⟩, ⟨.lit "TP-032", .tp032⟩, ⟨.lit "TP-033", .tp033⟩,
    ⟨.lit "TP-034", .tp034⟩, ⟨.lit "TP-035", .tp035⟩, ⟨.lit "TP-036", .tp036⟩]

/-- What `main` does: it calls a test, or prints a text. -/
inductive MainEvent
  | call (f : TestFn)
  | puts (text : CString)
deriving DecidableEq

/-- A run of `main`. -/
structure MainRun where
  events : List MainEvent
  ret : BitVec 32
deriving DecidableEq

section Main

variable (results : TestFn → BitVec 32)

/-- The search for a selected test in the entries from one on. -/
def runSelected (sel : CString) : List TestEntry → MainRun
  | [] => ⟨[.puts (.lit "FAIL: Unknown TEST_ID\n")], 1⟩
  | e :: es => if 0 = streq sel e.id then ⟨[.call e.fn], results e.fn⟩ else runSelected sel es

/-- `main`, with `TEST_ID` if it is defined; `results` are the values the tests return. -/
def main : Option CString → MainRun
  | none =>
    ⟨.puts (.lit "--- Running ALL test cases ---\n") :: testMap.map fun e => .call e.fn, 0⟩
  | some sel => runSelected results sel testMap

/-- **What is asked of `main`**: it runs the test of the entry with the identifier, and if there is none
it prints the message and returns 1. -/
structure Dispatches (sel : CString) : Prop where
  known : ∀ e ∈ testMap, e.id = sel → main results (some sel) = ⟨[.call e.fn], results e.fn⟩
  unknown : (∀ e ∈ testMap, e.id ≠ sel) →
    main results (some sel) = ⟨[.puts (.lit "FAIL: Unknown TEST_ID\n")], 1⟩

variable {results}

theorem runSelected_of_ne {sel : CString} {e : TestEntry} (es : List TestEntry) (h : sel ≠ e.id) :
    runSelected results sel (e :: es) = ⟨[.call e.fn], results e.fn⟩ := by
  rw [runSelected, if_pos ((streq_eq_zero_iff _ _).mpr h).symm]

theorem runSelected_of_eq {sel : CString} {e : TestEntry} (es : List TestEntry) (h : sel = e.id) :
    runSelected results sel (e :: es) = runSelected results sel es := by
  rw [runSelected, if_neg fun h0 => (streq_eq_zero_iff _ _).mp h0.symm h]

/-- **What `main` does with a selection**: it calls the first test, or the second one if the first is
selected. -/
theorem main_some (sel : CString) : main results (some sel) =
    if sel = .lit "TP-001" then ⟨[.call .tp002], results .tp002⟩
    else ⟨[.call .tp001], results .tp001⟩ := by
  rw [main, testMap]
  split_ifs with h
  · have hne : sel ≠ .lit "TP-002" := by
      rw [h]
      decide
    rw [runSelected_of_eq _ h, runSelected_of_ne _ hne]
  · rw [runSelected_of_ne _ h]

variable (results) in
/-- **The dispatch fails for every string**: of a known identifier it runs another test, and of an
unknown one it runs a test at all. -/
theorem main_not_dispatches (sel : CString) : ¬ Dispatches results sel := by
  intro h
  have hmain : main results (some sel) = _ := main_some sel
  by_cases hfirst : sel = .lit "TP-001"
  · have hknown := h.known ⟨.lit "TP-001", .tp001⟩ List.mem_cons_self hfirst.symm
    rw [hmain, if_pos hfirst] at hknown
    simp at hknown
  · rw [if_neg hfirst] at hmain
    -- the first entry is the only one with the first test
    have honly : ∀ e ∈ testMap, e.fn = .tp001 → e.id = .lit "TP-001" := by decide
    by_cases hmem : ∃ e ∈ testMap, e.id = sel
    · obtain ⟨e, he, hid⟩ := hmem
      have hknown := h.known e he hid
      rw [hmain] at hknown
      have hfn : e.fn = .tp001 := by simpa using (congrArg MainRun.events hknown).symm
      exact hfirst (hid ▸ honly e he hfn)
    · have hunknown := h.unknown fun e he hid => hmem ⟨e, he, hid⟩
      rw [hmain] at hunknown
      simp at hunknown

/-- `TEST_ID` of the timer test, and of no test. -/
theorem main_tp_005 :
    main (fun _ => 0) (some (.lit "TP-005")) = ⟨[.call .tp001], 0⟩ ∧
      main (fun _ => 0) (some (.lit "TP-999")) = ⟨[.call .tp001], 0⟩ ∧
      ¬ Dispatches (fun _ => 0) (.lit "TP-005") := by
  refine ⟨by decide, by decide, fun h => ?_⟩
  have hknown := h.known ⟨.lit "TP-005", .tp005⟩ (by simp [testMap]) rfl
  revert hknown
  decide

end Main

end PacketBuffering
