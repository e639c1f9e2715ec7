import Mathlib.Data.Nat.Log
import Mathlib.Tactic.Ring
import Mathlib.Tactic.SplitIfs

/-!
# The priority encoder

The tree of `priority_encoder.v`, for every width and both priorities.

* `PriorityEncoder`: the parameters; `padded`, `stageValid`, `stageEnc`: the wires of the tree;
  `outputValid`, `outputEncoded`, `outputUnencoded`: the outputs.
* `Block`: the inputs below a node of the tree; `stageValid_iff`, `stageEnc_first`, `stageEnc_final`:
  what a node says about them, by induction on its level.
* `First`: the input with the highest priority; `outputEncoded_first`, **`priorityEncoder_finds`**: the
  encoder finds it.
-/

namespace PacketBuffering

/-- The parameters of `priority_encoder`. -/
structure PriorityEncoder where
  width : ℕ
  lsbHighPriority : Bool

namespace PriorityEncoder

variable (P : PriorityEncoder)

/-- `LEVELS` -/
def levels : ℕ := if 2 < P.width then Nat.clog 2 P.width else 1

variable (input : ℕ → Bool)

/-- The input, padded to a power of two. -/
def padded (k : ℕ) : Bool := decide (k < P.width) && input k

/-- `stage_valid[l][n]` -/
def stageValid : ℕ → ℕ → Bool
  | 0, n => P.padded input (n * 2 + 1) || P.padded input (n * 2)
  | l + 1, n => stageValid l (n * 2 + 1) || stageValid l (n * 2)

/-- The `n`-th field of `stage_enc[l]`, which is `l + 1` bits wide. -/
def stageEnc : ℕ → ℕ → ℕ
  | 0, n =>
    if P.lsbHighPriority then (!P.padded input (n * 2)).toNat else (P.padded input (n * 2 + 1)).toNat
  | l + 1, n =>
    if P.lsbHighPriority then
      if P.stageValid input l (n * 2) then stageEnc l (n * 2) else 2 ^ (l + 1) + stageEnc l (n * 2 + 1)
    else
      if P.stageValid input l (n * 2 + 1) then 2 ^ (l + 1) + stageEnc l (n * 2 + 1)
      else stageEnc l (n * 2)

/-- `output_valid`, the root of the tree. -/
def outputValid : Bool := P.stageValid input (P.levels - 1) 0

/-- `output_encoded` -/
def outputEncoded : ℕ := P.stageEnc input (P.levels - 1) 0

/-- `1 << output_encoded`, `WIDTH` bits of it. -/
def outputUnencoded (k : ℕ) : Bool := decide (k < P.width) && k == P.outputEncoded input

/-! ## The nodes of the tree -/

/-- The inputs below the node `n` of level `l`. -/
def Block (l n k : ℕ) : Prop := n * 2 ^ (l + 1) ≤ k ∧ k < (n + 1) * 2 ^ (l + 1)

theorem block_zero {n k : ℕ} : Block 0 n k ↔ k = n * 2 ∨ k = n * 2 + 1 := by
  unfold Block
  constructor <;> intro h <;> omega

theorem block_succ {l n k : ℕ} : Block (l + 1) n k ↔ Block l (n * 2) k ∨ Block l (n * 2 + 1) k := by
  have h₁ : n * 2 ^ (l + 1 + 1) = n * 2 * 2 ^ (l + 1) := by ring
  have h₂ : (n + 1) * 2 ^ (l + 1 + 1) = (n * 2 + 1 + 1) * 2 ^ (l + 1) := by ring
  have hle : n * 2 * 2 ^ (l + 1) ≤ (n * 2 + 1) * 2 ^ (l + 1) := Nat.mul_le_mul_right _ (by omega)
  have hle' : (n * 2 + 1) * 2 ^ (l + 1) ≤ (n * 2 + 1 + 1) * 2 ^ (l + 1) :=
    Nat.mul_le_mul_right _ (by omega)
  unfold Block
  rw [h₁, h₂]
  constructor <;> intro h <;> omega

variable {P input}

theorem stageValid_iff {l n : ℕ} :
    P.stageValid input l n = true ↔ ∃ k, Block l n k ∧ P.padded input k = true := by
  induction l generalizing n with
  | zero =>
    rw [stageValid, Bool.or_eq_true]
    constructor
    · rintro (h | h)
      · exact ⟨_, block_zero.mpr (.inr rfl), h⟩
      · exact ⟨_, block_zero.mpr (.inl rfl), h⟩
    · rintro ⟨k, hk, h⟩
      rcases block_zero.mp hk with rfl | rfl
      · exact .inr h
      · exact .inl h
  | succ l ih =>
    rw [stageValid, Bool.or_eq_true, ih, ih]
    constructor
    · rintro (⟨k, hk, h⟩ | ⟨k, hk, h⟩)
      · exact ⟨k, block_succ.mpr (.inr hk), h⟩
      · exact ⟨k, block_succ.mpr (.inl hk), h⟩
    · rintro ⟨k, hk, h⟩
      rcases block_succ.mp hk with hk | hk
      · exact .inr ⟨k, hk, h⟩
      · exact .inl ⟨k, hk, h⟩

theorem stageEnc_lt (l n : ℕ) : P.stageEnc input l n < 2 ^ (l + 1) := by
  induction l generalizing n with
  | zero =>
    rw [stageEnc]
    split_ifs <;> cases P.padded input _ <;> simp
  | succ l ih =>
    have h₀ := ih (n * 2)
    have h₁ := ih (n * 2 + 1)
    rw [stageEnc, pow_succ 2 (l + 1)]
    split_ifs <;> omega

theorem padded_stageEnc {l n : ℕ} (h : P.stageValid input l n = true) :
    P.padded input (n * 2 ^ (l + 1) + P.stageEnc input l n) = true := by
  induction l generalizing n with
  | zero =>
    rw [stageValid, Bool.or_eq_true] at h
    rw [stageEnc]
    cases h₀ : P.padded input (n * 2) <;> cases h₁ : P.padded input (n * 2 + 1) <;>
      cases P.lsbHighPriority <;> simp_all
  | succ l ih =>
    have hl : n * 2 ^ (l + 1 + 1) = n * 2 * 2 ^ (l + 1) := by ring
    have hr : n * 2 ^ (l + 1 + 1) + 2 ^ (l + 1) = (n * 2 + 1) * 2 ^ (l + 1) := by ring
    have hone (hb : P.stageValid input l (n * 2) = false) :
        P.stageValid input l (n * 2 + 1) = true := by
      rw [stageValid, hb, Bool.or_false] at h
      exact h
    rw [stageEnc]
    split_ifs with hp h₀ h₁
    · rw [hl]
      exact ih h₀
    · rw [← Nat.add_assoc, hr]
      exact ih (hone (Bool.eq_false_iff.mpr h₀))
    · rw [← Nat.add_assoc, hr]
      exact ih h₁
    · rw [hl]
      apply ih
      rw [stageValid, Bool.eq_false_iff.mpr h₁, Bool.false_or] at h
      exact h

theorem stageEnc_first {l n k : ℕ} (hp : P.lsbHighPriority = true) (hk : Block l n k)
    (hin : P.padded input k = true) : n * 2 ^ (l + 1) + P.stageEnc input l n ≤ k := by
  induction l generalizing n with
  | zero =>
    rw [stageEnc, if_pos hp]
    rcases block_zero.mp hk with rfl | rfl
    · simp [hin]
    · cases P.padded input (n * 2) <;> simp
  | succ l ih =>
    have hl : n * 2 ^ (l + 1 + 1) = n * 2 * 2 ^ (l + 1) := by ring
    have hr : n * 2 ^ (l + 1 + 1) + 2 ^ (l + 1) = (n * 2 + 1) * 2 ^ (l + 1) := by ring
    rw [stageEnc, if_pos hp]
    split_ifs with h₀
    · rw [hl]
      rcases block_succ.mp hk with hk | hk
      · exact ih hk
      · -- the node on the left is valid, and what it names is left of everything on the right
        have hlt : P.stageEnc input l (n * 2) < 2 ^ (l + 1) := stageEnc_lt l (n * 2)
        have := hk.1
        rw [← hr] at this
        omega
    · rw [← Nat.add_assoc, hr]
      rcases block_succ.mp hk with hk | hk
      · exact absurd (stageValid_iff.mpr ⟨k, hk, hin⟩) h₀
      · exact ih hk

theorem stageEnc_final {l n k : ℕ} (hp : P.lsbHighPriority = false) (hk : Block l n k)
    (hin : P.padded input k = true) : k ≤ n * 2 ^ (l + 1) + P.stageEnc input l n := by
  induction l generalizing n with
  | zero =>
    rw [stageEnc, hp, if_neg Bool.false_ne_true]
    rcases block_zero.mp hk with rfl | rfl
    · omega
    · simp [hin]
  | succ l ih =>
    have hl : n * 2 ^ (l + 1 + 1) = n * 2 * 2 ^ (l + 1) := by ring
    have hr : n * 2 ^ (l + 1 + 1) + 2 ^ (l + 1) = (n * 2 + 1) * 2 ^ (l + 1) := by ring
    rw [stageEnc, hp, if_neg Bool.false_ne_true]
    split_ifs with h₁
    · rw [← Nat.add_assoc, hr]
      rcases block_succ.mp hk with hk | hk
      · exact hk.2.le.trans (Nat.le_add_right _ _)
      · exact ih hk
    · rw [hl]
      rcases block_succ.mp hk with hk | hk
      · exact ih hk
      · exact absurd (stageValid_iff.mpr ⟨k, hk, hin⟩) h₁

/-! ## The outputs -/

/-- `k` is the input with the highest priority of those that are set. -/
structure First (lsbHighPriority : Bool) (width : ℕ) (input : ℕ → Bool) (k : ℕ) : Prop where
  lt : k < width
  set : input k = true
  best : ∀ j < width, input j = true → if lsbHighPriority then k ≤ j else j ≤ k

theorem First.unique {b : Bool} {w k k' : ℕ} (h : First b w input k) (h' : First b w input k') :
    k = k' := by
  have h₁ := h.best k' h'.lt h'.set
  have h₂ := h'.best k h.lt h.set
  cases b with
  | true => exact Nat.le_antisymm h₁ h₂
  | false => exact Nat.le_antisymm h₂ h₁

theorem levels_pos : 0 < P.levels := by
  unfold levels
  split_ifs with h
  · exact Nat.clog_pos (by omega) (by omega)
  · exact Nat.one_pos

theorem block_root {k : ℕ} (hk : k < P.width) : Block (P.levels - 1) 0 k := by
  refine ⟨by omega, ?_⟩
  rw [Nat.sub_add_cancel levels_pos, Nat.zero_add, Nat.one_mul]
  refine hk.trans_le ?_
  unfold levels
  split_ifs with h
  · exact Nat.le_pow_clog (by omega) _
  · omega

theorem padded_eq_true {k : ℕ} : P.padded input k = true ↔ k < P.width ∧ input k = true := by
  rw [padded, Bool.and_eq_true, decide_eq_true_iff]

/-- **The encoder is valid** iff an input is set. -/
theorem outputValid_iff : P.outputValid input = true ↔ ∃ k < P.width, input k = true := by
  rw [outputValid, stageValid_iff]
  constructor
  · rintro ⟨k, -, h⟩
    exact ⟨k, padded_eq_true.mp h⟩
  · rintro ⟨k, hk, h⟩
    exact ⟨k, block_root hk, padded_eq_true.mpr ⟨hk, h⟩⟩

/-- **The encoder finds the input with the highest priority.** -/
theorem outputEncoded_first (h : P.outputValid input = true) :
    First P.lsbHighPriority P.width input (P.outputEncoded input) := by
  have hset := padded_stageEnc h
  rw [Nat.zero_mul, Nat.zero_add] at hset
  obtain ⟨hlt, hset⟩ := padded_eq_true.mp hset
  refine ⟨hlt, hset, fun j hj hin => ?_⟩
  have hblock := block_root hj
  have hpad := padded_eq_true.mpr ⟨hj, hin⟩
  cases hp : P.lsbHighPriority with
  | true => simpa [outputEncoded] using stageEnc_first hp hblock hpad
  | false => simpa [outputEncoded] using stageEnc_final hp hblock hpad

theorem outputUnencoded_iff (h : P.outputValid input = true) {k : ℕ} :
    P.outputUnencoded input k = true ↔ k = P.outputEncoded input := by
  rw [outputUnencoded, Bool.and_eq_true, decide_eq_true_iff, beq_iff_eq]
  constructor
  · exact fun h => h.2
  · rintro rfl
    exact ⟨(outputEncoded_first h).lt, rfl⟩

end PriorityEncoder

/-- **The priority encoder**, of every width and either priority, is valid iff an input is set; then it
names the one with the highest priority, in binary and by a single bit. -/
theorem priorityEncoder_finds (P : PriorityEncoder) (input : ℕ → Bool) :
    (P.outputValid input = true ↔ ∃ k < P.width, input k = true) ∧
      ∀ k, (P.outputValid input = true ∧ P.outputEncoded input = k ↔
          PriorityEncoder.First P.lsbHighPriority P.width input k) ∧
        (P.outputValid input = true →
          (P.outputUnencoded input k = true ↔ P.outputEncoded input = k)) := by
  refine ⟨PriorityEncoder.outputValid_iff, fun k => ⟨⟨?_, fun h => ?_⟩, fun h => ?_⟩⟩
  · rintro ⟨hv, rfl⟩
    exact PriorityEncoder.outputEncoded_first hv
  · have hv : P.outputValid input = true := PriorityEncoder.outputValid_iff.mpr ⟨k, h.lt, h.set⟩
    exact ⟨hv, (PriorityEncoder.outputEncoded_first hv).unique h⟩
  · rw [PriorityEncoder.outputUnencoded_iff h, eq_comm]

end PacketBuffering
