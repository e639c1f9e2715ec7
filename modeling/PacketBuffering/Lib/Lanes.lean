import Mathlib.Data.BitVec
import Mathlib.Tactic.Ring

/-!
# Byte lanes of a memory bus

A byte memory is a function from addresses to bytes. A beat carries byte lanes from a base address
upwards, each with a strobe.

* `lane`: a byte of a word; `alignDown`: an address with its low bits cleared.
* `storeLanes`: a strobed store; `storeLanes_strobed`, `storeLanes_other`: where it writes.
* `lane_bytes`: the bytes of a word put together; `loadWord`, `lane_loadWord`: a 32-bit load.
* `strobed`: a register after a strobed write; `AgreeOn`: words that agree on the strobed lanes.
* `part_foldl_of_forall_not`, `part_foldl_of_mem`: a part of the state behind writes that miss or hit it.
* `LaneMem`, `Store`: a word memory with one array for each lane, and its strobed stores;
  `LaneMem.word_after`: a word that no store is about.
* `alignDown_eq_add`: the base of a half of an aligned block.
-/

namespace PacketBuffering

section Lanes

variable {a n w : ℕ}

/-- Byte `j` of a word. -/
def lane (d : BitVec w) (j : ℕ) : BitVec 8 := d.extractLsb' (8 * j) 8

/-- The address with its low `k` bits cleared. -/
def alignDown (k : ℕ) (x : BitVec a) : BitVec a := (x >>> k) <<< k

/-- The memory after a store of the strobed lanes of `d`, lane `j` at `base + j`. -/
def storeLanes (m : BitVec a → BitVec 8) (base : BitVec a) (strb : BitVec n) (d : BitVec w) :
    BitVec a → BitVec 8 := fun x =>
  if strb.getLsbD (x - base).toNat then lane d (x - base).toNat else m x

/-- The 32-bit word at `base`, byte `base` lowest. -/
def loadWord (m : BitVec a → BitVec 8) (base : BitVec a) : BitVec 32 :=
  m (base + 3) ++ m (base + 2) ++ m (base + 1) ++ m base

theorem lane_extractLsb' {v : ℕ} (d : BitVec w) (s j : ℕ) (h : 8 * j + 8 ≤ v) :
    lane (d.extractLsb' (8 * s) v) j = lane d (s + j) := by
  ext i hi
  simp only [lane, BitVec.getElem_extractLsb', BitVec.getLsbD_extractLsb']
  rw [show 8 * (s + j) + i = 8 * s + (8 * j + i) by omega, decide_eq_true (by omega : 8 * j + i < v),
    Bool.true_and]

theorem lane_bytes (b : ℕ → BitVec 8) {j : ℕ} (hj : j < 4) :
    lane (b 3 ++ b 2 ++ b 1 ++ b 0) j = b j := by
  ext i hi
  simp only [lane, BitVec.getElem_extractLsb', BitVec.getLsbD_append]
  obtain rfl | rfl | rfl | rfl : j = 0 ∨ j = 1 ∨ j = 2 ∨ j = 3 := by omega
  · simp [hi]
  · rw [if_neg (by omega), if_pos (by omega), show 8 * 1 + i - 8 = i by omega]
    exact BitVec.getLsbD_eq_getElem hi
  · rw [if_neg (by omega), if_neg (by omega), if_pos (by omega), show 8 * 2 + i - 8 - 8 = i by omega]
    exact BitVec.getLsbD_eq_getElem hi
  · rw [if_neg (by omega), if_neg (by omega), if_neg (by omega),
      show 8 * 3 + i - 8 - 8 - 8 = i by omega]
    exact BitVec.getLsbD_eq_getElem hi

theorem lane_loadWord (m : BitVec a → BitVec 8) (base : BitVec a) {j : ℕ} (hj : j < 4) :
    lane (loadWord m base) j = m (base + BitVec.ofNat a j) := by
  have hbytes := lane_bytes (fun k => m (base + BitVec.ofNat a k)) hj
  rwa [BitVec.add_zero] at hbytes

theorem lane_append (x y : BitVec 32) {i : ℕ} (hi : i < 8) :
    lane (x ++ y) i = if i < 4 then lane y i else lane x (i - 4) := by
  ext k hk
  split_ifs with h
  · simp only [lane, BitVec.getElem_extractLsb', BitVec.getLsbD_append]
    rw [if_pos (by omega)]
  · simp only [lane, BitVec.getElem_extractLsb', BitVec.getLsbD_append]
    rw [if_neg (by omega), show 8 * i + k - 32 = 8 * (i - 4) + k by omega]

theorem lane_zero (j : ℕ) : lane (0#w) j = 0 := by
  ext k hk
  simp [lane]

variable {m : BitVec a → BitVec 8} {base : BitVec a} {strb : BitVec n} {d : BitVec w}

theorem toNat_add_sub_self {j : ℕ} (hj : j < 2 ^ a) : (base + BitVec.ofNat a j - base).toNat = j := by
  rw [BitVec.add_comm, BitVec.add_sub_cancel, BitVec.toNat_ofNat, Nat.mod_eq_of_lt hj]

theorem add_ofNat_inj {i j : ℕ} (hi : i < 2 ^ a) (hj : j < 2 ^ a)
    (h : base + BitVec.ofNat a i = base + BitVec.ofNat a j) : i = j := by
  rw [← @toNat_add_sub_self a base i hi, h, toNat_add_sub_self hj]

theorem storeLanes_strobed {j : ℕ} (hj : j < 2 ^ a) (hs : strb.getLsbD j = true) :
    storeLanes m base strb d (base + BitVec.ofNat a j) = lane d j := by
  rw [storeLanes, toNat_add_sub_self hj, if_pos hs]

theorem storeLanes_other {x : BitVec a}
    (h : ∀ j < n, strb.getLsbD j = true → x ≠ base + BitVec.ofNat a j) :
    storeLanes m base strb d x = m x := by
  rw [storeLanes, if_neg]
  intro hs
  refine h _ (BitVec.lt_of_getLsbD hs) hs ?_
  rw [BitVec.ofNat_toNat, BitVec.setWidth_eq, BitVec.add_comm, BitVec.sub_add_cancel]

/-! ## Registers under strobes -/

/-- A register after a write of `d` under the byte strobes `strb`. -/
def strobed (strb : BitVec 4) (d old : BitVec 32) : BitVec 32 :=
  (if strb.getLsbD 3 then d.extractLsb' 24 8 else old.extractLsb' 24 8) ++
    (if strb.getLsbD 2 then d.extractLsb' 16 8 else old.extractLsb' 16 8) ++
    (if strb.getLsbD 1 then d.extractLsb' 8 8 else old.extractLsb' 8 8) ++
    (if strb.getLsbD 0 then d.extractLsb' 0 8 else old.extractLsb' 0 8)

theorem getLsbD_strobed (strb : BitVec 4) (d old : BitVec 32) {k : ℕ} (hk : k < 32) :
    (strobed strb d old).getLsbD k = if strb.getLsbD (k / 8) then d.getLsbD k else old.getLsbD k := by
  simp only [strobed, BitVec.getLsbD_append]
  rcases (by omega : k < 8 ∨ (8 ≤ k ∧ k < 16) ∨ (16 ≤ k ∧ k < 24) ∨ 24 ≤ k) with h | h | h | h
  · rw [if_pos h, show k / 8 = 0 by omega]
    split_ifs <;> simp [h]
  · rw [if_neg (by omega), if_pos (by omega), show k / 8 = 1 by omega]
    split_ifs <;> simp [show k - 8 < 8 by omega, show 8 + (k - 8) = k by omega]
  · rw [if_neg (by omega), if_neg (by omega), if_pos (by omega), show k / 8 = 2 by omega]
    split_ifs <;>
      simp [show k - 8 - 8 < 8 by omega, show 16 + (k - 8 - 8) = k by omega]
  · rw [if_neg (by omega), if_neg (by omega), if_neg (by omega), show k / 8 = 3 by omega]
    split_ifs <;>
      simp [show k - 8 - 8 - 8 < 8 by omega, show 24 + (k - 8 - 8 - 8) = k by omega]

theorem lane_strobed (strb : BitVec 4) (d old : BitVec 32) {j : ℕ} (hj : j < 4) :
    lane (strobed strb d old) j = if strb.getLsbD j then lane d j else lane old j := by
  apply BitVec.eq_of_getLsbD_eq
  intro k hk
  rw [apply_ite (BitVec.getLsbD · k)]
  simp only [lane, BitVec.getLsbD_extractLsb', hk, decide_true, Bool.true_and]
  rw [getLsbD_strobed _ _ _ (by omega), show (8 * j + k) / 8 = j by omega]

/-- The words agree on the strobed lanes. -/
def AgreeOn (strb : BitVec 4) (d d' : BitVec 32) : Prop :=
  ∀ k < 32, strb.getLsbD (k / 8) = true → d.getLsbD k = d'.getLsbD k

instance (strb : BitVec 4) (d d' : BitVec 32) : Decidable (AgreeOn strb d d') :=
  inferInstanceAs (Decidable (∀ k < 32, _ → _))

theorem AgreeOn.refl (strb : BitVec 4) (d : BitVec 32) : AgreeOn strb d d := fun _ _ _ => rfl

theorem AgreeOn.strobed_eq {strb : BitVec 4} {d d' : BitVec 32} (h : AgreeOn strb d d')
    (old : BitVec 32) : strobed strb d' old = strobed strb d old := by
  apply BitVec.eq_of_getLsbD_eq
  intro k hk
  rw [getLsbD_strobed _ _ _ hk, getLsbD_strobed _ _ _ hk]
  split_ifs with hs
  · exact (h k hk hs).symm
  · rfl

theorem strobed_zero (d old : BitVec 32) : strobed 0 d old = old := by
  apply BitVec.eq_of_getLsbD_eq
  intro k hk
  rw [getLsbD_strobed _ _ _ hk]
  simp

/-! ## Writes one after the other -/

section Writes

variable {σ ω β : Type*} {f : σ → ω → σ} (part : σ → β) {hit : ω → Prop} [DecidablePred hit]
  {val : ω → β} {l : List ω}

theorem part_foldl_of_forall_not (hf : ∀ v, ∀ w ∈ l, part (f v w) = if hit w then val w else part v)
    (hl : ∀ w ∈ l, ¬ hit w) (v : σ) : part (l.foldl f v) = part v := by
  induction l generalizing v with
  | nil => rfl
  | cons w l ih =>
    have htail := ih (fun v x hx => hf v x (List.mem_cons_of_mem _ hx))
      fun x hx => hl x (List.mem_cons_of_mem _ hx)
    rw [List.foldl_cons, htail, hf v w List.mem_cons_self, if_neg (hl w List.mem_cons_self)]

theorem part_foldl_of_mem (hf : ∀ v, ∀ w ∈ l, part (f v w) = if hit w then val w else part v) {w : ω}
    (hw : w ∈ l) (hhit : hit w) (hl : ∀ x ∈ l, hit x → val x = val w) (v : σ) :
    part (l.foldl f v) = val w := by
  induction l using List.reverseRecOn with
  | nil => exact absurd hw List.not_mem_nil
  | append_singleton l x ih =>
    have hx : x ∈ l ++ [x] := List.mem_append_right _ List.mem_cons_self
    rw [List.foldl_append, List.foldl_cons, List.foldl_nil, hf _ x hx]
    by_cases hhx : hit x
    · rw [if_pos hhx, hl x hx hhx]
    · have hmem : w ∈ l := by
        rcases List.mem_append.mp hw with hw | hw
        · exact hw
        · exact absurd (List.mem_singleton.mp hw ▸ hhit) hhx
      rw [if_neg hhx]
      exact ih (fun v y hy => hf v y (List.mem_append_left _ hy)) hmem
        fun y hy => hl y (List.mem_append_left _ hy)

end Writes

/-! ## Memories by lanes -/

/-- A memory of 32-bit words kept as one byte array for each lane. -/
abbrev LaneMem (n : ℕ) : Type := Fin 4 → BitVec n → BitVec 8

/-- The word at an address. -/
def LaneMem.word (m : LaneMem n) (x : BitVec n) : BitVec 32 := m 3 x ++ m 2 x ++ m 1 x ++ m 0 x

/-- A strobed store of a word. -/
structure Store (n : ℕ) where
  addr : BitVec n
  data : BitVec 32
  strb : BitVec 4

/-- The memory after a store: only the strobed lanes of the word change. -/
def Store.into (m : LaneMem n) (s : Store n) : LaneMem n := fun k x =>
  if s.strb.getLsbD k && x == s.addr then lane s.data k else m k x

/-- The memory after stores, oldest first. -/
def LaneMem.after (m : LaneMem n) (ss : List (Store n)) : LaneMem n := ss.foldl Store.into m

theorem LaneMem.lane_word (m : LaneMem n) (x : BitVec n) {j : ℕ} (hj : j < 4) :
    lane (m.word x) j = m (Fin.ofNat 4 j) x :=
  lane_bytes (fun k => m (Fin.ofNat 4 k) x) hj

theorem LaneMem.word_after (m : LaneMem n) {ss : List (Store n)} {x : BitVec n}
    (h : ∀ s ∈ ss, s.addr ≠ x) : (m.after ss).word x = m.word x := by
  have hlane : ∀ k, m.after ss k x = m k x := by
    intro k
    have hinto : ∀ v : LaneMem n, ∀ s ∈ ss, s.into v k x =
        if s.strb.getLsbD k = true ∧ x = s.addr then lane s.data k else v k x := by
      intro v s _
      simp [Store.into]
    exact part_foldl_of_forall_not (fun v : LaneMem n => v k x) hinto
      (fun s hs hhit => h s hs hhit.2.symm) m
  rw [LaneMem.word, LaneMem.word, hlane, hlane, hlane, hlane]

/-! ## Alignment -/

theorem toNat_alignDown (k : ℕ) (x : BitVec a) : (alignDown k x).toNat = x.toNat / 2 ^ k * 2 ^ k := by
  have hle : x.toNat / 2 ^ k * 2 ^ k ≤ x.toNat := Nat.div_mul_le_self _ _
  rw [alignDown, BitVec.toNat_shiftLeft, BitVec.toNat_ushiftRight, Nat.shiftRight_eq_div_pow,
    Nat.shiftLeft_eq, Nat.mod_eq_of_lt (hle.trans_lt x.isLt)]

theorem and_not_sub_one (k : ℕ) (x : BitVec a) :
    x &&& ~~~(BitVec.ofNat a (2 ^ k) - 1) = alignDown k x := by
  have hmask : BitVec.ofNat a (2 ^ k) - 1 = BitVec.ofNat a (2 ^ k - 1) := by
    have hadd : BitVec.ofNat a (2 ^ k) = BitVec.ofNat a (2 ^ k - 1) + 1 := by
      rw [show (1 : BitVec a) = BitVec.ofNat a 1 from rfl, BitVec.ofNat_add_ofNat,
        Nat.sub_add_cancel Nat.one_le_two_pow]
    rw [hadd, BitVec.add_sub_cancel]
  rw [hmask]
  apply BitVec.eq_of_getLsbD_eq
  intro i hi
  rw [BitVec.getLsbD_and, BitVec.getLsbD_not, BitVec.getLsbD_ofNat, Nat.testBit_two_pow_sub_one,
    alignDown, BitVec.getLsbD_shiftLeft, BitVec.getLsbD_ushiftRight]
  by_cases hk : i < k
  · simp [hk]
  · simp [hi, hk, show k + (i - k) = i by omega]

/-- The block of size `2 ^ k` of an address is the lower or the upper half of the next larger one. -/
theorem alignDown_eq_add (k : ℕ) (x : BitVec a) : alignDown k x =
    alignDown (k + 1) x + if x.getLsbD k then BitVec.ofNat a (2 ^ k) else 0#a := by
  have hdiv : x.toNat / 2 ^ (k + 1) = x.toNat / 2 ^ k / 2 := by
    rw [Nat.div_div_eq_div_mul, pow_succ]
  have hbit : x.getLsbD k = true ↔ x.toNat / 2 ^ k % 2 = 1 := by
    rw [BitVec.getLsbD, Nat.testBit_eq_decide_div_mod_eq, decide_eq_true_iff]
  have hpow : 2 ^ (k + 1) = 2 * 2 ^ k := pow_succ' 2 k
  have hlt : x.toNat / 2 ^ k * 2 ^ k < 2 ^ a := (Nat.div_mul_le_self _ _).trans_lt x.isLt
  apply BitVec.eq_of_toNat_eq
  rw [BitVec.toNat_add, toNat_alignDown, toNat_alignDown, hdiv, hpow]
  generalize x.toNat / 2 ^ k = q at *
  split_ifs with h
  · rw [hbit] at h
    have hq : q = q / 2 * 2 + 1 := by omega
    have hsum : q / 2 * (2 * 2 ^ k) + 2 ^ k = q * 2 ^ k := by
      calc q / 2 * (2 * 2 ^ k) + 2 ^ k = (q / 2 * 2 + 1) * 2 ^ k := by ring
        _ = q * 2 ^ k := by rw [← hq]
    rw [BitVec.toNat_ofNat, Nat.add_mod_mod, hsum, Nat.mod_eq_of_lt hlt]
  · rw [hbit] at h
    have hq : q = q / 2 * 2 := by omega
    have hsum : q / 2 * (2 * 2 ^ k) = q * 2 ^ k := by
      calc q / 2 * (2 * 2 ^ k) = q / 2 * 2 * 2 ^ k := by ring
        _ = q * 2 ^ k := by rw [← hq]
    rw [BitVec.toNat_ofNat, Nat.zero_mod, Nat.add_zero, hsum, Nat.mod_eq_of_lt hlt]

end Lanes

end PacketBuffering
