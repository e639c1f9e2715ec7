import Mathlib.Data.BitVec
import Mathlib.Tactic.Common
import Mathlib.Tactic.Ring

/-!
# The address map of the interconnect

The parameters of `axi_interconnect.v`, its checks at time zero, and its address decoder.

* `NetParams`; `calcBaseAddrs`, `baseAddrInt`: the base addresses; `Checked`: what the `initial` block accepts.
* `Matches`, `decode`: the test and the loop of `STATE_DECODE`; `decode_eq_some`, `decode_eq_none`.
* `InRegion`: the addresses of a region; `matches_iff`, **`region_unique`**: in a map that is accepted, an
  address is in one region at most; **`decode_eq_some_iff`**: the decoder finds that one.
* `layoutEnd`: where the default layout ends, as a number; **`calcBaseAddrs_checked`**: it is accepted
  exactly if it fits the address space.
-/

namespace PacketBuffering

/-- The parameters of `axi_interconnect`; the fields of a vector are numbered from its low end. -/
structure NetParams where
  sCount : ℕ
  mCount : ℕ
  dataWidth : ℕ
  addrWidth : ℕ
  strbWidth : ℕ
  idWidth : ℕ
  awuserEnable : Bool
  awuserWidth : ℕ
  wuserEnable : Bool
  wuserWidth : ℕ
  buserEnable : Bool
  buserWidth : ℕ
  aruserEnable : Bool
  aruserWidth : ℕ
  ruserEnable : Bool
  ruserWidth : ℕ
  forwardId : Bool
  mRegions : ℕ
  mBaseAddr : ℕ → BitVec addrWidth
  mAddrWidth : ℕ → BitVec 32
  mConnectRead : ℕ → Bool
  mConnectWrite : ℕ → Bool
  mSecure : ℕ → Bool

namespace NetParams

variable (N : NetParams)

/-- The number of regions of all slaves. -/
def regionCount : ℕ := N.mCount * N.mRegions

/-- The width of region `k`, in address bits; 0 if there is none. -/
def width (k : ℕ) : ℕ := (N.mAddrWidth k).toNat

/-! ## Base addresses -/

/-- `{ADDR_WIDTH{1'b1}} >> (ADDR_WIDTH - width)` -/
def maskOf (w : ℕ) : BitVec N.addrWidth := BitVec.allOnes N.addrWidth >>> (N.addrWidth - w)

/-- One round of the loop of `calcBaseAddrs`: the bases so far and the next free address. -/
def calcStep (acc : (ℕ → BitVec N.addrWidth) × BitVec N.addrWidth) (k : ℕ) :
    (ℕ → BitVec N.addrWidth) × BitVec N.addrWidth :=
  let mask := N.maskOf (N.width k)
  let size := mask + 1
  if 0 < N.width k then
    let base := if acc.2 &&& mask ≠ 0 then acc.2 + size - (acc.2 &&& mask) else acc.2
    (Function.update acc.1 k base, base + size)
  else acc

/-- `calcBaseAddrs`: the regions one after another, each at a multiple of its size. -/
def calcBaseAddrs : ℕ → BitVec N.addrWidth :=
  ((List.range N.regionCount).foldl N.calcStep (fun _ => 0, 0)).1

/-- `M_BASE_ADDR_INT` -/
def baseAddrInt : ℕ → BitVec N.addrWidth :=
  if ∃ k < N.regionCount, N.mBaseAddr k ≠ 0 then N.mBaseAddr else N.calcBaseAddrs

/-! ## The checks -/

/-- A region's first address, as the checks compute it. -/
def lowest (base : ℕ → BitVec N.addrWidth) (k : ℕ) : BitVec N.addrWidth :=
  base k &&& BitVec.allOnes N.addrWidth <<< N.width k

/-- A region's last address. -/
def highest (base : ℕ → BitVec N.addrWidth) (k : ℕ) : BitVec N.addrWidth :=
  base k ||| N.maskOf (N.width k)

/-- Every region that exists is at least 4 kB, and no larger than the address space. -/
def WidthsOk : Prop :=
  ∀ k < N.regionCount, N.width k ≠ 0 → 12 ≤ N.width k ∧ N.width k ≤ N.addrWidth

/-- No region is misaligned. -/
def Aligned (base : ℕ → BitVec N.addrWidth) : Prop :=
  ∀ k < N.regionCount, (base k).toNat &&& (2 ^ N.width k - 1) = 0

/-- No two regions overlap. -/
def Disjoint (base : ℕ → BitVec N.addrWidth) : Prop :=
  ∀ k < N.regionCount, ∀ j < N.regionCount, k < j ∧ N.width k ≠ 0 ∧ N.width j ≠ 0 →
    ¬(N.lowest base k ≤ N.highest base j ∧ N.lowest base j ≤ N.highest base k)

/-- **What the `initial` block accepts.** -/
structure Checked (base : ℕ → BitVec N.addrWidth) : Prop where
  regions : 1 ≤ N.mRegions ∧ N.mRegions ≤ 16
  widths : N.WidthsOk
  aligned : N.Aligned base
  disjoint : N.Disjoint base

instance : Decidable N.WidthsOk := inferInstanceAs (Decidable (∀ k < N.regionCount, _ → _))
instance (base : ℕ → BitVec N.addrWidth) : Decidable (N.Aligned base) :=
  inferInstanceAs (Decidable (∀ k < N.regionCount, _ = 0))
instance (base : ℕ → BitVec N.addrWidth) : Decidable (N.Disjoint base) :=
  inferInstanceAs (Decidable (∀ k < N.regionCount, ∀ j < N.regionCount, k < j ∧ _ ∧ _ → ¬(_ ∧ _)))
instance (base : ℕ → BitVec N.addrWidth) : Decidable (N.Checked base) :=
  decidable_of_iff (_ ∧ _ ∧ _ ∧ _)
    ⟨fun h => ⟨h.1, h.2.1, h.2.2.1, h.2.2.2⟩, fun h => ⟨h.1, h.2, h.3, h.4⟩⟩

/-! ## The decoder -/

/-- The part of the test that is about the address. -/
def Matches (base : ℕ → BitVec N.addrWidth) (addr : BitVec N.addrWidth) (k : ℕ) : Prop :=
  N.width k ≠ 0 ∧ addr >>> N.width k = base k >>> N.width k

instance (base : ℕ → BitVec N.addrWidth) (addr : BitVec N.addrWidth) (k : ℕ) :
    Decidable (N.Matches base addr k) := inferInstanceAs (Decidable (_ ∧ _))

/-- The part that is about the access: slave `m` is open to port `s` for this protection. -/
def Permits (read : Bool) (s : ℕ) (prot : BitVec 3) (m : ℕ) : Prop :=
  (N.mSecure m = false ∨ prot.getLsbD 1 = false) ∧
    (if read then N.mConnectRead else N.mConnectWrite) (s + m * N.sCount) = true

instance (read : Bool) (s : ℕ) (prot : BitVec 3) (m : ℕ) : Decidable (N.Permits read s prot m) :=
  inferInstanceAs (Decidable (_ ∧ _))

/-- The slaves and their regions, in the order of the loop. -/
def regions : List (ℕ × ℕ) :=
  (List.range N.mCount).flatMap fun m => (List.range N.mRegions).map fun j => (m, j)

/-- The loop of `STATE_DECODE`: the last slave and region that match. -/
def decode (read : Bool) (s : ℕ) (prot : BitVec 3) (addr : BitVec N.addrWidth) : Option (ℕ × ℕ) :=
  N.regions.foldl (fun found r =>
    if N.Permits read s prot r.1 ∧ N.Matches N.baseAddrInt addr (r.1 * N.mRegions + r.2) then some r
    else found) none

end NetParams

/-! ## Loops that keep the last match -/

section LastMatch

variable {α : Type*} {p : α → Prop} [DecidablePred p]

theorem foldl_last_mem {l : List α} {x : α} {o : Option α}
    (h : l.foldl (fun found r => if p r then some r else found) o = some x) :
    o = some x ∨ x ∈ l ∧ p x := by
  induction l generalizing o with
  | nil => exact .inl h
  | cons r l ih =>
    rw [List.foldl_cons] at h
    rcases ih h with h | ⟨hx, hp⟩
    · split_ifs at h with hr
      · obtain rfl := Option.some.inj h
        exact .inr ⟨List.mem_cons_self, hr⟩
      · exact .inl h
    · exact .inr ⟨List.mem_cons_of_mem _ hx, hp⟩

theorem foldl_last_eq_none {l : List α} {o : Option α}
    (h : l.foldl (fun found r => if p r then some r else found) o = none) :
    o = none ∧ ∀ r ∈ l, ¬p r := by
  induction l generalizing o with
  | nil => exact ⟨h, fun r hr => by cases hr⟩
  | cons r l ih =>
    rw [List.foldl_cons] at h
    obtain ⟨h, hl⟩ := ih h
    split_ifs at h with hr
    refine ⟨h, fun r' hr' => ?_⟩
    rcases List.mem_cons.mp hr' with rfl | hr'
    · exact hr
    · exact hl r' hr'

end LastMatch

namespace NetParams

variable {N : NetParams} {base : ℕ → BitVec N.addrWidth} {read : Bool} {s : ℕ} {prot : BitVec 3}
  {addr : BitVec N.addrWidth}

theorem mem_regions {r : ℕ × ℕ} : r ∈ N.regions ↔ r.1 < N.mCount ∧ r.2 < N.mRegions := by
  obtain ⟨m, j⟩ := r
  simp [regions]

theorem index_lt {r : ℕ × ℕ} (hr : r ∈ N.regions) : r.1 * N.mRegions + r.2 < N.regionCount := by
  obtain ⟨h₁, h₂⟩ := mem_regions.mp hr
  calc r.1 * N.mRegions + r.2 < (r.1 + 1) * N.mRegions := by rw [Nat.add_mul, Nat.one_mul]; omega
    _ ≤ N.mCount * N.mRegions := Nat.mul_le_mul_right _ h₁

theorem decode_eq_some {r : ℕ × ℕ} (h : N.decode read s prot addr = some r) :
    r.1 < N.mCount ∧ r.2 < N.mRegions ∧ N.Permits read s prot r.1 ∧
      N.Matches N.baseAddrInt addr (r.1 * N.mRegions + r.2) := by
  rcases foldl_last_mem h with h | ⟨hr, hp, hm⟩
  · cases h
  · obtain ⟨h₁, h₂⟩ := mem_regions.mp hr
    exact ⟨h₁, h₂, hp, hm⟩

theorem decode_eq_none (h : N.decode read s prot addr = none) {r : ℕ × ℕ} (h₁ : r.1 < N.mCount)
    (h₂ : r.2 < N.mRegions) (hp : N.Permits read s prot r.1) :
    ¬N.Matches N.baseAddrInt addr (r.1 * N.mRegions + r.2) :=
  fun hm => (foldl_last_eq_none h).2 r (mem_regions.mpr ⟨h₁, h₂⟩) ⟨hp, hm⟩

/-! ## Regions -/

/-- The addresses of region `k`. -/
def InRegion (N : NetParams) (base : ℕ → BitVec N.addrWidth) (addr : BitVec N.addrWidth) (k : ℕ) :
    Prop :=
  N.width k ≠ 0 ∧ (base k).toNat ≤ addr.toNat ∧ addr.toNat < (base k).toNat + 2 ^ N.width k

theorem toNat_maskOf {w : ℕ} (hw : w ≤ N.addrWidth) : (N.maskOf w).toNat = 2 ^ w - 1 := by
  rw [maskOf, BitVec.toNat_ushiftRight, BitVec.toNat_allOnes, Nat.shiftRight_eq_div_pow]
  have hpow : 2 ^ N.addrWidth = 2 ^ w * 2 ^ (N.addrWidth - w) := by
    rw [← pow_add, Nat.add_sub_cancel' hw]
  have hpos : 0 < 2 ^ (N.addrWidth - w) := Nat.two_pow_pos _
  rw [hpow, Nat.div_eq_iff hpos, Nat.sub_mul]
  have : 2 ^ (N.addrWidth - w) ≤ 2 ^ w * 2 ^ (N.addrWidth - w) :=
    Nat.le_mul_of_pos_left _ (Nat.two_pow_pos _)
  omega

theorem toNat_lowest (k : ℕ) :
    (N.lowest base k).toNat = (base k).toNat / 2 ^ N.width k * 2 ^ N.width k := by
  have h : N.lowest base k = (base k >>> N.width k) <<< N.width k := by
    ext n hn
    simp only [lowest, BitVec.getElem_and, BitVec.getElem_shiftLeft, BitVec.getElem_allOnes,
      BitVec.getElem_ushiftRight]
    by_cases hk : n < N.width k
    · simp [hk]
    · simp [hk, BitVec.getLsbD_eq_getElem hn, Nat.add_sub_cancel' (not_lt.mp hk)]
  rw [h, BitVec.toNat_shiftLeft, BitVec.toNat_ushiftRight, Nat.shiftLeft_eq,
    Nat.shiftRight_eq_div_pow, Nat.mod_eq_of_lt]
  exact (Nat.div_mul_le_self _ _).trans_lt (base k).isLt

theorem toNat_highest {k : ℕ} (hk : N.width k ≤ N.addrWidth) :
    (N.highest base k).toNat = (N.lowest base k).toNat + (2 ^ N.width k - 1) := by
  have hlt : 2 ^ N.width k - 1 < 2 ^ N.width k := Nat.sub_lt (Nat.two_pow_pos _) Nat.one_pos
  rw [highest, BitVec.toNat_or, toNat_maskOf hk, toNat_lowest, mul_comm, Nat.two_pow_add_eq_or_of_lt hlt]
  apply Nat.eq_of_testBit_eq
  intro n
  rw [Nat.testBit_or, Nat.testBit_or, Nat.testBit_two_pow_sub_one, Nat.testBit_two_pow_mul]
  by_cases hn : n < N.width k
  · simp [hn]
  · simp [hn, Nat.testBit_div_two_pow, Nat.sub_add_cancel (not_lt.mp hn), not_lt.mp hn]

theorem lowest_of_aligned {k : ℕ} (h : (base k).toNat &&& (2 ^ N.width k - 1) = 0) :
    (N.lowest base k).toNat = (base k).toNat := by
  rw [Nat.and_two_pow_sub_one_eq_mod] at h
  rw [toNat_lowest]
  exact Nat.div_mul_cancel (Nat.dvd_of_mod_eq_zero h)

/-- **The test says that the address is in the region.** -/
theorem matches_iff {k : ℕ} (h : (base k).toNat &&& (2 ^ N.width k - 1) = 0) :
    N.Matches base addr k ↔ N.InRegion base addr k := by
  refine and_congr_right fun hw => ?_
  have hlow := lowest_of_aligned h
  rw [toNat_lowest] at hlow
  rw [← BitVec.toNat_inj, BitVec.toNat_ushiftRight, BitVec.toNat_ushiftRight,
    Nat.shiftRight_eq_div_pow, Nat.shiftRight_eq_div_pow, Nat.div_eq_iff (Nat.two_pow_pos _),
    hlow]
  have := Nat.two_pow_pos (N.width k)
  omega

/-- **An address is in one region at most.** -/
theorem region_unique (hb : N.Checked base) {k j : ℕ} (hk : k < N.regionCount)
    (hj : j < N.regionCount) (hak : N.InRegion base addr k) (haj : N.InRegion base addr j) : k = j := by
  have hsep (k j : ℕ) (hk : k < N.regionCount) (hj : j < N.regionCount) (hak : N.InRegion base addr k)
      (haj : N.InRegion base addr j) : ¬k < j := by
    intro hlt
    refine hb.disjoint k hk j hj ⟨hlt, hak.1, haj.1⟩ ⟨?_, ?_⟩
    · rw [BitVec.le_def, toNat_highest (hb.widths j hj haj.1).2, lowest_of_aligned (hb.aligned k hk),
        lowest_of_aligned (hb.aligned j hj)]
      have := hak.2
      have := haj.2
      omega
    · rw [BitVec.le_def, toNat_highest (hb.widths k hk hak.1).2, lowest_of_aligned (hb.aligned k hk),
        lowest_of_aligned (hb.aligned j hj)]
      have := hak.2
      have := haj.2
      omega
  rcases Nat.lt_trichotomy k j with h | h | h
  · exact absurd h (hsep k j hk hj hak haj)
  · exact h
  · exact absurd h (hsep j k hj hk haj hak)

/-- **The decoder in a map that is accepted** finds the region of the address, if the access is allowed
there, and else nothing. -/
theorem decode_eq_some_iff (hb : N.Checked N.baseAddrInt) {m j : ℕ} :
    N.decode read s prot addr = some (m, j) ↔ m < N.mCount ∧ j < N.mRegions ∧
      N.Permits read s prot m ∧ N.InRegion N.baseAddrInt addr (m * N.mRegions + j) := by
  have hmatch {r : ℕ × ℕ} (hr : r ∈ N.regions) : N.Matches N.baseAddrInt addr (r.1 * N.mRegions + r.2) ↔
      N.InRegion N.baseAddrInt addr (r.1 * N.mRegions + r.2) :=
    matches_iff (hb.aligned _ (index_lt hr))
  constructor
  · intro h
    obtain ⟨hm, hj, hp, hmat⟩ := decode_eq_some h
    exact ⟨hm, hj, hp, (hmatch (mem_regions.mpr ⟨hm, hj⟩)).mp hmat⟩
  · rintro ⟨hm, hj, hp, hin⟩
    have hr : (m, j) ∈ N.regions := mem_regions.mpr ⟨hm, hj⟩
    rcases hd : N.decode read s prot addr with - | ⟨m', j'⟩
    · exact absurd ((hmatch hr).mpr hin) (decode_eq_none hd hm hj hp)
    · obtain ⟨hm', hj', -, hmat'⟩ := decode_eq_some hd
      have hr' : (m', j') ∈ N.regions := mem_regions.mpr ⟨hm', hj'⟩
      have hin' := (hmatch hr').mp hmat'
      have heq := region_unique hb (index_lt hr) (index_lt hr') hin hin'
      -- the number of a region determines its slave
      have hpos : 0 < N.mRegions := hb.regions.1
      have hdiv (a b : ℕ) (hb : b < N.mRegions) : (a * N.mRegions + b) / N.mRegions = a := by
        rw [mul_comm, Nat.mul_add_div hpos, Nat.div_eq_of_lt hb, add_zero]
      have hmm : m = m' := by rw [← hdiv m j hj, heq, hdiv m' j' hj']
      subst hmm
      rw [Option.some.injEq, Prod.mk.injEq]
      exact ⟨rfl, (Nat.add_left_cancel heq).symm⟩

/-! ## The default layout -/

variable (N) in
/-- The next multiple of the size of region `k`. -/
def roundUp (e k : ℕ) : ℕ :=
  if e % 2 ^ N.width k ≠ 0 then e + 2 ^ N.width k - e % 2 ^ N.width k else e

variable (N) in
/-- Where the first `k` regions of the default layout end, without regard to the address width. -/
def layoutEnd : ℕ → ℕ
  | 0 => 0
  | k + 1 => if 0 < N.width k then N.roundUp (layoutEnd k) k + 2 ^ N.width k else layoutEnd k

theorem roundUp_mod (e k : ℕ) : N.roundUp e k % 2 ^ N.width k = 0 := by
  have hpos := Nat.two_pow_pos (N.width k)
  unfold roundUp
  split_ifs with h
  · have hlt := Nat.mod_lt e hpos
    have heq : e + 2 ^ N.width k - e % 2 ^ N.width k = (e / 2 ^ N.width k + 1) * 2 ^ N.width k := by
      have := Nat.div_add_mod' e (2 ^ N.width k)
      rw [Nat.add_mul, Nat.one_mul]
      omega
    rw [heq, Nat.mul_mod_left]
  · exact not_not.mp h

theorem le_roundUp (e k : ℕ) : e ≤ N.roundUp e k := by
  have := Nat.mod_lt e (Nat.two_pow_pos (N.width k))
  unfold roundUp
  split_ifs <;> omega

theorem roundUp_zero (k : ℕ) : N.roundUp 0 k = 0 := by simp [roundUp]

theorem roundUp_le {e k b : ℕ} (hle : e ≤ b) (hb : b % 2 ^ N.width k = 0) : N.roundUp e k ≤ b := by
  have hpos := Nat.two_pow_pos (N.width k)
  have hlt := Nat.mod_lt e hpos
  have he := Nat.div_add_mod' e (2 ^ N.width k)
  have hb' := Nat.div_add_mod' b (2 ^ N.width k)
  unfold roundUp
  split_ifs with h
  · have hdiv : e / 2 ^ N.width k < b / 2 ^ N.width k := by
      refine lt_of_le_of_ne (Nat.div_le_div_right hle) fun heq => ?_
      rw [heq] at he
      omega
    have := Nat.mul_le_mul_right (2 ^ N.width k) hdiv
    rw [Nat.succ_mul] at this
    omega
  · exact hle

theorem layoutEnd_succ {k : ℕ} (hk : N.width k ≠ 0) :
    N.layoutEnd (k + 1) = N.roundUp (N.layoutEnd k) k + 2 ^ N.width k :=
  if_pos (Nat.pos_of_ne_zero hk)

theorem layoutEnd_mono : Monotone N.layoutEnd := by
  refine monotone_nat_of_le_succ fun k => ?_
  rw [layoutEnd]
  split_ifs
  · exact (le_roundUp _ k).trans (Nat.le_add_right _ _)
  · exact Nat.le_refl _

theorem maskOf_add_one {w : ℕ} (hw : w ≤ N.addrWidth) : N.maskOf w + 1 = BitVec.ofNat _ (2 ^ w) := by
  apply BitVec.eq_of_toNat_eq
  rw [BitVec.toNat_add, toNat_maskOf hw, BitVec.toNat_ofNat]
  show (2 ^ w - 1 + (BitVec.ofNat _ 1).toNat) % _ = _
  rw [BitVec.toNat_ofNat, Nat.add_mod_mod, Nat.sub_add_cancel (Nat.two_pow_pos w)]

theorem and_maskOf {w e : ℕ} (hw : w ≤ N.addrWidth) :
    BitVec.ofNat _ e &&& N.maskOf w = BitVec.ofNat _ (e % 2 ^ w) := by
  apply BitVec.eq_of_toNat_eq
  rw [BitVec.toNat_and, toNat_maskOf hw, Nat.and_two_pow_sub_one_eq_mod, BitVec.toNat_ofNat,
    BitVec.toNat_ofNat, Nat.mod_mod_of_dvd _ (pow_dvd_pow 2 hw), eq_comm]
  apply Nat.mod_eq_of_lt
  exact (Nat.mod_lt _ (Nat.two_pow_pos _)).trans_le (Nat.pow_le_pow_right (by omega) hw)

/-- **One round of the loop**, on numbers. -/
theorem calcStep_eq {bases : ℕ → BitVec N.addrWidth} {e k : ℕ} (hk : N.width k ≠ 0)
    (hw : N.width k ≤ N.addrWidth) : N.calcStep (bases, BitVec.ofNat _ e) k =
      (Function.update bases k (BitVec.ofNat _ (N.roundUp e k)),
        BitVec.ofNat _ (N.roundUp e k + 2 ^ N.width k)) := by
  have hle := Nat.mod_le e (2 ^ N.width k)
  have hzero : BitVec.ofNat N.addrWidth (e % 2 ^ N.width k) = 0 ↔ e % 2 ^ N.width k = 0 := by
    rw [← BitVec.toNat_inj, BitVec.toNat_ofNat, Nat.mod_eq_of_lt]
    · rfl
    · exact (Nat.mod_lt _ (Nat.two_pow_pos _)).trans_le (Nat.pow_le_pow_right (by omega) hw)
  have hround : (if BitVec.ofNat N.addrWidth (e % 2 ^ N.width k) ≠ 0 then
      BitVec.ofNat _ e + BitVec.ofNat _ (2 ^ N.width k) - BitVec.ofNat _ (e % 2 ^ N.width k)
      else BitVec.ofNat _ e) = BitVec.ofNat N.addrWidth (N.roundUp e k) := by
    unfold roundUp
    by_cases h : e % 2 ^ N.width k = 0
    · rw [if_neg (not_not.mpr (hzero.mpr h)), if_neg (not_not.mpr h)]
    · rw [if_pos (mt hzero.mp h), if_pos h, sub_eq_iff_eq_add, ← BitVec.ofNat_add, ← BitVec.ofNat_add,
        Nat.sub_add_cancel (by omega)]
  simp only [calcStep]
  rw [if_pos (Nat.pos_of_ne_zero hk), maskOf_add_one hw, and_maskOf hw, hround, BitVec.ofNat_add]

theorem calcBaseAddrs_loop (hw : N.WidthsOk) {n : ℕ} (hn : n ≤ N.regionCount) :
    ∃ bases, (List.range n).foldl N.calcStep (fun _ => 0, 0) = (bases, BitVec.ofNat _ (N.layoutEnd n)) ∧
      ∀ k < n, N.width k ≠ 0 → bases k = BitVec.ofNat _ (N.roundUp (N.layoutEnd k) k) := by
  induction n with
  | zero => exact ⟨fun _ => 0, rfl, fun k hk => absurd hk (Nat.not_lt_zero k)⟩
  | succ n ih =>
    obtain ⟨bases, hloop, hbase⟩ := ih (by omega)
    rw [List.range_succ, List.foldl_append, List.foldl_cons, List.foldl_nil, hloop]
    by_cases hk : N.width n = 0
    · refine ⟨bases, by simp [calcStep, layoutEnd, hk], fun k hkn hwk => hbase k ?_ hwk⟩
      refine lt_of_le_of_ne (Nat.le_of_lt_succ hkn) ?_
      rintro rfl
      exact hwk hk
    · refine ⟨_, by rw [calcStep_eq hk (hw n (by omega) hk).2, layoutEnd_succ hk], fun k hkn hwk => ?_⟩
      by_cases heq : k = n
      · rw [heq, Function.update_self]
      · rw [Function.update_of_ne heq]
        exact hbase k (by omega) hwk

theorem calcBaseAddrs_eq (hw : N.WidthsOk) {k : ℕ} (hk : k < N.regionCount) (hwk : N.width k ≠ 0) :
    N.calcBaseAddrs k = BitVec.ofNat _ (N.roundUp (N.layoutEnd k) k) := by
  obtain ⟨bases, hloop, hbase⟩ := calcBaseAddrs_loop hw (Nat.le_refl _)
  rw [calcBaseAddrs, hloop]
  exact hbase k hk hwk

theorem calcBaseAddrs_aligned (hw : N.WidthsOk) : N.Aligned N.calcBaseAddrs := by
  intro k hk
  by_cases hwk : N.width k = 0
  · simp [hwk]
  · rw [calcBaseAddrs_eq hw hk hwk, Nat.and_two_pow_sub_one_eq_mod, BitVec.toNat_ofNat,
      Nat.mod_mod_of_dvd _ (pow_dvd_pow 2 (hw k hk hwk).2), roundUp_mod]

theorem calcBaseAddrs_disjoint (hw : N.WidthsOk) (hfit : N.layoutEnd N.regionCount ≤ 2 ^ N.addrWidth) :
    N.Disjoint N.calcBaseAddrs := by
  have hbase (k : ℕ) (hk : k < N.regionCount) (hwk : N.width k ≠ 0) :
      (N.calcBaseAddrs k).toNat = N.roundUp (N.layoutEnd k) k := by
    rw [calcBaseAddrs_eq hw hk hwk, BitVec.toNat_ofNat]
    apply Nat.mod_eq_of_lt
    have hend := layoutEnd_mono (N := N) (Nat.succ_le_of_lt hk)
    rw [Nat.succ_eq_add_one, layoutEnd_succ hwk] at hend
    have := Nat.two_pow_pos (N.width k)
    omega
  rintro k hk j hj ⟨hkj, hwk, hwj⟩ ⟨-, hle⟩
  have hlow := lowest_of_aligned (calcBaseAddrs_aligned hw j hj)
  have hhigh : (N.highest N.calcBaseAddrs k).toNat = _ := toNat_highest (hw k hk hwk).2
  rw [lowest_of_aligned (calcBaseAddrs_aligned hw k hk)] at hhigh
  rw [BitVec.le_def, hlow, hhigh, hbase k hk hwk, hbase j hj hwj] at hle
  -- region `k` ends where the layout goes on, and `j` starts behind that
  have hend := layoutEnd_mono (N := N) (Nat.succ_le_of_lt hkj)
  rw [Nat.succ_eq_add_one, layoutEnd_succ hwk] at hend
  have hstart := le_roundUp (N := N) (N.layoutEnd j) j
  have := Nat.two_pow_pos (N.width k)
  omega

theorem exists_first {n : ℕ} (hn : 0 < N.layoutEnd n) :
    ∃ j < n, N.width j ≠ 0 ∧ N.layoutEnd j = 0 := by
  induction n with
  | zero => exact absurd hn (Nat.lt_irrefl 0)
  | succ n ih =>
    by_cases h : N.layoutEnd n = 0
    · refine ⟨n, Nat.lt_succ_self n, fun hw => ?_, h⟩
      rw [layoutEnd, if_neg (by omega), h] at hn
      exact Nat.lt_irrefl 0 hn
    · obtain ⟨j, hj, hwj⟩ := ih (Nat.pos_of_ne_zero h)
      exact ⟨j, by omega, hwj⟩

theorem not_disjoint_of_lt (hw : N.WidthsOk) (hbig : 2 ^ N.addrWidth < N.layoutEnd N.regionCount) :
    ¬N.Disjoint N.calcBaseAddrs := by
  have hex : ∃ n, 2 ^ N.addrWidth < N.layoutEnd n := ⟨_, hbig⟩
  -- the region with which the layout leaves the address space
  obtain ⟨k, hk⟩ : ∃ k, Nat.find hex = k + 1 := by
    refine Nat.exists_eq_succ_of_ne_zero fun h0 => ?_
    have := Nat.find_spec hex
    rw [h0, layoutEnd] at this
    exact Nat.not_lt_zero _ this
  have hover := Nat.find_spec hex
  rw [hk] at hover
  have hfit : N.layoutEnd k ≤ 2 ^ N.addrWidth := not_lt.mp (Nat.find_min hex (by omega))
  have hkn : k < N.regionCount := by
    have := Nat.find_min' hex hbig
    omega
  have hwk : N.width k ≠ 0 := by
    intro h
    rw [layoutEnd, if_neg (by omega)] at hover
    omega
  have hdvd : 2 ^ N.width k ∣ 2 ^ N.addrWidth := pow_dvd_pow 2 (hw k hkn hwk).2
  have hstart : N.roundUp (N.layoutEnd k) k = 2 ^ N.addrWidth := by
    refine Nat.le_antisymm (roundUp_le hfit (Nat.mod_eq_zero_of_dvd hdvd)) ?_
    rw [layoutEnd_succ hwk] at hover
    by_contra hlt
    have hmul := Nat.dvd_of_mod_eq_zero (roundUp_mod (N := N) (N.layoutEnd k) k)
    obtain ⟨a, ha⟩ := hmul
    obtain ⟨b, hb⟩ := hdvd
    rw [ha, hb] at hlt
    rw [ha, hb] at hover
    have hab : a < b := lt_of_mul_lt_mul_left (not_le.mp hlt) (Nat.zero_le _)
    have := Nat.mul_le_mul_left (2 ^ N.width k) (Nat.succ_le_of_lt hab)
    rw [Nat.mul_succ] at this
    omega
  obtain ⟨j, hjk, hwj, hj0⟩ := exists_first (N := N) (n := k) (by
    refine Nat.pos_of_ne_zero fun h0 => ?_
    rw [h0, roundUp_zero] at hstart
    have := Nat.two_pow_pos N.addrWidth
    omega)
  have hlow {i : ℕ} (hi : N.calcBaseAddrs i = 0) (x : BitVec N.addrWidth) :
      N.lowest N.calcBaseAddrs i ≤ x := by
    rw [BitVec.le_def, lowest, hi, BitVec.toNat_and]
    exact (Nat.and_le_left).trans (Nat.zero_le _)
  have hk0 : N.calcBaseAddrs k = 0 := by
    rw [calcBaseAddrs_eq hw hkn hwk, hstart]
    apply BitVec.eq_of_toNat_eq
    rw [BitVec.toNat_ofNat, Nat.mod_self]
    rfl
  have hj0' : N.calcBaseAddrs j = 0 := by
    rw [calcBaseAddrs_eq hw (hjk.trans hkn) hwj, hj0, roundUp_zero]
    rfl
  intro h
  exact h j (hjk.trans hkn) k hkn ⟨hjk, hwj, hwk⟩ ⟨hlow hj0' _, hlow hk0 _⟩

/-- **The default layout** is accepted exactly if it fits the address space. -/
theorem calcBaseAddrs_checked (hr : 1 ≤ N.mRegions ∧ N.mRegions ≤ 16) (hw : N.WidthsOk) :
    N.Checked N.calcBaseAddrs ↔ N.layoutEnd N.regionCount ≤ 2 ^ N.addrWidth := by
  constructor
  · intro h
    by_contra hbig
    exact not_disjoint_of_lt hw (not_le.mp hbig) h.disjoint
  · exact fun hfit => ⟨hr, hw, calcBaseAddrs_aligned hw, calcBaseAddrs_disjoint hw hfit⟩

/-- One master, and two slaves of 4 kB and of 64 kB without base addresses. -/
def twoSlaves : NetParams where
  sCount := 1
  mCount := 2
  dataWidth := 32
  addrWidth := 20
  strbWidth := 4
  idWidth := 8
  awuserEnable := false
  awuserWidth := 1
  wuserEnable := false
  wuserWidth := 1
  buserEnable := false
  buserWidth := 1
  aruserEnable := false
  aruserWidth := 1
  ruserEnable := false
  ruserWidth := 1
  forwardId := false
  mRegions := 1
  mBaseAddr := fun _ => 0
  mAddrWidth := fun k => if k = 0 then 12 else 16
  mConnectRead := fun _ => true
  mConnectWrite := fun _ => true
  mSecure := fun _ => false

/-- The second slave is moved up to its alignment. -/
theorem calcBaseAddrs_twoSlaves :
    (twoSlaves.calcBaseAddrs 1).toNat = 0x10000 ∧ twoSlaves.Checked twoSlaves.calcBaseAddrs :=
  ⟨by decide, (calcBaseAddrs_checked (N := twoSlaves) (by decide) (by decide)).mpr (by decide)⟩

end NetParams

end PacketBuffering
