import PacketBuffering.Aes.Bursts
import PacketBuffering.Lib.Lanes
import PacketBuffering.Lib.Wrap

/-!
# Beat addresses of the AES slave

`next_burst_addr` against the addresses that the bus gives the beats of a burst.

* `AesReq.axiAddr`: the address of a beat by the bus; `AesReq.Legal`: the bursts it allows.
* `toNat_next_wrap`: on a wrapping burst the function is `wrapNextMod` on numbers.
* **`beatAddr_eq_axiAddr_iff`**: the addresses agree unless a wrapping burst lies at the top of the
  address space.
-/

namespace PacketBuffering

namespace AesReq

variable {R : AesParams} (r : AesReq R)

/-- The size in bytes of the region of a wrapping burst. -/
def wrapBytes : ℕ := (r.len.toNat + 1) * 2 ^ r.size.toNat

/-- The start of that region: the start address rounded down. -/
def wrapBase : ℕ := r.addr.toNat / r.wrapBytes * r.wrapBytes

/-- The address of beat `i` by the bus. -/
def axiAddr (i : ℕ) : BitVec R.addrWidth :=
  match r.burst with
  | 0b00 => r.addr
  | 0b01 => BitVec.ofNat _ (r.addr.toNat + i * 2 ^ r.size.toNat)
  | 0b10 => BitVec.ofNat _
      (r.wrapBase + (r.addr.toNat - r.wrapBase + i * 2 ^ r.size.toNat) % r.wrapBytes)
  | _ => r.addr

/-- A burst that the bus allows: of one of the three types, aligned to its size, and of two, four,
eight or sixteen beats if it wraps. -/
structure Legal : Prop where
  burst : r.burst ≠ 0b11
  aligned : 2 ^ r.size.toNat ∣ r.addr.toNat
  wrap : r.burst = 0b10 → ∃ j < 4, r.len.toNat + 1 = 2 ^ (j + 1)

variable {r}

/-! ## The three types of burst -/

theorem next_fixed (h : r.burst = 0b00) (a : BitVec R.addrWidth) : r.next a = a := by
  simp [next, nextBurstAddr, h]

theorem next_incr (h : r.burst = 0b01) (a : BitVec R.addrWidth) :
    r.next a = a + BitVec.ofNat _ (2 ^ r.size.toNat) := by
  simp only [next, nextBurstAddr, h, Nat.one_shiftLeft]
  rfl

theorem next_wrap (h : r.burst = 0b10) {base bytes : BitVec R.addrWidth}
    (hbytes : (r.len.setWidth R.addrWidth + 1) <<< r.size.toNat = bytes)
    (hbase : r.addr &&& ~~~(bytes - 1) = base) (a : BitVec R.addrWidth) :
    r.next a = if base + bytes ≤ a + BitVec.ofNat _ (2 ^ r.size.toNat) then base
      else a + BitVec.ofNat _ (2 ^ r.size.toNat) := by
  simp only [next, nextBurstAddr, h, hbytes, hbase, Nat.one_shiftLeft]
  rfl

theorem beatAddr_fixed (h : r.burst = 0b00) (i : ℕ) : r.beatAddr i = r.addr := by
  induction i with
  | zero => rfl
  | succ i ih => rw [beatAddr, Function.iterate_succ_apply', next_fixed h]; exact ih

theorem beatAddr_incr (h : r.burst = 0b01) (i : ℕ) :
    r.beatAddr i = BitVec.ofNat _ (r.addr.toNat + i * 2 ^ r.size.toNat) := by
  induction i with
  | zero => simp [beatAddr]
  | succ i ih =>
    rw [beatAddr, Function.iterate_succ_apply', next_incr h]
    show r.beatAddr i + _ = _
    rw [ih, ← BitVec.ofNat_add, Nat.succ_mul, Nat.add_assoc]

/-- The byte address of beat `k` of an incrementing burst. -/
def byteAddr (r : AesReq R) (k : ℕ) : ℕ := r.addr.toNat + k * 2 ^ r.size.toNat

/-! ## Wrapping bursts -/

theorem wrapBytes_le (r : AesReq R) : r.wrapBytes ≤ 2 ^ 15 := by
  have hlen : r.len.toNat + 1 ≤ 2 ^ 8 := r.len.isLt
  have hsize : r.size.toNat ≤ 7 := Nat.le_of_lt_succ r.size.isLt
  calc r.wrapBytes ≤ 2 ^ 8 * 2 ^ 7 :=
        Nat.mul_le_mul hlen (Nat.pow_le_pow_right (by omega) hsize)
    _ = 2 ^ 15 := by norm_num

theorem toNat_wrapBytes (haw : 16 ≤ R.addrWidth) :
    ((r.len.setWidth R.addrWidth + 1) <<< r.size.toNat).toNat = r.wrapBytes := by
  have hlen : r.len.toNat + 1 ≤ 2 ^ 8 := r.len.isLt
  have hpow : 2 ^ 16 ≤ 2 ^ R.addrWidth := Nat.pow_le_pow_right (by omega) haw
  have hle := r.wrapBytes_le
  have hone : (1 : BitVec R.addrWidth).toNat = 1 := by
    show 1 % 2 ^ R.addrWidth = 1
    exact Nat.mod_eq_of_lt (by omega)
  rw [BitVec.toNat_shiftLeft, BitVec.toNat_add, BitVec.toNat_setWidth, hone,
    Nat.mod_eq_of_lt (a := r.len.toNat) (by omega), Nat.mod_eq_of_lt (a := _ + 1) (by omega),
    Nat.shiftLeft_eq]
  exact Nat.mod_eq_of_lt (by unfold wrapBytes at hle; omega)

theorem Legal.wrapBytes_eq (hl : r.Legal) (h : r.burst = 0b10) : ∃ k ≤ 11, r.wrapBytes = 2 ^ k := by
  obtain ⟨j, hlt, hj⟩ := hl.wrap h
  have hsize : r.size.toNat ≤ 7 := Nat.le_of_lt_succ r.size.isLt
  exact ⟨j + 1 + r.size.toNat, by omega, by rw [wrapBytes, hj, pow_add _ (j + 1)]⟩

theorem toNat_next_wrap (haw : 16 ≤ R.addrWidth) (hl : r.Legal) (h : r.burst = 0b10)
    (a : BitVec R.addrWidth) : (r.next a).toNat =
      wrapNextMod (2 ^ R.addrWidth) r.wrapBase r.wrapBytes (2 ^ r.size.toNat) a.toNat := by
  obtain ⟨k, -, hpow⟩ := hl.wrapBytes_eq h
  have hbytes : (r.len.setWidth R.addrWidth + 1) <<< r.size.toNat =
      BitVec.ofNat R.addrWidth (2 ^ k) := by
    apply BitVec.eq_of_toNat_eq
    rw [BitVec.toNat_ofNat, ← hpow, ← toNat_wrapBytes haw]
    exact (Nat.mod_eq_of_lt (BitVec.isLt _)).symm
  have hsize : (BitVec.ofNat R.addrWidth (2 ^ r.size.toNat)).toNat = 2 ^ r.size.toNat := by
    rw [BitVec.toNat_ofNat]
    exact Nat.mod_eq_of_lt (Nat.pow_lt_pow_right (by omega) (by omega))
  have hto : (alignDown k r.addr).toNat = r.wrapBase := by
    rw [toNat_alignDown, ← hpow, wrapBase]
  have hb : (BitVec.ofNat R.addrWidth (2 ^ k)).toNat = r.wrapBytes := by
    rw [← hbytes, toNat_wrapBytes haw]
  rw [next_wrap h hbytes (and_not_sub_one _ _), wrapNextMod, apply_ite BitVec.toNat]
  simp only [BitVec.le_def, BitVec.toNat_add, hto, hb, hsize]

theorem toNat_beatAddr_wrap (haw : 16 ≤ R.addrWidth) (hl : r.Legal) (h : r.burst = 0b10) (i : ℕ) :
    (r.beatAddr i).toNat =
      (wrapNextMod (2 ^ R.addrWidth) r.wrapBase r.wrapBytes (2 ^ r.size.toNat))^[i] r.addr.toNat :=
  Function.Semiconj.iterate_right (toNat_next_wrap haw hl h) i r.addr

theorem Legal.exists_addr_eq (hl : r.Legal) : ∃ q < r.len.toNat + 1,
    r.addr.toNat = r.wrapBase + q * 2 ^ r.size.toNat := by
  obtain ⟨p, hp⟩ := hl.aligned
  have hpos : 0 < 2 ^ r.size.toNat := Nat.two_pow_pos _
  refine ⟨p % (r.len.toNat + 1), Nat.mod_lt _ (Nat.succ_pos _), ?_⟩
  have hbase : r.wrapBase = p / (r.len.toNat + 1) * (r.len.toNat + 1) * 2 ^ r.size.toNat := by
    rw [wrapBase, wrapBytes, hp, Nat.mul_comm (2 ^ _) p, Nat.mul_div_mul_right _ _ hpos, Nat.mul_assoc]
  rw [hbase, ← Nat.add_mul, Nat.div_add_mod', hp, Nat.mul_comm]

theorem wrapBase_add_le (haw : 16 ≤ R.addrWidth) (hl : r.Legal) (h : r.burst = 0b10) :
    r.wrapBase + r.wrapBytes ≤ 2 ^ R.addrWidth := by
  obtain ⟨k, hk, hpow⟩ := hl.wrapBytes_eq h
  obtain ⟨c, hc⟩ : r.wrapBytes ∣ 2 ^ R.addrWidth := hpow ▸ Nat.pow_dvd_pow 2 (by omega)
  have hq : r.addr.toNat / r.wrapBytes < c :=
    Nat.div_lt_of_lt_mul (hc ▸ r.addr.isLt)
  calc r.wrapBase + r.wrapBytes = (r.addr.toNat / r.wrapBytes + 1) * r.wrapBytes := by
        rw [wrapBase, Nat.succ_mul]
    _ ≤ c * r.wrapBytes := Nat.mul_le_mul_right _ hq
    _ = 2 ^ R.addrWidth := by rw [hc, Nat.mul_comm]

theorem toNat_axiAddr_wrap (haw : 16 ≤ R.addrWidth) (hl : r.Legal) (h : r.burst = 0b10) {q : ℕ}
    (hq : r.addr.toNat = r.wrapBase + q * 2 ^ r.size.toNat) (i : ℕ) :
    (r.axiAddr i).toNat = r.wrapBase + (q + i) % (r.len.toNat + 1) * 2 ^ r.size.toNat := by
  have hpos : 0 < 2 ^ r.size.toNat := Nat.two_pow_pos _
  have hoff : r.addr.toNat - r.wrapBase + i * 2 ^ r.size.toNat = (q + i) * 2 ^ r.size.toNat := by
    rw [hq, Nat.add_sub_cancel_left, Nat.add_mul]
  have hmod : (q + i) * 2 ^ r.size.toNat % r.wrapBytes =
      (q + i) % (r.len.toNat + 1) * 2 ^ r.size.toNat := Nat.mul_mod_mul_right _ _ _
  have hlt : (q + i) % (r.len.toNat + 1) * 2 ^ r.size.toNat < r.wrapBytes :=
    Nat.mul_lt_mul_of_pos_right (Nat.mod_lt _ (Nat.succ_pos _)) hpos
  have hle := wrapBase_add_le haw hl h
  have haxi : r.axiAddr i = BitVec.ofNat _
      (r.wrapBase + (q + i) % (r.len.toNat + 1) * 2 ^ r.size.toNat) := by
    simp only [axiAddr, h, hoff, hmod]
    rfl
  rw [haxi, BitVec.toNat_ofNat, Nat.mod_eq_of_lt (by omega)]

theorem beatAddr_eq_axiAddr_of_ne_wrap (hl : r.Legal) (h : r.burst ≠ 0b10) (i : ℕ) :
    r.beatAddr i = r.axiAddr i := by
  obtain hb | hb : r.burst = 0b00 ∨ r.burst = 0b01 := by
    have := hl.burst
    revert this h
    generalize r.burst = b
    revert b
    decide
  · rw [beatAddr_fixed hb]
    simp only [axiAddr, hb]
    rfl
  · rw [beatAddr_incr hb]
    simp only [axiAddr, hb]
    rfl

theorem beatAddr_eq_axiAddr_wrap_iff (haw : 16 ≤ R.addrWidth) (hl : r.Legal) (h : r.burst = 0b10) :
    (∀ i ≤ r.len.toNat, r.beatAddr i = r.axiAddr i) ↔
      r.wrapBase + r.wrapBytes < 2 ^ R.addrWidth ∨
        r.len = 1 ∧ r.addr.toNat = r.wrapBase + 2 ^ r.size.toNat := by
  obtain ⟨q, hq, haddr⟩ := hl.exists_addr_eq
  obtain ⟨j, -, hj⟩ := hl.wrap h
  have hpos : 0 < 2 ^ r.size.toNat := Nat.two_pow_pos _
  have hbeats : 2 ≤ r.len.toNat + 1 := by
    rw [hj, pow_succ]
    exact Nat.le_mul_of_pos_left 2 (Nat.two_pow_pos j)
  have hlen : r.len = 1 ↔ r.len.toNat + 1 = 2 := by
    rw [BitVec.toNat_eq]
    exact (Nat.succ_inj (b := 1)).symm
  have hone : r.addr.toNat = r.wrapBase + 2 ^ r.size.toNat ↔ q = 1 := by
    rw [haddr, Nat.add_left_cancel_iff]
    exact Nat.mul_eq_right hpos.ne'
  rw [hlen, hone]
  calc (∀ i ≤ r.len.toNat, r.beatAddr i = r.axiAddr i)
      ↔ ∀ i < r.len.toNat + 1, (wrapNextMod (2 ^ R.addrWidth) r.wrapBase r.wrapBytes
          (2 ^ r.size.toNat))^[i] (r.wrapBase + q * 2 ^ r.size.toNat) =
          r.wrapBase + (q + i) % (r.len.toNat + 1) * 2 ^ r.size.toNat := by
        refine forall_congr' fun i => imp_congr Nat.lt_succ_iff.symm ?_
        rw [BitVec.toNat_eq, toNat_beatAddr_wrap haw hl h, toNat_axiAddr_wrap haw hl h haddr, haddr]
    _ ↔ _ := by
        rw [wrapBytes, wrapNextMod_iterate_iff hpos hq (wrapBase_add_le haw hl h)]
        exact or_congr_right (or_iff_right (by omega))

/-- **Burst addresses.** The beats of a legal burst have the addresses that the bus gives them, except
that a wrapping burst must end below the top of the address space, or have two beats and start at
the second. -/
theorem beatAddr_eq_axiAddr_iff (haw : 16 ≤ R.addrWidth) (hl : r.Legal) :
    (∀ i ≤ r.len.toNat, r.beatAddr i = r.axiAddr i) ↔
      (r.burst = 0b10 → r.wrapBase + r.wrapBytes < 2 ^ R.addrWidth ∨
        r.len = 1 ∧ r.addr.toNat = r.wrapBase + 2 ^ r.size.toNat) := by
  by_cases h : r.burst = 0b10
  · rw [beatAddr_eq_axiAddr_wrap_iff haw hl h, forall_prop_of_true h]
  · exact iff_of_true (fun i _ => beatAddr_eq_axiAddr_of_ne_wrap hl h i) fun hw => absurd hw h

/-- A burst of four words that wraps. -/
def wrapping (addr : BitVec 32) : AesReq .default := ⟨0, addr, 3, 2, 0b10⟩

theorem wrapping_legal {addr : BitVec 32} (h : 4 ∣ addr.toNat) : (wrapping addr).Legal :=
  ⟨by simp [wrapping], h, fun _ => ⟨1, by omega, rfl⟩⟩

/-- Below the top, from the third word of the region. -/
theorem beatAddr_eq_axiAddr_iff_middle :
    (wrapping 0x18).axiAddr 2 = 0x10 ∧ (wrapping 0x18).beatAddr 2 = (wrapping 0x18).axiAddr 2 := by
  have hagree := (beatAddr_eq_axiAddr_iff (r := wrapping 0x18) (by decide)
    (wrapping_legal (by decide))).mpr fun _ => .inl (by decide)
  exact ⟨by decide, hagree 2 (by decide)⟩

/-- At the top every beat but the first falls on the start of the region. -/
theorem beatAddr_ne_axiAddr_top :
    (wrapping 0xFFFFFFF0).Legal ∧ (wrapping 0xFFFFFFF0).beatAddr 2 = 0xFFFFFFF0 ∧
      (wrapping 0xFFFFFFF0).axiAddr 2 = 0xFFFFFFF8 ∧
      ¬ ∀ i ≤ 3, (wrapping 0xFFFFFFF0).beatAddr i = (wrapping 0xFFFFFFF0).axiAddr i := by
  refine ⟨wrapping_legal (by decide), by decide, by decide, fun h => ?_⟩
  have h2 := h 2 (by decide)
  revert h2
  decide

end AesReq

end PacketBuffering
