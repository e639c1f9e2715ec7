import PacketBuffering.Net.Transaction

/-!
# The wrappers of the interconnect

`axi_interconnect_wrap_1x8.v` and `axi_interconnect_wrap_3x8.v`: the interconnect with the address map of
the system, for one master and for three.

* `wrapBaseAddr`, `wrapAddrWidth`, `wS`, `wrap`: the parameters with which they instantiate it.
* `wrap_checked`: the map is accepted; **`wrap_decode`**: what it says for the first master.
* **`wrap3x8_decode`**: the other two masters of the wrapper for three are not connected.
* `uartWrite`, `uartWrite_served`: runs in which masters write to the UART.
-/

namespace PacketBuffering

/-- `M00_BASE_ADDR` to `M07_BASE_ADDR` -/
def wrapBaseAddr : List (BitVec 32) :=
  [0x00000000, 0x00010000, 0x00020000, 0x00021000, 0x00022000, 0x00023000, 0x00024000, 0x00025000]

/-- `M00_ADDR_WIDTH` to `M07_ADDR_WIDTH` -/
def wrapAddrWidth : List (BitVec 32) := [16, 16, 12, 12, 12, 12, 12, 12]

/-- `M00_CONNECT_READ` to `M07_CONNECT_WRITE`, which are all `1'b1` -/
def wrapConnect : BitVec 1 := 1

/-- `w_s` -/
def wS (sCount : ℕ) (val : BitVec 1) : BitVec sCount := val.setWidth sCount

/-- **The interconnect of a wrapper** for `sCount` masters. -/
def wrap (sCount : ℕ) : NetParams where
  sCount := sCount
  mCount := 8
  dataWidth := 32
  addrWidth := 32
  strbWidth := 4
  idWidth := 8
  awuserEnable := false
  awuserWidth := 1
  wuserEnable := false
  wuserWidth := 1
  buserEnable := false
  buserWidth := 1
  aruserEnable := false
  aruserWidth := 1
  ruserEnable := false
  ruserWidth := 1
  forwardId := false
  mRegions := 1
  mBaseAddr := fun k => wrapBaseAddr.getD k 0
  mAddrWidth := fun k => wrapAddrWidth.getD k 0
  mConnectRead := fun k => (wS sCount wrapConnect).getLsbD (k % sCount)
  mConnectWrite := fun k => (wS sCount wrapConnect).getLsbD (k % sCount)
  mSecure := fun _ => false

/-- The base address of region `k` of a wrapper. -/
def wrapBase (k : ℕ) : ℕ := (wrapBaseAddr.getD k 0).toNat

/-- The size of region `k` of a wrapper. -/
def wrapSize (k : ℕ) : ℕ := 2 ^ (wrapAddrWidth.getD k 0).toNat

section Map

variable {sCount : ℕ}

theorem wrap_baseAddrInt : (wrap sCount).baseAddrInt = fun k => wrapBaseAddr.getD k 0 := by
  unfold NetParams.baseAddrInt
  exact if_pos ⟨1, by show 1 < 8 * 1; decide, by show wrapBaseAddr.getD 1 0 ≠ 0; decide⟩

theorem wrap_checked (h : sCount = 1 ∨ sCount = 3) : (wrap sCount).Checked (wrap sCount).baseAddrInt := by
  rcases h with rfl | rfl <;> decide +kernel

theorem width_wrap_ne_zero : ∀ m < 8, wrapAddrWidth.getD m 0 ≠ 0 := by decide

theorem wrap_permits (h : 0 < sCount) (read : Bool) (prot : BitVec 3) (m : ℕ) :
    (wrap sCount).Permits read 0 prot m := by
  refine ⟨.inl rfl, ?_⟩
  have hbit : (wS sCount wrapConnect).getLsbD ((0 + m * sCount) % sCount) = true := by
    rw [Nat.zero_add, Nat.mul_mod_left, wS, BitVec.getLsbD_setWidth]
    simp [h, wrapConnect]
  cases read <;> exact hbit

/-- **The map of the wrappers**: the first master reaches slave `m` at the addresses from its base up to
its size, and no slave elsewhere. -/
theorem wrap_decode (h : sCount = 1 ∨ sCount = 3) (read : Bool) (prot : BitVec 3)
    (addr : BitVec (wrap sCount).addrWidth) (m j : ℕ) : (wrap sCount).decode read 0 prot addr = some (m, j) ↔
      m < 8 ∧ j = 0 ∧ wrapBase m ≤ addr.toNat ∧ addr.toNat < wrapBase m + wrapSize m := by
  refine (NetParams.decode_eq_some_iff (wrap_checked h)).trans ?_
  have hin (hm : m < 8) (hj : j = 0) : (wrap sCount).InRegion (wrap sCount).baseAddrInt addr
      (m * (wrap sCount).mRegions + j) ↔
        wrapBase m ≤ addr.toNat ∧ addr.toNat < wrapBase m + wrapSize m := by
    subst hj
    rw [wrap_baseAddrInt, Nat.add_zero, show m * (wrap sCount).mRegions = m from Nat.mul_one m]
    refine and_iff_right (fun h0 => width_wrap_ne_zero m hm ?_)
    exact BitVec.eq_of_toNat_eq h0
  constructor
  · rintro ⟨hm, hj, -, hreg⟩
    have hj0 : j = 0 := Nat.lt_one_iff.mp hj
    exact ⟨hm, hj0, (hin hm hj0).mp hreg⟩
  · rintro ⟨hm, rfl, hreg⟩
    exact ⟨hm, Nat.one_pos, wrap_permits (by omega) read prot m, (hin hm rfl).mpr hreg⟩

/-- An address of the UART. -/
theorem wrap_decode_uart : (wrap 1).decode false 0 0 (BitVec.ofNat 32 0x20004) = some (2, 0) :=
  (wrap_decode (.inl rfl) false 0 (BitVec.ofNat 32 0x20004) 2 0).mpr (by decide)

end Map

/-! ## Three masters -/

theorem wrap3x8_decode {n : ℕ} (hn : n = 1 ∨ n = 2) (read : Bool) (prot : BitVec 3)
    (addr : BitVec (wrap 3).addrWidth) : (wrap 3).decode read n prot addr = none := by
  rcases hd : (wrap 3).decode read n prot addr with - | ⟨m, j⟩
  · rfl
  · obtain ⟨-, -, ⟨-, hperm⟩, -⟩ := NetParams.decode_eq_some hd
    have hbit : (wS 3 wrapConnect).getLsbD ((n + m * 3) % 3) = true := by
      cases read <;> exact hperm
    rw [Nat.add_mul_mod_self_right] at hbit
    rcases hn with rfl | rfl <;> exact absurd hbit (by decide)

/-! ## Runs -/

/-- The masters in `who` write a word to the UART, again and again; `answer`: the UART sends a response;
`take`: the masters take responses. -/
def uartWrite (sCount : ℕ) (who : ℕ → Bool) (take answer : Bool) : NetIn (wrap sCount) where
  rst := false
  sAwvalid := who
  sAw := fun _ => ⟨5, 0x00020004, 0, 2, 1, false, 0, 0, 0, 0⟩
  sWvalid := who
  sW := fun _ => ⟨0x41, 0xF, true, 0⟩
  sBready := fun _ => take
  sArvalid := fun _ => false
  sAr := fun _ => ⟨0, 0, 0, 0, 0, false, 0, 0, 0, 0⟩
  sRready := fun _ => true
  mAwready := fun _ => true
  mWready := fun _ => true
  mBvalid := fun m => answer && m == 2
  mB := fun _ => ⟨0, 0, 0⟩
  mArready := fun _ => true
  mRvalid := fun _ => false
  mR := fun _ => ⟨0, 0, 0, false, 0⟩

theorem uartWrite_served {sCount : ℕ} {who : ℕ → Bool} {take : Bool} (answers : List Bool)
    {t : NetTrace (wrap sCount)}
    (haw : ∀ k, Keeps (t.owesAw k) (who k) ⟨5, 0x00020004, 0, 2, 1, false, 0, 0, 0, 0⟩)
    (har : ∀ k, t.owesAr k = none)
    (h : Along NetTrace.step (fun t i => i.mBvalid 2 = true →
      (t.log (.mB 2)).length < (t.log (.mAw 2)).length ∧
        (t.log (.mB 2)).length < (t.log (.mW 2)).countP NetBeat.isLast)
      t (answers.map (uartWrite sCount who take))) :
    Along NetTrace.step NetTrace.Served t (answers.map (uartWrite sCount who take)) := by
  induction answers generalizing t with
  | nil => trivial
  | cons answer answers ih =>
    refine ⟨⟨rfl, haw, fun k => by rw [har]; exact keeps_none _ _, fun m hm => ?_, nofun⟩,
      ih (fun k y hy => ?_) (fun k => rfl) h.2⟩
    · obtain rfl : m = 2 := by
        have hm' : (answer && m == 2) = true := hm
        rw [Bool.and_eq_true, beq_iff_eq] at hm'
        exact hm'.2
      exact h.1 hm
    · have hy' : owed (who k) (t.net.sAwready k) _ = some y := hy
      unfold owed at hy'
      split_ifs at hy' with hv
      rw [Bool.and_eq_true] at hv
      exact ⟨hv.1, Option.some.inj hy'⟩

end PacketBuffering
