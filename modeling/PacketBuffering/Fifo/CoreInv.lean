import PacketBuffering.Fifo.Core
import PacketBuffering.Lib.Run

/-!
# The invariant of the asynchronous FIFO

After `w` accepted writes and `r` accepted reads each domain holds a stale count of the other,
and its flag is the comparison with a still older one.

* `WrSide`, `RdSide`: the invariant of one domain with the synchroniser that feeds it;
  `WrSide.clock`, `RdSide.clock`: a clock edge keeps it.
* `MemHolds`: the last `DEPTH` accepted words are in the memory.
* `CoreInv`, **`CoreInv.step`**: the invariant of `async_fifo_top`, kept by every event out of
  reset; `CoreInv.rdData_of_pops`, `CoreInv.rdData_of_not_pops`: what the read register holds.
* **`asyncFifo_correct`**: what the FIFO guarantees along every run from reset.
-/

namespace PacketBuffering

variable {P : FifoParams} {α : Type*}

theorem depth_pos : 0 < P.depth := Nat.two_pow_pos _

theorem two_pow_ptrWidth : 2 ^ P.ptrWidth = 2 * P.depth := pow_succ' 2 P.addrWidth

theorem setWidth_ofNat_ptr (n : ℕ) :
    (BitVec.ofNat P.ptrWidth n).setWidth P.addrWidth = BitVec.ofNat P.addrWidth n := by
  apply BitVec.eq_of_toNat_eq
  rw [BitVec.toNat_setWidth, BitVec.toNat_ofNat, BitVec.toNat_ofNat]
  exact Nat.mod_mod_of_dvd n (pow_dvd_pow 2 (Nat.le_succ _))

theorem grayCount_zero : grayCount P.ptrWidth 0 = 0 := by simp [grayCount, gray]

theorem stale_reset :
    Stale (grayCount P.ptrWidth) (fun _ : Fin P.syncStages => (0 : P.Ptr)) 0 0 := by
  simpa only [grayCount_zero] using Stale.const (n := P.syncStages) (grayCount P.ptrWidth) 0

/-! ## One domain -/

/-- `wr_domain` and `u_sync_rd2wr` after `w` writes, while the read pointer stands at `r`: the
captured read count `c` and the older count `q` the full flag was computed from. -/
structure WrSide (d : WrDomain P) (regs : Fin P.syncStages → P.Ptr) (w r : ℕ) : Prop where
  bin : d.wrBinPtr = BitVec.ofNat P.ptrWidth w
  code : d.wrGrayPtrReg = grayCount P.ptrWidth w
  view : ∃ q c, q ≤ c ∧ d.rdGraySyncReg = grayCount P.ptrWidth c ∧
    Stale (grayCount P.ptrWidth) regs c r ∧ w ≤ q + P.depth ∧
    (d.wrFullReg = true ↔ w = q + P.depth)

/-- `rd_domain` and `u_sync_wr2rd` after `r` reads, while the write pointer stands at `w`. -/
structure RdSide (d : RdDomain P) (regs : Fin P.syncStages → P.Ptr) (w r : ℕ) : Prop where
  bin : d.rdBinPtr = BitVec.ofNat P.ptrWidth r
  code : d.rdGrayPtrReg = grayCount P.ptrWidth r
  view : ∃ q c, q ≤ c ∧ d.wrGraySyncReg = grayCount P.ptrWidth c ∧
    Stale (grayCount P.ptrWidth) regs c w ∧ r ≤ q ∧ (d.rdEmptyReg = true ↔ r = q)

/-- The count after an accepted or a refused request. -/
def bump (b : Bool) (n : ℕ) : ℕ := if b then n + 1 else n

theorem le_bump (b : Bool) (n : ℕ) : n ≤ bump b n := by
  unfold bump
  split_ifs <;> omega

theorem bump_le (b : Bool) (n : ℕ) : bump b n ≤ n + 1 := by
  unfold bump
  split_ifs <;> omega

theorem ofNat_bump (b : Bool) (n : ℕ) :
    BitVec.ofNat P.ptrWidth n + (if b then 1#P.ptrWidth else 0#P.ptrWidth) =
      BitVec.ofNat P.ptrWidth (bump b n) := by
  cases b
  · simp [bump]
  · simp [bump, BitVec.ofNat_add]

namespace WrSide

variable {d : WrDomain P} {regs : Fin P.syncStages → P.Ptr} {w r : ℕ}

theorem reset : WrSide (WrDomain.reset P) (fun _ => 0) 0 0 where
  bin := rfl
  code := grayCount_zero.symm
  view := by
    have hp : 0 < P.depth := depth_pos
    refine ⟨0, 0, le_rfl, grayCount_zero.symm, stale_reset, by omega, ?_⟩
    simp only [WrDomain.reset, Bool.false_eq_true, false_iff]
    omega

theorem mono {r' : ℕ} (h : WrSide d regs w r) (hr : r ≤ r') : WrSide d regs w r' := by
  obtain ⟨q, c, hqc, hc, hst, hle, hfull⟩ := h.view
  exact ⟨h.bin, h.code, q, c, hqc, hc, hst.mono hr, hle, hfull⟩

theorem le_depth (h : WrSide d regs w r) : w ≤ r + P.depth := by
  obtain ⟨q, c, hqc, -, hst, hle, -⟩ := h.view
  have := hst.le P.syncStages_pos
  omega

theorem full_of_eq (h : WrSide d regs w r) (hw : w = r + P.depth) : d.wrFullReg = true := by
  obtain ⟨q, c, hqc, -, hst, hle, hfull⟩ := h.view
  have := hst.le P.syncStages_pos
  exact hfull.mpr (by omega)

/-- **A `wr_clk` edge** with a request `wrEn`, sampling the read count `m`. -/
theorem clock (h : WrSide d regs w r) (hrw : r ≤ w) (wrEn : Bool) {m : ℕ} (hm : r ≤ m) :
    WrSide (d.clock wrEn (chainOut P.syncStages_pos regs))
      (shift (grayCount P.ptrWidth m) regs) (bump (d.wrAllow wrEn) w) m := by
  obtain ⟨q, c, hqc, hc, hst, hle, hfull⟩ := h.view
  obtain ⟨k, hk, hck, hkr, hst'⟩ := hst.shift P.syncStages_pos hm
  have hbin : d.wrBinNext wrEn = BitVec.ofNat P.ptrWidth (bump (d.wrAllow wrEn) w) := by
    rw [WrDomain.wrBinNext, h.bin, ofNat_bump]
  have hcode : d.wrGrayNext wrEn = grayCount P.ptrWidth (bump (d.wrAllow wrEn) w) := by
    rw [WrDomain.wrGrayNext, hbin, grayCount]
  have hbound : bump (d.wrAllow wrEn) w ≤ c + P.depth := by
    unfold bump WrDomain.wrAllow
    cases hf : d.wrFullReg with
    | true => simp only [Bool.not_true, Bool.and_false, Bool.false_eq_true, if_false]; omega
    | false =>
      have : w ≠ q + P.depth := fun e => by simp [hfull.mpr e] at hf
      split_ifs <;> omega
  refine ⟨hbin, hcode, c, k, hck, hk, hst', hbound, ?_⟩
  have hcw : c ≤ bump (d.wrAllow wrEn) w :=
    (hck.trans (hkr.trans hrw)).trans (le_bump _ _)
  have hopp := gray_count_opposite (P.two_le_addrWidth.trans (Nat.le_succ _)) hcw hbound
  simp only [WrDomain.clock, WrDomain.wrFullNext, beq_iff_eq, hcode, hc]
  exact hopp

end WrSide

namespace RdSide

variable {d : RdDomain P} {regs : Fin P.syncStages → P.Ptr} {w r : ℕ}

theorem reset : RdSide (RdDomain.reset P) (fun _ => 0) 0 0 where
  bin := rfl
  code := grayCount_zero.symm
  view := ⟨0, 0, le_rfl, grayCount_zero.symm, stale_reset, le_rfl, by simp [RdDomain.reset]⟩

theorem mono {w' : ℕ} (h : RdSide d regs w r) (hw : w ≤ w') : RdSide d regs w' r := by
  obtain ⟨q, c, hqc, hc, hst, hle, hempty⟩ := h.view
  exact ⟨h.bin, h.code, q, c, hqc, hc, hst.mono hw, hle, hempty⟩

theorem le (h : RdSide d regs w r) : r ≤ w := by
  obtain ⟨q, c, hqc, -, hst, hle, -⟩ := h.view
  have := hst.le P.syncStages_pos
  omega

theorem empty_of_eq (h : RdSide d regs w r) (hw : r = w) : d.rdEmptyReg = true := by
  obtain ⟨q, c, hqc, -, hst, hle, hempty⟩ := h.view
  have := hst.le P.syncStages_pos
  exact hempty.mpr (by omega)

theorem lt_of_not_empty (h : RdSide d regs w r) (he : d.rdEmptyReg = false) : r < w := by
  have := h.le
  have : r ≠ w := fun e => by simp [h.empty_of_eq e] at he
  omega

theorem rdEmptyNext_iff (h : RdSide d regs w r) (hwr : w ≤ r + P.depth) (rdEn : Bool) {c : ℕ}
    (hc : d.wrGraySyncReg = grayCount P.ptrWidth c) (hcw : c ≤ w)
    (hbound : bump (d.rdAllow rdEn) r ≤ c) :
    d.rdEmptyNext rdEn = true ↔ bump (d.rdAllow rdEn) r = c := by
  have hcode : d.rdGrayNext rdEn = grayCount P.ptrWidth (bump (d.rdAllow rdEn) r) := by
    rw [RdDomain.rdGrayNext, RdDomain.rdBinNext, h.bin, ofNat_bump, grayCount]
  have hwin : c < bump (d.rdAllow rdEn) r + 2 ^ P.ptrWidth := by
    have := le_bump (d.rdAllow rdEn) r
    have := two_pow_ptrWidth (P := P)
    have : 0 < P.depth := depth_pos
    omega
  simp only [RdDomain.rdEmptyNext, beq_iff_eq, hcode, hc]
  rw [eq_comm, gray_count_inj hbound hwin, eq_comm]

/-- **An `rd_clk` edge** with a request `rdEn`, sampling the write count `m`. -/
theorem clock (h : RdSide d regs w r) (hwr : w ≤ r + P.depth) (rdEn : Bool) {m : ℕ} (hm : w ≤ m) :
    RdSide (d.clock rdEn (chainOut P.syncStages_pos regs))
      (shift (grayCount P.ptrWidth m) regs) m (bump (d.rdAllow rdEn) r) := by
  obtain ⟨q, c, hqc, hc, hst, hle, hempty⟩ := h.view
  obtain ⟨k, hk, hck, hkw, hst'⟩ := hst.shift P.syncStages_pos hm
  have hbin : d.rdBinNext rdEn = BitVec.ofNat P.ptrWidth (bump (d.rdAllow rdEn) r) := by
    rw [RdDomain.rdBinNext, h.bin, ofNat_bump]
  have hcode : d.rdGrayNext rdEn = grayCount P.ptrWidth (bump (d.rdAllow rdEn) r) := by
    rw [RdDomain.rdGrayNext, hbin, grayCount]
  have hbound : bump (d.rdAllow rdEn) r ≤ c := by
    unfold bump RdDomain.rdAllow
    cases he : d.rdEmptyReg with
    | true => simp only [Bool.not_true, Bool.and_false, Bool.false_eq_true, if_false]; omega
    | false =>
      have : r ≠ q := fun e => by simp [hempty.mpr e] at he
      split_ifs <;> omega
  exact ⟨hbin, hcode, c, k, hck, hk, hst', hbound,
    h.rdEmptyNext_iff hwr rdEn hc (hck.trans hkw) hbound⟩

theorem rdEmptyNext_of_not_empty (h : RdSide d regs w r) (hwr : w ≤ r + P.depth) {rdEn : Bool}
    (he : d.rdEmptyReg = false) (hno : d.rdAllow rdEn = false) : d.rdEmptyNext rdEn = false := by
  obtain ⟨q, c, hqc, hc, hst, hle, hempty⟩ := h.view
  have hcw : c ≤ w := hst.le P.syncStages_pos
  have hne : r ≠ q := fun e => by simp [hempty.mpr e] at he
  have hbump : bump (d.rdAllow rdEn) r = r := by rw [hno]; rfl
  by_contra hemp
  rw [Bool.not_eq_false, h.rdEmptyNext_iff hwr rdEn hc hcw (by omega)] at hemp
  omega

theorem lt_of_clock_not_empty (h : RdSide d regs w r) (hwr : w ≤ r + P.depth) (rdEn : Bool)
    (he : d.rdEmptyNext rdEn = false) : bump (d.rdAllow rdEn) r < w := by
  obtain ⟨q, c, hqc, hc, hst, -, -⟩ := h.view
  have hcw := hst.le P.syncStages_pos
  have hr := h.clock hwr rdEn (le_refl w)
  have hle : bump (d.rdAllow rdEn) r ≤ w := hr.le
  have hne : bump (d.rdAllow rdEn) r ≠ w := fun e => by
    have h' : (d.clock rdEn (chainOut P.syncStages_pos regs)).rdEmptyReg = true := hr.empty_of_eq e
    rw [RdDomain.clock, he] at h'
    exact Bool.noConfusion h'
  omega

end RdSide

/-! ## The whole FIFO -/

/-- The memory holds the last `DEPTH` words of `ws`. -/
def MemHolds (mem : BitVec P.addrWidth → α) (ws : List α) : Prop :=
  ∀ i, ws.length ≤ i + P.depth → ∀ x, ws[i]? = some x → mem (BitVec.ofNat P.addrWidth i) = x

theorem ofNat_addr_ne {i j : ℕ} (hij : i < j) (hj : j < i + P.depth) :
    BitVec.ofNat P.addrWidth i ≠ BitVec.ofNat P.addrWidth j := by
  intro h
  rw [ofNat_eq_ofNat] at h
  have := Nat.sub_mod_eq_zero_of_mod_eq h.symm
  rw [Nat.mod_eq_of_lt (by unfold FifoParams.depth at hj; omega)] at this
  omega

theorem MemHolds.push {mem : BitVec P.addrWidth → α} {ws : List α} (h : MemHolds mem ws) (x : α) :
    MemHolds (fun a => if a = BitVec.ofNat P.addrWidth ws.length then x else mem a) (ws ++ [x]) := by
  intro i hi y hy
  rw [List.length_append, List.length_singleton] at hi
  rcases Nat.lt_trichotomy i ws.length with hlt | heq | hgt
  · rw [List.getElem?_append_left hlt] at hy
    have hne := ofNat_addr_ne (P := P) hlt (by omega)
    simp only [if_neg hne]
    exact h i (by omega) y hy
  · subst heq
    simpa using hy
  · rw [List.getElem?_eq_none (by simp; omega)] at hy
    simp at hy

/-- **The invariant of `async_fifo_top`** after the accepted words `ws` and `r` accepted reads. -/
structure CoreInv (s : AsyncFifo P α) (ws : List α) (r : ℕ) : Prop where
  wrSide : WrSide s.wr s.syncRd2Wr ws.length r
  rdSide : RdSide s.rd s.syncWr2Rd ws.length r
  mem : MemHolds s.mem ws

namespace CoreInv

variable {s : AsyncFifo P α} {ws : List α} {r : ℕ}

theorem reset (mem : BitVec P.addrWidth → α) (x : α) : CoreInv (AsyncFifo.reset mem x) [] 0 where
  wrSide := WrSide.reset
  rdSide := RdSide.reset
  mem := fun _ _ _ h => by simp at h

theorem mem_rdAddr (h : CoreInv s ws r) {x : α} (hx : ws[r]? = some x) : s.mem s.rd.rdAddr = x := by
  rw [RdDomain.rdAddr, h.rdSide.bin, setWidth_ofNat_ptr]
  exact h.mem r h.wrSide.le_depth x hx

variable (e : CoreEvent P α)

/-- The event leaves both resets released. -/
def Running (e : CoreEvent P α) : Prop := e.wrRstN = true ∧ e.rdRstN = true

instance (e : CoreEvent P α) : Decidable (Running e) := inferInstanceAs (Decidable (_ ∧ _))

theorem rdGray_next (h : CoreInv s ws r) (he : Running e) :
    (s.rdNext e).rdGrayPtrReg = grayCount P.ptrWidth (bump (s.pops e) r) := by
  unfold AsyncFifo.rdNext AsyncFifo.pops
  cases hc : e.rdClk with
  | false => simpa [he.2, bump] using h.rdSide.code
  | true => simpa [he.2, AsyncFifo.wrGraySync] using (h.rdSide.clock h.wrSide.le_depth e.rdEn le_rfl).code

theorem wrGray_next (h : CoreInv s ws r) (he : Running e) :
    (s.wrNext e).wrGrayPtrReg = grayCount P.ptrWidth (bump (s.pushes e) ws.length) := by
  unfold AsyncFifo.wrNext AsyncFifo.pushes
  cases hc : e.wrClk with
  | false => simpa [he.1, bump] using h.wrSide.code
  | true => simpa [he.1, AsyncFifo.rdGraySync] using (h.wrSide.clock h.rdSide.le e.wrEn le_rfl).code

theorem wrSide_step (h : CoreInv s ws r) (he : Running e) :
    WrSide (s.wrNext e) (s.syncRd2WrNext e) (bump (s.pushes e) ws.length) (bump (s.pops e) r) := by
  have hcode := h.rdGray_next e he
  unfold AsyncFifo.syncRd2WrNext
  rw [hcode, h.rdSide.code]
  unfold AsyncFifo.wrNext AsyncFifo.pushes
  cases hc : e.wrClk with
  | false => simpa [he.1, bump] using h.wrSide.mono (le_bump (s.pops e) r)
  | true =>
    obtain ⟨m, hrm, hm, hmix⟩ :=
      mix_gray_count e.rd2wrPick (le_bump (s.pops e) r) (bump_le (s.pops e) r)
    rw [hmix]
    simpa [he.1, AsyncFifo.rdGraySync] using (h.wrSide.clock h.rdSide.le e.wrEn hrm).mono hm

theorem rdSide_step (h : CoreInv s ws r) (he : Running e) :
    RdSide (s.rdNext e) (s.syncWr2RdNext e) (bump (s.pushes e) ws.length) (bump (s.pops e) r) := by
  have hcode := h.wrGray_next e he
  unfold AsyncFifo.syncWr2RdNext
  rw [hcode, h.wrSide.code]
  unfold AsyncFifo.rdNext AsyncFifo.pops
  cases hc : e.rdClk with
  | false => simpa [he.2, bump] using h.rdSide.mono (le_bump (s.pushes e) ws.length)
  | true =>
    obtain ⟨m, hwm, hm, hmix⟩ :=
      mix_gray_count e.wr2rdPick (le_bump (s.pushes e) ws.length) (bump_le (s.pushes e) ws.length)
    rw [hmix]
    simpa [he.2, AsyncFifo.wrGraySync] using (h.rdSide.clock h.wrSide.le_depth e.rdEn hwm).mono hm

theorem mem_step (h : CoreInv s ws r) (he : Running e) :
    MemHolds (s.memNext e) (ws ++ s.accepted e) := by
  have haddr : s.wr.wrAddr = BitVec.ofNat P.addrWidth ws.length := by
    rw [WrDomain.wrAddr, h.wrSide.bin, setWidth_ofNat_ptr]
  unfold AsyncFifo.accepted AsyncFifo.pushes AsyncFifo.memNext
  rw [haddr, he.1]
  cases hp : e.wrClk && s.wr.wrAllow e.wrEn with
  | false => simpa [hp] using h.mem
  | true => simpa [hp] using h.mem.push e.wrData

theorem length_accepted (s : AsyncFifo P α) (e : CoreEvent P α) (ws : List α) :
    (ws ++ s.accepted e).length = bump (s.pushes e) ws.length := by
  unfold AsyncFifo.accepted bump
  split_ifs <;> simp

/-- **Every event out of reset keeps the invariant.** -/
theorem step (h : CoreInv s ws r) (he : Running e) :
    CoreInv (s.step e) (ws ++ s.accepted e) (bump (s.pops e) r) where
  wrSide := by rw [length_accepted]; exact h.wrSide_step e he
  rdSide := by rw [length_accepted]; exact h.rdSide_step e he
  mem := h.mem_step e he

theorem rdData_of_pops (h : CoreInv s ws r) (hp : s.pops e = true) :
    ws[r]? = some (s.step e).rdData := by
  simp only [AsyncFifo.pops, RdDomain.rdAllow, Bool.and_eq_true, Bool.not_eq_true'] at hp
  obtain ⟨⟨-, hclk⟩, -, hne⟩ := hp
  have hx := List.getElem?_eq_getElem (h.rdSide.lt_of_not_empty hne)
  rw [AsyncFifo.step, hclk, if_pos rfl, h.mem_rdAddr hx, hx]

/-- An `rd_clk` edge without a read leaves the next word in the read register, if the FIFO is seen
nonempty. -/
theorem rdData_of_not_pops (h : CoreInv s ws r) (he : Running e) (hclk : e.rdClk = true)
    (hp : s.pops e = false) (hne : (s.step e).rd.rdEmptyReg = false) :
    ws[r]? = some (s.step e).rdData := by
  have hallow : s.rd.rdAllow e.rdEn = false := by simpa [AsyncFifo.pops, he.2, hclk] using hp
  have hnext : s.rd.rdEmptyNext e.rdEn = false := by
    simpa [AsyncFifo.step, AsyncFifo.rdNext, he.2, hclk, RdDomain.clock] using hne
  have hlt := h.rdSide.lt_of_clock_not_empty h.wrSide.le_depth e.rdEn hnext
  rw [hallow, bump, if_neg Bool.false_ne_true] at hlt
  have hx := List.getElem?_eq_getElem hlt
  rw [AsyncFifo.step, hclk, if_pos rfl, h.mem_rdAddr hx, hx]

theorem take_delivered (h : CoreInv s ws r) :
    (ws ++ s.accepted e).take (bump (s.pops e) r) = ws.take r ++ s.delivered e := by
  have hle : r ≤ ws.length := h.rdSide.le
  unfold AsyncFifo.delivered bump
  cases hp : s.pops e with
  | false => simp [List.take_append_of_le_length hle]
  | true =>
    have hx := h.rdData_of_pops e hp
    have hlt : r < ws.length := (List.getElem?_eq_some_iff.mp hx).1
    simp only [if_true]
    rw [List.take_append_of_le_length hlt, List.take_add_one, hx]
    rfl

/-- A write request while `wr_full = 1`. -/
def RefusedWrite (s : AsyncFifo P α) (e : CoreEvent P α) : Prop :=
  e.wrClk = true ∧ e.wrEn = true ∧ s.wr.wrFullReg = true

/-- A read request while `rd_empty = 1`. -/
def RefusedRead (s : AsyncFifo P α) (e : CoreEvent P α) : Prop :=
  e.rdClk = true ∧ e.rdEn = true ∧ s.rd.rdEmptyReg = true

theorem refusedWrite (h : CoreInv s ws r) (he : Running e) (hw : RefusedWrite s e) :
    (s.step e).wr.wrBinPtr = s.wr.wrBinPtr ∧ (s.step e).wr.wrGrayPtrReg = s.wr.wrGrayPtrReg ∧
      (s.step e).mem = s.mem ∧ (s.step e).rd = (s.step { e with wrEn := false }).rd ∧
      (s.step e).wr.wrOverflowReg = true := by
  obtain ⟨hclk, hen, hfull⟩ := hw
  have hno : s.wr.wrAllow e.wrEn = false := by simp [WrDomain.wrAllow, hfull]
  have hpush : s.pushes e = false := by simp [AsyncFifo.pushes, hno]
  refine ⟨?_, ?_, ?_, rfl, ?_⟩
  · simp [AsyncFifo.step, AsyncFifo.wrNext, he.1, hclk, WrDomain.clock, WrDomain.wrBinNext, hno]
  · rw [AsyncFifo.step, h.wrGray_next e he, hpush, h.wrSide.code]
    rfl
  · funext a
    simp [AsyncFifo.step, AsyncFifo.memNext, hno]
  · simp [AsyncFifo.step, AsyncFifo.wrNext, he.1, hclk, WrDomain.clock, hen, hfull]

theorem refusedRead (h : CoreInv s ws r) (he : Running e) (hr : RefusedRead s e) :
    (s.step e).rd.rdBinPtr = s.rd.rdBinPtr ∧ (s.step e).rd.rdGrayPtrReg = s.rd.rdGrayPtrReg ∧
      (s.step e).mem = (s.step { e with rdEn := false }).mem ∧
      (s.step e).wr = (s.step { e with rdEn := false }).wr ∧
      (s.step e).rd.rdUnderflowReg = true := by
  obtain ⟨hclk, hen, hempty⟩ := hr
  have hno : s.rd.rdAllow e.rdEn = false := by simp [RdDomain.rdAllow, hempty]
  have hpop : s.pops e = false := by simp [AsyncFifo.pops, hno]
  refine ⟨?_, ?_, rfl, rfl, ?_⟩
  · simp [AsyncFifo.step, AsyncFifo.rdNext, he.2, hclk, RdDomain.clock, RdDomain.rdBinNext, hno]
  · rw [AsyncFifo.step, h.rdGray_next e he, hpop, h.rdSide.code]
    rfl
  · simp [AsyncFifo.step, AsyncFifo.rdNext, he.2, hclk, RdDomain.clock, hen, hempty]

/-- The invariant along a run from reset: the accepted and the delivered words are the logs. -/
theorem of_run (mem : BitVec P.addrWidth → α) (x : α) : ∀ es : List (CoreEvent P α),
    Along AsyncFifo.step (fun _ e => Running e) (.reset mem x) es →
      CoreInv (run AsyncFifo.step (.reset mem x) es)
        (log AsyncFifo.step AsyncFifo.accepted (.reset mem x) es)
        (log AsyncFifo.step AsyncFifo.delivered (.reset mem x) es).length ∧
      log AsyncFifo.step AsyncFifo.delivered (.reset mem x) es =
        (log AsyncFifo.step AsyncFifo.accepted (.reset mem x) es).take
          (log AsyncFifo.step AsyncFifo.delivered (.reset mem x) es).length := by
  refine Along.snocInduction ⟨reset mem x, rfl⟩ ?_
  intro es e _ ⟨ih, hrs⟩ he
  simp only [log_snoc, run_snoc]
  have hlen : ∀ (s : AsyncFifo P α) (n : ℕ), n + (s.delivered e).length = bump (s.pops e) n :=
    fun s n => by unfold AsyncFifo.delivered bump; split_ifs <;> rfl
  rw [List.length_append, hlen]
  refine ⟨ih.step e he, ?_⟩
  rw [ih.take_delivered e, ← hrs]

end CoreInv

open CoreInv in
/-- **The asynchronous FIFO along every run from a common reset.** The delivered words are the first
accepted ones, at most `DEPTH` behind; the flags are set at the extremes; and a request refused by a
flag moves no pointer, leaves the memory alone and is reported. -/
theorem asyncFifo_correct (mem : BitVec P.addrWidth → α) (x : α) (es : List (CoreEvent P α))
    (hes : ∀ e ∈ es, Running e) :
    let s := run AsyncFifo.step (.reset mem x) es
    let ws := log AsyncFifo.step AsyncFifo.accepted (.reset mem x) es
    let rs := log AsyncFifo.step AsyncFifo.delivered (.reset mem x) es
    rs.length ≤ ws.length ∧ ws.length ≤ rs.length + P.depth ∧
      (ws.length = rs.length + P.depth → s.wr.wrFullReg = true) ∧
      (ws.length = rs.length → s.rd.rdEmptyReg = true) ∧
      (∀ k < rs.length, rs[k]? = ws[k]?) ∧
      (∀ e, Running e → RefusedWrite s e →
        (s.step e).wr.wrBinPtr = s.wr.wrBinPtr ∧ (s.step e).wr.wrGrayPtrReg = s.wr.wrGrayPtrReg ∧
          (s.step e).mem = s.mem ∧ (s.step e).rd = (s.step { e with wrEn := false }).rd ∧
          (s.step e).wr.wrOverflowReg = true) ∧
      ∀ e, Running e → RefusedRead s e →
        (s.step e).rd.rdBinPtr = s.rd.rdBinPtr ∧ (s.step e).rd.rdGrayPtrReg = s.rd.rdGrayPtrReg ∧
          (s.step e).mem = (s.step { e with rdEn := false }).mem ∧
          (s.step e).wr = (s.step { e with rdEn := false }).wr ∧
          (s.step e).rd.rdUnderflowReg = true := by
  intro s ws rs
  obtain ⟨h, hrs⟩ : CoreInv s ws rs.length ∧ rs = ws.take rs.length :=
    CoreInv.of_run mem x es (along_of_forall _ hes)
  refine ⟨h.rdSide.le, h.wrSide.le_depth, h.wrSide.full_of_eq, fun e => h.rdSide.empty_of_eq e.symm,
    fun k hk => ?_, fun e he hw => h.refusedWrite e he hw, fun e he hr => h.refusedRead e he hr⟩
  rw [hrs, List.getElem?_take, if_pos hk]

/-- The smallest FIFO: four words, one synchroniser stage. -/
def FifoParams.smallest : FifoParams := ⟨2, 1, by decide, by decide⟩

/-- A `wr_clk` edge that requests the write of `x`. -/
def CoreEvent.write (x : α) : CoreEvent P α :=
  ⟨true, false, true, true, true, x, false, false, false, 0, 0⟩

/-- A `rd_clk` edge that requests a read. -/
def CoreEvent.read (x : α) : CoreEvent P α :=
  ⟨false, true, true, true, false, x, true, false, false, 0, 0⟩

/-- Five write requests fill the smallest FIFO, whatever its memory held, and reads deliver its words once
they have crossed. -/
theorem asyncFifo_fills :
    let es : List (CoreEvent FifoParams.smallest ℕ) :=
      [10, 11, 12, 13, 14].map CoreEvent.write ++ List.replicate 7 (CoreEvent.read 0)
    let rs := log AsyncFifo.step AsyncFifo.delivered (.reset (fun _ => 0) 0) es
    (∀ e ∈ es, CoreInv.Running e) ∧
      log AsyncFifo.step AsyncFifo.accepted (.reset (fun _ => 0) 0) es = [10, 11, 12, 13] ∧
      rs = [10, 11, 12, 13] ∧ rs[2]? = some 12 ∧
      (run AsyncFifo.step (.reset (fun _ => 0) 0) (es.take 5)).wr.wrFullReg = true ∧
      (run AsyncFifo.step (.reset (fun _ => 0) 0) es).rd.rdEmptyReg = true := by
  intro es rs
  have hall : ∀ e ∈ es, CoreInv.Running e := by decide
  have hfull := asyncFifo_correct (P := FifoParams.smallest) (fun _ => 0) 0 (es.take 5)
    fun e he => hall e (List.mem_of_mem_take he)
  have hdrained := asyncFifo_correct (P := FifoParams.smallest) (fun _ => 0) 0 es hall
  have hws : log AsyncFifo.step AsyncFifo.accepted (.reset (fun _ => 0) 0) es = [10, 11, 12, 13] := by
    decide
  refine ⟨hall, hws, by decide, ?_, hfull.2.2.1 (by decide), hdrained.2.2.2.1 (by decide)⟩
  have horder := hdrained.2.2.2.2.1 2 (by decide)
  rw [hws] at horder
  exact horder

end PacketBuffering
