import PacketBuffering.Aes.Cipher

/-!
# The registers of the AES unit

`aes_register_set`: the software-visible registers, and their connection to the core
`aes_cipher_top`.

* `RegWrite`, `AesRegisterSet`: a register write and the registers; `AesRegisterSet.clock`,
  `AesRegisterSet.regRdData`.
* `clock_aesLd`, `clock_doneReg`, `clock_busyReg`, `clock_textOutReg`: what a cycle does to the
  status.
* `CipherTop`: the counter of the core beside its datapath; `AesSystem`: both parts, wired;
  `countdown`: how the core counts.
-/

namespace PacketBuffering

variable {a : ℕ}

/-! ## Writes -/

variable (a) in
/-- A write of the register bus. Addresses are compared as numbers, which for six and more address
bits is the comparison of the source. -/
structure RegWrite where
  addr : BitVec a
  data : BitVec 32
  strb : BitVec 4

namespace RegWrite

variable (w : RegWrite a)

/-- Bit `k` of a write to `CONTROL` is set. -/
def control (k : ℕ) : Bool := w.addr.toNat == 0x00 && w.strb.getLsbD 0 && w.data.getLsbD k

/-- The write sets `START`. -/
def start : Bool := w.control 0

/-- The write sets `CLEAR_DONE`. -/
def clearDone : Bool := w.control 1

/-- The write sets `SOFT_RESET`. -/
def softReset : Bool := w.control 2

end RegWrite

/-- The cycle writes `START`. -/
def starts (w : Option (RegWrite a)) : Bool := w.any RegWrite.start

/-- The cycle writes `CLEAR_DONE`. -/
def clearsDone (w : Option (RegWrite a)) : Bool := w.any RegWrite.clearDone

/-- The cycle writes `SOFT_RESET`. -/
def softResets (w : Option (RegWrite a)) : Bool := w.any RegWrite.softReset

/-- The bits `[lo+7:lo]` of a 128-bit register are assigned. -/
def setByte (v : BitVec 128) (lo : ℕ) (b : BitVec 8) : BitVec 128 :=
  (v &&& ~~~(0xFF#128 <<< lo)) ||| (b.setWidth 128 <<< lo)

/-- The strobed bytes of a word are assigned to `[lo+31:lo]`. -/
def writeWord (v : BitVec 128) (lo : ℕ) (w : RegWrite a) : BitVec 128 :=
  let v := if w.strb.getLsbD 0 then setByte v lo (w.data.extractLsb' 0 8) else v
  let v := if w.strb.getLsbD 1 then setByte v (lo + 8) (w.data.extractLsb' 8 8) else v
  let v := if w.strb.getLsbD 2 then setByte v (lo + 16) (w.data.extractLsb' 16 8) else v
  if w.strb.getLsbD 3 then setByte v (lo + 24) (w.data.extractLsb' 24 8) else v

theorem getLsbD_setByte (v : BitVec 128) (lo : ℕ) (b : BitVec 8) {k : ℕ} (hk : k < 128) :
    (setByte v lo b).getLsbD k = if lo ≤ k ∧ k < lo + 8 then b.getLsbD (k - lo) else v.getLsbD k := by
  have hmask : (0xFF#128).getLsbD (k - lo) = decide (k - lo < 8) := by
    rw [BitVec.getLsbD_ofNat, show (0xFF : ℕ) = 2 ^ 8 - 1 by rfl, Nat.testBit_two_pow_sub_one,
      decide_eq_true (by omega : k - lo < 128), Bool.true_and]
  simp only [setByte, BitVec.getLsbD_or, BitVec.getLsbD_and, BitVec.getLsbD_not,
    BitVec.getLsbD_shiftLeft, BitVec.getLsbD_setWidth, hmask, hk, decide_true, Bool.true_and]
  by_cases hlo : k < lo
  · rw [if_neg (by omega)]
    simp [hlo]
  · by_cases hhi : k - lo < 8
    · rw [if_pos (by omega)]
      simp [hlo, hhi, show k - lo < 128 by omega]
    · rw [if_neg (by omega)]
      simp [hlo, hhi, BitVec.getLsbD_of_ge b (k - lo) (by omega)]

theorem getLsbD_writeWord (v : BitVec 128) (lo : ℕ) (w : RegWrite a) {k : ℕ} (hk : k < 128) :
    (writeWord v lo w).getLsbD k =
      if lo ≤ k ∧ k < lo + 32 ∧ w.strb.getLsbD ((k - lo) / 8) = true then w.data.getLsbD (k - lo)
      else v.getLsbD k := by
  -- each of the four assignments is one lane of the strobes
  have hlane : ∀ (u : BitVec 128) (j : ℕ), j < 4 →
      (if w.strb.getLsbD j then setByte u (lo + 8 * j) (w.data.extractLsb' (8 * j) 8)
        else u).getLsbD k =
      if lo + 8 * j ≤ k ∧ k < lo + 8 * j + 8 ∧ w.strb.getLsbD ((k - lo) / 8) = true then
        w.data.getLsbD (k - lo)
      else u.getLsbD k := by
    intro u j hj
    by_cases hin : lo + 8 * j ≤ k ∧ k < lo + 8 * j + 8
    · have hdiv : (k - lo) / 8 = j := by omega
      rw [hdiv]
      cases w.strb.getLsbD j with
      | false => simp
      | true =>
        rw [if_pos rfl, getLsbD_setByte _ _ _ hk, if_pos hin, if_pos ⟨hin.1, hin.2, rfl⟩,
          BitVec.getLsbD_extractLsb', decide_eq_true (by omega : k - (lo + 8 * j) < 8),
          Bool.true_and, show 8 * j + (k - (lo + 8 * j)) = k - lo by omega]
    · have hout : ¬ (lo + 8 * j ≤ k ∧ k < lo + 8 * j + 8 ∧
          w.strb.getLsbD ((k - lo) / 8) = true) := fun h => hin ⟨h.1, h.2.1⟩
      rw [if_neg hout]
      cases w.strb.getLsbD j with
      | false => rfl
      | true => rw [if_pos rfl, getLsbD_setByte _ _ _ hk, if_neg hin]
  have h0 := fun u => hlane u 0 (by omega)
  have h1 := fun u => hlane u 1 (by omega)
  have h2 := fun u => hlane u 2 (by omega)
  have h3 := fun u => hlane u 3 (by omega)
  simp only [Nat.mul_zero, Nat.add_zero, Nat.mul_one, Nat.reduceMul] at h0 h1 h2 h3
  simp only [writeWord, h3, h2, h1, h0]
  cases w.strb.getLsbD ((k - lo) / 8) with
  | false => simp
  | true =>
    simp only [and_true]
    split_ifs <;> first | rfl | omega

theorem extractLsb'_writeWord (v : BitVec 128) (w : RegWrite a) {lo lo' : ℕ} (hlo' : lo' + 32 ≤ 128)
    (h : lo = lo' ∨ lo + 32 ≤ lo' ∨ lo' + 32 ≤ lo) :
    (writeWord v lo w).extractLsb' lo' 32 =
      if lo = lo' then strobed w.strb w.data (v.extractLsb' lo' 32) else v.extractLsb' lo' 32 := by
  refine BitVec.eq_of_getLsbD_eq fun k hk => ?_
  rw [BitVec.getLsbD_extractLsb', getLsbD_writeWord _ _ _ (by omega), decide_eq_true hk,
    Bool.true_and]
  split_ifs with hin heq heq
  · rw [getLsbD_strobed _ _ _ hk]
    subst heq
    rw [show lo + k - lo = k by omega] at hin ⊢
    rw [if_pos hin.2.2]
  · omega
  · rw [getLsbD_strobed _ _ _ hk]
    subst heq
    rw [show lo + k - lo = k by omega] at hin
    rw [if_neg fun hs => hin ⟨by omega, by omega, hs⟩, BitVec.getLsbD_extractLsb',
      decide_eq_true hk, Bool.true_and]
  · rw [BitVec.getLsbD_extractLsb', decide_eq_true hk, Bool.true_and]

/-! ## The registers -/

/-- The words of the key and of the input text, `KEY0` and `TEXT_IN0` highest. -/
inductive AesField
  | key (k : Fin 4)
  | textIn (k : Fin 4)
deriving DecidableEq

/-- The addresses of `KEY0`, …, `KEY3` and `TEXT_IN0`, …, `TEXT_IN3`. -/
def AesField.addr : AesField → ℕ
  | .key k => 0x10 + 4 * k
  | .textIn k => 0x20 + 4 * k

theorem AesField.addr_ne_control (f : AesField) : f.addr ≠ 0x00 := by
  cases f <;> simp [addr]

/-- The registers of `aes_register_set`. -/
structure AesRegisterSet where
  keyReg : BitVec 128
  textInReg : BitVec 128
  textOutReg : BitVec 128
  doneReg : Bool
  busyReg : Bool
  keyValidReg : Bool
  inputValidReg : Bool
  aesLd : Bool

namespace AesRegisterSet

/-- The values under `!rst`. -/
def reset : AesRegisterSet := ⟨0, 0, 0, false, false, false, false, false⟩

variable (s : AesRegisterSet)

/-- A write to `CONTROL`; a later bit overrides an earlier one. -/
def writeControl (w : RegWrite a) : AesRegisterSet :=
  let s :=
    if w.strb.getLsbD 0 && w.data.getLsbD 0 then
      { s with aesLd := true, doneReg := false, busyReg := true }
    else s
  let s := if w.strb.getLsbD 0 && w.data.getLsbD 1 then { s with doneReg := false } else s
  if w.strb.getLsbD 0 && w.data.getLsbD 2 then
    { s with
      keyReg := 0, textInReg := 0, textOutReg := 0, doneReg := false, busyReg := false,
      keyValidReg := false, inputValidReg := false }
  else s

/-- A write to the word `[lo+31:lo]` of the key. -/
def writeKey (lo : ℕ) (w : RegWrite a) : AesRegisterSet :=
  { s with keyReg := writeWord s.keyReg lo w, keyValidReg := true }

/-- A write to the word `[lo+31:lo]` of the input text. -/
def writeTextIn (lo : ℕ) (w : RegWrite a) : AesRegisterSet :=
  { s with textInReg := writeWord s.textInReg lo w, inputValidReg := true }

/-- `reg_wr_en`: read-only and unmapped addresses are ignored. -/
def write (w : RegWrite a) : AesRegisterSet :=
  match w.addr.toNat with
  | 0x00 => s.writeControl w
  | 0x10 => s.writeKey 96 w
  | 0x14 => s.writeKey 64 w
  | 0x18 => s.writeKey 32 w
  | 0x1C => s.writeKey 0 w
  | 0x20 => s.writeTextIn 96 w
  | 0x24 => s.writeTextIn 64 w
  | 0x28 => s.writeTextIn 32 w
  | 0x2C => s.writeTextIn 0 w
  | _ => s

/-- The registers before a write of the same cycle: the load pulse ends and a completion is
captured. -/
def capture (aesDone : Bool) (aesTextOut : BitVec 128) : AesRegisterSet :=
  let s := { s with aesLd := false }
  if aesDone then { s with textOutReg := aesTextOut, doneReg := true, busyReg := false } else s

/-- A rising `clk`. -/
def clock (w : Option (RegWrite a)) (aesDone : Bool) (aesTextOut : BitVec 128) : AesRegisterSet :=
  match w with
  | none => s.capture aesDone aesTextOut
  | some w => (s.capture aesDone aesTextOut).write w

/-- `STATUS`. -/
def status : BitVec 32 :=
  (BitVec.ofBool s.inputValidReg ++ BitVec.ofBool s.keyValidReg ++ BitVec.ofBool s.busyReg ++
    BitVec.ofBool s.doneReg).setWidth 32

/-- `reg_rd_data`. -/
def regRdData (regRdEn : Bool) (addr : BitVec a) : BitVec 32 :=
  if regRdEn then
    match addr.toNat with
    | 0x00 => 0
    | 0x04 => s.status
    | 0x10 => s.keyReg.extractLsb' 96 32
    | 0x14 => s.keyReg.extractLsb' 64 32
    | 0x18 => s.keyReg.extractLsb' 32 32
    | 0x1C => s.keyReg.extractLsb' 0 32
    | 0x20 => s.textInReg.extractLsb' 96 32
    | 0x24 => s.textInReg.extractLsb' 64 32
    | 0x28 => s.textInReg.extractLsb' 32 32
    | 0x2C => s.textInReg.extractLsb' 0 32
    | 0x30 => s.textOutReg.extractLsb' 96 32
    | 0x34 => s.textOutReg.extractLsb' 64 32
    | 0x38 => s.textOutReg.extractLsb' 32 32
    | 0x3C => s.textOutReg.extractLsb' 0 32
    | _ => 0
  else 0

variable {s}

/-- **Where a write goes**: to `CONTROL`, to a word of the key or of the input text, or nowhere. -/
theorem write_cases (s : AesRegisterSet) (w : RegWrite a) :
    (w.addr.toNat = 0x00 ∧ s.write w = s.writeControl w) ∨
      (∃ k : Fin 4, w.addr.toNat = (AesField.key k).addr ∧
        s.write w = s.writeKey (96 - 32 * k) w) ∨
      (∃ k : Fin 4, w.addr.toNat = (AesField.textIn k).addr ∧
        s.write w = s.writeTextIn (96 - 32 * k) w) ∨
      (w.addr.toNat ≠ 0x00 ∧ (∀ f : AesField, w.addr.toNat ≠ f.addr) ∧ s.write w = s) := by
  unfold write
  split
  case h_1 h => exact .inl ⟨h, rfl⟩
  case h_2 h => exact .inr (.inl ⟨0, h, rfl⟩)
  case h_3 h => exact .inr (.inl ⟨1, h, rfl⟩)
  case h_4 h => exact .inr (.inl ⟨2, h, rfl⟩)
  case h_5 h => exact .inr (.inl ⟨3, h, rfl⟩)
  case h_6 h => exact .inr (.inr (.inl ⟨0, h, rfl⟩))
  case h_7 h => exact .inr (.inr (.inl ⟨1, h, rfl⟩))
  case h_8 h => exact .inr (.inr (.inl ⟨2, h, rfl⟩))
  case h_9 h => exact .inr (.inr (.inl ⟨3, h, rfl⟩))
  case h_10 h0 h1 h2 h3 h4 h5 h6 h7 h8 =>
    refine .inr (.inr (.inr ⟨h0, ?_, rfl⟩))
    simp only [imp_false] at h1 h2 h3 h4 h5 h6 h7 h8
    rintro (k | k) <;> simp only [AesField.addr] <;> omega

theorem control_of_ne {w : RegWrite a} (h : w.addr.toNat ≠ 0x00) (k : ℕ) : w.control k = false := by
  simp [RegWrite.control, h]

theorem control_of_field {w : RegWrite a} {f : AesField} (h : w.addr.toNat = f.addr) (k : ℕ) :
    w.control k = false :=
  control_of_ne (h ▸ f.addr_ne_control) k

theorem control_of_eq {w : RegWrite a} (h : w.addr.toNat = 0x00) (k : ℕ) :
    w.control k = (w.strb.getLsbD 0 && w.data.getLsbD k) := by
  simp [RegWrite.control, h]

/-- **What a write does to the status.** -/
theorem write_status (s : AesRegisterSet) (w : RegWrite a) :
    (s.write w).aesLd = (w.start || s.aesLd) ∧
      (s.write w).doneReg = (s.doneReg && !(w.start || w.clearDone || w.softReset)) ∧
      (s.write w).busyReg = (!w.softReset && (w.start || s.busyReg)) ∧
      (s.write w).textOutReg = (if w.softReset then 0 else s.textOutReg) := by
  unfold RegWrite.start RegWrite.clearDone RegWrite.softReset
  rcases write_cases s w with ⟨haddr, hw⟩ | ⟨k, haddr, hw⟩ | ⟨k, haddr, hw⟩ | ⟨haddr, -, hw⟩
  · rw [hw]
    simp only [control_of_eq haddr, writeControl]
    cases w.strb.getLsbD 0 <;> cases w.data.getLsbD 0 <;> cases w.data.getLsbD 1 <;>
      cases w.data.getLsbD 2 <;> simp
  · simp [control_of_field haddr, hw, writeKey]
  · simp [control_of_field haddr, hw, writeTextIn]
  · simp [control_of_ne haddr, hw]

theorem write_of_start {w : RegWrite a} (hw : w.start = true) (hsoft : w.softReset = false) :
    (s.write w).keyReg = s.keyReg ∧ (s.write w).textInReg = s.textInReg := by
  have haddr : w.addr.toNat = 0x00 := by
    by_contra hne
    rw [RegWrite.start, control_of_ne hne] at hw
    exact Bool.false_ne_true hw
  have hc : s.write w = s.writeControl w := by
    rw [write, haddr]
    rfl
  rw [RegWrite.softReset, control_of_eq haddr] at hsoft
  rw [hc, writeControl]
  simp only [hsoft, Bool.false_eq_true, if_false]
  split_ifs <;> exact ⟨rfl, rfl⟩

section Clock

variable {w : Option (RegWrite a)} {aesDone : Bool} {aesTextOut : BitVec 128}

theorem clock_aesLd : (s.clock w aesDone aesTextOut).aesLd = starts w := by
  cases w with
  | none => cases aesDone <;> rfl
  | some w =>
    rw [clock, (write_status _ w).1]
    cases aesDone <;> simp [capture, starts]

theorem clock_doneReg : (s.clock w aesDone aesTextOut).doneReg =
    ((aesDone || s.doneReg) && !(starts w || clearsDone w || softResets w)) := by
  cases w with
  | none => cases aesDone <;> simp [clock, capture, starts, clearsDone, softResets]
  | some w =>
    rw [clock, (write_status _ w).2.1]
    cases aesDone <;> simp [capture, starts, clearsDone, softResets]

theorem clock_busyReg : (s.clock w aesDone aesTextOut).busyReg =
    (!softResets w && (starts w || (s.busyReg && !aesDone))) := by
  cases w with
  | none => cases aesDone <;> simp [clock, capture, starts, softResets]
  | some w =>
    rw [clock, (write_status _ w).2.2.1]
    cases aesDone <;> simp [capture, starts, softResets]

theorem clock_textOutReg : (s.clock w aesDone aesTextOut).textOutReg =
    if softResets w then 0 else if aesDone then aesTextOut else s.textOutReg := by
  cases w with
  | none => cases aesDone <;> rfl
  | some w =>
    rw [clock, (write_status _ w).2.2.2]
    cases aesDone <;> rfl

theorem clock_of_starts (hw : starts w = true) (hsoft : softResets w = false) :
    (s.clock w aesDone aesTextOut).keyReg = s.keyReg ∧
      (s.clock w aesDone aesTextOut).textInReg = s.textInReg := by
  cases w with
  | none => exact absurd hw Bool.false_ne_true
  | some w =>
    rw [clock, (write_of_start hw hsoft).1, (write_of_start hw hsoft).2]
    cases aesDone <;> exact ⟨rfl, rfl⟩

end Clock

end AesRegisterSet

/-! ## The core and the system -/

/-- `aes_cipher_top`: the counter and the completion pulse beside a datapath. -/
structure CipherTop (P : CipherPath) where
  dcnt : BitVec 4
  done : Bool
  data : P.State

/-- A rising `clk` of the core. -/
def CipherTop.clock {P : CipherPath} (c : CipherTop P) (ld : Bool) (key text : BitVec 128) :
    CipherTop P where
  dcnt := if ld then 0xb else if c.dcnt != 0 then c.dcnt - 1 else c.dcnt
  done := !(c.dcnt.extractLsb' 1 3 != 0) && c.dcnt.getLsbD 0 && !ld
  data := P.clock c.data ld key text

/-- `aes_register_set` and `aes_cipher_top`. -/
structure AesSystem (P : CipherPath) where
  regs : AesRegisterSet
  core : CipherTop P

namespace AesSystem

variable {P : CipherPath}

/-- After reset; the datapath has none. -/
def reset (d : P.State) : AesSystem P := ⟨.reset, ⟨0, false, d⟩⟩

/-- A rising `clk`, with the write of the register bus. -/
def clock (s : AesSystem P) (w : Option (RegWrite a)) : AesSystem P where
  regs := s.regs.clock w s.core.done (P.textOut s.core.data)
  core := s.core.clock s.regs.aesLd s.regs.keyReg s.regs.textInReg

variable (s : AesSystem P) (w : Option (RegWrite a))

theorem clock_done : (s.clock w).core.done = (decide (s.core.dcnt = 1) && !s.regs.aesLd) := by
  have hone : ∀ c : BitVec 4, (!(c.extractLsb' 1 3 != 0) && c.getLsbD 0) = decide (c = 1) := by
    decide
  exact congrArg (· && !s.regs.aesLd) (hone _)

theorem clock_dcnt : (s.clock w).core.dcnt =
    if s.regs.aesLd then 0xb else if s.core.dcnt = 0 then 0 else s.core.dcnt - 1 := by
  simp only [clock, CipherTop.clock, bne_iff_ne, ne_eq, ite_not]
  split_ifs with hld h0
  · rfl
  · exact h0
  · rfl

variable {s} in
/-- **The core counts down** while it is not loaded, and reports the end of the count. -/
theorem countdown {n : ℕ} (hn : n < 15) (hld : s.regs.aesLd = false)
    (hcnt : s.core.dcnt = BitVec.ofNat 4 (n + 1)) :
    (s.clock w).core.dcnt = BitVec.ofNat 4 n ∧ (s.clock w).core.done = decide (n = 0) := by
  have hval : ∀ n < 15, (if BitVec.ofNat 4 (n + 1) = 0 then 0 else BitVec.ofNat 4 (n + 1) - 1) =
      BitVec.ofNat 4 n ∧ decide (BitVec.ofNat 4 (n + 1) = 1) = decide (n = 0) := by decide
  obtain ⟨hdcnt, hdone⟩ := hval n hn
  constructor
  · rw [clock_dcnt, hld, hcnt, if_neg Bool.false_ne_true, hdcnt]
  · rw [clock_done, hld, hcnt, hdone, Bool.not_false, Bool.and_true]

/-- The core does nothing and reports nothing. -/
structure Quiet (s : AesSystem P) : Prop where
  ld : s.regs.aesLd = false
  dcnt : s.core.dcnt = 0
  done : s.core.done = false

variable {s w}

theorem quiet_clock (h : s.core.dcnt = 0) (hld : s.regs.aesLd = false) (hw : starts w = false) :
    (s.clock w).Quiet := by
  refine ⟨AesRegisterSet.clock_aesLd.trans hw, ?_, ?_⟩
  · rw [clock_dcnt, hld, h]
    rfl
  · rw [clock_done, h]
    rfl

end AesSystem

end PacketBuffering
