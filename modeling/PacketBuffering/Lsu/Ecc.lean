import PacketBuffering.Lib.Parity

/-!
# The error correction of the core's memories

* `rveccEncode`, `rveccDecode`: `rvecc_encode` and `rvecc_decode`.
* `rveccEncode64`, `rveccDecode64`: `rvecc_encode_64` and `rvecc_decode_64`.
* `Ecc.stored`: a word as it stands in the memory, its check bits above it; `Ecc.column`: what a flipped
  bit of it does to the check word.
* **`rvecc_decode_corrects`**: one flipped bit is corrected, two are reported.
* **`rvecc_decode_detects`**: the decoder with `sed_ded` set.
* **`rvecc_decode_64_detects`**: the decoder of 64 bits.
-/

namespace PacketBuffering

namespace Ecc

/-- The bits of `din` in `ecc_out_temp[k]`. -/
def group : ℕ → List ℕ
  | 0 => [0, 1, 3, 4, 6, 8, 10, 11, 13, 15, 17, 19, 21, 23, 25, 26, 28, 30]
  | 1 => [0, 2, 3, 5, 6, 9, 10, 12, 13, 16, 17, 20, 21, 24, 25, 27, 28, 31]
  | 2 => [1, 2, 3, 7, 8, 9, 10, 14, 15, 16, 17, 22, 23, 24, 25, 29, 30, 31]
  | 3 => [4, 5, 6, 7, 8, 9, 10, 18, 19, 20, 21, 22, 23, 24, 25]
  | 4 => [11, 12, 13, 14, 15, 16, 17, 18, 19, 20, 21, 22, 23, 24, 25]
  | _ => [26, 27, 28, 29, 30, 31]

/-- `ecc_out_temp`: the parity of each group. -/
def eccOutTemp (din : BitVec 32) : BitVec 6 :=
  BitVec.ofBool (xorBits din (group 5)) ++ BitVec.ofBool (xorBits din (group 4)) ++
    BitVec.ofBool (xorBits din (group 3)) ++ BitVec.ofBool (xorBits din (group 2)) ++
    BitVec.ofBool (xorBits din (group 1)) ++ BitVec.ofBool (xorBits din (group 0))

/-- `ecc_check[k]` for `k` below 6 is `ecc_in[k]` and the bits of `ecc_out_temp[k]`. -/
def eccCheck (din : BitVec 32) (eccIn : BitVec 7) (sedDed : Bool) : BitVec 7 :=
  BitVec.ofBool ((xorAll din ^^ xorAll eccIn) && !sedDed) ++
    (eccIn.extractLsb' 0 6 ^^^ eccOutTemp din)

/-- `error_mask[i-1]` is `ecc_check[5:0] == i`. -/
def errorMask (check : BitVec 7) : BitVec 39 :=
  (BitVec.ofBoolListLE ((List.range' 1 39).map fun i => (check.extractLsb' 0 6).toNat == i)).cast
    (by simp)

/-- The bit of `ecc_in[6]`, then data and check bits by their position in the code. -/
def dinPlusParity (din : BitVec 32) (eccIn : BitVec 7) : BitVec 39 :=
  eccIn.extractLsb' 6 1 ++ din.extractLsb' 26 6 ++ eccIn.extractLsb' 5 1 ++ din.extractLsb' 11 15 ++
    eccIn.extractLsb' 4 1 ++ din.extractLsb' 4 7 ++ eccIn.extractLsb' 3 1 ++ din.extractLsb' 1 3 ++
    eccIn.extractLsb' 2 1 ++ din.extractLsb' 0 1 ++ eccIn.extractLsb' 0 2

/-- `dout` from `dout_plus_parity` -/
def dataOf (p : BitVec 39) : BitVec 32 :=
  p.extractLsb' 32 6 ++ p.extractLsb' 16 15 ++ p.extractLsb' 8 7 ++ p.extractLsb' 4 3 ++
    p.extractLsb' 2 1

/-- `ecc_out` from `dout_plus_parity`, before `ecc_out[6]` is corrected -/
def eccOf (p : BitVec 39) : BitVec 7 :=
  p.extractLsb' 38 1 ++ p.extractLsb' 31 1 ++ p.extractLsb' 15 1 ++ p.extractLsb' 7 1 ++
    p.extractLsb' 3 1 ++ p.extractLsb' 0 2

end Ecc

open Ecc

/-- `rvecc_encode` -/
def rveccEncode (din : BitVec 32) : BitVec 7 :=
  BitVec.ofBool (xorAll din ^^ xorAll (eccOutTemp din)) ++ eccOutTemp din

/-- The outputs of `rvecc_decode`. -/
structure EccOut where
  dout : BitVec 32
  eccOut : BitVec 7
  singleEccError : Bool
  doubleEccError : Bool
deriving DecidableEq

/-- `rvecc_decode` -/
def rveccDecode (en : Bool) (din : BitVec 32) (eccIn : BitVec 7) (sedDed : Bool) : EccOut :=
  let check := eccCheck din eccIn sedDed
  let single := en && check != 0#7 && check.getLsbD 6
  let doutPlusParity := if single then errorMask check ^^^ dinPlusParity din eccIn
    else dinPlusParity din eccIn
  { dout := dataOf doutPlusParity
    eccOut := eccOf doutPlusParity ^^^ (BitVec.ofBool (check == 0b1000000#7) ++ 0#6)
    singleEccError := single
    doubleEccError := en && check != 0#7 && !check.getLsbD 6 }

namespace Ecc

/-- The word in memory: `{ecc, data}`. -/
def stored (d : BitVec 32) : BitVec 39 := rveccEncode d ++ d

/-- What is read of a word in memory. -/
def decode (en sedDed : Bool) (m : BitVec 39) : EccOut :=
  rveccDecode en (m.extractLsb' 0 32) (m.extractLsb' 32 7) sedDed

/-- `ecc_check` of a word in memory, with `sed_ded` low. -/
def syndrome (m : BitVec 39) : BitVec 7 :=
  eccCheck (m.extractLsb' 0 32) (m.extractLsb' 32 7) false

/-! ## The check word -/

theorem eccOutTemp_linear : XorLinear eccOutTemp := by
  have hbit : ∀ k, XorLinear fun d : BitVec 32 => BitVec.ofBool (xorBits d (group k)) :=
    fun k => .ofBool fun x y => xorBits_xor x y _
  exact ((((hbit 5).append (hbit 4)).append (hbit 3)).append (hbit 2)).append (hbit 1) |>.append
    (hbit 0)

theorem rveccEncode_linear : XorLinear rveccEncode := by
  refine .append (.ofBool fun x y => ?_) eccOutTemp_linear
  rw [xorAll_xor, eccOutTemp_linear, xorAll_xor, Bool.xor_assoc, Bool.xor_assoc,
    Bool.xor_left_comm (xorAll y)]

theorem stored_linear : XorLinear stored := rveccEncode_linear.append .id

theorem syndrome_linear : XorLinear syndrome := by
  refine .append (.ofBool fun x y => ?_) (.xor ?_ ?_)
  · rw [BitVec.extractLsb'_xor, BitVec.extractLsb'_xor, xorAll_xor, xorAll_xor]
    simp only [Bool.not_false, Bool.and_true, Bool.xor_assoc, Bool.xor_left_comm]
  · exact (XorLinear.extractLsb' 0 6).comp (.extractLsb' 32 7)
  · exact eccOutTemp_linear.comp (.extractLsb' 0 32)

/-- The bits that `decode` puts right. -/
def correction (check : BitVec 7) : BitVec 39 :=
  (eccOf (errorMask check) ^^^ (BitVec.ofBool (check == 0b1000000#7) ++ 0#6)) ++
    dataOf (errorMask check)

theorem syndrome_stored (d : BitVec 32) : syndrome (stored d) = 0#7 :=
  (syndrome_linear.comp stored_linear).ext_twoPow .zero (by decide +kernel) d

/-- What the flip of one bit does to the check word. -/
structure Column (i : Fin 39) : Prop where
  odd : (syndrome (.twoPow 39 i)).getLsbD 6 = true
  corrects : correction (syndrome (.twoPow 39 i)) = .twoPow 39 i
  low : (syndrome (.twoPow 39 i)).extractLsb' 0 6 = 0#6 ↔ i.val = 38

theorem column (i : Fin 39) : Column i := by
  have hall : ∀ i : Fin 39, (syndrome (.twoPow 39 i)).getLsbD 6 = true ∧
      correction (syndrome (.twoPow 39 i)) = .twoPow 39 i ∧
      ((syndrome (.twoPow 39 i)).extractLsb' 0 6 = 0#6 ↔ i.val = 38) := by
    decide +kernel
  obtain ⟨hodd, hcor, hlow⟩ := hall i
  exact ⟨hodd, hcor, hlow⟩

theorem syndrome_twoPow_injective :
    Function.Injective fun i : Fin 39 => syndrome (.twoPow 39 i) := by
  intro i j h
  have hpow : BitVec.twoPow 39 i = .twoPow 39 j := by
    rw [← (column i).corrects, ← (column j).corrects]
    exact congrArg correction h
  have hbit : (BitVec.twoPow 39 i).getLsbD i = (BitVec.twoPow 39 j).getLsbD i := by rw [hpow]
  rw [BitVec.getLsbD_twoPow, BitVec.getLsbD_twoPow] at hbit
  exact Fin.ext (by simpa using hbit.symm : (j : ℕ) = i).symm

/-! ## The decoder -/

theorem dataOf_linear : XorLinear dataOf :=
  (XorLinear.extractLsb' 32 6).append (.extractLsb' 16 15) |>.append (.extractLsb' 8 7) |>.append
    (.extractLsb' 4 3) |>.append (.extractLsb' 2 1)

theorem eccOf_linear : XorLinear eccOf :=
  (XorLinear.extractLsb' 38 1).append (.extractLsb' 31 1) |>.append (.extractLsb' 15 1) |>.append
    (.extractLsb' 7 1) |>.append (.extractLsb' 3 1) |>.append (.extractLsb' 0 2)

/-- A word of the memory in the order of the code. -/
def plusParity (m : BitVec 39) : BitVec 39 :=
  dinPlusParity (m.extractLsb' 0 32) (m.extractLsb' 32 7)

theorem plusParity_linear : XorLinear plusParity := by
  have hd : ∀ k n, XorLinear fun x : BitVec 39 => (x.extractLsb' 0 32).extractLsb' k n :=
    fun k n => (XorLinear.extractLsb' k n).comp (.extractLsb' 0 32)
  have he : ∀ k n, XorLinear fun x : BitVec 39 => (x.extractLsb' 32 7).extractLsb' k n :=
    fun k n => (XorLinear.extractLsb' k n).comp (.extractLsb' 32 7)
  exact (he 6 1).append (hd 26 6) |>.append (he 5 1) |>.append (hd 11 15) |>.append (he 4 1)
    |>.append (hd 4 7) |>.append (he 3 1) |>.append (hd 1 3) |>.append (he 2 1) |>.append (hd 0 1)
    |>.append (he 0 2)

theorem append_plusParity (m : BitVec 39) : eccOf (plusParity m) ++ dataOf (plusParity m) = m :=
  ((eccOf_linear.comp plusParity_linear).append (dataOf_linear.comp plusParity_linear)).ext_twoPow
    .id (by decide +kernel) m

theorem dataOf_plusParity (m : BitVec 39) : dataOf (plusParity m) = m.extractLsb' 0 32 := by
  conv_rhs => rw [← append_plusParity m]
  exact BitVec.extractLsb'_append_eq_right.symm

theorem eccOf_plusParity (m : BitVec 39) : eccOf (plusParity m) = m.extractLsb' 32 7 := by
  conv_rhs => rw [← append_plusParity m]
  exact BitVec.extractLsb'_append_eq_left.symm

@[simp] theorem stored_data (d : BitVec 32) : (stored d).extractLsb' 0 32 = d :=
  BitVec.extractLsb'_append_eq_right

@[simp] theorem stored_ecc (d : BitVec 32) : (stored d).extractLsb' 32 7 = rveccEncode d :=
  BitVec.extractLsb'_append_eq_left

variable {m : BitVec 39}

theorem decode_of_zero (h : syndrome m = 0#7) :
    decode true false m = ⟨m.extractLsb' 0 32, m.extractLsb' 32 7, false, false⟩ := by
  have hcheck : eccCheck (m.extractLsb' 0 32) (m.extractLsb' 32 7) false = 0#7 := h
  rw [← dataOf_plusParity m, ← eccOf_plusParity m, plusParity]
  simp [decode, rveccDecode, hcheck]

theorem decode_of_odd (hodd : (syndrome m).getLsbD 6 = true) :
    decode true false m = ⟨(m ^^^ correction (syndrome m)).extractLsb' 0 32,
      (m ^^^ correction (syndrome m)).extractLsb' 32 7, true, false⟩ := by
  have hne : syndrome m ≠ 0#7 := fun h => by simp [h] at hodd
  have hdout : dataOf (errorMask (syndrome m) ^^^ plusParity m) =
      (m ^^^ correction (syndrome m)).extractLsb' 0 32 := by
    rw [dataOf_linear, dataOf_plusParity, BitVec.extractLsb'_xor, correction,
      BitVec.extractLsb'_append_eq_right, BitVec.xor_comm]
  have hecc : eccOf (errorMask (syndrome m) ^^^ plusParity m) ^^^
      (BitVec.ofBool (syndrome m == 0b1000000#7) ++ 0#6) =
        (m ^^^ correction (syndrome m)).extractLsb' 32 7 := by
    rw [eccOf_linear, eccOf_plusParity, BitVec.extractLsb'_xor, correction,
      BitVec.extractLsb'_append_eq_left, BitVec.xor_comm (eccOf _), BitVec.xor_assoc]
  rw [← hdout, ← hecc]
  have hcheck : eccCheck (m.extractLsb' 0 32) (m.extractLsb' 32 7) false = syndrome m := rfl
  simp only [decode, rveccDecode, hcheck, hodd, bne_iff_ne.mpr hne, Bool.and_true, if_true,
    Bool.not_true, Bool.and_false, plusParity]

theorem decode_of_even (hne : syndrome m ≠ 0#7) (heven : (syndrome m).getLsbD 6 = false) :
    decode true false m = ⟨m.extractLsb' 0 32, m.extractLsb' 32 7, false, true⟩ := by
  have hcheck : eccCheck (m.extractLsb' 0 32) (m.extractLsb' 32 7) false = syndrome m := rfl
  have htop : syndrome m ≠ 0b1000000#7 := fun h => by simp [h] at heven
  rw [← dataOf_plusParity m, ← eccOf_plusParity m, plusParity]
  simp only [decode, rveccDecode, hcheck, heven, beq_false_of_ne htop, bne_iff_ne.mpr hne,
    Bool.and_false, Bool.false_eq_true, if_false, Bool.not_false, Bool.and_true]
  rw [show BitVec.ofBool false ++ 0#6 = 0#7 from rfl, BitVec.xor_zero]

end Ecc

/-- **One flipped bit is corrected, two are reported.** -/
theorem rvecc_decode_corrects (d : BitVec 32) (i j : Fin 39) :
    decode true false (stored d) = ⟨d, rveccEncode d, false, false⟩ ∧
      decode true false (stored d ^^^ .twoPow 39 i) = ⟨d, rveccEncode d, true, false⟩ ∧
      (i ≠ j → decode true false (stored d ^^^ .twoPow 39 i ^^^ .twoPow 39 j) =
        ⟨(stored d ^^^ .twoPow 39 i ^^^ .twoPow 39 j).extractLsb' 0 32,
          (stored d ^^^ .twoPow 39 i ^^^ .twoPow 39 j).extractLsb' 32 7, false, true⟩) := by
  refine ⟨?_, ?_, fun hij => ?_⟩
  · rw [decode_of_zero (syndrome_stored d), stored_data, stored_ecc]
  · have hflip := check_flip syndrome_linear (syndrome_stored d) (.twoPow 39 i)
    rw [decode_of_odd (hflip ▸ (column i).odd), hflip, (column i).corrects, BitVec.xor_assoc,
      BitVec.xor_self, BitVec.xor_zero, stored_data, stored_ecc]
  · have hne := check_flip_flip_ne_zero syndrome_linear (syndrome_stored d)
      syndrome_twoPow_injective hij
    have heven : (syndrome (stored d ^^^ .twoPow 39 i ^^^ .twoPow 39 j)).getLsbD 6 = false := by
      rw [check_flip_flip syndrome_linear (syndrome_stored d), BitVec.getLsbD_xor,
        (column i).odd, (column j).odd, Bool.xor_self]
    exact decode_of_even hne heven

/-! ## Detection alone -/

namespace Ecc

/-- `ecc_check[5:0]` of a word in memory. -/
def lowCheck (m : BitVec 39) : BitVec 6 :=
  (m.extractLsb' 32 7).extractLsb' 0 6 ^^^ eccOutTemp (m.extractLsb' 0 32)

theorem syndrome_eq (m : BitVec 39) :
    syndrome m = BitVec.ofBool (xorAll (m.extractLsb' 0 32) ^^ xorAll (m.extractLsb' 32 7)) ++
      lowCheck m := by
  rw [syndrome, eccCheck, Bool.not_false, Bool.and_true]
  rfl

theorem lowCheck_eq (m : BitVec 39) : lowCheck m = (syndrome m).extractLsb' 0 6 := by
  rw [syndrome_eq]
  exact BitVec.extractLsb'_append_eq_right.symm

theorem lowCheck_linear : XorLinear lowCheck := by
  rw [show lowCheck = fun m => (syndrome m).extractLsb' 0 6 from funext lowCheck_eq]
  exact (XorLinear.extractLsb' 0 6).comp syndrome_linear

theorem lowCheck_stored (d : BitVec 32) : lowCheck (stored d) = 0#6 := by
  rw [lowCheck_eq, syndrome_stored]
  rfl

theorem lowCheck_twoPow (i : Fin 39) : (lowCheck (.twoPow 39 i) != 0#6) = (i.val != 38) := by
  rw [Bool.eq_iff_iff, bne_iff_ne, bne_iff_ne, lowCheck_eq]
  exact (column i).low.not

theorem getLsbD_ofBool_append (b : Bool) (x : BitVec 6) : (BitVec.ofBool b ++ x).getLsbD 6 = b := by
  rw [BitVec.getLsbD_append]
  cases b <;> rfl

theorem lowCheck_twoPow_injective :
    Function.Injective fun i : Fin 39 => lowCheck (.twoPow 39 i) := by
  -- the check words of single bits agree in bit 6
  have hword : ∀ i : Fin 39,
      syndrome (.twoPow 39 i) = BitVec.ofBool true ++ lowCheck (.twoPow 39 i) := by
    intro i
    have hodd := (column i).odd
    rw [syndrome_eq, getLsbD_ofBool_append] at hodd
    rw [syndrome_eq, hodd]
  intro i j h
  refine syndrome_twoPow_injective ?_
  have hlow : lowCheck (.twoPow 39 i) = lowCheck (.twoPow 39 j) := h
  change syndrome (.twoPow 39 i) = syndrome (.twoPow 39 j)
  rw [hword, hword, hlow]

theorem decode_of_sedDed (en : Bool) (m : BitVec 39) : decode en true m =
    ⟨m.extractLsb' 0 32, m.extractLsb' 32 7, false, en && lowCheck m != 0#6⟩ := by
  have hcheck : eccCheck (m.extractLsb' 0 32) (m.extractLsb' 32 7) true =
      BitVec.ofBool false ++ lowCheck m := by
    rw [eccCheck, Bool.not_true, Bool.and_false]
    rfl
  have hparity : (BitVec.ofBool false ++ lowCheck m == 0b1000000#7) = false := by
    refine beq_false_of_ne fun h => ?_
    have htop := getLsbD_ofBool_append false (lowCheck m)
    rw [h] at htop
    exact Bool.noConfusion htop
  have hne : (BitVec.ofBool false ++ lowCheck m != 0#7) = (lowCheck m != 0#6) := by
    rw [Bool.eq_iff_iff, bne_iff_ne, bne_iff_ne]
    refine not_congr ⟨fun h => ?_, fun h => by rw [h]; rfl⟩
    have hlow : (BitVec.ofBool false ++ lowCheck m).extractLsb' 0 6 = lowCheck m :=
      BitVec.extractLsb'_append_eq_right
    rw [← hlow, h]
    rfl
  rw [← dataOf_plusParity m, ← eccOf_plusParity m, plusParity]
  simp only [decode, rveccDecode, hcheck, getLsbD_ofBool_append, hparity, hne, Bool.and_false,
    Bool.false_eq_true, if_false, Bool.not_false, Bool.and_true]
  rw [show BitVec.ofBool false ++ 0#6 = 0#7 from rfl, BitVec.xor_zero]

end Ecc

/-- **The decoder with `sed_ded` set** hands on what it reads, and reports one or two flipped bits,
but not a flip of `ecc[6]` alone. -/
theorem rvecc_decode_detects (en : Bool) (d : BitVec 32) (i j : Fin 39) :
    (∀ e, ∃ double, decode en true (stored d ^^^ e) =
        ⟨d ^^^ e.extractLsb' 0 32, rveccEncode d ^^^ e.extractLsb' 32 7, false, double⟩) ∧
      (decode en true (stored d)).doubleEccError = false ∧
      (decode en true (stored d ^^^ .twoPow 39 i)).doubleEccError = (en && i.val != 38) ∧
      (i ≠ j →
        (decode en true (stored d ^^^ .twoPow 39 i ^^^ .twoPow 39 j)).doubleEccError = en) := by
  refine ⟨fun e => ⟨en && lowCheck (stored d ^^^ e) != 0#6, ?_⟩, ?_, ?_, fun hij => ?_⟩
  · rw [decode_of_sedDed, BitVec.extractLsb'_xor, BitVec.extractLsb'_xor, stored_data, stored_ecc]
  · rw [decode_of_sedDed, lowCheck_stored, bne_self_eq_false, Bool.and_false]
  · rw [decode_of_sedDed, check_flip lowCheck_linear (lowCheck_stored d), lowCheck_twoPow]
  · have hne := check_flip_flip_ne_zero lowCheck_linear (lowCheck_stored d)
      lowCheck_twoPow_injective hij
    rw [decode_of_sedDed, bne_iff_ne.mpr hne, Bool.and_true]

/-! ## Words of 64 bits -/

namespace Ecc

/-- The bits of `din` in `ecc_out[k]` of `rvecc_encode_64`. -/
def group64 : ℕ → List ℕ
  | 0 => [0, 1, 3, 4, 6, 8, 10, 11, 13, 15, 17, 19, 21, 23, 25, 26, 28, 30, 32, 34, 36, 38, 40,
      42, 44, 46, 48, 50, 52, 54, 56, 57, 59, 61, 63]
  | 1 => [0, 2, 3, 5, 6, 9, 10, 12, 13, 16, 17, 20, 21, 24, 25, 27, 28, 31, 32, 35, 36, 39, 40,
      43, 44, 47, 48, 51, 52, 55, 56, 58, 59, 62, 63]
  | 2 => [1, 2, 3, 7, 8, 9, 10, 14, 15, 16, 17, 22, 23, 24, 25, 29, 30, 31, 32, 37, 38, 39, 40,
      45, 46, 47, 48, 53, 54, 55, 56, 60, 61, 62, 63]
  | 3 => [4, 5, 6, 7, 8, 9, 10, 18, 19, 20, 21, 22, 23, 24, 25, 33, 34, 35, 36, 37, 38, 39, 40,
      49, 50, 51, 52, 53, 54, 55, 56]
  | 4 => [11, 12, 13, 14, 15, 16, 17, 18, 19, 20, 21, 22, 23, 24, 25, 41, 42, 43, 44, 45, 46, 47,
      48, 49, 50, 51, 52, 53, 54, 55, 56]
  | 5 => [26, 27, 28, 29, 30, 31, 32, 33, 34, 35, 36, 37, 38, 39, 40, 41, 42, 43, 44, 45, 46, 47,
      48, 49, 50, 51, 52, 53, 54, 55, 56]
  | _ => [57, 58, 59, 60, 61, 62, 63]

end Ecc

/-- `rvecc_encode_64` -/
def rveccEncode64 (din : BitVec 64) : BitVec 7 :=
  BitVec.ofBool (xorBits din (group64 6)) ++ BitVec.ofBool (xorBits din (group64 5)) ++
    BitVec.ofBool (xorBits din (group64 4)) ++ BitVec.ofBool (xorBits din (group64 3)) ++
    BitVec.ofBool (xorBits din (group64 2)) ++ BitVec.ofBool (xorBits din (group64 1)) ++
    BitVec.ofBool (xorBits din (group64 0))

/-- `rvecc_decode_64`: `ecc_check[k]` is `ecc_in[k]` and the bits of `ecc_out[k]`. -/
def rveccDecode64 (en : Bool) (din : BitVec 64) (eccIn : BitVec 7) : Bool :=
  en && eccIn ^^^ rveccEncode64 din != 0#7

namespace Ecc

/-- A doubleword in memory, its check bits first. -/
def stored64 (d : BitVec 64) : BitVec 71 := rveccEncode64 d ++ d

/-- What the decoder reports of a doubleword in memory. -/
def decode64 (en : Bool) (m : BitVec 71) : Bool :=
  rveccDecode64 en (m.extractLsb' 0 64) (m.extractLsb' 64 7)

/-- `ecc_check` of a word of 64 bits in memory. -/
def syndrome64 (m : BitVec 71) : BitVec 7 :=
  m.extractLsb' 64 7 ^^^ rveccEncode64 (m.extractLsb' 0 64)

theorem rveccEncode64_linear : XorLinear rveccEncode64 := by
  have hbit : ∀ k, XorLinear fun d : BitVec 64 => BitVec.ofBool (xorBits d (group64 k)) :=
    fun k => .ofBool fun x y => xorBits_xor x y _
  exact (hbit 6).append (hbit 5) |>.append (hbit 4) |>.append (hbit 3) |>.append (hbit 2)
    |>.append (hbit 1) |>.append (hbit 0)

theorem syndrome64_linear : XorLinear syndrome64 :=
  (XorLinear.extractLsb' 64 7).xor (rveccEncode64_linear.comp (.extractLsb' 0 64))

theorem syndrome64_stored (d : BitVec 64) : syndrome64 (stored64 d) = 0#7 := by
  rw [syndrome64, stored64, BitVec.extractLsb'_append_eq_left, BitVec.extractLsb'_append_eq_right,
    BitVec.xor_self]

/-- The bit of the word whose flip gives a check word: check bits stand at the powers of two. -/
def flipped64 (check : BitVec 7) : ℕ :=
  if 2 ^ check.toNat.log2 = check.toNat then 64 + check.toNat.log2
  else check.toNat - check.toNat.log2 - 2

theorem column64 : ∀ i : Fin 71, syndrome64 (.twoPow 71 i) ≠ 0#7 ∧
    flipped64 (syndrome64 (.twoPow 71 i)) = i := by
  decide +kernel

theorem syndrome64_twoPow_injective :
    Function.Injective fun i : Fin 71 => syndrome64 (.twoPow 71 i) := by
  intro i j h
  apply Fin.ext
  rw [← (column64 i).2, ← (column64 j).2]
  exact congrArg flipped64 h

end Ecc

/-- **One or two flipped bits of a word of 64 bits are reported.** -/
theorem rvecc_decode_64_detects (en : Bool) (d : BitVec 64) (i j : Fin 71) :
    decode64 en (stored64 d) = false ∧ decode64 en (stored64 d ^^^ .twoPow 71 i) = en ∧
      (i ≠ j → decode64 en (stored64 d ^^^ .twoPow 71 i ^^^ .twoPow 71 j) = en) := by
  have hdecode : ∀ m, decode64 en m = (en && syndrome64 m != 0#7) := fun _ => rfl
  refine ⟨?_, ?_, fun hij => ?_⟩
  · rw [hdecode, syndrome64_stored, bne_self_eq_false, Bool.and_false]
  · rw [hdecode, check_flip syndrome64_linear (syndrome64_stored d),
      bne_iff_ne.mpr (column64 i).1, Bool.and_true]
  · have hne := check_flip_flip_ne_zero syndrome64_linear (syndrome64_stored d)
      syndrome64_twoPow_injective hij
    rw [hdecode, bne_iff_ne.mpr hne, Bool.and_true]

end PacketBuffering
