import PacketBuffering.Aes.Cipher
import PacketBuffering.Lib.Residue
import PacketBuffering.Lib.Rounds

/-!
# The AES decryption

The functions of `aes_inv_cipher_top`: the table `aes_inv_sbox`, the inverse row shift and
`inv_mix_col`, and the decryption they make up.

* **`aesSbox_affine`**: the table `aes_sbox` holds the affine images of the inverses in the field of the
  bytes; `aesInvSbox_aesSbox`: `aes_inv_sbox` undoes it.
* **`residue_mixCol`**, **`residue_invMixCol`**: `mix_col` and `inv_mix_col` are products by circulant
  matrices; `invMixCol_mixCol`, `mixCol_invMixCol`: they undo each other.
* `aesRounds`: the layers of the source as those of a cipher in rounds; `aesInvCipher`.
* **`aesInvCipher_round_trip`**: decryption and encryption undo each other, for every key.
-/

namespace PacketBuffering

/-! ## The tables and the field -/

/-- The entries of `aes_inv_sbox`, from address `0x00`. -/
def invSboxTable : List (BitVec 8) :=
  [0x52, 0x09, 0x6a, 0xd5, 0x30, 0x36, 0xa5, 0x38, 0xbf, 0x40, 0xa3, 0x9e, 0x81, 0xf3, 0xd7, 0xfb,
   0x7c, 0xe3, 0x39, 0x82, 0x9b, 0x2f, 0xff, 0x87, 0x34, 0x8e, 0x43, 0x44, 0xc4, 0xde, 0xe9, 0xcb,
   0x54, 0x7b, 0x94, 0x32, 0xa6, 0xc2, 0x23, 0x3d, 0xee, 0x4c, 0x95, 0x0b, 0x42, 0xfa, 0xc3, 0x4e,
   0x08, 0x2e, 0xa1, 0x66, 0x28, 0xd9, 0x24, 0xb2, 0x76, 0x5b, 0xa2, 0x49, 0x6d, 0x8b, 0xd1, 0x25,
   0x72, 0xf8, 0xf6, 0x64, 0x86, 0x68, 0x98, 0x16, 0xd4, 0xa4, 0x5c, 0xcc, 0x5d, 0x65, 0xb6, 0x92,
   0x6c, 0x70, 0x48, 0x50, 0xfd, 0xed, 0xb9, 0xda, 0x5e, 0x15, 0x46, 0x57, 0xa7, 0x8d, 0x9d, 0x84,
   0x90, 0xd8, 0xab, 0x00, 0x8c, 0xbc, 0xd3, 0x0a, 0xf7, 0xe4, 0x58, 0x05, 0xb8, 0xb3, 0x45, 0x06,
   0xd0, 0x2c, 0x1e, 0x8f, 0xca, 0x3f, 0x0f, 0x02, 0xc1, 0xaf, 0xbd, 0x03, 0x01, 0x13, 0x8a, 0x6b,
   0x3a, 0x91, 0x11, 0x41, 0x4f, 0x67, 0xdc, 0xea, 0x97, 0xf2, 0xcf, 0xce, 0xf0, 0xb4, 0xe6, 0x73,
   0x96, 0xac, 0x74, 0x22, 0xe7, 0xad, 0x35, 0x85, 0xe2, 0xf9, 0x37, 0xe8, 0x1c, 0x75, 0xdf, 0x6e,
   0x47, 0xf1, 0x1a, 0x71, 0x1d, 0x29, 0xc5, 0x89, 0x6f, 0xb7, 0x62, 0x0e, 0xaa, 0x18, 0xbe, 0x1b,
   0xfc, 0x56, 0x3e, 0x4b, 0xc6, 0xd2, 0x79, 0x20, 0x9a, 0xdb, 0xc0, 0xfe, 0x78, 0xcd, 0x5a, 0xf4,
   0x1f, 0xdd, 0xa8, 0x33, 0x88, 0x07, 0xc7, 0x31, 0xb1, 0x12, 0x10, 0x59, 0x27, 0x80, 0xec, 0x5f,
   0x60, 0x51, 0x7f, 0xa9, 0x19, 0xb5, 0x4a, 0x0d, 0x2d, 0xe5, 0x7a, 0x9f, 0x93, 0xc9, 0x9c, 0xef,
   0xa0, 0xe0, 0x3b, 0x4d, 0xae, 0x2a, 0xf5, 0xb0, 0xc8, 0xeb, 0xbb, 0x3c, 0x83, 0x53, 0x99, 0x61,
   0x17, 0x2b, 0x04, 0x7e, 0xba, 0x77, 0xd6, 0x26, 0xe1, 0x69, 0x14, 0x63, 0x55, 0x21, 0x0c, 0x7d]

/-- `aes_inv_sbox`. -/
def aesInvSbox (a : BitVec 8) : BitVec 8 := invSboxTable.getD a.toNat 0

/-- The affine map of the substitution. -/
def sboxAffine (b : BitVec 8) : BitVec 8 :=
  b ^^^ b.rotateLeft 1 ^^^ b.rotateLeft 2 ^^^ b.rotateLeft 3 ^^^ b.rotateLeft 4 ^^^ 0x63

/-- The inverse of `sboxAffine`. -/
def sboxAffineInv (y : BitVec 8) : BitVec 8 :=
  y.rotateLeft 1 ^^^ y.rotateLeft 3 ^^^ y.rotateLeft 6 ^^^ 0x05

theorem sboxAffine_sboxAffineInv : ∀ y : BitVec 8, sboxAffine (sboxAffineInv y) = y := by
  decide +kernel

/-- What the entry at address `j` of `aes_sbox` has to be. -/
def SboxEntry (p : BitVec 8 × ℕ) : Prop :=
  p.2 = 0 ∨ gfMul 0x1b (BitVec.ofNat 8 p.2) (sboxAffineInv p.1) = 1

instance (p : BitVec 8 × ℕ) : Decidable (SboxEntry p) := inferInstanceAs (Decidable (_ ∨ _))

theorem sboxTable_entries : ∀ p ∈ sboxTable.zipIdx, SboxEntry p := by decide +kernel

/-- **An entry of `aes_sbox` is the affine image of an inverse.** -/
theorem gfMul_aesSbox (a : BitVec 8) (ha : a ≠ 0) :
    gfMul 0x1b a (sboxAffineInv (aesSbox a)) = 1 := by
  have hlt : a.toNat < sboxTable.length := Nat.lt_of_lt_of_eq a.isLt (by decide +kernel)
  have hget : sboxTable[a.toNat]? = some (aesSbox a) := by
    rw [aesSbox, List.getD_eq_getElem?_getD, List.getElem?_eq_getElem hlt, Option.getD_some]
  rcases sboxTable_entries _ (List.mk_mem_zipIdx_iff_getElem?.mpr hget) with hzero | hone
  · exact absurd (BitVec.eq_of_toNat_eq hzero) ha
  · rwa [BitVec.ofNat_toNat, BitVec.setWidth_eq] at hone

theorem aesInvSbox_aesSbox : ∀ a : BitVec 8, aesInvSbox (aesSbox a) = a := by decide +kernel

instance finite_bitVec {w : ℕ} : Finite (BitVec w) := .of_injective BitVec.toFin fun _ _ => BitVec.eq_of_toFin_eq

theorem aesSbox_aesInvSbox (a : BitVec 8) : aesSbox (aesInvSbox a) = a := by
  have hleft : Function.LeftInverse aesInvSbox aesSbox := aesInvSbox_aesSbox
  obtain ⟨b, rfl⟩ := Finite.injective_iff_surjective.mp hleft.injective a
  rw [aesInvSbox_aesSbox]

/-- The residue of a byte in the field of the bytes. -/
noncomputable def byteResidue (a : BitVec 8) : AdjoinRoot (modulus (0x1b : BitVec 8)) := residue 0x1b a

theorem byteResidue_one : byteResidue 1 = 1 := by
  have hone : wordPoly (1 : BitVec 8) = 1 := by
    ext k
    rw [coeff_wordPoly, Polynomial.coeff_one]
    cases k with
    | zero => rfl
    | succ k => simp
  rw [byteResidue, residue, hone, map_one]

/-- **The substitution.** Of a byte other than zero, the table holds the affine image of the inverse,
where bytes are residues modulo `X ^ 8 + X ^ 4 + X ^ 3 + X + 1`; of zero, that of zero. The table
`aes_inv_sbox` undoes it. -/
theorem aesSbox_affine (a : BitVec 8) :
    (∃ b, (if a = 0 then b = 0 else byteResidue a * byteResidue b = 1) ∧ aesSbox a = sboxAffine b) ∧
      aesInvSbox (aesSbox a) = a ∧ aesSbox (aesInvSbox a) = a := by
  refine ⟨⟨sboxAffineInv (aesSbox a), ?_, (sboxAffine_sboxAffineInv _).symm⟩, aesInvSbox_aesSbox a,
    aesSbox_aesInvSbox a⟩
  split_ifs with ha
  · subst ha
    rfl
  · rw [byteResidue, byteResidue, ← residue_gfMul, gfMul_aesSbox a ha]
    exact byteResidue_one

/-! ## The mixing of a column -/

/-- `pmul_e`. -/
def pmulE (b : BitVec 8) : BitVec 8 :=
  let two := xtime b
  let four := xtime two
  let eight := xtime four
  eight ^^^ four ^^^ two

/-- `pmul_9`. -/
def pmul9 (b : BitVec 8) : BitVec 8 :=
  let two := xtime b
  let four := xtime two
  let eight := xtime four
  eight ^^^ b

/-- `pmul_d`. -/
def pmulD (b : BitVec 8) : BitVec 8 :=
  let two := xtime b
  let four := xtime two
  let eight := xtime four
  eight ^^^ four ^^^ b

/-- `pmul_b`. -/
def pmulB (b : BitVec 8) : BitVec 8 :=
  let two := xtime b
  let four := xtime two
  let eight := xtime four
  eight ^^^ two ^^^ b

/-- `inv_mix_col`, by the row of its result. -/
def invMixCol (s0 s1 s2 s3 : BitVec 8) (r : Fin 4) : BitVec 8 :=
  match r with
  | 0 => pmulE s0 ^^^ pmulB s1 ^^^ pmulD s2 ^^^ pmul9 s3
  | 1 => pmul9 s0 ^^^ pmulE s1 ^^^ pmulB s2 ^^^ pmulD s3
  | 2 => pmulD s0 ^^^ pmul9 s1 ^^^ pmulE s2 ^^^ pmulB s3
  | 3 => pmulB s0 ^^^ pmulD s1 ^^^ pmul9 s2 ^^^ pmulE s3

/-- The residue of `X`. -/
noncomputable def byteX : AdjoinRoot (modulus (0x1b : BitVec 8)) := AdjoinRoot.root _

theorem byteResidue_xor (a b : BitVec 8) : byteResidue (a ^^^ b) = byteResidue a + byteResidue b :=
  residue_xor a b

theorem byteResidue_xtime (b : BitVec 8) : byteResidue (xtime b) = byteX * byteResidue b :=
  residue_timesX b

section Circulant

variable {R : Type*} [CommRing R]

/-- The first row of the matrix of `mix_col`; each row is the one above it, rotated. -/
def mixRow (x : R) : Fin 4 → R := ![x, x + 1, 1, 1]

/-- The first row of the matrix of `inv_mix_col`. -/
def invMixRow (x : R) : Fin 4 → R := ![x ^ 3 + x ^ 2 + x, x ^ 3 + x + 1, x ^ 3 + x ^ 2 + 1, x ^ 3 + 1]

/-- The product of a column by the matrix with this first row. -/
def circulant (row s : Fin 4 → R) (r : Fin 4) : R := ∑ j, row (j - r) * s j

/-- **The two matrices undo each other**, in characteristic two and whatever `x` is. -/
theorem circulant_invMixRow_mixRow (htwo : (2 : R) = 0) (x : R) (s : Fin 4 → R) :
    circulant (invMixRow x) (circulant (mixRow x) s) = s ∧
      circulant (mixRow x) (circulant (invMixRow x) s) = s := by
  constructor <;>
  · funext r
    fin_cases r <;>
    · simp [circulant, Fin.sum_univ_four, invMixRow, mixRow]
      grind

end Circulant

/-- **`mix_col` is a product by a circulant matrix.** -/
theorem residue_mixCol (s : Fin 4 → BitVec 8) (r : Fin 4) :
    byteResidue (mixCol (s 0) (s 1) (s 2) (s 3) r) =
      circulant (mixRow byteX) (fun j => byteResidue (s j)) r := by
  fin_cases r <;>
  · simp only [mixCol, byteResidue_xor, byteResidue_xtime, circulant, Fin.sum_univ_four]
    simp [mixRow]
    ring

/-- **`inv_mix_col` is a product by a circulant matrix.** -/
theorem residue_invMixCol (s : Fin 4 → BitVec 8) (r : Fin 4) :
    byteResidue (invMixCol (s 0) (s 1) (s 2) (s 3) r) =
      circulant (invMixRow byteX) (fun j => byteResidue (s j)) r := by
  fin_cases r <;>
  · simp only [invMixCol, pmulE, pmul9, pmulD, pmulB, byteResidue_xor, byteResidue_xtime, circulant,
      Fin.sum_univ_four]
    simp [invMixRow]
    ring

theorem invMixCol_mixCol (s : Fin 4 → BitVec 8) (r : Fin 4) :
    let m := mixCol (s 0) (s 1) (s 2) (s 3)
    invMixCol (m 0) (m 1) (m 2) (m 3) r = s r := by
  apply residue_injective
  have hmix : (fun j => byteResidue (mixCol (s 0) (s 1) (s 2) (s 3) j)) = circulant (mixRow byteX) _ :=
    funext (residue_mixCol s)
  refine (residue_invMixCol _ r).trans ?_
  rw [hmix, (circulant_invMixRow_mixRow residue_two byteX _).1]
  rfl

theorem mixCol_invMixCol (s : Fin 4 → BitVec 8) (r : Fin 4) :
    let m := invMixCol (s 0) (s 1) (s 2) (s 3)
    mixCol (m 0) (m 1) (m 2) (m 3) r = s r := by
  apply residue_injective
  have hmix : (fun j => byteResidue (invMixCol (s 0) (s 1) (s 2) (s 3) j)) =
      circulant (invMixRow byteX) _ :=
    funext (residue_invMixCol s)
  refine (residue_mixCol _ r).trans ?_
  rw [hmix, (circulant_invMixRow_mixRow residue_two byteX _).2]
  rfl

/-! ## Blocks by their bytes -/

theorem lane_push_zero (b : BitVec 128) (x : BitVec 8) : lane (b <<< 8 ||| x.setWidth 128) 0 = x := by
  ext k hk
  have hk' : k < 128 := by omega
  simp [lane, hk, hk']

theorem lane_push_succ (b : BitVec 128) (x : BitVec 8) {j : ℕ} (hj : j < 15) :
    lane (b <<< 8 ||| x.setWidth 128) (j + 1) = lane b j := by
  ext k hk
  have hk' : 8 * (j + 1) + k < 128 := by omega
  have hge : ¬ 8 * (j + 1) + k < 8 := by omega
  have hsub : 8 * (j + 1) + k - 8 = 8 * j + k := by omega
  have hout : x.getLsbD (8 * (j + 1) + k) = false := BitVec.getLsbD_of_ge _ _ (by omega)
  simp only [lane, BitVec.getElem_extractLsb', BitVec.getLsbD_or, BitVec.getLsbD_shiftLeft,
    BitVec.getLsbD_setWidth, hsub, hout]
  simp [hk', hge]

@[simp] theorem blockByte_blockOf (f : Fin 4 → Fin 4 → BitVec 8) (r c : Fin 4) :
    blockByte (blockOf f) r c = f r c := by
  have hfin : List.finRange 4 = [0, 1, 2, 3] := rfl
  rw [blockByte, blockOf]
  generalize (0 : BitVec 128) = z
  rw [hfin]
  fin_cases r <;> fin_cases c <;> simp [lane_push_zero, lane_push_succ]

theorem block_ext {a b : BitVec 128} (h : ∀ r c, blockByte a r c = blockByte b r c) : a = b := by
  apply BitVec.eq_of_getLsbD_eq
  intro k hk
  -- bit `k` is in the lane `k / 8`, which is row and column of this byte
  have hrc := h ⟨(15 - k / 8) % 4, by omega⟩ ⟨(15 - k / 8) / 4, by omega⟩
  have hidx : 15 - (4 * ((15 - k / 8) / 4) + (15 - k / 8) % 4) = k / 8 := by omega
  have hbyte : lane a (k / 8) = lane b (k / 8) := by simpa only [blockByte, hidx] using hrc
  have hbit := congrArg (fun x => x.getLsbD (k % 8)) hbyte
  simpa [lane, Nat.mod_lt, Nat.div_add_mod] using hbit

theorem lane_blockColumn (b : BitVec 128) (r c : Fin 4) :
    lane (blockColumn b c) (3 - r) = blockByte b r c := by
  have hs : 96 - 32 * (c : ℕ) = 8 * (12 - 4 * c) := by omega
  rw [blockColumn, hs, lane_extractLsb' _ _ _ (by omega), blockByte]
  congr 1
  omega

theorem blockByte_mixColumns (b : BitVec 128) (r c : Fin 4) :
    blockByte (mixColumns b) r c =
      mixCol (blockByte b 0 c) (blockByte b 1 c) (blockByte b 2 c) (blockByte b 3 c) r := by
  rw [mixColumns, blockByte_blockOf, ← lane_blockColumn, ← lane_blockColumn, ← lane_blockColumn,
    ← lane_blockColumn]
  rfl

/-! ## The layers and the cipher -/

/-- `sa_sr`, `sa_sub` of the inverse: row `r` rotated back by `r` columns, and the substitution undone. -/
def invShiftSub (b : BitVec 128) : BitVec 128 :=
  blockOf fun r c => aesInvSbox (blockByte b r (c - r))

/-- `sa_next` of the inverse, by `inv_mix_col`. -/
def invMixColumns (b : BitVec 128) : BitVec 128 :=
  blockOf fun r c =>
    let s := blockColumn b c
    invMixCol (lane s 3) (lane s 2) (lane s 1) (lane s 0) r

theorem blockByte_invMixColumns (b : BitVec 128) (r c : Fin 4) :
    blockByte (invMixColumns b) r c =
      invMixCol (blockByte b 0 c) (blockByte b 1 c) (blockByte b 2 c) (blockByte b 3 c) r := by
  rw [invMixColumns, blockByte_blockOf, ← lane_blockColumn, ← lane_blockColumn, ← lane_blockColumn,
    ← lane_blockColumn]
  rfl

/-- **The layers of a round**, each with its inverse. -/
def aesRounds : RoundCipher (BitVec 128) KeyExpand where
  sub := {
    toFun := subShift
    invFun := invShiftSub
    left_inv := fun b => block_ext fun r c => by
      simp only [invShiftSub, subShift, blockByte_blockOf, sub_add_cancel, aesInvSbox_aesSbox]
    right_inv := fun b => block_ext fun r c => by
      simp only [invShiftSub, subShift, blockByte_blockOf, add_sub_cancel_right, aesSbox_aesInvSbox] }
  mix := {
    toFun := mixColumns
    invFun := invMixColumns
    left_inv := fun b => block_ext fun r c => by
      simp only [blockByte_invMixColumns, blockByte_mixColumns]
      exact invMixCol_mixCol (fun j => blockByte b j c) r
    right_inv := fun b => block_ext fun r c => by
      simp only [blockByte_invMixColumns, blockByte_mixColumns]
      exact mixCol_invMixCol (fun j => blockByte b j c) r }
  add := addRoundKey
  add_add := fun b k => block_ext fun r c => by
    simp only [addRoundKey, blockByte_blockOf, BitVec.xor_assoc, BitVec.xor_self, BitVec.xor_zero]

/-- The state of the decryption after `n` full rounds, with the keys in reverse order. -/
def invRoundState (key text : BitVec 128) : ℕ → BitVec 128
  | 0 => addRoundKey text (roundKey key 10)
  | n + 1 => invMixColumns (addRoundKey (invShiftSub (invRoundState key text n)) (roundKey key (9 - n)))

/-- **The decryption**: nine full rounds and one without `inv_mix_col`. -/
def aesInvCipher (key text : BitVec 128) : BitVec 128 :=
  addRoundKey (invShiftSub (invRoundState key text 9)) (roundKey key 0)

example : aesInvCipher 0x2b7e151628aed2a6abf7158809cf4f3c 0x3925841d02dc09fbdc118597196a0b32 =
    0x3243f6a8885a308d313198a2e0370734 := by
  decide +kernel

theorem aesCipher_eq (key text : BitVec 128) :
    aesCipher key text = aesRounds.encrypt (roundKey key) 9 text := by
  have hstate : ∀ n, roundState key text n = aesRounds.state (roundKey key) text n := by
    intro n
    induction n with
    | zero => rfl
    | succ n ih => rw [roundState, ih]; rfl
  rw [aesCipher, hstate]
  rfl

theorem aesInvCipher_eq (key text : BitVec 128) :
    aesInvCipher key text = aesRounds.decrypt (roundKey key) 9 text := by
  have hstate : ∀ n, invRoundState key text n = aesRounds.invState (roundKey key) 9 text n := by
    intro n
    induction n with
    | zero => rfl
    | succ n ih => rw [invRoundState, ih]; rfl
  rw [aesInvCipher, hstate]
  rfl

/-- **Round trip**: for every key, `aes_inv_cipher_top`'s decryption undoes the encryption of
`aes_cipher_top`, and the other way round. -/
theorem aesInvCipher_round_trip (key text : BitVec 128) :
    aesInvCipher key (aesCipher key text) = text ∧ aesCipher key (aesInvCipher key text) = text := by
  simp only [aesCipher_eq, aesInvCipher_eq]
  exact ⟨RoundCipher.decrypt_encrypt 9 text, RoundCipher.encrypt_decrypt 9 text⟩

end PacketBuffering
