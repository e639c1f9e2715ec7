import PacketBuffering.Lib.Run
import PacketBuffering.Lib.Lanes

/-!
# The AES encryption core

`aes_cipher_top` with its key schedule `aes_key_expand_128`, the round constants `aes_rcon` and the
table `aes_sbox`. A load takes key and text; one round a cycle follows, and `text_out` shows in every
cycle what a last round would make of the state.

* `CipherData`: the registers of the datapath; `CipherData.clock`.
* `aesCipher`: the encryption as a function of key and text.
* `CipherPath`: a datapath whose output, eleven cycles after a load, is a function of what was
  loaded; **`aesPath`**: the datapath of the source is one, and the function is `aesCipher`.
-/

namespace PacketBuffering

/-! ## The tables -/

/-- The entries of `aes_sbox`, from address `0x00`. -/
def sboxTable : List (BitVec 8) :=
  [0x63, 0x7c, 0x77, 0x7b, 0xf2, 0x6b, 0x6f, 0xc5, 0x30, 0x01, 0x67, 0x2b, 0xfe, 0xd7, 0xab, 0x76,
   0xca, 0x82, 0xc9, 0x7d, 0xfa, 0x59, 0x47, 0xf0, 0xad, 0xd4, 0xa2, 0xaf, 0x9c, 0xa4, 0x72, 0xc0,
   0xb7, 0xfd, 0x93, 0x26, 0x36, 0x3f, 0xf7, 0xcc, 0x34, 0xa5, 0xe5, 0xf1, 0x71, 0xd8, 0x31, 0x15,
   0x04, 0xc7, 0x23, 0xc3, 0x18, 0x96, 0x05, 0x9a, 0x07, 0x12, 0x80, 0xe2, 0xeb, 0x27, 0xb2, 0x75,
   0x09, 0x83, 0x2c, 0x1a, 0x1b, 0x6e, 0x5a, 0xa0, 0x52, 0x3b, 0xd6, 0xb3, 0x29, 0xe3, 0x2f, 0x84,
   0x53, 0xd1, 0x00, 0xed, 0x20, 0xfc, 0xb1, 0x5b, 0x6a, 0xcb, 0xbe, 0x39, 0x4a, 0x4c, 0x58, 0xcf,
   0xd0, 0xef, 0xaa, 0xfb, 0x43, 0x4d, 0x33, 0x85, 0x45, 0xf9, 0x02, 0x7f, 0x50, 0x3c, 0x9f, 0xa8,
   0x51, 0xa3, 0x40, 0x8f, 0x92, 0x9d, 0x38, 0xf5, 0xbc, 0xb6, 0xda, 0x21, 0x10, 0xff, 0xf3, 0xd2,
   0xcd, 0x0c, 0x13, 0xec, 0x5f, 0x97, 0x44, 0x17, 0xc4, 0xa7, 0x7e, 0x3d, 0x64, 0x5d, 0x19, 0x73,
   0x60, 0x81, 0x4f, 0xdc, 0x22, 0x2a, 0x90, 0x88, 0x46, 0xee, 0xb8, 0x14, 0xde, 0x5e, 0x0b, 0xdb,
   0xe0, 0x32, 0x3a, 0x0a, 0x49, 0x06, 0x24, 0x5c, 0xc2, 0xd3, 0xac, 0x62, 0x91, 0x95, 0xe4, 0x79,
   0xe7, 0xc8, 0x37, 0x6d, 0x8d, 0xd5, 0x4e, 0xa9, 0x6c, 0x56, 0xf4, 0xea, 0x65, 0x7a, 0xae, 0x08,
   0xba, 0x78, 0x25, 0x2e, 0x1c, 0xa6, 0xb4, 0xc6, 0xe8, 0xdd, 0x74, 0x1f, 0x4b, 0xbd, 0x8b, 0x8a,
   0x70, 0x3e, 0xb5, 0x66, 0x48, 0x03, 0xf6, 0x0e, 0x61, 0x35, 0x57, 0xb9, 0x86, 0xc1, 0x1d, 0x9e,
   0xe1, 0xf8, 0x98, 0x11, 0x69, 0xd9, 0x8e, 0x94, 0x9b, 0x1e, 0x87, 0xe9, 0xce, 0x55, 0x28, 0xdf,
   0x8c, 0xa1, 0x89, 0x0d, 0xbf, 0xe6, 0x42, 0x68, 0x41, 0x99, 0x2d, 0x0f, 0xb0, 0x54, 0xbb, 0x16]

/-- `aes_sbox`. -/
def aesSbox (a : BitVec 8) : BitVec 8 := sboxTable.getD a.toNat 0

/-- `frcon`: the round constants. -/
def frcon (i : BitVec 4) : BitVec 32 :=
  match i with
  | 0x0 => 0x01000000
  | 0x1 => 0x02000000
  | 0x2 => 0x04000000
  | 0x3 => 0x08000000
  | 0x4 => 0x10000000
  | 0x5 => 0x20000000
  | 0x6 => 0x40000000
  | 0x7 => 0x80000000
  | 0x8 => 0x1b000000
  | 0x9 => 0x36000000
  | _ => 0x00000000

/-! ## The key schedule -/

/-- The registers of `aes_key_expand_128` and of its `aes_rcon`. -/
structure KeyExpand where
  w0 : BitVec 32
  w1 : BitVec 32
  w2 : BitVec 32
  w3 : BitVec 32
  out : BitVec 32
  rcnt : BitVec 4

namespace KeyExpand

/-- The registers after `kld`. -/
def load (key : BitVec 128) : KeyExpand where
  w0 := key.extractLsb' 96 32
  w1 := key.extractLsb' 64 32
  w2 := key.extractLsb' 32 32
  w3 := key.extractLsb' 0 32
  out := 0x01000000
  rcnt := 0

variable (k : KeyExpand)

/-- `subword`: the last word, rotated by a byte and substituted. -/
def subword : BitVec 32 :=
  aesSbox (k.w3.extractLsb' 16 8) ++ aesSbox (k.w3.extractLsb' 8 8) ++
    aesSbox (k.w3.extractLsb' 0 8) ++ aesSbox (k.w3.extractLsb' 24 8)

/-- The registers after a cycle without `kld`. -/
def next : KeyExpand where
  w0 := k.w0 ^^^ k.subword ^^^ k.out
  w1 := k.w0 ^^^ k.w1 ^^^ k.subword ^^^ k.out
  w2 := k.w0 ^^^ k.w2 ^^^ k.w1 ^^^ k.subword ^^^ k.out
  w3 := k.w0 ^^^ k.w3 ^^^ k.w2 ^^^ k.w1 ^^^ k.subword ^^^ k.out
  out := frcon (k.rcnt + 1)
  rcnt := k.rcnt + 1

/-- A rising `clk`. -/
def clock (kld : Bool) (key : BitVec 128) : KeyExpand := if kld then load key else k.next

/-- `w0`, …, `w3` by their index. -/
def word (c : Fin 4) : BitVec 32 :=
  match c with
  | 0 => k.w0
  | 1 => k.w1
  | 2 => k.w2
  | 3 => k.w3

/-- The byte of the round key for row `r` of column `c`. -/
def byte (r c : Fin 4) : BitVec 8 := lane (k.word c) (3 - r)

end KeyExpand

/-! ## The rounds -/

/-- `xtime`: multiplication by `x`. -/
def xtime (b : BitVec 8) : BitVec 8 := (b <<< 1) ^^^ if b.getLsbD 7 then 0x1b else 0

/-- `mix_col`, by the row of its result. -/
def mixCol (s0 s1 s2 s3 : BitVec 8) (r : Fin 4) : BitVec 8 :=
  match r with
  | 0 => xtime s0 ^^^ xtime s1 ^^^ s1 ^^^ s2 ^^^ s3
  | 1 => s0 ^^^ xtime s1 ^^^ xtime s2 ^^^ s2 ^^^ s3
  | 2 => s0 ^^^ s1 ^^^ xtime s2 ^^^ xtime s3 ^^^ s3
  | 3 => xtime s0 ^^^ s0 ^^^ s1 ^^^ s2 ^^^ xtime s3

/-- The byte in row `r` and column `c` of a block; the highest byte is row 0 of column 0, the next
row 1. -/
def blockByte (b : BitVec 128) (r c : Fin 4) : BitVec 8 := lane b (15 - (4 * c + r))

/-- Column `c` of a block. -/
def blockColumn (b : BitVec 128) (c : Fin 4) : BitVec 32 := b.extractLsb' (96 - 32 * c) 32

/-- The block with given bytes: they are shifted in column by column, row 0 of column 0 first. -/
def blockOf (f : Fin 4 → Fin 4 → BitVec 8) : BitVec 128 :=
  (List.finRange 4).foldl
    (fun b c => (List.finRange 4).foldl (fun b r => b <<< 8 ||| (f r c).setWidth 128) b) 0

/-- The round key is added. -/
def addRoundKey (b : BitVec 128) (k : KeyExpand) : BitVec 128 :=
  blockOf fun r c => blockByte b r c ^^^ k.byte r c

/-- `sa_sub`, `sa_sr`: substitution, and row `r` rotated by `r` columns. -/
def subShift (b : BitVec 128) : BitVec 128 := blockOf fun r c => aesSbox (blockByte b r (c + r))

/-- `sa_mc`. -/
def mixColumns (b : BitVec 128) : BitVec 128 :=
  blockOf fun r c =>
    let s := blockColumn b c
    mixCol (lane s 3) (lane s 2) (lane s 1) (lane s 0) r

/-! ## The datapath -/

/-- The registers of `aes_cipher_top` but for `dcnt` and `done`; `sa00`, …, `sa33` in one block. -/
structure CipherData where
  textInR : BitVec 128
  ldR : Bool
  sa : BitVec 128
  textOut : BitVec 128
  u0 : KeyExpand

namespace CipherData

/-- All registers zero. -/
def zero : CipherData := ⟨0, false, 0, 0, ⟨0, 0, 0, 0, 0, 0⟩⟩

/-- A rising `clk`. -/
def clock (d : CipherData) (ld : Bool) (key text : BitVec 128) : CipherData where
  textInR := if ld then text else d.textInR
  ldR := ld
  sa :=
    if d.ldR then addRoundKey d.textInR d.u0
    else addRoundKey (mixColumns (subShift d.sa)) d.u0
  textOut := addRoundKey (subShift d.sa) d.u0
  u0 := d.u0.clock ld key

end CipherData

/-- The key schedule after `n` rounds. -/
def roundKey (key : BitVec 128) : ℕ → KeyExpand
  | 0 => .load key
  | n + 1 => (roundKey key n).next

/-- The state after `n` full rounds. -/
def roundState (key text : BitVec 128) : ℕ → BitVec 128
  | 0 => addRoundKey text (roundKey key 0)
  | n + 1 => addRoundKey (mixColumns (subShift (roundState key text n))) (roundKey key (n + 1))

/-- **The encryption**: nine full rounds and one without `mix_col`. -/
def aesCipher (key text : BitVec 128) : BitVec 128 :=
  addRoundKey (subShift (roundState key text 9)) (roundKey key 10)

example : aesCipher 0x2b7e151628aed2a6abf7158809cf4f3c 0x3243f6a8885a308d313198a2e0370734 =
    0x3925841d02dc09fbdc118597196a0b32 := by
  decide +kernel

/-! ## The datapath computes the encryption -/

/-- A datapath between `ld` and `text_out`: eleven cycles after a load that no other load followed,
the output is a function of the key and the text loaded, whatever was held before and whatever stands
on the inputs after it. -/
structure CipherPath where
  State : Type
  clock : State → Bool → BitVec 128 → BitVec 128 → State
  textOut : State → BitVec 128
  cipher : BitVec 128 → BitVec 128 → BitVec 128
  textOut_eq : ∀ (d : State) (key text : BitVec 128) (ps : List (BitVec 128 × BitVec 128)),
    ps.length = 11 →
      textOut (run (fun d p => clock d false p.1 p.2) (clock d true key text) ps) = cipher key text

theorem CipherData.run_of_load (d : CipherData) (key text : BitVec 128)
    (ps : List (BitVec 128 × BitVec 128)) (n : ℕ) (hn : ps.length = n + 1) :
    let d' := run (fun d p => clock d false p.1 p.2) (d.clock true key text) ps
    d'.ldR = false ∧ d'.u0 = roundKey key (n + 1) ∧ d'.sa = roundState key text n := by
  induction n generalizing ps with
  | zero =>
    obtain ⟨p, rfl⟩ := List.length_eq_one_iff.mp hn
    exact ⟨rfl, rfl, rfl⟩
  | succ n ih =>
    rcases List.eq_nil_or_concat ps with rfl | ⟨ps, p, rfl⟩
    · simp at hn
    · obtain ⟨hld, hkey, hsa⟩ := ih ps (by simpa using hn)
      simp only [List.concat_eq_append, run_snoc]
      refine ⟨rfl, ?_, ?_⟩
      · simp only [clock, KeyExpand.clock] at hkey ⊢
        rw [hkey]
        rfl
      · simp only [clock] at hld hkey hsa ⊢
        rw [hld, hkey, hsa]
        rfl

/-- **The datapath of `aes_cipher_top`** computes `aesCipher`. -/
def aesPath : CipherPath where
  State := CipherData
  clock := CipherData.clock
  textOut := CipherData.textOut
  cipher := aesCipher
  textOut_eq := by
    intro d key text ps hps
    rcases List.eq_nil_or_concat ps with rfl | ⟨ps, p, rfl⟩
    · simp at hps
    · obtain ⟨-, hkey, hsa⟩ := d.run_of_load key text ps 9 (by simpa using hps)
      simp only [List.concat_eq_append, run_snoc]
      simp only [CipherData.clock] at hkey hsa ⊢
      rw [hkey, hsa]
      rfl

end PacketBuffering
