import PacketBuffering.Lib.Crc
import PacketBuffering.Lib.Run

/-!
# The CRC-32 engine

`crc32_engine`: a reflected CRC register that takes up to four byte lanes in one cycle.

* `updateByte`, `updateWord`: the bit and lane loops of the source; `updateWord_eq`: a word is its
  enabled bytes, lane 0 first.
* `crcOf`: the engine's CRC of a byte string; `Crc32Engine.run_eq`: what the register holds after any
  cycles without a further `init`.
* `crc32`: CRC-32/ISO-HDLC by polynomial division; **`crcOut_eq_crc32`**: the engine computes it.
-/

namespace PacketBuffering

open Polynomial

/-! ## The parameters -/

/-- `CRC32_DEFAULT_POLY`. -/
def crc32DefaultPoly : BitVec 32 := 0x04C11DB7

/-- `CRC32_DEFAULT_POLY_REV`. -/
def crc32DefaultPolyRev : BitVec 32 := 0xEDB88320

/-- `CRC32_DEFAULT_INIT`. -/
def crc32DefaultInit : BitVec 32 := 0xFFFFFFFF

/-- `CRC32_DEFAULT_XOROUT`. -/
def crc32DefaultXorout : BitVec 32 := 0xFFFFFFFF

/-! ## The loops -/

/-- `update_byte`: the bits of `d`, least significant first. -/
def updateByte (c : BitVec 32) (d : BitVec 8) (poly : BitVec 32) : BitVec 32 :=
  (List.range 8).foldl
    (fun c i => if c.getLsbD 0 ^^ d.getLsbD i then c >>> 1 ^^^ poly else c >>> 1) c

/-- `update_word`: the enabled lanes, lane 0 first. -/
def updateWord (c d : BitVec 32) (be : BitVec 4) (poly : BitVec 32) : BitVec 32 :=
  let c := if be.getLsbD 0 then updateByte c (d.extractLsb' 0 8) poly else c
  let c := if be.getLsbD 1 then updateByte c (d.extractLsb' 8 8) poly else c
  let c := if be.getLsbD 2 then updateByte c (d.extractLsb' 16 8) poly else c
  if be.getLsbD 3 then updateByte c (d.extractLsb' 24 8) poly else c

/-- The enabled bytes of a word, lane 0 first. -/
def enabledBytes (d : BitVec 32) (be : BitVec 4) : List (BitVec 8) :=
  ((List.range 4).filter be.getLsbD).map fun k => d.extractLsb' (8 * k) 8

/-- The bits of a byte in the order the register takes them. -/
def byteBits (d : BitVec 8) : List Bool := (List.range 8).map d.getLsbD

theorem updateByte_eq (c : BitVec 32) (d : BitVec 8) (poly : BitVec 32) :
    updateByte c d poly = (byteBits d).foldl (lfsrStep poly) c := by
  rw [byteBits, List.foldl_map]
  rfl

theorem updateWord_eq (c d : BitVec 32) (be : BitVec 4) (poly : BitVec 32) :
    updateWord c d be poly = (enabledBytes d be).foldl (fun c b => updateByte c b poly) c := by
  have hrange : List.range 4 = [0, 1, 2, 3] := rfl
  unfold updateWord enabledBytes
  rw [hrange]
  cases h0 : be.getLsbD 0 <;> cases h1 : be.getLsbD 1 <;> cases h2 : be.getLsbD 2 <;>
    cases h3 : be.getLsbD 3 <;>
      simp only [List.filter_cons, List.filter_nil, h0, h1, h2, h3, if_true, if_false,
        Bool.false_eq_true, List.map_cons, List.map_nil, List.foldl_cons, List.foldl_nil,
        Nat.mul_zero, Nat.mul_one, Nat.reduceMul]

/-- The engine's CRC of a byte string. -/
def crcOf (poly seed : BitVec 32) (bytes : List (BitVec 8)) : BitVec 32 :=
  bytes.foldl (fun c b => updateByte c b poly) seed ^^^ crc32DefaultXorout

/-! ## The engine -/

/-- A zero polynomial register selects the default. -/
def effectivePoly (polyRevIn : BitVec 32) : BitVec 32 :=
  if polyRevIn != 0 then polyRevIn else crc32DefaultPolyRev

/-- A zero seed register selects the default. -/
def effectiveInit (initValIn : BitVec 32) : BitVec 32 :=
  if initValIn != 0 then initValIn else crc32DefaultInit

/-- The inputs of one cycle. -/
structure EngineIn where
  init : Bool
  dataValid : Bool
  byteEn : BitVec 4
  dataIn : BitVec 32
  polyRevIn : BitVec 32
  initValIn : BitVec 32

namespace EngineIn

variable (i : EngineIn)

/-- The bytes the cycle feeds to the register. -/
def bytes : List (BitVec 8) := if i.dataValid then enabledBytes i.dataIn i.byteEn else []

/-- The cycle runs with the default polynomial and the default seed. -/
def Default : Prop :=
  effectivePoly i.polyRevIn = crc32DefaultPolyRev ∧ effectiveInit i.initValIn = crc32DefaultInit

instance : Decidable i.Default := inferInstanceAs (Decidable (_ ∧ _))

end EngineIn

/-- The register of `crc32_engine`. -/
@[ext] structure Crc32Engine where
  crcReg : BitVec 32

namespace Crc32Engine

/-- The value under `!rst_n`. -/
def reset : Crc32Engine := ⟨crc32DefaultInit⟩

variable (s : Crc32Engine) (i : EngineIn)

/-- `crc_current`. -/
def crcCurrent : BitVec 32 := if i.init then effectiveInit i.initValIn else s.crcReg

/-- `crc_next`. -/
def crcNext : BitVec 32 :=
  if i.dataValid then updateWord (s.crcCurrent i) i.dataIn i.byteEn (effectivePoly i.polyRevIn)
  else s.crcCurrent i

/-- A rising `clk`. -/
def clock : Crc32Engine where
  crcReg :=
    if i.init && !i.dataValid then effectiveInit i.initValIn
    else if i.dataValid then s.crcNext i
    else s.crcReg

/-- `crc_out`. -/
def crcOut : BitVec 32 := s.crcReg ^^^ crc32DefaultXorout

/-- **One cycle** feeds its bytes to the current value. -/
theorem clock_crcReg : (s.clock i).crcReg =
    i.bytes.foldl (fun c b => updateByte c b (effectivePoly i.polyRevIn)) (s.crcCurrent i) := by
  unfold clock crcNext EngineIn.bytes
  cases i.dataValid with
  | false => cases h : i.init <;> simp [crcCurrent, h]
  | true => simp [updateWord_eq]

theorem run_eq {poly : BitVec 32} (s : Crc32Engine) (is : List EngineIn)
    (hinit : ∀ i ∈ is, i.init = false) (hpoly : ∀ i ∈ is, effectivePoly i.polyRevIn = poly) :
    (run clock s is).crcReg =
      (is.flatMap EngineIn.bytes).foldl (fun c b => updateByte c b poly) s.crcReg := by
  induction is generalizing s with
  | nil => rfl
  | cons i is ih =>
    rw [run_cons, ih _ (fun j hj => hinit j (List.mem_cons_of_mem _ hj))
      (fun j hj => hpoly j (List.mem_cons_of_mem _ hj)), clock_crcReg, crcCurrent,
      hinit i List.mem_cons_self, hpoly i List.mem_cons_self, List.flatMap_cons, List.foldl_append]
    rfl

theorem crcOut_run {poly seed : BitVec 32} (s : Crc32Engine) (i : EngineIn) (is : List EngineIn)
    (hi : i.init = true) (his : ∀ j ∈ is, j.init = false)
    (hpoly : ∀ j ∈ i :: is, effectivePoly j.polyRevIn = poly) (hseed : effectiveInit i.initValIn = seed) :
    (run clock s (i :: is)).crcOut = crcOf poly seed ((i :: is).flatMap EngineIn.bytes) := by
  rw [run_cons, crcOut, run_eq _ is his fun j hj => hpoly j (List.mem_cons_of_mem _ hj),
    clock_crcReg, hpoly i List.mem_cons_self, crcCurrent, hi, if_pos rfl, hseed, crcOf,
    List.flatMap_cons, List.foldl_append]

end Crc32Engine

/-! ## CRC-32/ISO-HDLC -/

/-- The bits of a message: its bytes in order, each least significant bit first. -/
def messageBits (bytes : List (BitVec 8)) : List Bool := bytes.flatMap byteBits

theorem length_messageBits (bytes : List (BitVec 8)) :
    (messageBits bytes).length = 8 * bytes.length := by
  induction bytes with
  | nil => rfl
  | cons b bs ih =>
    rw [messageBits, List.flatMap_cons, List.length_append, ← messageBits, ih, byteBits,
      List.length_cons]
    simp
    omega

/-- **CRC-32/ISO-HDLC by polynomial division**: modulo `x^32 + 0x04C11DB7`, with initial value and
final exclusive-or `0xFFFFFFFF`. -/
noncomputable def crc32 (bytes : List (BitVec 8)) : BitVec 32 :=
  crcReference (X ^ 32 + wordPoly 0x04C11DB7#32) 0xFFFFFFFF#32 0xFFFFFFFF#32 (messageBits bytes)

theorem generator_defaultPolyRev :
    generator crc32DefaultPolyRev = X ^ 32 + wordPoly crc32DefaultPoly := by
  have hrefl : ∀ k < 32, crc32DefaultPolyRev.getMsbD k = crc32DefaultPoly.getLsbD k := by decide
  have hpoly : reflPoly crc32DefaultPolyRev = wordPoly crc32DefaultPoly := by
    ext k
    rw [coeff_reflPoly, coeff_wordPoly]
    rcases Nat.lt_or_ge k 32 with hk | hk
    · rw [hrefl k hk]
    · rw [BitVec.getMsbD_of_ge _ k hk, BitVec.getLsbD_of_ge _ k hk]
  rw [generator, hpoly]

theorem foldl_updateByte (poly c : BitVec 32) (bytes : List (BitVec 8)) :
    bytes.foldl (fun c b => updateByte c b poly) c =
      (messageBits bytes).foldl (lfsrStep poly) c := by
  induction bytes generalizing c with
  | nil => rfl
  | cons b bs ih =>
    rw [List.foldl_cons, ih, updateByte_eq, messageBits, messageBits, List.flatMap_cons,
      List.foldl_append]

theorem crcOf_default (bytes : List (BitVec 8)) :
    crcOf crc32DefaultPolyRev crc32DefaultInit bytes = crc32 bytes := by
  rw [crcOf, foldl_updateByte, foldl_lfsrStep_eq_crcReference, generator_defaultPolyRev]
  rfl

/-- **The engine computes CRC-32/ISO-HDLC.** Whatever the register held before, after a cycle with
`init` and any further cycles, under the default polynomial and seed, `crc_out` is the CRC-32 of the
enabled bytes of the valid cycles, lane 0 first. -/
theorem crcOut_eq_crc32 (s : Crc32Engine) (i : EngineIn) (is : List EngineIn)
    (hi : i.init = true) (his : ∀ j ∈ is, j.init = false) (hdef : ∀ j ∈ i :: is, j.Default) :
    (run Crc32Engine.clock s (i :: is)).crcOut = crc32 ((i :: is).flatMap EngineIn.bytes) := by
  rw [Crc32Engine.crcOut_run s i is hi his (fun j hj => (hdef j hj).1)
    (hdef i List.mem_cons_self).2, crcOf_default]

/-- The check value: `"123456789"` in three words, with an idle cycle between. -/
theorem crcOut_eq_crc32_check :
    let word (d : BitVec 32) (be : BitVec 4) : EngineIn := ⟨false, true, be, d, 0, 0⟩
    let is := [word 0x34333231 0b1111, ⟨false, false, 0b1111, 0, 0, 0⟩, word 0x38373635 0b1111,
      word 0x39 0b0001]
    (run Crc32Engine.clock .reset (⟨true, false, 0, 0, 0, 0⟩ :: is)).crcOut = 0xCBF43926 ∧
      crc32 [0x31, 0x32, 0x33, 0x34, 0x35, 0x36, 0x37, 0x38, 0x39] = 0xCBF43926 := by
  intro word is
  have hrun : (run Crc32Engine.clock .reset (⟨true, false, 0, 0, 0, 0⟩ :: is)).crcOut =
      0xCBF43926 := by decide +kernel
  have hbytes : ((⟨true, false, 0, 0, 0, 0⟩ : EngineIn) :: is).flatMap EngineIn.bytes =
      [0x31, 0x32, 0x33, 0x34, 0x35, 0x36, 0x37, 0x38, 0x39] := by decide
  refine ⟨hrun, ?_⟩
  rw [← hbytes, ← crcOut_eq_crc32 .reset ⟨true, false, 0, 0, 0, 0⟩ is rfl (by decide) (by decide)]
  exact hrun

end PacketBuffering
