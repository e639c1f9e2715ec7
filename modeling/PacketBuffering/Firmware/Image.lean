import PacketBuffering.Lib.Hex
import PacketBuffering.Ram.Memory
import Mathlib.Data.List.GetD

/-!
# The firmware image

`bin_to_hex`, which writes a byte string as a file of words, and the preload of the AXI memory from such
a file. The message on the console is left out.

* `pad`, `unpack`, `binToHex`: the converter; `binToHex_eq`: it does not fail, and what it writes.
* `preload`: the `initial` block of the memory.
* `HasBytes`: a word of an image, zeros behind its end; `ImageLaw`: what is read of an image.
* `RoundTrip`, **`round_trip`**: an image of up to 64 KB is written, loaded and read back.
-/

namespace PacketBuffering

/-! ## The converter -/

/-- Zeros up to the next multiple of four. -/
def pad (data : List (BitVec 8)) : List (BitVec 8) :=
  if data.length % 4 ≠ 0 then data ++ List.replicate (4 - data.length % 4) 0 else data

/-- `struct.unpack('<' + 'I' * n, data)`: `n` little-endian words, if the length is right. -/
def unpack : ℕ → List (BitVec 8) → Option (List (BitVec 32))
  | 0, [] => some []
  | n + 1, b0 :: b1 :: b2 :: b3 :: data => do return (b3 ++ b2 ++ b1 ++ b0) :: (← unpack n data)
  | _, _ => none

/-- `bin_to_hex`: the file that is written. -/
def binToHex (data : List (BitVec 8)) : Option (List Char) := do
  let words ← unpack ((pad data).length / 4) (pad data)
  return "@00000000\n".toList ++ words.flatMap fun w => hexText 8 w.toNat ++ ['\n']

/-- The number of words of an image: a quarter of its bytes, rounded up. -/
def imageWords (data : List (BitVec 8)) : ℕ := (data.length + 3) / 4

/-- Word `w` of an image, zeros behind its end. -/
def HasBytes (data : List (BitVec 8)) (w : ℕ) (d : BitVec 32) : Prop :=
  ∀ j < 4, lane d j = data.getD (4 * w + j) 0

theorem length_pad (data : List (BitVec 8)) : (pad data).length = 4 * imageWords data := by
  unfold pad imageWords
  split_ifs with h
  · rw [List.length_append, List.length_replicate]
    omega
  · omega

theorem getD_pad (data : List (BitVec 8)) (k : ℕ) : (pad data).getD k 0 = data.getD k 0 := by
  unfold pad
  split_ifs with h
  · rcases lt_or_ge k data.length with hk | hk
    · rw [List.getD_append _ _ _ _ hk]
    · rw [List.getD_append_right _ _ _ _ hk, List.getD_eq_default _ _ hk,
        List.getD_eq_getElem?_getD, List.getElem?_getD_replicate_default_eq]
  · rfl

theorem unpack_eq {n : ℕ} {data : List (BitVec 8)} (h : data.length = 4 * n) :
    ∃ ws, unpack n data = some ws ∧ ws.length = n ∧ ∀ w < n, HasBytes data w (ws.getD w 0) := by
  induction n generalizing data with
  | zero => exact ⟨[], by rw [List.length_eq_zero_iff.mp h]; rfl, rfl, nofun⟩
  | succ n ih =>
    match data, h with
    | b0 :: b1 :: b2 :: b3 :: data, h =>
      have hrest : data.length = 4 * n := by
        simp only [List.length_cons] at h
        omega
      obtain ⟨ws, hws, hlen, hbytes⟩ := ih hrest
      refine ⟨(b3 ++ b2 ++ b1 ++ b0) :: ws, by rw [unpack, hws]; rfl, by simp [hlen], ?_⟩
      intro w hw j hj
      cases w with
      | zero =>
        exact lane_bytes (fun k => (b0 :: b1 :: b2 :: b3 :: data).getD (4 * 0 + k) 0) hj
      | succ w =>
        rw [List.getD_cons_succ, hbytes w (by omega) j hj,
          show 4 * (w + 1) + j = 4 * w + j + 1 + 1 + 1 + 1 by omega, List.getD_cons_succ,
          List.getD_cons_succ, List.getD_cons_succ, List.getD_cons_succ]

/-- **The converter does not fail**: it writes the words in lines, behind the address 0. -/
theorem binToHex_eq (data : List (BitVec 8)) : ∃ ws : List (BitVec 32),
    binToHex data = some (lines (('@' :: hexText 8 0) :: ws.map fun d => hexText 8 d.toNat)) ∧
      ws.length = imageWords data ∧ ∀ w < ws.length, HasBytes data w (ws.getD w 0) := by
  obtain ⟨ws, hws, hlen, hbytes⟩ := unpack_eq (length_pad data)
  refine ⟨ws, ?_, hlen, fun w hw j hj => ?_⟩
  · have hhead : "@00000000\n".toList = '@' :: hexText 8 0 ++ ['\n'] := by decide
    have hdiv : (pad data).length / 4 = imageWords data := by
      rw [length_pad, Nat.mul_div_cancel_left _ (by decide)]
    rw [binToHex, hdiv, hws, hhead, lines, List.flatMap_cons, List.flatMap_map]
    rfl
  · rw [hbytes w (hlen ▸ hw) j hj, getD_pad]

/-! ## The preload -/

namespace AxiRam

variable {R : RamParams}

/-- The `initial` block of the memory: `tmp` is what the array `tmp_mem` holds before it. -/
def preload (file : List Char) (tmp : BitVec R.wordBits → BitVec 32) : Option (LaneMem R.wordBits) :=
  (readmemh file tmp).map fun t k x => lane (t x) k

/-- **What is read of an image** from the memory `m`, in any run out of reset. -/
structure ImageLaw (data : List (BitVec 8)) (m : LaneMem R.wordBits) : Prop where
  /-- A request for a word that no store was about is answered in the next cycle with its bytes. -/
  read : ∀ (es : List (RamIn R)) (i : RamIn R) (w : ℕ), w < imageWords data →
    (run step (reset m) es).rd.arFire i = true →
    i.ar.addr.toNat = 4 * w → (∀ s ∈ storeLog m es, s.addr ≠ BitVec.ofNat _ w) →
    ∃ d, (run step (reset m) (es ++ [i])).rd.offered =
      [⟨i.ar.id, d, axiRespOkay, i.ar.len == 0⟩] ∧ HasBytes data w d
  /-- So is every beat of a burst, with the stores before its load. -/
  beats : ∀ (es : List (RamIn R)) (k : ℕ) (b : RBeat R),
    (rLog m es ++ (run step (reset m) es).rd.offered)[k]? = some b →
    ∃ l past, (loadLog m es)[k]? = some (l, past) ∧
      ((arLog m es).flatMap BurstReq.slots)[k]? = some l ∧
      b = ⟨l.id, b.data, axiRespOkay, l.last⟩ ∧
      (l.addr.toNat < imageWords data → (∀ s ∈ past, s.addr ≠ l.addr) →
        HasBytes data l.addr.toNat b.data)

/-- **The round trip of an image**: the file that is written, the memory it leaves over the contents
`tmp`, and what is read of it. -/
structure RoundTrip (data : List (BitVec 8)) (tmp : BitVec R.wordBits → BitVec 32) (file : List Char)
    (m : LaneMem R.wordBits) : Prop extends ImageLaw data m where
  written : binToHex data = some file
  /-- Behind the address there are as many words as the image has. -/
  words : (fileWords file).tail.length = imageWords data
  loaded : preload file tmp = some m

variable {data : List (BitVec 8)} {m : LaneMem R.wordBits}

theorem ImageLaw.of_words (hfit : imageWords data ≤ 2 ^ R.wordBits)
    (hm : ∀ x : BitVec R.wordBits, x.toNat < imageWords data → HasBytes data x.toNat (m.word x)) :
    ImageLaw data m where
  read := by
    intro es i w hw har haddr hstores
    have hadd : i.ar.wordAddr = BitVec.ofNat _ w := by
      rw [BurstReq.wordAddr_eq, haddr, Nat.mul_div_cancel_left _ (by decide)]
    have hmod : i.ar.wordAddr.toNat = w := by
      rw [hadd, BitVec.toNat_ofNat, Nat.mod_eq_of_lt (hw.trans_le hfit)]
    have hword : (run step (reset m) es).mem.word i.ar.wordAddr = m.word i.ar.wordAddr := by
      rw [mem_eq, hadd]
      exact LaneMem.word_after m hstores
    refine ⟨m.word i.ar.wordAddr, ?_, ?_⟩
    · have hoffer := (inv_of_run m es).2.offered_of_arFire (m := (run step (reset m) es).mem) har
      rw [RamReader.beatOf, hword] at hoffer
      rw [run_append]
      exact hoffer
    · rw [← hmod]
      exact hm _ (hmod.trans_lt hw)
  beats := by
    intro es k b hb
    rw [rLog_append, List.getElem?_map, Option.map_eq_some_iff] at hb
    obtain ⟨⟨l, past⟩, hload, rfl⟩ := hb
    refine ⟨l, past, hload, ?_, rfl, fun hl hpast => ?_⟩
    · rw [← loadLog_append, List.getElem?_append_left, List.getElem?_map, hload]
      · rfl
      · rw [List.length_map]
        exact (List.getElem?_eq_some_iff.mp hload).1
    · show HasBytes data l.addr.toNat ((m.after past).word l.addr)
      rw [LaneMem.word_after m hpast]
      exact hm l.addr hl

theorem preload_lines (ws : List (BitVec 32)) (hws : ws.length ≤ 2 ^ R.wordBits)
    (tmp : BitVec R.wordBits → BitVec 32) :
    ∃ m, preload (lines (('@' :: hexText 8 0) :: ws.map fun d => hexText 8 d.toNat)) tmp = some m ∧
      ∀ x : BitVec R.wordBits, ∀ j < 4, lane (m.word x) j = lane (ws.getD x.toNat (tmp x)) j := by
  have hread := readmemh_numbers (k := 8) (by decide) (by decide) ws (by decide)
    (by decide : 0 < 16 ^ 8) (by rwa [Nat.zero_add]) tmp
  refine ⟨_, by rw [preload, hread]; rfl, fun x j hj => ?_⟩
  rw [LaneMem.lane_word _ _ hj]
  interval_cases j <;> simp [filled]

/-- **The round trip of a firmware image** of up to 64 KB: it is written in as many words as it has, read
by `$readmemh`, and read back over AXI. -/
theorem round_trip (data : List (BitVec 8)) (hdata : data.length ≤ 65536)
    (tmp : BitVec RamParams.default.wordBits → BitVec 32) : ∃ file m, RoundTrip data tmp file m := by
  obtain ⟨ws, hfile, hlen, hbytes⟩ := binToHex_eq data
  have hfit : imageWords data ≤ 2 ^ RamParams.default.wordBits := by
    show (data.length + 3) / 4 ≤ 2 ^ 14
    omega
  obtain ⟨m, hm, hword⟩ := preload_lines ws (hlen ▸ hfit) tmp
  have hlaw : ImageLaw data m := by
    refine .of_words hfit fun x hx j hj => ?_
    have hlt : x.toNat < ws.length := hlen ▸ hx
    rw [hword x j hj, ← hbytes x.toNat hlt j hj, List.getD_eq_getElem _ _ hlt,
      List.getD_eq_getElem _ _ hlt]
  refine ⟨_, m, hlaw, hfile, ?_, hm⟩
  rw [fileWords_numbers (by decide) (by decide), List.tail_cons, List.length_map, hlen]

/-- An instruction, and the first byte of another one. -/
def cutImage : List (BitVec 8) := [0x13, 0x05, 0x10, 0x00, 0x73]

/-- A read burst over both words. -/
def cutRun : List (RamIn .default) :=
  [{ idle with arvalid := true, ar := ⟨9, 0, 1⟩ }, idle, idle]

theorem round_trip_cut :
    binToHex cutImage = some "@00000000\n00100513\n00000073\n".toList ∧
      ((binToHex cutImage).bind fun file => preload file fun _ => 0xFFFFFFFF).map
        (fun m => (rLog m cutRun).map RBeat.data) = some [0x00100513, 0x00000073] ∧
      ∃ (file : List Char) (m : LaneMem RamParams.default.wordBits),
        RoundTrip cutImage (fun _ => 0xFFFFFFFF) file m :=
  ⟨by decide, by decide +kernel, round_trip cutImage (by decide) fun _ => 0xFFFFFFFF⟩

end AxiRam

end PacketBuffering
