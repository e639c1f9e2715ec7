import Mathlib.Data.BitVec
import Mathlib.Data.Nat.Digits.Lemmas

/-!
# Hexadecimal memory files

Texts of hexadecimal numbers between white space, as `$readmemh` reads them. Comments, underscores and
the digits `x` and `z` are not part of the model; a file with them is not read.

* `hexText`, `hexNumber`: a number with a fixed count of digits, and back; `hexNumber_hexText`.
* `fileWords`: the words of a file; `fileWords_lines`.
* `readmemh`: a file read into a memory; `readmemh_numbers`: numbers in lines behind an address are
  stored from there on.
-/

namespace PacketBuffering

/-! ## Numbers -/

/-- A digit, in capitals. -/
def hexChar (d : ℕ) : Char := if d < 10 then Char.ofNat (48 + d) else Char.ofNat (55 + d)

/-- The value of a digit, of either case. -/
def hexVal (c : Char) : Option ℕ :=
  if '0' ≤ c ∧ c ≤ '9' then some (c.toNat - 48)
  else if 'A' ≤ c ∧ c ≤ 'F' then some (c.toNat - 55)
  else if 'a' ≤ c ∧ c ≤ 'f' then some (c.toNat - 87)
  else none

/-- White space between words. -/
def isSpace (c : Char) : Bool := c == ' ' || c == '\n' || c == '\t' || c == '\x0c'

/-- The number `n` in `k` digits, zeros in front. -/
def hexText (k n : ℕ) : List Char := (Nat.digitsAppend 16 k n).reverse.map hexChar

/-- The number of a text of digits, at least one. -/
def hexNumber (t : List Char) : Option ℕ :=
  if t = [] then none else (t.mapM hexVal).map fun ds => Nat.ofDigits 16 ds.reverse

theorem hexVal_hexChar : ∀ d < 16, hexVal (hexChar d) = some d := by decide

theorem hexChar_plain : ∀ d < 16, isSpace (hexChar d) = false ∧ hexChar d ≠ '@' := by decide

theorem mapM_hexVal {ds : List ℕ} (h : ∀ d ∈ ds, d < 16) :
    (ds.map hexChar).mapM hexVal = some ds := by
  induction ds with
  | nil => rfl
  | cons d ds ih =>
    have hrest := ih fun x hx => h x (List.mem_cons_of_mem d hx)
    simp [hexVal_hexChar d (h d List.mem_cons_self), hrest]

section Numbers

variable {k n : ℕ}

theorem length_hexText (hn : n < 16 ^ k) : (hexText k n).length = k := by
  rw [hexText, List.length_map, List.length_reverse, Nat.length_digitsAppend (by decide) k hn]

theorem hexText_ne_nil (hk : k ≠ 0) (hn : n < 16 ^ k) : hexText k n ≠ [] := by
  intro h
  exact hk (by rw [← length_hexText hn, h, List.length_nil])

/-- **A number is read back.** -/
theorem hexNumber_hexText (hk : k ≠ 0) (hn : n < 16 ^ k) : hexNumber (hexText k n) = some n := by
  have hds : ∀ d ∈ (Nat.digitsAppend 16 k n).reverse, d < 16 := fun d hd =>
    Nat.lt_of_mem_digitsAppend (by decide) k d (List.mem_reverse.mp hd)
  rw [hexNumber, if_neg (hexText_ne_nil hk hn), hexText, mapM_hexVal hds, Option.map_some,
    List.reverse_reverse]
  exact congrArg some ((Nat.setInvOn_digitsAppend_ofDigits (by decide) k).2 hn)

theorem plain_of_mem_hexText {c : Char} (hc : c ∈ hexText k n) : isSpace c = false ∧ c ≠ '@' := by
  obtain ⟨d, hd, rfl⟩ := List.mem_map.mp hc
  exact hexChar_plain d (Nat.lt_of_mem_digitsAppend (by decide) k d (List.mem_reverse.mp hd))

end Numbers

/-! ## Words of a file -/

/-- The words of a file. -/
def fileWords (file : List Char) : List (List Char) := (file.splitOnP isSpace).filter (· ≠ [])

/-- A text in lines. -/
def lines (ts : List (List Char)) : List Char := ts.flatMap fun t => t ++ ['\n']

theorem fileWords_lines {ts : List (List Char)}
    (h : ∀ t ∈ ts, t ≠ [] ∧ ∀ c ∈ t, isSpace c = false) : fileWords (lines ts) = ts := by
  induction ts with
  | nil => rfl
  | cons t ts ih =>
    have hrest := ih fun x hx => h x (List.mem_cons_of_mem t hx)
    obtain ⟨hne, hspace⟩ := h t List.mem_cons_self
    rw [fileWords] at hrest
    rw [fileWords, lines, List.flatMap_cons, List.append_assoc, List.singleton_append,
      List.splitOnP_append_cons_of_forall_mem hspace '\n' rfl, List.filter_cons_of_pos (by simpa using hne)]
    exact congrArg (t :: ·) hrest

/-! ## `$readmemh` -/

section Readmemh

variable {n w : ℕ}

/-- The words of a file from one on, the next number for the element `a`. -/
def readmemhFrom : List (List Char) → ℕ → (BitVec n → BitVec w) → Option (BitVec n → BitVec w)
  | [], _, m => some m
  | ('@' :: t) :: ts, _, m => do readmemhFrom ts (← hexNumber t) m
  | t :: ts, a, m => do
    let d ← hexNumber t
    if a < 2 ^ n then
      readmemhFrom ts (a + 1) (Function.update m (BitVec.ofNat n a) (BitVec.ofNat w d))
    else none

/-- **`$readmemh`** into a memory of `2 ^ n` elements; `none` for a file that it does not read. -/
def readmemh (file : List Char) (m : BitVec n → BitVec w) : Option (BitVec n → BitVec w) :=
  readmemhFrom (fileWords file) 0 m

/-- The memory with `ds` from the element `a` on. -/
def filled (m : BitVec n → BitVec w) (a : ℕ) (ds : List (BitVec w)) : BitVec n → BitVec w := fun x =>
  if a ≤ x.toNat then ds.getD (x.toNat - a) (m x) else m x

theorem filled_cons (m : BitVec n → BitVec w) {a : ℕ} (ha : a < 2 ^ n) (d : BitVec w)
    (ds : List (BitVec w)) :
    filled (Function.update m (BitVec.ofNat n a) d) (a + 1) ds = filled m a (d :: ds) := by
  funext x
  have hx : x = BitVec.ofNat n a ↔ x.toNat = a := by
    rw [← BitVec.toNat_inj, BitVec.toNat_ofNat, Nat.mod_eq_of_lt ha]
  rcases lt_trichotomy x.toNat a with h | h | h
  · rw [filled, filled, if_neg (by omega), if_neg (by omega),
      Function.update_of_ne fun h' => h.ne (hx.mp h')]
  · rw [filled, filled, if_neg (by omega), if_pos (by omega), hx.mpr h, Function.update_self,
      ← hx.mpr h, h, Nat.sub_self, List.getD_cons_zero]
  · rw [filled, filled, if_pos (by omega), if_pos (by omega),
      Function.update_of_ne fun h' => h.ne' (hx.mp h'),
      show x.toNat - a = x.toNat - (a + 1) + 1 by omega, List.getD_cons_succ]

theorem readmemhFrom_hexText {k : ℕ} (hk : k ≠ 0) (hw : 16 ^ k = 2 ^ w) (ds : List (BitVec w)) {a : ℕ}
    (ha : a + ds.length ≤ 2 ^ n) (m : BitVec n → BitVec w) :
    readmemhFrom (ds.map fun d => hexText k d.toNat) a m = some (filled m a ds) := by
  induction ds generalizing a m with
  | nil =>
    have hm : filled m a [] = m := by
      funext x
      simp [filled]
    rw [hm]
    rfl
  | cons d ds ih =>
    rw [List.length_cons] at ha
    have hat : ∀ t, hexText k d.toNat ≠ '@' :: t := fun t ht =>
      (plain_of_mem_hexText (ht ▸ List.mem_cons_self : '@' ∈ hexText k d.toNat)).2 rfl
    have hd : hexNumber (hexText k d.toNat) = some d.toNat := hexNumber_hexText hk (hw ▸ d.isLt)
    rw [List.map_cons, readmemhFrom.eq_3 _ _ _ _ hat, hd, Option.bind_eq_bind, Option.bind_some,
      if_pos (by omega), BitVec.ofNat_toNat, BitVec.setWidth_eq, ih (by omega), filled_cons _ (by omega)]

section Numbers

variable {k k' a : ℕ} (hk : k ≠ 0) (hw : 16 ^ k = 2 ^ w) (ds : List (BitVec w))

include hk hw

theorem fileWords_numbers :
    fileWords (lines (('@' :: hexText k' a) :: ds.map fun d => hexText k d.toNat)) =
      ('@' :: hexText k' a) :: ds.map fun d => hexText k d.toNat := by
  refine fileWords_lines (List.forall_mem_cons.mpr ⟨⟨List.cons_ne_nil _ _, ?_⟩, ?_⟩)
  · exact List.forall_mem_cons.mpr ⟨rfl, fun c hc => (plain_of_mem_hexText hc).1⟩
  · refine List.forall_mem_map.mpr fun d _ => ?_
    exact ⟨hexText_ne_nil hk (hw ▸ d.isLt), fun c hc => (plain_of_mem_hexText hc).1⟩

/-- **Numbers in lines behind an address** are stored from there on. -/
theorem readmemh_numbers (hk' : k' ≠ 0) (haddr : a < 16 ^ k') (hn : a + ds.length ≤ 2 ^ n)
    (m : BitVec n → BitVec w) :
    readmemh (lines (('@' :: hexText k' a) :: ds.map fun d => hexText k d.toNat)) m =
      some (filled m a ds) := by
  rw [readmemh, fileWords_numbers hk hw, readmemhFrom, hexNumber_hexText hk' haddr,
    Option.bind_eq_bind, Option.bind_some, readmemhFrom_hexText hk hw ds hn]

end Numbers

end Readmemh

end PacketBuffering
