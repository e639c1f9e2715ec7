import PacketBuffering.Aes.Inverse
import PacketBuffering.Lib.Drain

/-!
# The AES decryption core

`aes_inv_cipher_top`. A key load writes the eleven round keys into the buffer `kb`, the last one at
address 0; a text load then goes through the buffer upwards, one round a cycle, and `done` marks the
cycle in which `text_out` shows the result.

* `InvCipher`, `InvCipher.clock`: the core.
* `Schedule`: how far a key load is; `Working`: how far a decryption is.
* **`invCipher_law`**: texts come out decrypted by the key loaded last, in their order, each within
  twelve cycles, if loads wait for the core.
-/

namespace PacketBuffering

/-! ## The core -/

/-- The four words `{w3, w2, w1, w0}`, as `kb` holds them. -/
def packKey (k : KeyExpand) : BitVec 128 := k.w3 ++ k.w2 ++ k.w1 ++ k.w0

/-- A block with the words `{w3, w2, w1, w0}` added to its columns. -/
def addKeyWords (b w : BitVec 128) : BitVec 128 :=
  blockOf fun r c => blockByte b r c ^^^ lane w (4 * c + (3 - r))

/-- The inputs of a cycle; `unknown` is what a read of `kb` outside its eleven words gives. -/
structure InvCipherIn where
  rst : Bool
  kld : Bool
  ld : Bool
  key : BitVec 128
  textIn : BitVec 128
  unknown : BitVec 128

/-- The registers of `aes_inv_cipher_top`; `sa00`, …, `sa33` in one block, `w0`, …, `w3` in `w`. -/
structure InvCipher where
  dcnt : BitVec 4
  done : Bool
  go : Bool
  textInR : BitVec 128
  ldR : Bool
  sa : BitVec 128
  textOut : BitVec 128
  w : BitVec 128
  kb : BitVec 4 → BitVec 128
  kcnt : BitVec 4
  kbLd : Bool
  kdone : Bool
  u0 : KeyExpand

namespace InvCipher

variable (s : InvCipher)

/-- `sa_ark`. -/
def ark : BitVec 128 := addKeyWords (invShiftSub s.sa) s.w

/-- A rising `clk`. -/
def clock (i : InvCipherIn) : InvCipher where
  dcnt :=
    if !i.rst then 0
    else if s.done then 0
    else if i.ld then 1
    else if s.go then s.dcnt + 1
    else s.dcnt
  done := (s.dcnt == 0xb) && !i.ld
  go := if !i.rst then false else if i.ld then true else if s.done then false else s.go
  textInR := if i.ld then i.textIn else s.textInR
  ldR := i.ld
  sa := if s.ldR then addKeyWords s.textInR s.w else invMixColumns s.ark
  textOut := s.ark
  w := if s.dcnt ≤ 10 then s.kb s.dcnt else i.unknown
  kb := if s.kbLd then Function.update s.kb s.kcnt (packKey s.u0) else s.kb
  kcnt :=
    if !i.rst then 0xa
    else if i.kld then 0xa
    else if s.kbLd then s.kcnt - 1
    else s.kcnt
  kbLd :=
    if !i.rst then false
    else if i.kld then true
    else if s.kcnt == 0 then false
    else s.kbLd
  kdone := (s.kcnt == 0) && !i.kld
  u0 := s.u0.clock i.kld i.key

/-- All registers zero. -/
def zero : InvCipher :=
  ⟨0, false, false, 0, false, 0, 0, 0, fun _ => 0, 0, false, false, ⟨0, 0, 0, 0, 0, 0⟩⟩

/-- The core waits for a text. -/
structure Idle : Prop where
  dcnt : s.dcnt = 0
  done : s.done = false
  go : s.go = false

end InvCipher

/-! ## The key buffer -/

theorem lane_words (f : ℕ → BitVec 32) {c j : ℕ} (hc : c < 4) (hj : j < 4) :
    lane (f 3 ++ f 2 ++ f 1 ++ f 0) (4 * c + j) = lane (f c) j := by
  ext n hn
  simp only [lane, BitVec.getElem_extractLsb', BitVec.getLsbD_append]
  obtain rfl | rfl | rfl | rfl : c = 0 ∨ c = 1 ∨ c = 2 ∨ c = 3 := by omega
  · rw [if_pos (by omega), show 8 * (4 * 0 + j) + n = 8 * j + n by omega]
  · rw [if_neg (by omega), if_pos (by omega), show 8 * (4 * 1 + j) + n - 32 = 8 * j + n by omega]
  · rw [if_neg (by omega), if_neg (by omega), if_pos (by omega),
      show 8 * (4 * 2 + j) + n - 32 - 32 = 8 * j + n by omega]
  · rw [if_neg (by omega), if_neg (by omega), if_neg (by omega),
      show 8 * (4 * 3 + j) + n - 32 - 32 - 32 = 8 * j + n by omega]

theorem lane_packKey (k : KeyExpand) (r c : Fin 4) : lane (packKey k) (4 * c + (3 - r)) = k.byte r c :=
  lane_words (fun c => k.word (Fin.ofNat 4 c)) c.isLt (by omega) |>.trans (by rw [Fin.ofNat_val_eq_self]; rfl)

theorem addKeyWords_packKey (b : BitVec 128) (k : KeyExpand) :
    addKeyWords b (packKey k) = addRoundKey b k := by
  rw [addKeyWords, addRoundKey]
  congr 1
  funext r c
  rw [lane_packKey]

namespace InvCipher

variable {s : InvCipher} {i : InvCipherIn} {key : BitVec 128} {n : ℕ}

/-- The first `n` round keys of `key` are in the buffer; `kb_ld` is on until all eleven are. -/
structure Schedule (key : BitVec 128) (n : ℕ) (s : InvCipher) : Prop where
  le : n ≤ 11
  kb : ∀ j < n, s.kb (BitVec.ofNat 4 (10 - j)) = packKey (roundKey key j)
  loading : n < 11 → s.kbLd = true ∧ s.kcnt = BitVec.ofNat 4 (10 - n) ∧ s.u0 = roundKey key n
  loaded : n = 11 → s.kbLd = false

theorem Schedule.start (s : InvCipher) (hrst : i.rst = true) (hkld : i.kld = true) :
    Schedule i.key 0 (s.clock i) where
  le := by omega
  kb := by simp
  loading := fun _ => by simp [clock, hrst, hkld, KeyExpand.clock, roundKey]
  loaded := by simp

/-- **A key load goes on** by a round key a cycle. -/
theorem Schedule.next (h : Schedule key n s) (hrst : i.rst = true) (hkld : i.kld = false) :
    Schedule key (min (n + 1) 11) (s.clock i) := by
  rcases Nat.lt_or_ge n 11 with hn | hn
  · obtain ⟨hon, hcnt, hu0⟩ := h.loading hn
    have hzero : (s.kcnt == 0) = decide (n = 10) := by
      rw [hcnt]
      have : ∀ m < 11, (BitVec.ofNat 4 (10 - m) == 0) = decide (m = 10) := by decide
      exact this n hn
    rw [min_eq_left (by omega)]
    refine ⟨by omega, fun j hj => ?_, fun hlt => ?_, fun heq => ?_⟩
    · simp only [clock, hon, if_true, hcnt, hu0]
      rcases Nat.lt_succ_iff_lt_or_eq.mp hj with hlt | rfl
      · rw [Function.update_of_ne, h.kb j hlt]
        intro heq
        have := congrArg BitVec.toNat heq
        simp only [BitVec.toNat_ofNat] at this
        omega
      · rw [Function.update_self]
    · have hpred : BitVec.ofNat 4 (10 - n) - 1 = BitVec.ofNat 4 (10 - (n + 1)) := by
        have : ∀ m < 10, BitVec.ofNat 4 (10 - m) - 1 = BitVec.ofNat 4 (10 - (m + 1)) := by decide
        exact this n (by omega)
      refine ⟨?_, ?_, ?_⟩
      · simp only [clock, hrst, hkld, hzero, hon]
        simp [show n ≠ 10 by omega]
      · simp only [clock, hrst, hkld, hon, hcnt, hpred]
        simp
      · simp only [clock, hkld, hu0, KeyExpand.clock]
        rfl
    · simp only [clock, hrst, hkld, hzero]
      simp [show n = 10 by omega]
  · obtain rfl : n = 11 := le_antisymm h.le hn
    have hoff := h.loaded rfl
    refine ⟨le_rfl, fun j hj => ?_, fun hlt => absurd hlt (by simp), fun _ => ?_⟩
    · simp only [clock, hoff]
      exact h.kb j hj
    · simp only [clock, hrst, hkld, hoff]
      simp

theorem Schedule.w_next (h : Schedule key 11 s) (hn : n ≤ 10) (hdcnt : s.dcnt = BitVec.ofNat 4 n) :
    (s.clock i).w = packKey (roundKey key (10 - n)) := by
  have hle : s.dcnt ≤ 10 := by
    rw [hdcnt, BitVec.le_def, BitVec.toNat_ofNat]
    exact (Nat.mod_le _ _).trans hn
  have hread := h.kb (10 - n) (by omega)
  rw [show 10 - (10 - n) = n by omega] at hread
  simp only [clock, hle, if_true]
  rw [hdcnt, hread]

/-! ## A decryption -/

/-- How far the decryption of `textInR` is. -/
inductive Working (key : BitVec 128) (s : InvCipher) : Prop
  | started (dcnt : s.dcnt = 1) (done : s.done = false) (go : s.go = true) (ldR : s.ldR = true)
      (w : s.w = packKey (roundKey key 10))
  | rounds (n : ℕ) (hn : n ≤ 9) (dcnt : s.dcnt = BitVec.ofNat 4 (n + 2)) (done : s.done = false)
      (go : s.go = true) (ldR : s.ldR = false) (sa : s.sa = invRoundState key s.textInR n)
      (w : s.w = packKey (roundKey key (9 - n)))
  | finished (dcnt : s.dcnt = 12) (done : s.done = true)
      (textOut : s.textOut = aesInvCipher key s.textInR)

theorem Working.start (h : Schedule key 11 s) (hidle : s.Idle) (hrst : i.rst = true) (hld : i.ld = true) :
    Working key (s.clock i) := by
  refine .started ?_ ?_ ?_ hld (h.w_next (n := 0) (by omega) hidle.dcnt)
  · simp [clock, hrst, hidle.done, hld]
  · simp [clock, hld]
  · simp [clock, hrst, hld]

/-- **A decryption goes on** by a round a cycle; after the cycle that shows the result, the core is
idle. -/
theorem Working.next (h : Working key s) (hs : Schedule key 11 s) (hrst : i.rst = true)
    (hld : i.ld = false) :
    if s.done then (s.clock i).Idle else Working key (s.clock i) := by
  have htext : (s.clock i).textInR = s.textInR := by simp [clock, hld]
  cases h with
  | started dcnt done go ldR w =>
    rw [done, if_neg Bool.false_ne_true]
    refine .rounds 0 (by omega) ?_ ?_ ?_ hld ?_ (hs.w_next (n := 1) (by omega) dcnt)
    · simp [clock, hrst, hld, done, go, dcnt]
    · simp [clock, dcnt]
    · simp [clock, hrst, hld, done, go]
    · rw [htext, invRoundState, ← addKeyWords_packKey, ← w]
      simp only [clock, ldR, if_true]
  | rounds n hn dcnt done go ldR sa w =>
    rw [done, if_neg Bool.false_ne_true]
    have hcnt : (s.clock i).dcnt = BitVec.ofNat 4 (n + 3) := by
      simp only [clock, hrst, hld, done, go, dcnt]
      rw [show (1 : BitVec 4) = BitVec.ofNat 4 1 from rfl, BitVec.ofNat_add_ofNat]
      rfl
    have hgo : (s.clock i).go = true := by simp [clock, hrst, hld, done, go]
    have hdone : (s.clock i).done = decide (n = 9) := by
      have : ∀ m < 10, (BitVec.ofNat 4 (m + 2) == 0xb) = decide (m = 9) := by decide
      simp only [clock, hld, dcnt, this n (by omega)]
      simp
    have hark : s.ark = addRoundKey (invShiftSub (invRoundState key s.textInR n)) (roundKey key (9 - n)) := by
      rw [ark, w, addKeyWords_packKey, sa]
    rcases Nat.lt_or_ge n 9 with hlt | hge
    · refine .rounds (n + 1) hlt hcnt ?_ hgo hld ?_ ?_
      · rw [hdone, decide_eq_false (by omega)]
      · rw [htext, invRoundState, ← hark]
        simp only [clock, ldR]
        rfl
      · rw [hs.w_next (n := n + 2) (by omega) dcnt]
        rw [show 10 - (n + 2) = 9 - (n + 1) by omega]
    · obtain rfl : n = 9 := le_antisymm hn hge
      refine .finished hcnt (by rw [hdone]; rfl) ?_
      rw [htext, aesInvCipher, ← hark]
      rfl
  | finished dcnt done textOut =>
    rw [done, if_pos rfl]
    refine ⟨?_, ?_, ?_⟩
    · simp [clock, hrst, done]
    · simp [clock, dcnt]
    · simp [clock, hrst, hld, done]

theorem Working.dcnt_ne (h : Working key s) : s.dcnt ≠ 0 := by
  cases h with
  | started dcnt => rw [dcnt]; decide
  | rounds n hn dcnt =>
    rw [dcnt]
    have : ∀ m < 10, BitVec.ofNat 4 (m + 2) ≠ 0 := by decide
    exact this n (by omega)
  | finished dcnt => rw [dcnt]; decide

theorem Working.textOut (h : Working key s) (hdone : s.done = true) :
    s.textOut = aesInvCipher key s.textInR := by
  cases h with
  | started dcnt done => rw [done] at hdone; cases hdone
  | rounds n hn dcnt done => rw [done] at hdone; cases hdone
  | finished dcnt done textOut => exact textOut

theorem Working.dcnt_le (h : Working key s) : s.dcnt.toNat ≤ 12 := by
  cases h with
  | started dcnt => rw [dcnt]; decide
  | rounds n hn dcnt =>
    rw [dcnt, BitVec.toNat_ofNat]
    omega
  | finished dcnt => rw [dcnt]; decide

theorem Working.dcnt_next (h : Working key s) (hrst : i.rst = true) (hld : i.ld = false)
    (hdone : s.done = false) : (s.clock i).dcnt.toNat = s.dcnt.toNat + 1 := by
  cases h with
  | started dcnt done go => simp [clock, hrst, hld, done, go, dcnt]
  | rounds n hn dcnt done go =>
    simp only [clock, hrst, hld, done, go, dcnt]
    simp
    omega
  | finished dcnt done => rw [done] at hdone; cases hdone

theorem Idle.next (h : s.Idle) (hrst : i.rst = true) (hld : i.ld = false) : (s.clock i).Idle where
  dcnt := by simp [clock, hrst, hld, h.done, h.go, h.dcnt]
  done := by simp [clock, h.dcnt]
  go := by simp [clock, hrst, hld, h.done, h.go]

end InvCipher

/-! ## Whole runs -/

/-- The core, with the key that was loaded last. -/
structure InvTrace where
  core : InvCipher
  key : BitVec 128

namespace InvTrace

open InvCipher

variable (t : InvTrace) (i : InvCipherIn)

/-- A rising `clk`. -/
def step : InvTrace where
  core := t.core.clock i
  key := if i.kld then i.key else t.key

/-- Loads wait for the core: nothing is loaded during a decryption, a text not before `kb_ld` is off
again, and never a key and a text at once. -/
structure Served : Prop where
  rst : i.rst = true
  kld : i.kld = true → i.ld = false ∧ t.core.dcnt = 0 ∧ t.core.done = false
  ld : i.ld = true → t.core.kbLd = false ∧ t.core.dcnt = 0 ∧ t.core.done = false

instance : Decidable (t.Served i) :=
  decidable_of_iff (i.rst = true ∧ (i.kld = true → i.ld = false ∧ t.core.dcnt = 0 ∧ t.core.done = false) ∧
    (i.ld = true → t.core.kbLd = false ∧ t.core.dcnt = 0 ∧ t.core.done = false))
    ⟨fun h => ⟨h.1, h.2.1, h.2.2⟩, fun h => ⟨h.rst, h.kld, h.ld⟩⟩

/-- The text that is loaded, with the key it is to be decrypted by. -/
def loads : List (BitVec 128 × BitVec 128) := if i.ld then [(t.key, i.textIn)] else []

/-- The text that `done` marks. -/
def results : List (BitVec 128) := if t.core.done then [t.core.textOut] else []

/-- What comes out of the decryption that is going on. -/
def held : List (BitVec 128) := if t.core.dcnt = 0 then [] else [aesInvCipher t.key t.core.textInR]

/-- A key load or a decryption is going on, or neither is. -/
def Inv : Prop :=
  ∃ n, Schedule t.key n t.core ∧ (t.core.Idle ∨ n = 11 ∧ Working t.key t.core)

variable {t i}

theorem step_cases (h : t.Inv) (hok : t.Served i) :
    (∃ n, Schedule (t.step i).key n (t.step i).core ∧ t.core.Idle ∧ (t.step i).core.Idle ∧ i.ld = false) ∨
    (Schedule t.key 11 (t.step i).core ∧ t.core.Idle ∧ Working t.key (t.step i).core ∧
      (t.step i).key = t.key ∧ i.ld = true ∧ (t.step i).core.textInR = i.textIn) ∨
    (Schedule t.key 11 (t.step i).core ∧ Working t.key t.core ∧ (t.step i).key = t.key ∧ i.ld = false ∧
      (t.step i).core.textInR = t.core.textInR ∧
      if t.core.done then (t.step i).core.Idle else Working t.key (t.step i).core) := by
  obtain ⟨n, hs, hidle | ⟨rfl, hw⟩⟩ := h
  · cases hk : i.kld with
    | true =>
      obtain ⟨hld, -⟩ := hok.kld hk
      refine .inl ⟨0, ?_, hidle, hidle.next hok.rst hld, hld⟩
      rw [show (t.step i).key = i.key by simp [step, hk]]
      exact .start _ hok.rst hk
    | false =>
      have hkey : (t.step i).key = t.key := by simp [step, hk]
      cases hld : i.ld with
      | false =>
        refine .inl ⟨min (n + 1) 11, ?_, hidle, hidle.next hok.rst hld, rfl⟩
        rw [hkey]
        exact hs.next hok.rst hk
      | true =>
        have hoff := (hok.ld hld).1
        obtain rfl : n = 11 := by
          rcases Nat.lt_or_ge n 11 with hn | hn
          · rw [(hs.loading hn).1] at hoff
            cases hoff
          · exact le_antisymm hs.le hn
        exact .inr (.inl ⟨hs.next hok.rst hk, hidle, .start hs hidle hok.rst hld, hkey, rfl,
          by simp [step, clock, hld]⟩)
  · -- a decryption is going on, and nothing is loaded
    have hbusy : ¬ t.core.dcnt = 0 := hw.dcnt_ne
    have hk : i.kld = false := by
      by_contra hk
      exact hbusy (hok.kld (Bool.eq_true_of_not_eq_false hk)).2.1
    have hld : i.ld = false := by
      by_contra hld
      exact hbusy (hok.ld (Bool.eq_true_of_not_eq_false hld)).2.1
    exact .inr (.inr ⟨hs.next hok.rst hk, hw, by simp [step, hk], hld, by simp [step, clock, hld],
      hw.next hs hok.rst hld⟩)

theorem Inv.step (h : t.Inv) (hok : t.Served i) : (t.step i).Inv := by
  obtain ⟨n, hs, -, hidle, -⟩ | ⟨hs, -, hw, hkey, -⟩ | ⟨hs, -, hkey, -, -, hnext⟩ := step_cases h hok
  · exact ⟨n, hs, .inl hidle⟩
  · exact ⟨11, hkey ▸ hs, .inr ⟨rfl, hkey ▸ hw⟩⟩
  · refine ⟨11, hkey ▸ hs, ?_⟩
    split_ifs at hnext
    · exact .inl hnext
    · exact .inr ⟨rfl, hkey ▸ hnext⟩

theorem held_of_idle (h : t.core.Idle) : t.held = [] := if_pos h.dcnt

theorem held_of_working {key : BitVec 128} (h : Working key t.core) :
    t.held = [aesInvCipher t.key t.core.textInR] := if_neg h.dcnt_ne

/-- **A cycle** shows the result of what it held, or takes up what is loaded. -/
theorem Inv.pass (h : t.Inv) (hok : t.Served i) :
    t.results ++ (t.step i).held = t.held ++ (t.loads i).map fun x => aesInvCipher x.1 x.2 := by
  obtain ⟨n, -, hidle, hidle', hld⟩ | ⟨-, hidle, hw, hkey, hld, htext⟩ |
    ⟨-, hw, hkey, hld, htext, hnext⟩ := step_cases h hok
  · simp [results, held_of_idle hidle, held_of_idle hidle', loads, hidle.done, hld]
  · simp [results, held_of_idle hidle, held_of_working hw, loads, hidle.done, hld, hkey, htext]
  · cases hdone : t.core.done with
    | true =>
      rw [hdone, if_pos rfl] at hnext
      simp [results, held_of_idle hnext, held_of_working hw, loads, hdone, hld, hw.textOut hdone]
    | false =>
      rw [hdone, if_neg Bool.false_ne_true] at hnext
      simp [results, held_of_working hw, held_of_working hnext, loads, hdone, hld, hkey, htext]

/-- The cycles until the text is out. -/
def rank (t : InvTrace) : ℕ := if t.core.dcnt = 0 then 0 else 13 - t.core.dcnt.toNat

theorem held_of_rank (h : t.Inv) (hrank : t.rank = 0) : t.held = [] := by
  obtain ⟨n, -, hidle | ⟨-, hw⟩⟩ := h
  · exact held_of_idle hidle
  · have := hw.dcnt_le
    rw [rank, if_neg hw.dcnt_ne] at hrank
    omega

/-- **The counter goes through the buffer.** -/
theorem rank_next (h : t.Inv) (hok : t.Served i) (hrank : t.rank ≠ 0) :
    t.held <+: t.results ∨ t.results = [] ∧ (t.step i).rank < t.rank := by
  obtain ⟨n, -, hidle, -⟩ | ⟨-, hidle, -⟩ | ⟨-, hw, hkey, hld, htext, hnext⟩ := step_cases h hok
  · exact absurd (if_pos hidle.dcnt) hrank
  · exact absurd (if_pos hidle.dcnt) hrank
  · cases hdone : t.core.done with
    | true =>
      left
      rw [held_of_working hw, ← hw.textOut hdone]
      simp [results, hdone]
    | false =>
      right
      rw [hdone, if_neg Bool.false_ne_true] at hnext
      have hcnt : (t.step i).core.dcnt.toNat = t.core.dcnt.toNat + 1 := hw.dcnt_next hok.rst hld hdone
      have := hw.dcnt_le
      rw [rank, rank, if_neg hw.dcnt_ne, if_neg hnext.dcnt_ne, hcnt]
      exact ⟨by simp [results, hdone], by omega⟩

theorem rank_le (t : InvTrace) : t.rank ≤ 12 := by
  unfold rank
  split_ifs with h
  · omega
  · have : t.core.dcnt.toNat ≠ 0 := fun hz => h (BitVec.eq_of_toNat_eq hz)
    omega

/-- **The core drains.** -/
def drains : Drains InvTrace.step Served (fun t i => (t.loads i).map fun x => aesInvCipher x.1 x.2)
    fun t _ => t.results :=
  .atOnce Inv held rank (fun _ _ h hok => h.step hok) (fun _ _ h hok => h.pass hok)
    (fun _ h hrank => held_of_rank h hrank) fun _ _ h hok hrank => rank_next h hok hrank

theorem idle_of_loads (s : InvCipher) {reset kload : InvCipherIn} (hreset : reset.rst = false)
    (hrst : kload.rst = true) (hld : kload.ld = false) :
    (run InvCipher.clock s [reset, kload]).Idle := by
  refine ⟨?_, ?_, ?_⟩
  · simp [run, clock, hreset, hrst, hld]
  · simp [run, clock, hreset]
  · simp [run, clock, hreset, hrst, hld]

theorem inv_of_loads (s : InvCipher) {reset kload : InvCipherIn} (hreset : reset.rst = false)
    (hrst : kload.rst = true) (hkld : kload.kld = true) (hld : kload.ld = false) :
    InvTrace.Inv ⟨run InvCipher.clock s [reset, kload], kload.key⟩ :=
  ⟨0, Schedule.start _ hrst hkld, .inl (idle_of_loads s hreset hrst hld)⟩

end InvTrace

open InvTrace in
/-- **The decryption core.** After a reset and a key load, in every run in which loads wait for the
core: what comes out are the texts loaded, in their order, each decrypted by the key loaded last before
it; and twelve cycles after a load its text is out. -/
theorem invCipher_law (s : InvCipher) {reset kload : InvCipherIn} {es es' : List InvCipherIn}
    (hreset : reset.rst = false) (hrst : kload.rst = true) (hkld : kload.kld = true)
    (hld : kload.ld = false)
    (hes : Along step Served ⟨run InvCipher.clock s [reset, kload], kload.key⟩ (es ++ es'))
    (hlen : 12 ≤ es'.length) :
    let t : InvTrace := ⟨run InvCipher.clock s [reset, kload], kload.key⟩
    let decrypted (es : List InvCipherIn) := (log step loads t es).map fun x => aesInvCipher x.1 x.2
    decrypted es <+: log step (fun t _ => t.results) t (es ++ es') ∧
      log step (fun t _ => t.results) t (es ++ es') <+: decrypted (es ++ es') := by
  intro t decrypted
  have hinv : t.Inv := inv_of_loads s hreset hrst hkld hld
  have hempty : t.held = [] := held_of_idle (idle_of_loads s hreset hrst hld)
  have hserved := drains.served (fun t _ => rank_le t) hinv hempty hes hlen
  rwa [log_map, log_map] at hserved

/-- A cycle without reset. -/
def invCycle (kld ld : Bool) (word : BitVec 128) : InvCipherIn := ⟨true, kld, ld, word, word, 0⟩

open InvTrace in
/-- The text is loaded in the first cycle in which the round keys of the key are there. -/
theorem invCipher_law_text :
    let kload := invCycle true false 0x2b7e151628aed2a6abf7158809cf4f3c
    let t : InvTrace :=
      ⟨run InvCipher.clock .zero [⟨false, false, false, 0, 0, 0⟩, kload], kload.key⟩
    let es := List.replicate 11 (invCycle false false 0) ++
      [invCycle false true 0x3925841d02dc09fbdc118597196a0b32]
    let es' := List.replicate 12 (invCycle false false 0)
    [0x3243f6a8885a308d313198a2e0370734] <+: log step (fun t _ => t.results) t (es ++ es') := by
  intro kload t es es'
  have hes : Along step Served t (es ++ es') := by decide +kernel
  have htext : ((log step loads t es).map fun x => aesInvCipher x.1 x.2) =
      [0x3243f6a8885a308d313198a2e0370734] := by
    decide +kernel
  rw [← htext]
  exact (invCipher_law .zero rfl rfl rfl rfl hes (by decide)).1

end PacketBuffering
