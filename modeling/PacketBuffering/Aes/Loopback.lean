import PacketBuffering.Aes.Done
import PacketBuffering.Aes.InvCore

/-!
# Encryption and decryption back to back

The two cores as `test_bench_top` connects them: one pulse loads key and text into `aes_cipher_top` and
the key into `aes_inv_cipher_top`, and the completion of the encryption loads its result into the
decryption. The last round key reaches the buffer in the cycle before that.

* `Loopback`, `Loopback.clock`: the two cores.
* `LoopPhase`: where the last load is; `LoopPhase.step`.
* **`loopback_round_trip`**: whatever is loaded comes out again, within 24 cycles.
-/

namespace PacketBuffering

/-- The inputs of a cycle. -/
structure LoopIn where
  kld : Bool
  key : BitVec 128
  text : BitVec 128
  unknown : BitVec 128

/-- `u0` and `u1` of the bench, and the key and the text that were loaded last. -/
structure Loopback where
  u0 : CipherTop aesPath
  u1 : InvCipher
  key : BitVec 128
  text : BitVec 128

namespace Loopback

variable (s : Loopback) (i : LoopIn)

/-- The inputs of `u1`. -/
def invIn : InvCipherIn := ⟨true, i.kld, s.u0.done, i.key, s.u0.data.textOut, i.unknown⟩

/-- A rising `clk`. -/
def clock : Loopback where
  u0 := s.u0.clock i.kld i.key i.text
  u1 := s.u1.clock (s.invIn i)
  key := if i.kld then i.key else s.key
  text := if i.kld then i.text else s.text

/-- Neither core works on anything. -/
def Free : Prop := s.u0.dcnt = 0 ∧ s.u0.done = false ∧ s.u1.dcnt = 0 ∧ s.u1.done = false

instance : Decidable s.Free := inferInstanceAs (Decidable (_ ∧ _ ∧ _ ∧ _))

/-- The bench loads only when both cores are through. -/
def Served : Prop := i.kld = true → s.Free

instance : Decidable (s.Served i) := inferInstanceAs (Decidable (_ → _))

/-- The text that is loaded. -/
def loads (_ : Loopback) (i : LoopIn) : List (BitVec 128) := if i.kld then [i.text] else []

/-- The text that `done2` marks. -/
def results : List (BitVec 128) := if s.u1.done then [s.u1.textOut] else []

/-- The cycles until the text that is on its way has come out. -/
def rank : ℕ :=
  if s.u0.dcnt ≠ 0 then s.u0.dcnt.toNat + 13
  else if s.u0.done then 13
  else if s.u1.dcnt ≠ 0 then 13 - s.u1.dcnt.toNat
  else 0

/-- The text that is on its way. -/
def held : List (BitVec 128) := if s.rank = 0 then [] else [s.text]

end Loopback

open InvCipher (Schedule Working)

/-- **Where the last load is.** -/
inductive LoopPhase (s : Loopback) : Prop
  | free (dcnt : s.u0.dcnt = 0) (done : s.u0.done = false) (idle : s.u1.Idle)
  | encrypting (n : ℕ) (hn : n ≤ 10) (dcnt : s.u0.dcnt = BitVec.ofNat 4 (11 - n))
      (done : s.u0.done = false) (data : aesPath.Since n s.key s.text s.u0.data)
      (keys : Schedule s.key n s.u1) (idle : s.u1.Idle)
  | handover (dcnt : s.u0.dcnt = 0) (done : s.u0.done = true)
      (data : s.u0.data.textOut = aesCipher s.key s.text) (keys : Schedule s.key 11 s.u1)
      (idle : s.u1.Idle)
  | decrypting (dcnt : s.u0.dcnt = 0) (done : s.u0.done = false) (keys : Schedule s.key 11 s.u1)
      (work : Working s.key s.u1) (text : s.u1.textInR = aesCipher s.key s.text)

namespace Loopback

variable {s : Loopback} {i : LoopIn}

theorem done_clock : (s.clock i).u0.done = (decide (s.u0.dcnt = 1) && !i.kld) := by
  have hone : ∀ c : BitVec 4, (!(c.extractLsb' 1 3 != 0) && c.getLsbD 0) = decide (c = 1) := by decide
  exact congrArg (· && !i.kld) (hone _)

theorem dcnt_clock (hkld : i.kld = false) :
    (s.clock i).u0.dcnt = if s.u0.dcnt = 0 then 0 else s.u0.dcnt - 1 := by
  simp only [clock, CipherTop.clock, hkld, Bool.false_eq_true, if_false, bne_iff_ne, ne_eq, ite_not]
  split_ifs with h
  · exact h
  · rfl

theorem rest_clock (hkld : i.kld = false) (h : s.u0.dcnt = 0) :
    (s.clock i).u0.dcnt = 0 ∧ (s.clock i).u0.done = false := by
  refine ⟨?_, ?_⟩
  · rw [dcnt_clock hkld, h, if_pos rfl]
  · rw [done_clock, h]
    rfl

theorem idle_clock (h : s.u1.Idle) (hdone : s.u0.done = false) : (s.clock i).u1.Idle :=
  h.next (i := s.invIn i) rfl hdone

theorem LoopPhase.load (hkld : i.kld = true) (hdone : s.u0.done = false) (hidle : s.u1.Idle) :
    LoopPhase (s.clock i) := by
  have hkey : (s.clock i).key = i.key := by simp [clock, hkld]
  have htext : (s.clock i).text = i.text := by simp [clock, hkld]
  refine .encrypting 0 (by omega) ?_ ?_ ?_ ?_ (idle_clock hidle hdone)
  · simp [clock, CipherTop.clock, hkld]
  · rw [done_clock, hkld]
    simp
  · rw [hkey, htext]
    exact ⟨s.u0.data, [], rfl, by simp [clock, CipherTop.clock, hkld]⟩
  · rw [hkey]
    exact Schedule.start (i := s.invIn i) _ rfl hkld

/-! ## The phases of a load -/

theorem rank_free (dcnt : s.u0.dcnt = 0) (done : s.u0.done = false) (idle : s.u1.Idle) : s.rank = 0 := by
  simp [rank, dcnt, done, idle.dcnt]

theorem rank_encrypting {n : ℕ} (hn : n ≤ 10) (dcnt : s.u0.dcnt = BitVec.ofNat 4 (11 - n)) :
    s.rank = 24 - n := by
  have hcnt : s.u0.dcnt.toNat = 11 - n := by
    rw [dcnt, BitVec.toNat_ofNat]
    omega
  have hne : s.u0.dcnt ≠ 0 := by
    intro hzero
    rw [hzero] at hcnt
    simp at hcnt
    omega
  rw [rank, if_pos hne, hcnt]
  omega

theorem rank_handover (dcnt : s.u0.dcnt = 0) (done : s.u0.done = true) : s.rank = 13 := by
  simp [rank, dcnt, done]

theorem rank_decrypting {key : BitVec 128} (dcnt : s.u0.dcnt = 0) (done : s.u0.done = false)
    (work : Working key s.u1) : s.rank = 13 - s.u1.dcnt.toNat := by
  rw [rank, if_neg (by simp [dcnt]), if_neg (by simp [done]), if_pos work.dcnt_ne]

/-- **What a cycle does**: it waits, it takes up a load, it brings the text on its way nearer, or it
shows it. -/
structure Stepped (s s' : Loopback) (i : LoopIn) : Prop where
  phase : LoopPhase s'
  course :
    (s.rank = 0 ∧ s.results = [] ∧ i.kld = false ∧ s'.rank = 0) ∨
    (s.rank = 0 ∧ s.results = [] ∧ i.kld = true ∧ s'.rank = 24 ∧ s'.text = i.text) ∨
    (s.rank = s'.rank + 1 ∧ s'.rank ≠ 0 ∧ s.results = [] ∧ i.kld = false ∧ s'.text = s.text) ∨
    (s.rank ≠ 0 ∧ s.results = [s.text] ∧ i.kld = false ∧ s'.rank = 0)

theorem stepped_free (dcnt : s.u0.dcnt = 0) (done : s.u0.done = false) (idle : s.u1.Idle) :
    Stepped s (s.clock i) i := by
  have hrank := rank_free dcnt done idle
  have hnone : s.results = [] := by simp [results, idle.done]
  cases hkld : i.kld with
  | false =>
    obtain ⟨hdcnt, hdone⟩ := rest_clock hkld dcnt
    have hidle := idle_clock (i := i) idle done
    exact ⟨.free hdcnt hdone hidle, .inl ⟨hrank, hnone, hkld, rank_free hdcnt hdone hidle⟩⟩
  | true =>
    have hdcnt : (s.clock i).u0.dcnt = BitVec.ofNat 4 (11 - 0) := by simp [clock, CipherTop.clock, hkld]
    exact ⟨LoopPhase.load hkld done idle, .inr (.inl ⟨hrank, hnone, hkld, rank_encrypting (by omega) hdcnt,
      by simp [clock, hkld]⟩)⟩

variable (hok : s.Served i)

include hok

theorem kld_of_rank (hrank : s.rank ≠ 0) : i.kld = false := by
  by_contra hkld
  obtain ⟨hdcnt, hdone, hdcnt', -⟩ := hok (Bool.eq_true_of_not_eq_false hkld)
  exact hrank (by simp [rank, hdcnt, hdone, hdcnt'])

theorem stepped_encrypting {n : ℕ} (hn : n ≤ 10) (dcnt : s.u0.dcnt = BitVec.ofNat 4 (11 - n))
    (done : s.u0.done = false) (data : aesPath.Since n s.key s.text s.u0.data)
    (keys : Schedule s.key n s.u1) (idle : s.u1.Idle) : Stepped s (s.clock i) i := by
  have hrank := rank_encrypting hn dcnt
  have hkld := kld_of_rank hok (by omega)
  have hkey : (s.clock i).key = s.key := by simp [clock, hkld]
  have htext : (s.clock i).text = s.text := by simp [clock, hkld]
  have hidle := idle_clock (i := i) idle done
  have hnone : s.results = [] := by simp [results, idle.done]
  have hdata : aesPath.Since (n + 1) s.key s.text (s.clock i).u0.data := by
    have hnext := data.next i.key i.text
    simpa only [clock, CipherTop.clock, hkld] using hnext
  have hkeys : Schedule s.key (n + 1) (s.clock i).u1 := by
    have hnext := keys.next (i := s.invIn i) rfl hkld
    rwa [min_eq_left (by omega)] at hnext
  have hcount : ∀ m ≤ 10, (if BitVec.ofNat 4 (11 - m) = 0 then 0 else BitVec.ofNat 4 (11 - m) - 1) =
      BitVec.ofNat 4 (10 - m) ∧ decide (BitVec.ofNat 4 (11 - m) = 1) = decide (m = 10) := by decide
  have hdcnt : (s.clock i).u0.dcnt = BitVec.ofNat 4 (10 - n) := by
    rw [dcnt_clock hkld, dcnt, (hcount n hn).1]
  have hdone : (s.clock i).u0.done = decide (n = 10) := by
    rw [done_clock, dcnt, (hcount n hn).2, hkld, Bool.not_false, Bool.and_true]
  rcases Nat.lt_or_ge n 10 with hlt | hge
  · rw [show 10 - n = 11 - (n + 1) by omega] at hdcnt
    have hrank' := rank_encrypting hlt hdcnt
    rw [← htext, ← hkey] at hdata
    rw [← hkey] at hkeys
    refine ⟨.encrypting (n + 1) hlt hdcnt ?_ hdata hkeys hidle,
      .inr (.inr (.inl ⟨by omega, by omega, hnone, hkld, htext⟩))⟩
    rw [hdone, decide_eq_false (by omega)]
  · obtain rfl : n = 10 := le_antisymm hn hge
    have hrank' := rank_handover hdcnt hdone
    rw [← hkey] at hkeys
    refine ⟨.handover hdcnt hdone ?_ hkeys hidle,
      .inr (.inr (.inl ⟨by omega, by omega, hnone, hkld, htext⟩))⟩
    rw [hkey, htext]
    exact hdata.textOut

theorem stepped_handover (dcnt : s.u0.dcnt = 0) (done : s.u0.done = true)
    (data : s.u0.data.textOut = aesCipher s.key s.text) (keys : Schedule s.key 11 s.u1)
    (idle : s.u1.Idle) : Stepped s (s.clock i) i := by
  have hrank := rank_handover dcnt done
  have hkld := kld_of_rank hok (by omega)
  have hkey : (s.clock i).key = s.key := by simp [clock, hkld]
  have htext : (s.clock i).text = s.text := by simp [clock, hkld]
  have hnone : s.results = [] := by simp [results, idle.done]
  obtain ⟨hdcnt, hdone⟩ := rest_clock hkld dcnt
  have hwork : Working s.key (s.clock i).u1 := .start keys idle (i := s.invIn i) rfl done
  have hcnt : (s.clock i).u1.dcnt = 1 := by simp [clock, InvCipher.clock, invIn, done, idle.done]
  have hrank' := rank_decrypting hdcnt hdone hwork
  rw [hcnt] at hrank'
  refine ⟨.decrypting hdcnt hdone ?_ ?_ ?_,
    .inr (.inr (.inl ⟨by rw [hrank, hrank']; rfl, by rw [hrank']; decide, hnone, hkld, htext⟩))⟩
  · rw [hkey]
    exact keys.next (i := s.invIn i) rfl hkld
  · rw [hkey]
    exact hwork
  · rw [hkey, htext, ← data]
    simp [clock, InvCipher.clock, invIn, done]

theorem stepped_decrypting (dcnt : s.u0.dcnt = 0) (done : s.u0.done = false)
    (keys : Schedule s.key 11 s.u1) (work : Working s.key s.u1)
    (text : s.u1.textInR = aesCipher s.key s.text) : Stepped s (s.clock i) i := by
  have hrank := rank_decrypting dcnt done work
  have hle := work.dcnt_le
  have hkld := kld_of_rank hok (by omega)
  have hkey : (s.clock i).key = s.key := by simp [clock, hkld]
  have htext : (s.clock i).text = s.text := by simp [clock, hkld]
  obtain ⟨hdcnt, hdone⟩ := rest_clock hkld dcnt
  have hnext : if s.u1.done then (s.clock i).u1.Idle else Working s.key (s.clock i).u1 :=
    work.next (i := s.invIn i) keys rfl done
  cases hd : s.u1.done with
  | true =>
    rw [hd, if_pos rfl] at hnext
    refine ⟨.free hdcnt hdone hnext,
      .inr (.inr (.inr ⟨by omega, ?_, hkld, rank_free hdcnt hdone hnext⟩))⟩
    rw [results, hd, if_pos rfl, work.textOut hd, text, (aesInvCipher_round_trip _ _).1]
  | false =>
    rw [hd, if_neg Bool.false_ne_true] at hnext
    have hcnt : (s.clock i).u1.dcnt.toNat = s.u1.dcnt.toNat + 1 :=
      work.dcnt_next (i := s.invIn i) rfl done hd
    have hle' := hnext.dcnt_le
    have hrank' := rank_decrypting hdcnt hdone hnext
    refine ⟨.decrypting hdcnt hdone ?_ ?_ ?_, .inr (.inr (.inl ⟨by omega, by omega, ?_, hkld, htext⟩))⟩
    · rw [hkey]
      exact keys.next (i := s.invIn i) rfl hkld
    · rw [hkey]
      exact hnext
    · rw [hkey, htext, ← text]
      simp [clock, InvCipher.clock, invIn, done]
    · simp [results, hd]

theorem stepped (h : LoopPhase s) : Stepped s (s.clock i) i := by
  cases h with
  | free dcnt done idle => exact stepped_free dcnt done idle
  | encrypting n hn dcnt done data keys idle => exact stepped_encrypting hok hn dcnt done data keys idle
  | handover dcnt done data keys idle => exact stepped_handover hok dcnt done data keys idle
  | decrypting dcnt done keys work text => exact stepped_decrypting hok dcnt done keys work text

omit hok

/-! ## Whole runs -/

theorem pass (h : LoopPhase s) (hok : s.Served i) :
    s.results ++ (s.clock i).held = s.held ++ s.loads i := by
  obtain ⟨hr, hnone, hkld, hr'⟩ | ⟨hr, hnone, hkld, hr', htext⟩ | ⟨hr, hr', hnone, hkld, htext⟩ |
    ⟨hr, hout, hkld, hr'⟩ := (stepped hok h).course
  · simp [held, loads, hr, hr', hnone, hkld]
  · simp [held, loads, hr, hr', hnone, hkld, htext]
  · simp [held, loads, hr, hr', hnone, hkld, htext]
  · simp [held, loads, hr, hr', hout, hkld]

theorem rank_next (h : LoopPhase s) (hok : s.Served i) (hne : s.rank ≠ 0) :
    s.held <+: s.results ∨ s.results = [] ∧ (s.clock i).rank < s.rank := by
  obtain ⟨hr, -⟩ | ⟨hr, -⟩ | ⟨hr, -, hnone, -⟩ | ⟨hr, hout, -⟩ := (stepped hok h).course
  · exact absurd hr hne
  · exact absurd hr hne
  · exact .inr ⟨hnone, by omega⟩
  · left
    rw [held, if_neg hr, hout]

/-- **The loopback drains.** -/
def drains : Drains clock Served loads fun s _ => s.results :=
  .atOnce LoopPhase held rank (fun _ _ h hok => (stepped hok h).phase) (fun _ _ h hok => pass h hok)
    (fun _ _ hr => if_pos hr) fun _ _ h hok hne => rank_next h hok hne

theorem rank_le (h : LoopPhase s) : s.rank ≤ 24 := by
  cases h with
  | free dcnt done idle => rw [rank_free dcnt done idle]; omega
  | encrypting n hn dcnt done data keys idle => rw [rank_encrypting hn dcnt]; omega
  | handover dcnt done data keys idle => rw [rank_handover dcnt done]; omega
  | decrypting dcnt done keys work text => rw [rank_decrypting dcnt done work]; omega

end Loopback

open Loopback in
/-- **Encryption and decryption back to back.** From a state in which neither core works, in every run
in which loads wait for both: the texts loaded come out of the decryption again, unchanged and in their
order, whatever keys they were loaded with; and 24 cycles after a load its text is out. -/
theorem loopback_round_trip {s : Loopback} {es es' : List LoopIn} (hfree : s.Free)
    (hgo : s.u1.go = false) (hes : Along clock Served s (es ++ es')) (hlen : 24 ≤ es'.length) :
    log clock loads s es <+: log clock (fun s _ => s.results) s (es ++ es') ∧
      log clock (fun s _ => s.results) s (es ++ es') <+: log clock loads s (es ++ es') := by
  obtain ⟨hdcnt, hdone, hdcnt', hdone'⟩ := hfree
  have hidle : s.u1.Idle := ⟨hdcnt', hdone', hgo⟩
  refine drains.served (fun _ h => rank_le h) (.free hdcnt hdone hidle) ?_ hes hlen
  exact if_pos (rank_free hdcnt hdone hidle)

open Loopback in
/-- Two texts under two keys, the second load in the first cycle that is free for it. -/
theorem loopback_round_trip_two :
    let s : Loopback := ⟨⟨0, false, .zero⟩, .zero, 0, 0⟩
    let load (key text : BitVec 128) : List LoopIn :=
      ⟨true, key, text, 0⟩ :: List.replicate 24 ⟨false, 0, 0, 0⟩
    let es := load 0x2b7e151628aed2a6abf7158809cf4f3c 0x3243f6a8885a308d313198a2e0370734 ++ [⟨true, 1, 2, 0⟩]
    [0x3243f6a8885a308d313198a2e0370734, 2] <+:
      log clock (fun s _ => s.results) s (es ++ List.replicate 24 ⟨false, 0, 0, 0⟩) := by
  intro s load es
  have hes : Along clock Served s (es ++ List.replicate 24 ⟨false, 0, 0, 0⟩) := by decide +kernel
  exact (loopback_round_trip (s := s) (by decide) rfl hes (by decide)).1

end PacketBuffering
