import PacketBuffering.Aes.Registers

/-!
# What `DONE` says

`START` becomes a load pulse one cycle later, and the core reports its completion in a register. An
old completion that meets the load pulse of a new `START` is captured as if it were the new one's.

* `Job`: the most recent `START` of a run; `Vouches`: the status tells the truth about it.
* `StaleDone`: an old completion is captured for a new `START`.
* `Phase`: where the most recent `START` is; `Phase.step`: what a cycle that captures no stale
  completion does to it.
* **`done_vouches_iff`**: the status tells the truth all along a run iff none is captured.
-/

namespace PacketBuffering

open AesRegisterSet

variable {a : ℕ} {P : CipherPath}

/-! ## The most recent `START` -/

/-- A `START`: the key and the text held when it was written, and the number of cycles since. -/
structure Job where
  key : BitVec 128
  text : BitVec 128
  age : ℕ

/-- The cycles from `START` to the capture of its result: the load pulse, the load, eleven cycles of
the core and the capture of its pulse. -/
def latency : ℕ := 13

/-- The most recent `START` after one more cycle. -/
def nextJob (s : AesSystem P) (job : Option Job) (w : Option (RegWrite a)) : Option Job :=
  if starts w then some ⟨s.regs.keyReg, s.regs.textInReg, 0⟩
  else job.map fun j => { j with age := j.age + 1 }

/-- A system with its most recent `START`. -/
structure AesWatched (P : CipherPath) where
  sys : AesSystem P
  job : Option Job

namespace AesWatched

/-- Before the first `START`. -/
def reset (d : P.State) : AesWatched P := ⟨.reset d, none⟩

/-- A rising `clk`. -/
def clock (m : AesWatched P) (w : Option (RegWrite a)) : AesWatched P :=
  ⟨m.sys.clock w, nextJob m.sys m.job w⟩

/-- **The status tells the truth**: with `DONE` the output is the encryption for the most recent
`START`, and until that has completed `BUSY` is set and `DONE` is not. -/
structure Vouches (m : AesWatched P) : Prop where
  done : m.sys.regs.doneReg = true →
    ∃ j, m.job = some j ∧ m.sys.regs.textOutReg = P.cipher j.key j.text
  busy : ∀ j, m.job = some j → j.age < latency →
    m.sys.regs.busyReg = true ∧ m.sys.regs.doneReg = false

end AesWatched

/-- The completion pulse of the core meets the load pulse of a newer `START`, and no further `START`
is written in this cycle. -/
def StaleDone (s : AesSystem P) (w : Option (RegWrite a)) : Prop :=
  s.core.done = true ∧ s.regs.aesLd = true ∧ starts w = false

instance (s : AesSystem P) (w : Option (RegWrite a)) : Decidable (StaleDone s w) :=
  inferInstanceAs (Decidable (_ ∧ _ ∧ _))

/-! ## The phases -/

/-- The datapath `n` cycles after a load. -/
def CipherPath.Since (P : CipherPath) (n : ℕ) (key text : BitVec 128) (d : P.State) : Prop :=
  ∃ (d₀ : P.State) (ps : List (BitVec 128 × BitVec 128)), ps.length = n ∧
    d = run (fun d p => P.clock d false p.1 p.2) (P.clock d₀ true key text) ps

theorem CipherPath.Since.next {n : ℕ} {key text : BitVec 128} {d : P.State}
    (h : P.Since n key text d) (key' text' : BitVec 128) :
    P.Since (n + 1) key text (P.clock d false key' text') := by
  obtain ⟨d₀, ps, hlen, rfl⟩ := h
  exact ⟨d₀, ps ++ [(key', text')], by simp [hlen], by simp⟩

theorem CipherPath.Since.textOut {key text : BitVec 128} {d : P.State}
    (h : P.Since 11 key text d) : P.textOut d = P.cipher key text := by
  obtain ⟨d₀, ps, hlen, rfl⟩ := h
  exact P.textOut_eq d₀ key text ps hlen

/-- **Where the most recent `START` is.** -/
inductive Phase (s : AesSystem P) : Option Job → Prop
  | idle (quiet : s.Quiet) (done : s.regs.doneReg = false) : Phase s none
  | started (j : Job) (age : j.age = 0) (ld : s.regs.aesLd = true) (key : s.regs.keyReg = j.key)
      (text : s.regs.textInReg = j.text) (busy : s.regs.busyReg = true)
      (done : s.regs.doneReg = false) : Phase s (some j)
  | running (j : Job) (n : ℕ) (hn : n ≤ 10) (age : j.age = n + 1) (ld : s.regs.aesLd = false)
      (pulse : s.core.done = false) (dcnt : s.core.dcnt = BitVec.ofNat 4 (11 - n))
      (data : P.Since n j.key j.text s.core.data) (busy : s.regs.busyReg = true)
      (done : s.regs.doneReg = false) : Phase s (some j)
  | ready (j : Job) (age : j.age = 12) (ld : s.regs.aesLd = false) (pulse : s.core.done = true)
      (dcnt : s.core.dcnt = 0) (data : P.textOut s.core.data = P.cipher j.key j.text)
      (busy : s.regs.busyReg = true) (done : s.regs.doneReg = false) : Phase s (some j)
  | finished (j : Job) (age : latency ≤ j.age) (quiet : s.Quiet)
      (out : s.regs.doneReg = true → s.regs.textOutReg = P.cipher j.key j.text) : Phase s (some j)

namespace Phase

variable {s : AesSystem P} {job : Option Job} {w : Option (RegWrite a)}

theorem done_or_doneReg (h : (s.clock w).regs.doneReg = true) :
    s.core.done = true ∨ s.regs.doneReg = true := by
  have := clock_doneReg.symm.trans h
  simp only [Bool.and_eq_true, Bool.or_eq_true] at this
  exact this.1

theorem doneReg_clear (hpulse : s.core.done = false) (h : s.regs.doneReg = false) :
    (s.clock w).regs.doneReg = false := by
  refine Bool.eq_false_iff.mpr fun hd => ?_
  rcases done_or_doneReg hd with hd | hd
  · exact Bool.false_ne_true (hpulse.symm.trans hd)
  · exact Bool.false_ne_true (h.symm.trans hd)

theorem busyReg_keep (hw : starts w = false) (hsoft : softResets w = false)
    (h : s.regs.busyReg = true) (hpulse : s.core.done = false) :
    (s.clock w).regs.busyReg = true := by
  refine clock_busyReg.trans ?_
  rw [hw, hsoft, h, hpulse]
  rfl

theorem textOutReg_keep (hsoft : softResets w = false) : (s.clock w).regs.textOutReg =
    if s.core.done then P.textOut s.core.data else s.regs.textOutReg := by
  refine clock_textOutReg.trans ?_
  rw [hsoft, if_neg Bool.false_ne_true]

theorem of_starts (hw : starts w = true) (hsoft : softResets w = false) :
    Phase (s.clock w) (nextJob s job w) := by
  rw [nextJob, if_pos hw]
  refine .started _ rfl ?_ (clock_of_starts hw hsoft).1 (clock_of_starts hw hsoft).2 ?_ ?_
  · exact clock_aesLd.trans hw
  · exact clock_busyReg.trans (by simp [hw, hsoft])
  · exact clock_doneReg.trans (by simp [hw])

/-- **A cycle that captures no stale completion** moves the job on. -/
theorem step (h : Phase s job) (hsoft : softResets w = false) (hstale : ¬ StaleDone s w) :
    Phase (s.clock w) (nextJob s job w) := by
  cases hw : starts w with
  | true => exact of_starts hw hsoft
  | false =>
    have hld : (s.clock w).regs.aesLd = false := clock_aesLd.trans hw
    rw [nextJob, hw, if_neg Bool.false_ne_true]
    cases h with
    | idle quiet done =>
      exact .idle (AesSystem.quiet_clock quiet.dcnt quiet.ld hw) (doneReg_clear quiet.done done)
    | started j age ld key text busy done =>
      have hpulse : s.core.done = false := by
        refine Bool.eq_false_iff.mpr fun hp => ?_
        exact hstale ⟨hp, ld, hw⟩
      refine .running _ 0 (by omega) (by simp [age]) hld ?_ ?_ ?_ ?_ (doneReg_clear hpulse done)
      · rw [AesSystem.clock_done, ld, Bool.not_true, Bool.and_false]
      · rw [AesSystem.clock_dcnt, ld]
        rfl
      · refine ⟨s.core.data, [], rfl, ?_⟩
        simp only [AesSystem.clock, CipherTop.clock, ld, key, text, run_nil]
      · exact busyReg_keep hw hsoft busy hpulse
    | running j n hn age ld pulse dcnt data busy done =>
      have hdata : P.Since (n + 1) j.key j.text (s.clock w).core.data := by
        simp only [AesSystem.clock, CipherTop.clock, ld]
        exact data.next _ _
      have hb : (s.clock w).regs.busyReg = true := busyReg_keep hw hsoft busy pulse
      have hd : (s.clock w).regs.doneReg = false := doneReg_clear pulse done
      rw [show 11 - n = 10 - n + 1 by omega] at dcnt
      obtain ⟨hdcnt, hpulse⟩ := AesSystem.countdown w (by omega) ld dcnt
      rcases Nat.lt_or_ge n 10 with hlt | hge
      · refine .running _ (n + 1) (by omega) (by simp [age]) hld ?_ ?_ hdata hb hd
        · rw [hpulse]
          exact decide_eq_false (by omega)
        · rw [hdcnt, show 11 - (n + 1) = 10 - n by omega]
      · obtain rfl : n = 10 := by omega
        exact .ready _ (by simp [age]) hld hpulse hdcnt hdata.textOut hb hd
    | ready j age ld pulse dcnt data busy done =>
      refine .finished _ (by simp [age, latency]) (AesSystem.quiet_clock dcnt ld hw) fun _ => ?_
      rw [textOutReg_keep hsoft, pulse, if_pos rfl, data]
    | finished j age quiet out =>
      refine .finished _ (by simp; omega) (AesSystem.quiet_clock quiet.dcnt quiet.ld hw) fun hd => ?_
      rw [textOutReg_keep hsoft, quiet.done, if_neg Bool.false_ne_true]
      rcases done_or_doneReg hd with hd | hd
      · exact absurd (quiet.done.symm.trans hd) Bool.false_ne_true
      · exact out hd

theorem of_run (d : P.State) {ws : List (Option (RegWrite a))}
    (hws : Along AesWatched.clock (fun m w => softResets w = false ∧ ¬ StaleDone m.sys w)
      (.reset d) ws) :
    Phase (run AesWatched.clock (.reset d) ws).sys (run AesWatched.clock (.reset d) ws).job :=
  hws.invariant (fun m => Phase m.sys m.job) (fun _ _ h hw => h.step hw.1 hw.2)
    (.idle ⟨rfl, rfl, rfl⟩ rfl)

theorem vouches_of_busy {m : AesWatched P} (busy : m.sys.regs.busyReg = true)
    (done : m.sys.regs.doneReg = false) : m.Vouches :=
  ⟨fun hd => absurd (done.symm.trans hd) Bool.false_ne_true, fun _ _ _ => ⟨busy, done⟩⟩

theorem vouches {m : AesWatched P} (h : Phase m.sys m.job) : m.Vouches := by
  obtain ⟨s, job⟩ := m
  cases h with
  | idle quiet done =>
    refine ⟨fun hd => absurd (done.symm.trans hd) Bool.false_ne_true, fun j hj => ?_⟩
    exact absurd hj (by simp)
  | started j age ld key text busy done => exact vouches_of_busy busy done
  | running j n hn age ld pulse dcnt data busy done => exact vouches_of_busy busy done
  | ready j age ld pulse dcnt data busy done => exact vouches_of_busy busy done
  | finished j age quiet out =>
    refine ⟨fun hd => ⟨j, rfl, out hd⟩, fun j' hj' hlt => ?_⟩
    obtain rfl : j = j' := Option.some.inj hj'
    omega

end Phase

/-! ## The law -/

theorem along_sys (ok : AesSystem P → Option (RegWrite a) → Prop) (m : AesWatched P)
    (ws : List (Option (RegWrite a))) :
    Along AesWatched.clock (fun m w => ok m.sys w) m ws ↔ Along AesSystem.clock ok m.sys ws := by
  induction ws generalizing m with
  | nil => exact Iff.rfl
  | cons w ws ih => exact and_congr Iff.rfl (ih _)

theorem job_of_aesLd (d : P.State) (ws : List (Option (RegWrite a))) :
    (run AesWatched.clock (.reset d) ws).sys.regs.aesLd = true →
      ∃ j, (run AesWatched.clock (.reset d) ws).job = some j ∧ j.age = 0 := by
  refine (along_true AesWatched.clock (.reset d) ws).invariant
    (fun m => m.sys.regs.aesLd = true → ∃ j, m.job = some j ∧ j.age = 0) ?_ ?_
  · intro m w _ _ hld
    have hw : starts w = true := clock_aesLd.symm.trans hld
    exact ⟨_, by rw [AesWatched.clock, nextJob, if_pos hw], rfl⟩
  · intro hld
    exact absurd hld Bool.false_ne_true

theorem not_vouches_of_stale {m : AesWatched P} {w : Option (RegWrite a)}
    (hjob : m.sys.regs.aesLd = true → ∃ j, m.job = some j ∧ j.age = 0)
    (hstale : StaleDone m.sys w) : ¬ (m.clock w).Vouches := by
  obtain ⟨hpulse, hld, hw⟩ := hstale
  obtain ⟨j, hj, hage⟩ := hjob hld
  intro hv
  have hnext : (m.clock w).job = some { j with age := j.age + 1 } := by
    rw [AesWatched.clock, nextJob, hw, if_neg Bool.false_ne_true, hj]
    rfl
  have hbusy := (hv.busy _ hnext (by simp [hage, latency])).1
  have hclear : (m.clock w).sys.regs.busyReg = false := by
    refine clock_busyReg.trans ?_
    rw [hw, hpulse, Bool.not_true, Bool.and_false, Bool.or_false, Bool.and_false]
  rw [hclear] at hbusy
  exact Bool.false_ne_true hbusy

/-- **When `DONE` vouches for the result.** For every datapath, every state of it at reset and every
run of register writes without `SOFT_RESET`: in every state of the run `DONE` is set only with the
encryption for the most recent `START` in the output, and until that `START` has completed `BUSY` is
set and `DONE` is not, iff in no cycle of the run the completion pulse of the core meets the load
pulse of a newer `START` that is not restarted in the same cycle. -/
theorem done_vouches_iff (P : CipherPath) (d : P.State) (ws : List (Option (RegWrite a)))
    (hws : ∀ w ∈ ws, softResets w = false) :
    (∀ ws', ws' <+: ws → (run AesWatched.clock (.reset d) ws').Vouches) ↔
      Along AesSystem.clock (fun s w => ¬ StaleDone s w) (.reset d) ws := by
  have hsys := along_sys (fun s w => ¬ StaleDone s w) (.reset d) ws
  constructor
  · intro h
    refine hsys.mp (along_iff_forall_isPrefix.mpr fun ws' w hpre hstale => ?_)
    have hv := h _ hpre
    rw [run_append] at hv
    exact not_vouches_of_stale (job_of_aesLd d ws') hstale hv
  · intro h ws' hpre
    have hsoft : Along AesWatched.clock (fun _ w => softResets w = false) (.reset d) ws :=
      along_of_forall _ hws
    have hall := hsoft.and (hsys.mpr h)
    exact (Phase.of_run d (hall.of_isPrefix hpre)).vouches

/-- A write of `data` to the word at `addr`. -/
def writes (addr data : BitVec 32) : Option (RegWrite 32) := some ⟨addr, data, 0b1111⟩

/-- One `START`, and the key changed while it runs. -/
theorem done_vouches_once :
    let ws := [writes 0x00 1, writes 0x1C 1] ++ List.replicate 12 none
    (run AesWatched.clock (.reset (P := aesPath) CipherData.zero) ws).sys.regs.doneReg = true ∧
      ∃ j, (run AesWatched.clock (.reset (P := aesPath) CipherData.zero) ws).job = some j ∧
        (run AesWatched.clock (.reset (P := aesPath) CipherData.zero) ws).sys.regs.textOutReg =
          aesCipher j.key j.text := by
  intro ws
  have hdone : (run AesWatched.clock (.reset (P := aesPath) CipherData.zero) ws).sys.regs.doneReg =
      true := by decide +kernel
  have hv := (done_vouches_iff aesPath CipherData.zero ws (by decide)).mpr (by decide +kernel)
  exact ⟨hdone, (hv ws (List.prefix_refl _)).done hdone⟩

/-- A second `START` twelve cycles after the first, with another key: a cycle later `DONE` is set,
`BUSY` is not, and the output is the encryption for the first. -/
theorem done_of_old_start :
    let ws := [writes 0x00 1, writes 0x1C 1] ++ List.replicate 10 none ++ [writes 0x00 1, none]
    let m := run AesWatched.clock (.reset (P := aesPath) CipherData.zero) ws
    (∀ w ∈ ws, softResets w = false) ∧
      m.job.map Job.age = some 1 ∧ m.job.map Job.key = some 1 ∧ m.job.map Job.text = some 0 ∧
      m.sys.regs.doneReg = true ∧ m.sys.regs.busyReg = false ∧
      m.sys.regs.textOutReg = aesCipher 0 0 ∧ aesCipher 0 0 ≠ aesCipher 1 0 ∧ ¬ m.Vouches := by
  intro ws m
  have hage : m.job.map Job.age = some 1 := by decide +kernel
  have hbusy : m.sys.regs.busyReg = false := by decide +kernel
  refine ⟨by decide, hage, by decide +kernel, by decide +kernel, by decide +kernel, hbusy,
    by decide +kernel, by decide +kernel, fun hv => ?_⟩
  obtain ⟨j, hj, hone⟩ := Option.map_eq_some_iff.mp hage
  have := (hv.busy j hj (by rw [hone]; decide)).1
  rw [hbusy] at this
  exact Bool.false_ne_true this

end PacketBuffering
