import PacketBuffering.Aes.Done

/-!
# The soft reset of the AES unit

`SOFT_RESET` clears key, texts and status. The core is not stopped: an encryption under way completes,
and its result is captured as that of any other.

* `Cleared`: nothing of a result is visible; `cleared_clock`: a core at rest leaves it so.
* `exists_doneReg`: an encryption under way completes.
* **`soft_reset_clears_iff`**: what is cleared stays cleared iff no encryption was under way.
-/

namespace PacketBuffering

open AesRegisterSet

variable {a : ℕ} {P : CipherPath}

/-- `DONE` and `BUSY` are not set, and the output reads zero. -/
structure AesRegisterSet.Cleared (s : AesRegisterSet) : Prop where
  done : s.doneReg = false
  busy : s.busyReg = false
  textOut : s.textOutReg = 0

namespace AesSystem

variable {s : AesSystem P} {w : Option (RegWrite a)}

theorem cleared_clock (h : s.regs.Cleared) (hpulse : s.core.done = false) (hw : starts w = false) :
    (s.clock w).regs.Cleared := by
  refine ⟨?_, ?_, ?_⟩
  · refine clock_doneReg.trans ?_
    rw [hpulse, h.done]
    rfl
  · refine clock_busyReg.trans ?_
    rw [hw, h.busy, Bool.false_and, Bool.or_false, Bool.and_false]
  · refine clock_textOutReg.trans ?_
    rw [hpulse, h.textOut, if_neg Bool.false_ne_true, ite_self]

theorem cleared_of_softResets (hsoft : softResets w = true) : (s.clock w).regs.Cleared := by
  refine ⟨?_, ?_, ?_⟩
  · exact clock_doneReg.trans (by simp [hsoft])
  · exact clock_busyReg.trans (by simp [hsoft])
  · exact clock_textOutReg.trans (by simp [hsoft])

theorem doneReg_of_pulse (h : s.core.done = true) :
    (s.clock (none : Option (RegWrite a))).regs.doneReg = true := by
  refine clock_doneReg.trans ?_
  rw [h]
  rfl

variable (a) in
/-- A core that counts reports a completion after as many cycles, and it is captured in the next. -/
theorem doneReg_of_dcnt (n : ℕ) (hn : n < 15) (s : AesSystem P) (hld : s.regs.aesLd = false)
    (hcnt : s.core.dcnt = BitVec.ofNat 4 (n + 1)) :
    (run clock s (List.replicate (n + 2) (none : Option (RegWrite a)))).regs.doneReg = true := by
  induction n generalizing s with
  | zero => exact doneReg_of_pulse (countdown none hn hld hcnt).2
  | succ n ih =>
    rw [List.replicate_succ, run_cons]
    exact ih (by omega) (s.clock none) clock_aesLd (countdown none hn hld hcnt).1

/-- **An encryption under way completes**, whatever is written but a `START`. -/
theorem exists_doneReg (hw : starts w = false) (h : s.regs.aesLd = true ∨ s.core.dcnt ≠ 0) :
    ∃ n, (run clock (s.clock w) (List.replicate n (none : Option (RegWrite a)))).regs.doneReg =
      true := by
  have hld : (s.clock w).regs.aesLd = false := clock_aesLd.trans hw
  cases hold : s.regs.aesLd with
  | true =>
    refine ⟨12, doneReg_of_dcnt a 10 (by omega) _ hld ?_⟩
    rw [clock_dcnt, hold, if_pos rfl]
    rfl
  | false =>
    have hne : s.core.dcnt ≠ 0 := h.resolve_left (by rw [hold]; exact Bool.false_ne_true)
    obtain ⟨n, hn, hcnt⟩ : ∃ n < 15, s.core.dcnt = BitVec.ofNat 4 (n + 1) := by
      have hsome : ∀ c : BitVec 4, c ≠ 0 → ∃ n < 15, c = BitVec.ofNat 4 (n + 1) := by decide
      exact hsome _ hne
    obtain ⟨hdcnt, hpulse⟩ := countdown w hn hold hcnt
    cases n with
    | zero => exact ⟨1, doneReg_of_pulse hpulse⟩
    | succ n => exact ⟨n + 2, doneReg_of_dcnt a n (by omega) _ hld hdcnt⟩

end AesSystem

open AesSystem

/-- **When a soft reset leaves nothing behind.** For every datapath and every state: after a write of
`SOFT_RESET` without `START`, `DONE` and `BUSY` stay zero and the output reads zero in every run of
register writes without `START`, iff no encryption was under way: neither the load pulse was up nor
the counter of the core running. -/
theorem soft_reset_clears_iff (s : AesSystem P) (w : RegWrite a) (hsoft : w.softReset = true)
    (hstart : w.start = false) :
    (∀ ws : List (Option (RegWrite a)), (∀ v ∈ ws, starts v = false) →
        (run AesSystem.clock (s.clock (some w)) ws).regs.Cleared) ↔
      s.regs.aesLd = false ∧ s.core.dcnt = 0 := by
  constructor
  · intro h
    by_contra hrun
    have hunder : s.regs.aesLd = true ∨ s.core.dcnt ≠ 0 := by
      by_cases hld : s.regs.aesLd = true
      · exact .inl hld
      · exact .inr fun hcnt => hrun ⟨Bool.eq_false_iff.mpr hld, hcnt⟩
    obtain ⟨n, hdone⟩ := exists_doneReg (w := some w) hstart hunder
    have hidle : ∀ v ∈ List.replicate n (none : Option (RegWrite a)), starts v = false := by
      intro v hv
      rw [List.eq_of_mem_replicate hv]
      rfl
    exact Bool.false_ne_true ((h _ hidle).done.symm.trans hdone)
  · rintro ⟨hno, hzero⟩ ws hws
    refine ((along_of_forall (s.clock (some w)) hws).invariant
      (fun t => t.Quiet ∧ t.regs.Cleared) ?_ ?_).2
    · rintro t v ⟨hq, hc⟩ hv
      exact ⟨quiet_clock hq.dcnt hq.ld hv, cleared_clock hc hq.done hv⟩
    · exact ⟨quiet_clock hzero hno hstart, cleared_of_softResets hsoft⟩

/-- A soft reset after a completed encryption, and the key written again. -/
theorem soft_reset_after_done :
    let s := run AesSystem.clock (.reset (P := aesPath) CipherData.zero)
      (writes 0x00 1 :: List.replicate 13 none)
    s.regs.doneReg = true ∧
      (run AesSystem.clock (s.clock (writes 0x00 4)) [writes 0x10 7, none, none]).regs.Cleared := by
  intro s
  refine ⟨by decide +kernel, ?_⟩
  exact (soft_reset_clears_iff s ⟨0x00, 4, 0b1111⟩ (by decide) (by decide)).mpr
    (by decide +kernel) _ (by decide)

/-- A soft reset four cycles after `START`, and nothing written behind it: nine cycles later `DONE` is
set again and the output is the encryption with the cleared key. -/
theorem soft_reset_while_running :
    let s := run AesSystem.clock (.reset (P := aesPath) CipherData.zero)
      ([writes 0x1C 1, writes 0x00 1] ++ List.replicate 3 none)
    let t := run AesSystem.clock (s.clock (writes 0x00 4)) (List.replicate 9 (none : Option (RegWrite 32)))
    softResets (writes 0x00 4) = true ∧ starts (writes 0x00 4) = false ∧
      t.regs.doneReg = true ∧ t.regs.textOutReg = aesCipher 1 0 ∧ aesCipher 1 0 ≠ 0 ∧
      ¬ t.regs.Cleared := by
  intro s t
  have hdone : t.regs.doneReg = true := by decide +kernel
  refine ⟨by decide, by decide, hdone, by decide +kernel, by decide +kernel, fun h => ?_⟩
  exact Bool.false_ne_true (h.done.symm.trans hdone)

end PacketBuffering
