import PacketBuffering.Crc.ReadChannel

/-!
# The status flags of the CRC register interface

`CRC_STATUS` has a flag for each report of the checker. The write of `1` that clears a flag stands
behind the assignment that sets it, in the same clocked block.

* `CrcEvent`: the three reports, each with its flag.
* **`CrcSlave.regStatus_step`**: a flag over one cycle.
* **`CrcSlave.event_kept_iff`**: a report is kept until a later write clears its flag, iff no write
  clears it in the cycle of the report itself.
* `CrcSlave.done_lost`: a write that clears an old `DONE` takes a new one with it.
-/

namespace PacketBuffering

/-- The reports of the checker that have a flag in `CRC_STATUS`. -/
inductive CrcEvent
  | done
  | pass
  | error
deriving DecidableEq

namespace CrcEvent

/-- The place of the flag. -/
def flag : CrcEvent → ℕ
  | done => 1
  | pass => 2
  | error => 3

/-- The report is made in this cycle. -/
def reported (t : CrcStatus) : CrcEvent → Bool
  | done => t.done
  | pass => t.pass
  | error => t.error

end CrcEvent

namespace CrcSlave

variable (k : CrcEvent) (s : CrcSlave) (e : AxiLiteIn × CrcStatus)

/-- The flag of the event. -/
def flagged : Bool := s.regStatus.getLsbD k.flag

/-- The interrupt of the event is enabled; a pass has none. -/
def irqEnabled : Bool :=
  match k with
  | .done => s.regCtrl.getLsbD 2
  | .pass => false
  | .error => s.regCtrl.getLsbD 3

/-- A write executes that clears the flag of the event. -/
def clears : Bool :=
  s.writesTo e.1 CrcReg.status && e.1.wstrb.getLsbD 0 && e.1.wdata.getLsbD k.flag

/-- The event is on record: its flag is set, and so is the interrupt if it is enabled. -/
def OnRecord : Prop := s.flagged k = true ∧ (s.irqEnabled k = true → s.irq = true)

instance : Decidable (s.OnRecord k) := inferInstanceAs (Decidable (_ ∧ _))

variable {k s e}

theorem irq_of_flagged (h : s.flagged k = true) (hen : s.irqEnabled k = true) : s.irq = true := by
  cases k with
  | done =>
    have hflag : s.regStatus.getLsbD 1 = true := h
    have henable : s.regCtrl.getLsbD 2 = true := hen
    simp [irq, hflag, henable]
  | pass => exact absurd hen Bool.false_ne_true
  | error =>
    have hflag : s.regStatus.getLsbD 3 = true := h
    have henable : s.regCtrl.getLsbD 3 = true := hen
    simp [irq, hflag, henable]

theorem onRecord_iff : s.OnRecord k ↔ s.flagged k = true :=
  ⟨And.left, fun h => ⟨h, irq_of_flagged h⟩⟩

theorem getLsbD_bitIf (b : Bool) {m n : ℕ} (hn : n < 32) :
    (bitIf b m).getLsbD n = (b && decide (n = m)) := by
  cases b with
  | false => simp [bitIf]
  | true =>
    rw [bitIf, if_pos rfl, BitVec.getLsbD_shiftLeft, BitVec.getLsbD_one]
    simp only [Bool.true_and]
    rcases Nat.lt_trichotomy n m with h | rfl | h
    · simp [h, h.ne]
    · simp [hn]
    · have hne : n - m ≠ 0 := by omega
      simp [hne, h.ne']

/-- **A flag over one cycle**: the report sets it, the write clears it with priority. -/
theorem regStatus_step : (s.step e).flagged k =
    ((s.flagged k || k.reported e.2) && !s.clears k e) := by
  have hmask : ∀ c : Bool, (if c then e.1.wdata &&& 0xE else (0 : BitVec 32)).getLsbD k.flag =
      (c && e.1.wdata.getLsbD k.flag) := by
    intro c
    cases c <;> cases k <;> simp [CrcEvent.flag]
  have hlt : k.flag < 32 := by cases k <;> decide
  have hkeep : (~~~(0x21 : BitVec 32)).getLsbD k.flag = true := by cases k <;> decide
  unfold flagged step clock regStatusNext clears
  simp only [BitVec.getLsbD_and, BitVec.getLsbD_or, getLsbD_bitIf _ hlt, hkeep, Bool.and_true]
  rw [BitVec.getLsbD_not, hmask, decide_eq_true hlt, Bool.true_and]
  congr 1
  cases k <;> simp [CrcEvent.flag, CrcEvent.reported]

theorem flagged_of_no_clear {es : List (AxiLiteIn × CrcStatus)} (h : s.flagged k = true)
    (hes : Along step (fun s e => s.clears k e = false) s es) : (run step s es).flagged k = true := by
  refine hes.invariant (fun s => s.flagged k = true) ?_ h
  intro s e hs he
  rw [regStatus_step, hs, he]
  rfl

/-- **When an event is kept.** In every run from reset, for every report of the checker in a cycle
`e` such that no later write clears its flag: the event is on record in every state after `e`, iff no
write that clears the flag executes in the cycle `e` itself. -/
theorem event_kept_iff (k : CrcEvent) (es₀ es : List (AxiLiteIn × CrcStatus))
    (e : AxiLiteIn × CrcStatus) (hreport : k.reported e.2 = true)
    (hlater : Along step (fun s e => s.clears k e = false) ((run step reset es₀).step e) es) :
    (∀ es', es' <+: es → (run step reset (es₀ ++ e :: es')).OnRecord k) ↔
      (run step reset es₀).clears k e = false := by
  have hflag : ((run step reset es₀).step e).flagged k = !(run step reset es₀).clears k e := by
    rw [regStatus_step, hreport, Bool.or_true, Bool.true_and]
  constructor
  · intro h
    have hnow := (h [] List.nil_prefix).1
    rw [run_snoc, hflag] at hnow
    rwa [Bool.not_eq_true'] at hnow
  · intro hnow es' hp
    rw [hnow] at hflag
    rw [run_append, run_cons, onRecord_iff]
    exact flagged_of_no_clear hflag (hlater.of_isPrefix hp)

/-- The cycles of a write of `d` to the register at offset `a`, up to the one it executes in, with
the given report in the last one. -/
def writeCycles (a : BitVec 6) (d : BitVec 32) (t : CrcStatus) : List (AxiLiteIn × CrcStatus) :=
  [(.write a d, .idle), (.write a d, t), ({ AxiLiteIn.idle with bready := true }, .idle)]

/-- A mismatch is reported while software clears `DONE`; the interrupt of an error is enabled. -/
theorem event_kept_error :
    let es₀ := writeCycles 0x00 0x19 .idle ++ [(AxiLiteIn.write 0x04 0x2, CrcStatus.idle)]
    let e : AxiLiteIn × CrcStatus :=
      (.write 0x04 0x2, { CrcStatus.idle with done := true, error := true })
    (run step reset (es₀ ++ [e])).irq = true ∧ (run step reset (es₀ ++ [e])).OnRecord .error := by
  intro es₀ e
  refine ⟨by decide, ?_⟩
  exact (event_kept_iff .error es₀ [] e rfl trivial).mpr (by decide) [] (List.prefix_refl _)

/-- **A lost event.** The interrupt of `DONE` is enabled. A second packet is done in the cycle in
which software clears the `DONE` of the first one: the flag and the interrupt stay low. -/
theorem done_lost :
    let done : CrcStatus := { CrcStatus.idle with done := true }
    let es₀ := writeCycles 0x00 0x15 done ++ [(AxiLiteIn.write 0x04 0x2, CrcStatus.idle)]
    let e : AxiLiteIn × CrcStatus := (.write 0x04 0x2, done)
    let es : List (AxiLiteIn × CrcStatus) := [({ AxiLiteIn.idle with bready := true }, .idle)]
    Along (Watched.step step owe) (fun p e => e.1.Keeps p.owes) ⟨reset, .none⟩ (es₀ ++ e :: es) ∧
      CrcEvent.reported e.2 .done = true ∧
      Along step (fun s e => s.clears .done e = false) ((run step reset es₀).step e) es ∧
      (run step reset es₀).irq = true ∧
      (run step reset (es₀ ++ [e])).flagged .done = false ∧
      (run step reset (es₀ ++ e :: es)).irq = false := by
  decide

end CrcSlave

end PacketBuffering
