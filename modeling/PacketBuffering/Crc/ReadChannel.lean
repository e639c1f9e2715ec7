import PacketBuffering.Crc.Slave

/-!
# The read channel of the CRC register interface

`s_axi_arready` is raised without a look at a response that is still pending. A read that executes
then overwrites it.

* `NoOverlap`: no read executes while an earlier response is stalled.
* **`crc_reads_answered_iff`**: each read gets its own response, and pending responses are stable, in
  exactly the runs that meet `NoOverlap` at every step.
* `crc_read_lost`: a master that keeps to the protocol and loses a response.
-/

namespace PacketBuffering

/-- The checker at rest. -/
def CrcStatus.idle : CrcStatus := ⟨false, false, false, false, 0, 0, 0, 0⟩

namespace CrcSlave

/-- A rising `aclk` with the master's and the checker's signals. -/
def step (s : CrcSlave) (e : AxiLiteIn × CrcStatus) : CrcSlave := s.clock e.1 e.2

variable (s : CrcSlave) (e : AxiLiteIn × CrcStatus)

/-- The response a read that executes must get: the word of its own address, and `OKAY`. -/
def reads : List (BitVec 32 × BitVec 2) := if s.arFire e.1 then [(s.readWord e.1 e.2, 0)] else []

/-- The response the master accepts. -/
def rBeats : List (BitVec 32 × BitVec 2) := if s.rFire e.1 then [(s.rdata, s.rresp)] else []

/-- The response on offer. -/
def rPending : List (BitVec 32 × BitVec 2) := if s.rvalid then [(s.rdata, s.rresp)] else []

/-- A response that is not accepted stays on offer, unchanged. -/
def RStable : Prop :=
  Keeps (owed s.rvalid e.1.rready (s.rdata, s.rresp)) (s.step e).rvalid
    ((s.step e).rdata, (s.step e).rresp)

/-- No read executes while an earlier response is stalled. -/
def NoOverlap : Prop := s.arFire e.1 = true → s.rvalid = true → e.1.rready = true

instance : Decidable (s.RStable e) := inferInstanceAs (Decidable (Keeps _ _ _))

instance : Decidable (s.NoOverlap e) := inferInstanceAs (Decidable (_ → _ → _))

variable {s e}

theorem rPending_step : (s.step e).rPending =
    if s.arFire e.1 then s.reads e else if s.rFire e.1 then [] else s.rPending := by
  unfold rPending reads rFire
  cases harf : s.arFire e.1 <;> cases hrv : s.rvalid <;> cases hrr : e.1.rready <;>
    simp [step, clock, harf, hrv, hrr]

theorem reads_step (h : s.NoOverlap e) :
    s.rPending ++ s.reads e = s.rBeats e ++ (s.step e).rPending := by
  rw [rPending_step]
  unfold rPending rBeats reads rFire
  cases harf : s.arFire e.1 with
  | false => cases hrv : s.rvalid <;> cases hrr : e.1.rready <;> simp
  | true =>
    cases hrv : s.rvalid with
    | false => simp
    | true => simp [h harf hrv]

theorem noOverlap_of_length (h : (s.rPending ++ s.reads e).length =
    (s.rBeats e ++ (s.step e).rPending).length) : s.NoOverlap e := by
  intro harf hrv
  rw [rPending_step] at h
  by_contra hrr
  simp [rPending, rBeats, reads, rFire, harf, hrv, hrr] at h

theorem rStable_of_noOverlap (h : s.NoOverlap e) : s.RStable e := by
  unfold RStable
  cases hrv : s.rvalid with
  | false => simp
  | true =>
    cases hrr : e.1.rready with
    | true => simp
    | false =>
      have harf : s.arFire e.1 = false := by
        cases harf : s.arFire e.1 with
        | false => rfl
        | true => exact absurd (h harf hrv) (by simp [hrr])
      simp [step, clock, harf, hrv, hrr]

/-- **When every read is answered.** In a run from reset each read gets exactly one response, in
order and with the data of its own address, and a response on offer does not change until it is
accepted, iff no read executes while an earlier response is stalled. -/
theorem crc_reads_answered_iff (es : List (AxiLiteIn × CrcStatus)) :
    ((∀ es', es' <+: es → log step reads reset es' =
        log step rBeats reset es' ++ (run step reset es').rPending) ∧
      Along step RStable reset es) ↔ Along step NoOverlap reset es := by
  constructor
  · rintro ⟨hacc, -⟩
    refine along_iff_forall_isPrefix.mpr fun es' e hp => noOverlap_of_length ?_
    have h' := congrArg List.length (hacc es' ((List.prefix_append _ _).trans hp))
    have h := congrArg List.length (hacc (es' ++ [e]) hp)
    simp only [log_snoc, run_snoc, List.length_append] at h h' ⊢
    omega
  · intro h
    refine ⟨fun es' hp => ?_, h.mono fun _ _ => rStable_of_noOverlap⟩
    refine Along.snocInduction (P := fun es => log step reads reset es =
      log step rBeats reset es ++ (run step reset es).rPending) rfl ?_ es' (h.of_isPrefix hp)
    intro es e _ ih he
    simp only [log_snoc, run_snoc]
    rw [ih, List.append_assoc, reads_step he, List.append_assoc]

/-- What the master owes after a cycle. -/
def owe (s : CrcSlave) (e : AxiLiteIn × CrcStatus) : AxiLiteOwed :=
  e.1.owes s.awready s.wready s.arready

/-- Two reads, the second after the first response is accepted in the same cycle. -/
theorem crc_reads_answered_two :
    let read (a : BitVec 6) (rready : Bool) : AxiLiteIn × CrcStatus :=
      ({ AxiLiteIn.read a with rready := rready }, .idle)
    let es := [read 0x00 false, read 0x00 false, read 0x10 false, read 0x10 true]
    log step rBeats reset es = [(0x00000011, 0)] ∧
      log step reads reset es =
        log step rBeats reset es ++ (run step reset es).rPending := by
  intro read es
  refine ⟨by decide, ?_⟩
  exact ((crc_reads_answered_iff es).mpr (by decide)).1 es (List.prefix_refl es)

/-- The second read of a master that keeps to the protocol overwrites the first response: two reads
are executed and one response is delivered. -/
theorem crc_read_lost :
    let read (a : BitVec 6) (rready : Bool) : AxiLiteIn × CrcStatus :=
      ({ AxiLiteIn.read a with rready := rready }, .idle)
    let idle : AxiLiteIn × CrcStatus := ({ AxiLiteIn.idle with rready := true }, .idle)
    let es := [read 0x00 false, read 0x00 false, read 0x10 false, read 0x10 false, idle]
    Along (Watched.step step owe) (fun p e => e.1.Keeps p.owes) ⟨reset, .none⟩ es ∧
      log step reads reset es = [(0x00000011, 0), (0xEDB88320, 0)] ∧
      log step rBeats reset es = [(0xEDB88320, 0)] ∧ (run step reset es).rPending = [] ∧
      ¬ Along step RStable reset es := by
  decide

end CrcSlave

end PacketBuffering
