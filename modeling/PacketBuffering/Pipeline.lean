import PacketBuffering.Crc.Statistics
import PacketBuffering.Fifo.Stream

/-!
# The packet FIFO in front of the CRC checker

The two blocks on one `aclk`, with `m_axis` of the FIFO wired to `s_axis` of the checker.

* `Pipe`, **`Pipe.step`**: the composed machine; `Pipe.beats_map_word`: a word leaves the FIFO exactly
  when the checker takes it.
* `Undisturbed`: no soft resets, counter clears and CPU data accesses.
* `PipeInv`, **`PipeInv.step`**: the invariants of both blocks and the agreement of the counters.
* **`pipeline_accounting`**: the counters agree in every reachable state, and the `k`-th verdict is
  for the `k`-th packet pushed.
-/

namespace PacketBuffering

variable {P : FifoParams}

variable (P) in
/-- The FIFO and the checker behind it. -/
structure Pipe where
  fifo : PacketFifo P
  checker : CrcChecker

variable (P) in
/-- One event: the inputs of both blocks; those of the wired ports are not used. -/
structure PipeEvent where
  fifo : FifoEvent P
  check : CheckerIn

namespace Pipe

variable (p : Pipe P) (e : PipeEvent P)

/-- The FIFO's inputs, with `m_axis_tready` from the checker. -/
def fifoEvent : FifoEvent P := { e.fifo with mAxisTready := p.checker.sAxisTready e.check }

/-- The checker's inputs, with the stream from the FIFO. -/
def checkerIn : CheckerIn := { e.check with sAxisTvalid := p.fifo.mAxisTvalid, sAxis := p.fifo.outReg }

/-- The state after reset. -/
def reset (mem : BitVec P.addrWidth → Payload) (x : Payload) : Pipe P := ⟨.reset mem x, .reset⟩

/-- **One event of the pipeline.** -/
def step : Pipe P where
  fifo := p.fifo.step (p.fifoEvent e)
  checker := if e.fifo.aclk then p.checker.clock (p.checkerIn e) else p.checker

/-- The word the producer pushes. -/
def pushed : List Payload := p.fifo.sAxisFire (p.fifoEvent e)

/-- The word that passes from the FIFO to the checker. -/
def passed : List Payload := p.fifo.mAxisFire (p.fifoEvent e)

/-- The same, with the engine's parameters. -/
def beats : List Beat := if e.fifo.aclk then p.checker.beats (p.checkerIn e) else []

/-- The verdict reported after the event. -/
def verdicts : List Verdict := if e.fifo.aclk then p.checker.pulses (p.checkerIn e) else []

theorem streamFire_eq : p.checker.streamFire (p.checkerIn e) = p.fifo.streamPop (p.fifoEvent e) := rfl

theorem beats_map_word : (p.beats e).map Beat.word = p.passed e := by
  have hclk : (p.fifoEvent e).aclk = e.fifo.aclk := rfl
  unfold beats passed PacketFifo.mAxisFire CrcChecker.beats
  rw [streamFire_eq, hclk]
  cases e.fifo.aclk <;> cases p.fifo.streamPop (p.fifoEvent e) <;> rfl

/-- The counters are not cleared, and the CPU neither resets a block nor moves data: no push, no pop
with streaming off, no manual data. -/
structure Undisturbed (p : Pipe P) (e : PipeEvent P) : Prop where
  noReset : PacketFifo.NoSoftReset p.fifo e.fifo
  noPush : NoPush p.fifo e.fifo
  noPop : p.fifo.cpuPop = false
  regular : e.fifo.aclk = true → Regular e.check ∧ e.check.clearCounters = false

instance (p : Pipe P) (e : PipeEvent P) : Decidable (Undisturbed p e) :=
  decidable_of_iff (_ ∧ _ ∧ _ ∧ _)
    ⟨fun h => ⟨h.1, h.2.1, h.2.2.1, h.2.2.2⟩, fun h => ⟨h.1, h.2, h.3, h.4⟩⟩

end Pipe

/-! ## The counters -/

theorem PacketFifo.packetCount_step {s : PacketFifo P} {e : FifoEvent P}
    (h : s.ctrlSoftReset = false) : (s.step e).packetCount =
      s.packetCount + BitVec.ofNat 32 ((s.mAxisFire e).filter Payload.tlast).length := by
  unfold step mAxisFire
  rw [h]
  cases e.aclk <;> cases s.streamPop e <;> cases hl : s.outReg.tlast <;> simp [hl]

theorem CrcChecker.counts_step {s : CrcChecker} {i : CheckerIn} (hi : Judging i)
    (hc : i.clearCounters = false) : (s.clock i).passCount + (s.clock i).errorCount =
      s.passCount + s.errorCount + BitVec.ofNat 32 (s.pulses i).length := by
  rw [counts_clock.1, counts_clock.2, pulses_eq]
  by_cases hs : s.state = .verify
  · by_cases heq : s.engine.crcOut = s.expCrcHold
    · simp [passes, fails, verifies, wipes, hs, heq, hi.softReset, hi.mode, hc, add_right_comm]
    · simp [passes, fails, verifies, wipes, hs, heq, hi.softReset, hi.mode, hc, add_assoc]
  · simp [passes, fails, verifies, wipes, hs, hc]

/-! ## The invariant -/

/-- **The invariant** after the words `ins` pushed by the producer, the beats `bs` and the verdicts
`vs`. -/
structure PipeInv (p : Pipe P) (ins : List Payload) (bs : List Beat) (vs : List Verdict) : Prop where
  softReset : p.fifo.ctrlSoftReset = false
  cpuWrEn : p.fifo.slave.cpuWrEn = false
  stream : StreamInv p.fifo ins (bs.map Beat.word)
  checker : CheckerInv p.checker bs vs
  packetCount : p.fifo.packetCount = BitVec.ofNat 32 (packets Beat.last bs).length
  counts : p.checker.passCount + p.checker.errorCount = BitVec.ofNat 32 vs.length

namespace PipeInv

variable {p : Pipe P} {e : PipeEvent P} {ins : List Payload} {bs : List Beat} {vs : List Verdict}

theorem reset (mem : BitVec P.addrWidth → Payload) (x : Payload) :
    PipeInv (Pipe.reset mem x) [] [] [] :=
  ⟨rfl, rfl, StreamInv.reset mem x, CheckerInv.of_idle rfl, rfl, rfl⟩

theorem filter_last (bs : List Beat) :
    (bs.filter Beat.last).length = ((bs.map Beat.word).filter Payload.tlast).length := by
  rw [List.filter_map, List.length_map]
  rfl

theorem checker_step (h : PipeInv p ins bs vs) (he : p.Undisturbed e) :
    CheckerInv (p.step e).checker (bs ++ p.beats e) (vs ++ p.verdicts e) ∧
      (p.step e).checker.passCount + (p.step e).checker.errorCount =
        BitVec.ofNat 32 (vs ++ p.verdicts e).length := by
  unfold Pipe.step Pipe.beats Pipe.verdicts
  cases hclk : e.fifo.aclk with
  | false => simpa using ⟨h.checker, h.counts⟩
  | true =>
    obtain ⟨hreg, hclear⟩ := he.regular hclk
    have hreg' : Judging (p.checkerIn e) :=
      ⟨hreg.softReset, hreg.manual, hreg.autoClear, hreg.judging.mode⟩
    simp only [if_true]
    refine ⟨h.checker.step hreg', ?_⟩
    rw [CrcChecker.counts_step hreg' hclear, h.counts, List.length_append, BitVec.ofNat_add]

/-- **Every undisturbed event keeps the invariant.** -/
theorem step (h : PipeInv p ins bs vs) (he : p.Undisturbed e) :
    PipeInv (p.step e) (ins ++ p.pushed e) (bs ++ p.beats e) (vs ++ p.verdicts e) := by
  have hno : PacketFifo.NoReset p.fifo (p.fifoEvent e) :=
    PacketFifo.NoSoftReset.noReset (e := p.fifoEvent e) he.noReset h.softReset
  obtain ⟨hchecker, hcounts⟩ := h.checker_step he
  refine ⟨hno.2, cpuWrEn_of_noPush (e := p.fifoEvent e) h.cpuWrEn he.noPush, ?_, hchecker, ?_,
    hcounts⟩
  · have hstream := h.stream.step hno he.noPop
    rw [PacketFifo.fifoAccepts_eq_sAxisFire h.softReset h.cpuWrEn] at hstream
    rw [List.map_append, Pipe.beats_map_word]
    exact hstream
  · rw [Pipe.step, PacketFifo.packetCount_step h.softReset, h.packetCount, length_packets,
      length_packets, List.filter_append, List.length_append, filter_last (p.beats e),
      Pipe.beats_map_word, BitVec.ofNat_add]
    rfl

theorem of_run (mem : BitVec P.addrWidth → Payload) (x : Payload) : ∀ es : List (PipeEvent P),
    Along Pipe.step Pipe.Undisturbed (Pipe.reset mem x) es →
      PipeInv (run Pipe.step (Pipe.reset mem x) es)
        (log Pipe.step Pipe.pushed (Pipe.reset mem x) es)
        (log Pipe.step Pipe.beats (Pipe.reset mem x) es)
        (log Pipe.step Pipe.verdicts (Pipe.reset mem x) es) := by
  refine Along.snocInduction (reset mem x) ?_
  intro es e _ ih he
  simp only [run_snoc, log_snoc]
  exact ih.step he

end PipeInv

/-- **Accounting of the pipeline.** In every state reached from reset without soft resets, counter
clears and CPU data accesses, whatever the producer, the clocks and the enables do, the FIFO's packet
count is the number of verdicts counted by the checker, plus one in the verification cycle; and the
`k`-th verdict is the one for the `k`-th packet the producer pushed, with the polynomial and the seed
in force when the checker took its words. -/
theorem pipeline_accounting (mem : BitVec P.addrWidth → Payload) (x : Payload)
    (es : List (PipeEvent P)) (h : Along Pipe.step Pipe.Undisturbed (Pipe.reset mem x) es) :
    let p := run Pipe.step (Pipe.reset mem x) es
    let ins := log Pipe.step Pipe.pushed (Pipe.reset mem x) es
    let bs := log Pipe.step Pipe.beats (Pipe.reset mem x) es
    let vs := log Pipe.step Pipe.verdicts (Pipe.reset mem x) es
    p.fifo.packetCount = p.checker.passCount + p.checker.errorCount +
        (if p.checker.state = .verify then 1 else 0) ∧
      ∀ (k : ℕ) (v : Verdict), vs[k]? = some v → ∃ q : List Beat,
        (packets Beat.last bs)[k]? = some q ∧
          (packets Payload.tlast ins)[k]? = some (q.map Beat.word) ∧ Judged q v := by
  intro p ins bs vs
  have hinv : PipeInv p ins bs vs := PipeInv.of_run mem x es h
  refine ⟨?_, ?_⟩
  · rw [hinv.packetCount, hinv.counts, ← hinv.checker.forall₂.2]
    split_ifs <;> simp [BitVec.ofNat_add]
  · intro k v hk
    obtain ⟨q, hq, hv⟩ := hinv.checker.judged hk
    refine ⟨q, hq, ?_, hv⟩
    have hpre : packets Payload.tlast (bs.map Beat.word) <+: packets Payload.tlast ins :=
      packets_isPrefix hinv.stream.isPrefix
    rw [packets_map_word] at hpre
    have hk' : ((packets Beat.last bs).map (List.map Beat.word))[k]? = some (q.map Beat.word) := by
      rw [List.getElem?_map, hq]
      rfl
    obtain ⟨rest, hrest⟩ := hpre
    rw [← hrest]
    exact getElem?_append_of_some hk'

/-- A packet of two words, `"12345"`, passes the pipeline and is judged. -/
theorem pipeline_accounting_one_packet :
    let a : Payload := ⟨false, 0b1111, 0x34333231⟩
    let b : Payload := ⟨true, 0b0001, 0x35⟩
    let es : List (PipeEvent FifoParams.smallest) :=
      [⟨.push a, .quiet⟩, ⟨.push b, .quiet⟩] ++
        List.replicate 10 ⟨.tick false .idle, CheckerIn.quiet⟩
    let v : Verdict := ⟨0xCBF53A1C, 5, false, true, 0⟩
    Along Pipe.step Pipe.Undisturbed (Pipe.reset (fun _ => .zero) .zero) es ∧
      log Pipe.step Pipe.verdicts (Pipe.reset (fun _ => .zero) .zero) es = [v] ∧
      ∃ q : List Beat,
        (packets Beat.last (log Pipe.step Pipe.beats (Pipe.reset (fun _ => .zero) .zero) es))[0]? =
            some q ∧
          (packets Payload.tlast
            (log Pipe.step Pipe.pushed (Pipe.reset (fun _ => .zero) .zero) es))[0]? =
              some (q.map Beat.word) ∧ Judged q v := by
  intro a b es v
  have h : Along Pipe.step Pipe.Undisturbed (Pipe.reset (fun _ => .zero) .zero) es := by
    decide +kernel
  have hv : log Pipe.step Pipe.verdicts (Pipe.reset (fun _ => .zero) .zero) es = [v] := by
    decide +kernel
  exact ⟨h, hv, (pipeline_accounting _ _ es h).2 0 v (by rw [hv]; rfl)⟩

end PacketBuffering
