import PacketBuffering.Fifo.Stream

/-!
# Switching between streaming and CPU reads

With `stream_en = 0` the CPU reads `DATA`: the read returns `rd_data` and pops the word one cycle
later. The pop looks at the pointer only, while the fetch machine may still hold the word before it.

* `Paced`: the FIFO with the number of `aclk` cycles since the last read of `DATA`.
* `Left`, `leaves`, `InOrder`: what leaves through either port, in the order it leaves.
* `SwitchInv`, **`SwitchInv.step`**: the invariant when each read of `DATA` finds `SM_IDLE` and is
  not executed together with a write that enables streaming.
* **`order_kept`**: then the words that leave are the first accepted ones, in order.
* `held_word_overtaken`: a read that finds a word in `SM_HOLD` overtakes it.
-/

namespace PacketBuffering

variable {P : FifoParams}

open PacketFifo

/-! ## What leaves the FIFO -/

/-- A word that left, through `m_axis` or as the result of a read of `DATA`. -/
inductive Left
  | axis (w : Payload)
  | cpu (d : BitVec 32)
deriving DecidableEq

/-- The word that left is `w`, as far as its port shows it. -/
def Left.IsWord : Left → Payload → Prop
  | .axis v, w => v = w
  | .cpu d, w => d = w.tdata

instance : ∀ (l : Left) (w : Payload), Decidable (l.IsWord w)
  | .axis v, w => inferInstanceAs (Decidable (v = w))
  | .cpu d, w => inferInstanceAs (Decidable (d = w.tdata))

/-- The words `outs` are the first words of `ws`, in order. -/
def InOrder (outs : List Left) (ws : List Payload) : Prop :=
  List.Forall₂ Left.IsWord outs (ws.take outs.length)

instance (outs : List Left) (ws : List Payload) : Decidable (InOrder outs ws) :=
  inferInstanceAs (Decidable (List.Forall₂ _ _ _))

theorem InOrder.length_le {outs : List Left} {ws : List Payload} (h : InOrder outs ws) :
    outs.length ≤ ws.length := by
  have := h.length_eq
  rw [List.length_take] at this
  omega

theorem InOrder.append {outs : List Left} {ws : List Payload} (h : InOrder outs ws)
    (vs : List Payload) : InOrder outs (ws ++ vs) := by
  unfold InOrder
  rwa [List.take_append_of_le_length h.length_le]

theorem InOrder.snoc {outs : List Left} {ws : List Payload} (h : InOrder outs ws) {l : Left}
    {w : Payload} (hw : ws[outs.length]? = some w) (hl : l.IsWord w) : InOrder (outs ++ [l]) ws := by
  unfold InOrder
  rw [List.length_append, List.length_singleton, List.take_add_one, hw]
  exact List.rel_append h (.cons hl .nil)

namespace PacketFifo

/-- A read of `DATA` executes at the event. -/
def dataRead (s : PacketFifo P) (e : FifoEvent P) : Bool :=
  e.aclk && s.slave.readsFrom e.axi FifoReg.data

/-- The word that leaves at the event; the read loads `s_axi_rdata` with `cpu_rd_data`. -/
def leaves (s : PacketFifo P) (e : FifoEvent P) : List Left :=
  (s.mAxisFire e).map .axis ++ if s.dataRead e then [.cpu s.core.rdData.tdata] else []

theorem rdata_of_dataRead {s : PacketFifo P} {e : FifoEvent P} (h : s.dataRead e = true) :
    (s.step e).slave.rdata = s.core.rdData.tdata := by
  simp only [dataRead, FifoSlave.readsFrom, Bool.and_eq_true, beq_iff_eq] at h
  obtain ⟨hclk, hexec, haddr⟩ := h
  simp [step, slaveNext, hclk, FifoSlave.clock, hexec, FifoSlave.readWord, haddr, status]

end PacketFifo

/-! ## The paced machine -/

variable (P) in
/-- The FIFO with the distance in `aclk` cycles of its next `aclk` edge to the last read of
`DATA`. -/
structure Paced where
  fifo : PacketFifo P
  gap : ℕ

namespace Paced

/-- An event of the FIFO, with the distance to the last read of `DATA`. -/
def step (p : Paced P) (e : FifoEvent P) : Paced P where
  fifo := p.fifo.step e
  gap := if e.aclk then if p.fifo.dataRead e then 1 else p.gap + 1 else p.gap

/-- The reset state: a first read is not restricted. -/
def reset (mem : BitVec P.addrWidth → Payload) (x : Payload) : Paced P := ⟨.reset mem x, 5⟩

/-- The words that the FIFO accepts at an event. -/
def accepts (p : Paced P) (e : FifoEvent P) : List Payload := p.fifo.fifoAccepts e

/-- The words that leave the FIFO at an event. -/
def leaves (p : Paced P) (e : FifoEvent P) : List Left := p.fifo.leaves e

/-- The use of the FIFO: no soft reset, and reads of `DATA` only while streaming is off and the FIFO
is not empty, five `aclk` cycles apart. -/
structure Polite (p : Paced P) (e : FifoEvent P) : Prop where
  noReset : NoSoftReset p.fifo e
  read : p.fifo.dataRead e = true →
    p.fifo.ctrlStreamEn = false ∧ p.fifo.rdEmpty = false ∧ 5 ≤ p.gap

/-- A read of `DATA` finds no word in the fetch machine, and no write that sets `stream_en`
executes with it. -/
structure Unheld (p : Paced P) (e : FifoEvent P) : Prop where
  idle : p.fifo.dataRead e = true → p.fifo.rdState = .idle
  streamOff : p.fifo.dataRead e = true → p.fifo.slave.writesTo e.axi FifoReg.ctrl = true →
    e.axi.wdata.getLsbD 2 = false

instance (p : Paced P) (e : FifoEvent P) : Decidable (Polite p e) :=
  decidable_of_iff (_ ∧ _) ⟨fun h => ⟨h.1, h.2⟩, fun h => ⟨h.1, h.2⟩⟩

instance (p : Paced P) (e : FifoEvent P) : Decidable (Unheld p e) :=
  decidable_of_iff (_ ∧ _) ⟨fun h => ⟨h.1, h.2⟩, fun h => ⟨h.1, h.2⟩⟩

end Paced

/-! ## The invariant -/

/-- No read of `DATA` is about to pop. `settled`: two cycles after a pop by the CPU the read register
shows the next word, if there is one. -/
structure Ready (p : Paced P) (ws : List Payload) (n r : ℕ) : Prop where
  cpuRdEn : p.fifo.slave.cpuRdEn = false
  fetched : Fetched p.fifo ws n r
  settled : p.fifo.rdState = .idle → 3 ≤ p.gap → p.fifo.rdEmpty = false →
    ws[r]? = some p.fifo.core.rdData

/-- A read of `DATA` has returned word `r` and pops it at the next `aclk` edge. -/
structure Popping (p : Paced P) (n r : ℕ) : Prop where
  cpuRdEn : p.fifo.slave.cpuRdEn = true
  idle : p.fifo.rdState = .idle
  streamEn : p.fifo.ctrlStreamEn = false
  rdEmpty : p.fifo.rdEmpty = false
  count : n = r + 1
  gap : p.gap = 1

/-- **The invariant** after the accepted words `ws` and the words `outs` that left. -/
def SwitchInv (p : Paced P) (ws : List Payload) (outs : List Left) : Prop :=
  p.fifo.ctrlSoftReset = false ∧ InOrder outs ws ∧
    ∃ r, CoreInv p.fifo.core ws r ∧ (Ready p ws outs.length r ∨ Popping p outs.length r)

section Step

variable {p : Paced P} {e : FifoEvent P} {ws : List Payload} {n r : ℕ}

theorem fetch_of_idle_next (h : p.fifo.rdStateNext e = .idle) : p.fifo.fetch e = false := by
  unfold rdStateNext at h
  cases hs : p.fifo.rdState with
  | idle =>
    simp only [hs] at h
    split_ifs at h with hc
    simp [fetch, hs, hc]
  | pending => simp [fetch, hs]
  | hold =>
    simp only [hs] at h
    split_ifs at h with hc hd
    simp [fetch, hs, hc, hd]
  | stream => simp [fetch, hs]

theorem Ready.cpuPop (h : Ready p ws n r) : p.fifo.cpuPop = false := by
  simp [PacketFifo.cpuPop, h.cpuRdEn]

theorem Ready.step (h : Ready p ws n r) (hcore : CoreInv p.fifo.core ws r) (hno : NoReset p.fifo e)
    (hread : p.fifo.dataRead e = false) :
    Ready (p.step e) (ws ++ p.accepts e) (n + (p.fifo.mAxisFire e).length)
      (bump (p.fifo.core.pops (p.fifo.coreEvent e)) r) := by
  refine ⟨?_, StreamInv.fetched_step hcore h.fetched hno h.cpuPop, ?_⟩
  · rw [Paced.step, cpuRdEn_step]
    split_ifs with hclk
    · rwa [dataRead, hclk, Bool.true_and] at hread
    · exact h.cpuRdEn
  · intro hidle hgap hne
    have hidle' : (p.fifo.step e).rdState = .idle := hidle
    rw [rdState_step hno] at hidle'
    have hp : p.fifo.core.pops (p.fifo.coreEvent e) = false := by
      cases hclk : e.aclk with
      | false => exact pops_of_not_aclk hno hclk
      | true =>
        rw [hclk, if_pos rfl] at hidle'
        rw [pops_eq_fetch hno h.cpuPop, fetch_of_idle_next hidle', Bool.and_false]
    rw [hp]
    refine rdData_step hcore hno hp (fun hclk => h.settled ?_ ?_) hne
    · rwa [hclk, if_neg Bool.false_ne_true] at hidle'
    · simpa [Paced.step, hclk] using hgap

theorem Ready.read (h : Ready p ws n r) (hcore : CoreInv p.fifo.core ws r) (hno : NoReset p.fifo e)
    (hread : p.fifo.dataRead e = true) (he : p.Polite e) (hu : p.Unheld e) :
    ws[n]? = some p.fifo.core.rdData ∧ p.fifo.mAxisFire e = [] ∧
      p.fifo.core.pops (p.fifo.coreEvent e) = false ∧ Popping (p.step e) (n + 1) r := by
  obtain ⟨hstream, hne, hgap⟩ := he.read hread
  have hidle := hu.idle hread
  have hclk : e.aclk = true := by
    rw [dataRead, Bool.and_eq_true] at hread
    exact hread.1
  have hnr : n = r := by simpa [Fetched, hidle] using h.fetched
  have hcan : p.fifo.canIssue = false := by simp [canIssue, hstream]
  have hen : p.fifo.fifoRdEn e = false := by simp [fifoRdEn, fetch, hcan, h.cpuPop]
  have hp : p.fifo.core.pops (p.fifo.coreEvent e) = false := by
    rw [pops_eq hno, hen, Bool.and_false, Bool.false_and]
  refine ⟨?_, ?_, hp, ?_, ?_, ?_, ?_, by rw [hnr], ?_⟩
  · rw [hnr]
    exact h.settled hidle (by omega) hne
  · simp [mAxisFire, streamPop, mAxisTvalid, hidle]
  · rw [Paced.step, cpuRdEn_step, hclk, if_pos rfl]
    rwa [dataRead, hclk, Bool.true_and] at hread
  · rw [Paced.step, rdState_step hno, hclk, if_pos rfl, rdStateNext, hidle, hcan]
    rfl
  · rw [Paced.step, ctrlStreamEn_step, hclk, Bool.true_and]
    split_ifs with hw
    · exact hu.streamOff hread hw
    · exact hstream
  · rw [Paced.step, rdEmpty_of_not_read hcore hno hne hen]
  · simp [Paced.step, hclk, hread]

theorem Popping.not_dataRead (h : Popping p n r) (he : p.Polite e) : p.fifo.dataRead e = false := by
  by_contra hr
  rw [Bool.not_eq_false] at hr
  have hgap := (he.read hr).2.2
  have hone := h.gap
  omega

theorem Popping.leaves (h : Popping p n r) (he : p.Polite e) : p.fifo.leaves e = [] := by
  have hfire : p.fifo.mAxisFire e = [] := by simp [mAxisFire, streamPop, mAxisTvalid, h.idle]
  simp [PacketFifo.leaves, hfire, h.not_dataRead he]

theorem Popping.wait (h : Popping p n r) (hno : NoReset p.fifo e) (hclk : e.aclk = false) :
    Popping (p.step e) n r := by
  have hslave : (p.fifo.step e).slave = p.fifo.slave := step_slave_of_not_aclk hclk
  refine ⟨?_, ?_, ?_, ?_, h.count, ?_⟩
  · rw [Paced.step, hslave, h.cpuRdEn]
  · rw [Paced.step, rdState_step hno, hclk, if_neg Bool.false_ne_true, h.idle]
  · rw [Paced.step, ctrlStreamEn, hslave]
    exact h.streamEn
  · rw [Paced.step, rdEmpty_of_not_aclk hno hclk, h.rdEmpty]
  · simp [Paced.step, hclk, h.gap]

theorem Popping.pops (h : Popping p n r) (hno : NoReset p.fifo e) (hclk : e.aclk = true) :
    p.fifo.core.pops (p.fifo.coreEvent e) = true := by
  simp [pops_eq hno, hclk, fifoRdEn, PacketFifo.cpuPop, h.cpuRdEn, h.rdEmpty, h.streamEn]

theorem Popping.ready (ws : List Payload) (h : Popping p n r) (hno : NoReset p.fifo e)
    (hclk : e.aclk = true) (hread : p.fifo.dataRead e = false) : Ready (p.step e) ws n (r + 1) := by
  have hidle : (p.step e).fifo.rdState = .idle := by
    rw [Paced.step, rdState_step hno, hclk, if_pos rfl, rdStateNext, h.idle]
    simp [canIssue, h.streamEn]
  refine ⟨?_, ?_, ?_⟩
  · rw [Paced.step, cpuRdEn_step, hclk, if_pos rfl]
    rwa [dataRead, hclk, Bool.true_and] at hread
  · simpa [Fetched, hidle] using h.count
  · intro _ hgap
    simp [Paced.step, hclk, hread, h.gap] at hgap

theorem Popping.step (ws : List Payload) (h : Popping p n r) (hno : NoReset p.fifo e)
    (he : p.Polite e) :
    p.fifo.leaves e = [] ∧
      (Ready (p.step e) (ws ++ p.accepts e) n (bump (p.fifo.core.pops (p.fifo.coreEvent e)) r) ∨
        Popping (p.step e) n (bump (p.fifo.core.pops (p.fifo.coreEvent e)) r)) := by
  refine ⟨h.leaves he, ?_⟩
  cases hclk : e.aclk with
  | false =>
    rw [pops_of_not_aclk hno hclk]
    exact .inr (h.wait hno hclk)
  | true =>
    rw [h.pops hno hclk]
    exact .inl (h.ready _ hno hclk (h.not_dataRead he))

end Step

namespace SwitchInv

variable {p : Paced P} {e : FifoEvent P} {ws : List Payload} {outs : List Left}

theorem reset (mem : BitVec P.addrWidth → Payload) (x : Payload) :
    SwitchInv (Paced.reset mem x) [] [] := by
  refine ⟨rfl, .nil, 0, CoreInv.reset mem x, .inl ⟨rfl, rfl, ?_⟩⟩
  intro _ _ he
  exact Bool.noConfusion he

theorem inOrder_mAxisFire {n r : ℕ} (hn : outs.length = n) (h : InOrder outs ws)
    (hf : Fetched p.fifo ws n r) : InOrder (outs ++ (p.fifo.mAxisFire e).map .axis) ws := by
  unfold mAxisFire
  split_ifs with hfire
  · have hhold : p.fifo.rdState = .hold := by
      simp only [streamPop, mAxisTvalid, Bool.and_eq_true, beq_iff_eq] at hfire
      exact hfire.2.1.1.1
    simp only [Fetched, hhold] at hf
    exact h.snoc (hn ▸ hf.2) rfl
  · simpa using h

/-- **The invariant over one event.** -/
theorem step (h : SwitchInv p ws outs) (he : p.Polite e) (hu : p.Unheld e) :
    SwitchInv (p.step e) (ws ++ p.accepts e) (outs ++ p.leaves e) := by
  obtain ⟨hreset, hord, r, hcore, hstate⟩ := h
  have hno := he.noReset.noReset hreset
  refine ⟨hno.2, ?_⟩
  have hcore' : CoreInv (p.step e).fifo.core (ws ++ p.accepts e)
      (bump (p.fifo.core.pops (p.fifo.coreEvent e)) r) := by
    rw [Paced.step, hno.core_step]
    exact hcore.step _ hno.running
  rcases hstate with hready | hpop
  · cases hread : p.fifo.dataRead e with
    | false =>
      have hleaves : p.leaves e = (p.fifo.mAxisFire e).map .axis := by
        simp [Paced.leaves, PacketFifo.leaves, hread]
      rw [hleaves]
      refine ⟨(inOrder_mAxisFire rfl hord hready.fetched).append _, _, hcore', .inl ?_⟩
      rw [List.length_append, List.length_map]
      exact hready.step hcore hno hread
    | true =>
      obtain ⟨hw, hfire, hp, hpopping⟩ := hready.read hcore hno hread he hu
      have hleaves : p.leaves e = [.cpu p.fifo.core.rdData.tdata] := by
        simp [Paced.leaves, PacketFifo.leaves, hread, hfire]
      rw [hleaves]
      refine ⟨(hord.snoc (l := .cpu _) hw rfl).append _, _, hcore', .inr ?_⟩
      rw [hp]
      simpa [bump] using hpopping
  · obtain ⟨hleaves, hnext⟩ := hpop.step ws hno he
    rw [Paced.leaves, hleaves, List.append_nil]
    exact ⟨hord.append _, _, hcore', hnext⟩

theorem of_run (mem : BitVec P.addrWidth → Payload) (x : Payload) : ∀ es : List (FifoEvent P),
    Along Paced.step (fun p e => Paced.Polite p e ∧ Paced.Unheld p e) (Paced.reset mem x) es →
      SwitchInv (run Paced.step (Paced.reset mem x) es)
        (log Paced.step Paced.accepts (Paced.reset mem x) es)
        (log Paced.step Paced.leaves (Paced.reset mem x) es) := by
  refine Along.snocInduction (reset mem x) ?_
  intro es e _ ih he
  simp only [run_snoc, log_snoc]
  exact ih.step he.1 he.2

end SwitchInv

/-- **Order across mode switches.** In every run from reset without soft reset, with reads of `DATA`
only while streaming is off and the FIFO is not empty and five `aclk` cycles apart, the words that
leave through `m_axis` and through reads of `DATA` are the first accepted ones, in order, provided
each read finds `SM_IDLE` and no write that sets `stream_en` executes with it. -/
theorem order_kept (mem : BitVec P.addrWidth → Payload) (x : Payload) (es : List (FifoEvent P))
    (huse : Along Paced.step Paced.Polite (Paced.reset mem x) es)
    (hheld : Along Paced.step Paced.Unheld (Paced.reset mem x) es) :
    InOrder (log Paced.step Paced.leaves (Paced.reset mem x) es)
      (log Paced.step Paced.accepts (Paced.reset mem x) es) := by
  exact (SwitchInv.of_run mem x es (huse.and hheld)).2.1

/-- The accesses of a switch: a write of `CTRL`, then its response is accepted. -/
def FifoEvent.setCtrl (d : BitVec 32) : List (FifoEvent P) :=
  [.tick false (.write FifoReg.ctrl d), .tick false .idle,
    .tick false { AxiLiteIn.idle with bready := true }]

/-- One word streams out, streaming is switched off, and the CPU reads the next one. -/
theorem order_kept_switch :
    let a : Payload := ⟨false, 0b1111, 0xAAAA0001⟩
    let b : Payload := ⟨true, 0b0011, 0xBBBB0002⟩
    let es : List (FifoEvent FifoParams.smallest) :=
      .push a :: List.replicate 7 (.tick true .idle) ++ FifoEvent.setCtrl 0x1 ++
        .push b :: List.replicate 4 (.tick true .idle) ++ [.tick true (.read FifoReg.data)]
    Along Paced.step Paced.Polite (Paced.reset (fun _ => .zero) .zero) es ∧
      log Paced.step Paced.leaves (Paced.reset (fun _ => .zero) .zero) es =
        [.axis a, .cpu 0xBBBB0002] ∧
      InOrder (log Paced.step Paced.leaves (Paced.reset (fun _ => .zero) .zero) es)
        (log Paced.step Paced.accepts (Paced.reset (fun _ => .zero) .zero) es) := by
  intro a b es
  have h : Along Paced.step Paced.Polite (Paced.reset (fun _ => .zero) .zero) es := by decide
  exact ⟨h, by decide, order_kept _ _ es h (by decide)⟩

/-- **A held word is overtaken.** `a` waits in `SM_HOLD` for `m_axis_tready` when streaming is
switched off; the CPU reads `b`, and `a` leaves after it when streaming is switched on again. -/
theorem held_word_overtaken :
    let a : Payload := ⟨false, 0b1111, 0xAAAA0001⟩
    let b : Payload := ⟨true, 0b1111, 0xBBBB0002⟩
    let es : List (FifoEvent FifoParams.smallest) :=
      [.push a, .push b] ++ List.replicate 5 (.tick false .idle) ++ FifoEvent.setCtrl 0x1 ++
        [.tick true (.read FifoReg.data)] ++ FifoEvent.setCtrl 0x5 ++ [.tick true .idle]
    Along Paced.step Paced.Polite (Paced.reset (fun _ => .zero) .zero) es ∧
      log Paced.step Paced.accepts (Paced.reset (fun _ => .zero) .zero) es = [a, b] ∧
      log Paced.step Paced.leaves (Paced.reset (fun _ => .zero) .zero) es =
        [.cpu 0xBBBB0002, .axis a] ∧
      ¬ InOrder (log Paced.step Paced.leaves (Paced.reset (fun _ => .zero) .zero) es)
        (log Paced.step Paced.accepts (Paced.reset (fun _ => .zero) .zero) es) := by
  decide

end PacketBuffering
