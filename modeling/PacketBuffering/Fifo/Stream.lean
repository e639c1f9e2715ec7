import PacketBuffering.Fifo.CoreInv
import PacketBuffering.Fifo.Top

/-!
# Stream integrity of the packet FIFO

* `Fetched`: where the words between the core's read pointer and `m_axis` are, by the state of the
  fetch machine.
* `StreamInv`, **`StreamInv.step`**: the invariant of the read side, kept by every event without a
  soft reset and without a pop by the CPU.
* **`stream_integrity`**: what leaves `m_axis` is a prefix of what entered `s_axis`, at most
  `FIFO_DEPTH + 1` words behind.
-/

namespace PacketBuffering

variable {P : FifoParams}

namespace PacketFifo

variable (s : PacketFifo P) (e : FifoEvent P)

/-- The soft reset is low before and after the event. -/
def NoReset : Prop := s.ctrlSoftReset = false ∧ (s.slaveNext e).ctrlSoftReset = false

/-- A write to `CTRL` at the event does not request the soft reset. -/
def NoSoftReset : Prop :=
  e.aclk = true → s.slave.writesTo e.axi FifoReg.ctrl = true → e.axi.wdata.getLsbD 1 = false

instance : Decidable (NoSoftReset s e) := inferInstanceAs (Decidable (_ → _ → _))

variable {s e}

theorem NoSoftReset.noReset (he : NoSoftReset s e) (h : s.ctrlSoftReset = false) : NoReset s e := by
  refine ⟨h, ?_⟩
  have hstep : (s.slaveNext e).ctrlSoftReset = _ := ctrlSoftReset_step s e
  rw [hstep]
  split_ifs with hclk
  · rw [Bool.and_eq_false_iff, or_iff_not_imp_left, Bool.not_eq_false]
    exact he hclk
  · exact h

theorem NoReset.running (h : NoReset s e) : CoreInv.Running (s.coreEvent e) := by
  simp [CoreInv.Running, coreEvent, h.1]

theorem NoReset.core_step (h : NoReset s e) : (s.step e).core = s.core.step (s.coreEvent e) := by
  simp [step, coreNext, h.2]

theorem pops_eq (h : NoReset s e) :
    s.core.pops (s.coreEvent e) = (e.aclk && s.fifoRdEn e && !s.rdEmpty) := by
  simp [AsyncFifo.pops, coreEvent, h.1, RdDomain.rdAllow, rdEmpty, Bool.and_assoc]

theorem pops_eq_fetch (h : NoReset s e) (hpop : s.cpuPop = false) :
    s.core.pops (s.coreEvent e) = (e.aclk && s.fetch e) := by
  rw [pops_eq h, fifoRdEn, hpop, Bool.or_false]
  unfold fetch canIssue
  cases s.rdEmpty <;> simp

theorem rdState_step (h : NoReset s e) :
    (s.step e).rdState = if e.aclk then s.rdStateNext e else s.rdState := by
  simp [step, h.1]

theorem outReg_step (h : NoReset s e) : (s.step e).outReg =
    if e.aclk then if s.rdState = .pending then s.core.rdData else s.outReg else s.outReg := by
  simp [step, h.1]

theorem rdData_of_not_aclk (h : NoReset s e) (hclk : e.aclk = false) :
    (s.step e).core.rdData = s.core.rdData := by
  rw [h.core_step]
  simp [AsyncFifo.step, coreEvent, hclk]

theorem rdEmpty_of_not_aclk (h : NoReset s e) (hclk : e.aclk = false) :
    (s.step e).rdEmpty = s.rdEmpty := by
  simp [rdEmpty, h.core_step, AsyncFifo.step, AsyncFifo.rdNext, coreEvent, h.1, hclk]

theorem rdEmpty_of_aclk (h : NoReset s e) (hclk : e.aclk = true) :
    (s.step e).rdEmpty = s.core.rd.rdEmptyNext (s.fifoRdEn e) := by
  simp [rdEmpty, h.core_step, AsyncFifo.step, AsyncFifo.rdNext, coreEvent, h.1, hclk,
    RdDomain.clock]

theorem pops_of_not_aclk (h : NoReset s e) (hclk : e.aclk = false) :
    s.core.pops (s.coreEvent e) = false := by
  rw [pops_eq h, hclk, Bool.false_and, Bool.false_and]

theorem rdEmpty_of_not_read {ws : List Payload} {r : ℕ} (hcore : CoreInv s.core ws r)
    (h : NoReset s e) (hne : s.rdEmpty = false) (hen : s.fifoRdEn e = false) :
    (s.step e).rdEmpty = false := by
  cases hclk : e.aclk with
  | false => rw [rdEmpty_of_not_aclk h hclk, hne]
  | true =>
    rw [rdEmpty_of_aclk h hclk]
    refine hcore.rdSide.rdEmptyNext_of_not_empty hcore.wrSide.le_depth hne ?_
    rw [RdDomain.rdAllow, hen, Bool.false_and]

theorem fifoAccepts_eq_sAxisFire (h : s.ctrlSoftReset = false) (hcpu : s.slave.cpuWrEn = false) :
    s.fifoAccepts e = s.sAxisFire e := by
  have hpush : s.core.pushes (s.coreEvent e) =
      (e.wrClk && e.sAxisTvalid && s.sAxisTready) := by
    simp only [AsyncFifo.pushes, coreEvent, h, WrDomain.wrAllow, fifoWrEn, cpuWriteReq, hcpu,
      sAxisTready, streamWriteReq, wrFull]
    cases e.wrClk <;> cases e.sAxisTvalid <;> cases s.core.wr.wrFullReg <;> cases s.ctrlEnable <;> rfl
  unfold fifoAccepts AsyncFifo.accepted sAxisFire
  rw [hpush]
  split_ifs with hf
  · have hreq : s.streamWriteReq e = true := by
      simp only [sAxisTready, Bool.and_eq_true] at hf
      simp [streamWriteReq, hf]
    simp [coreEvent, fifoWrPayload, hreq]
  · rfl

end PacketFifo

open PacketFifo

/-! ## The read side -/

/-- Of the `r` words read from the core, `n` have left: the fetch machine holds none, or it holds
word `n` in the memory's read register or in its own. -/
def Fetched (s : PacketFifo P) (ws : List Payload) (n r : ℕ) : Prop :=
  match s.rdState with
  | .idle => n = r
  | .pending => n + 1 = r ∧ ws[n]? = some s.core.rdData
  | .hold => n + 1 = r ∧ ws[n]? = some s.outReg
  | .stream => False

theorem Fetched.le {s : PacketFifo P} {ws : List Payload} {n r : ℕ} (h : Fetched s ws n r) :
    n ≤ r ∧ r ≤ n + 1 := by
  unfold Fetched at h
  cases hs : s.rdState <;> simp only [hs] at h <;> omega

theorem getElem?_append_of_some {α : Type*} {xs ys : List α} {n : ℕ} {x : α}
    (h : xs[n]? = some x) : (xs ++ ys)[n]? = some x := by
  rw [List.getElem?_append_left (List.getElem?_eq_some_iff.mp h).1, h]

theorem take_succ_append {α : Type*} {xs ys : List α} {n : ℕ} {x : α} (h : xs[n]? = some x) :
    (xs ++ ys).take (n + 1) = xs.take n ++ [x] := by
  have hlt : n < xs.length := (List.getElem?_eq_some_iff.mp h).1
  rw [List.take_append_of_le_length hlt, List.take_add_one, h]
  rfl

/-- Over an event that reads no word the memory's read register keeps the next one, or loads it at the
`aclk` edge, if the FIFO is seen nonempty. -/
theorem rdData_step {s : PacketFifo P} {e : FifoEvent P} {ws : List Payload} {r : ℕ}
    (hcore : CoreInv s.core ws r) (h : NoReset s e)
    (hpop : s.core.pops (s.coreEvent e) = false)
    (hold : e.aclk = false → s.rdEmpty = false → ws[r]? = some s.core.rdData)
    (hne : (s.step e).rdEmpty = false) :
    (ws ++ s.fifoAccepts e)[r]? = some (s.step e).core.rdData := by
  cases hclk : e.aclk with
  | false =>
    rw [rdEmpty_of_not_aclk h hclk] at hne
    rw [rdData_of_not_aclk h hclk]
    exact getElem?_append_of_some (hold hclk hne)
  | true =>
    have hne' : (s.step e).core.rd.rdEmptyReg = false := hne
    rw [h.core_step] at hne' ⊢
    exact getElem?_append_of_some (hcore.rdData_of_not_pops _ h.running hclk hpop hne')

/-- **The invariant of the stream path** after the accepted words `ws` and the words `outs` that
left. -/
def StreamInv (s : PacketFifo P) (ws outs : List Payload) : Prop :=
  ∃ r, CoreInv s.core ws r ∧ Fetched s ws outs.length r ∧ outs = ws.take outs.length

namespace StreamInv

variable {s : PacketFifo P} {ws outs : List Payload} {e : FifoEvent P}

theorem reset (mem : BitVec P.addrWidth → Payload) (x : Payload) :
    StreamInv (PacketFifo.reset mem x) [] [] :=
  ⟨0, CoreInv.reset mem x, rfl, rfl⟩

theorem isPrefix (h : StreamInv s ws outs) : outs <+: ws := by
  obtain ⟨r, -, -, htake⟩ := h
  rw [htake]
  exact List.take_prefix _ _

theorem length_le (h : StreamInv s ws outs) : ws.length ≤ outs.length + (P.depth + 1) := by
  obtain ⟨r, hcore, hf, -⟩ := h
  have := hcore.wrSide.le_depth
  have := hf.le
  omega

theorem fetched_of_not_aclk {n r : ℕ} (hf : Fetched s ws n r) (hno : NoReset s e)
    (hpop : s.cpuPop = false) (hclk : e.aclk = false) :
    Fetched (s.step e) (ws ++ s.fifoAccepts e) (n + (s.mAxisFire e).length)
      (bump (s.core.pops (s.coreEvent e)) r) := by
  have hnp : s.core.pops (s.coreEvent e) = false := by
    rw [pops_eq_fetch hno hpop, hclk, Bool.false_and]
  have hfire : s.mAxisFire e = [] := by simp [mAxisFire, hclk]
  unfold Fetched at hf ⊢
  rw [rdState_step hno, outReg_step hno, rdData_of_not_aclk hno hclk, hnp, hfire, hclk]
  simp only [bump, Bool.false_eq_true, if_false, List.length_nil, Nat.add_zero]
  cases hs : s.rdState with
  | idle => simpa only [hs] using hf
  | pending =>
    simp only [hs] at hf
    exact ⟨hf.1, getElem?_append_of_some hf.2⟩
  | hold =>
    simp only [hs] at hf
    exact ⟨hf.1, getElem?_append_of_some hf.2⟩
  | stream => simp only [hs] at hf

/-- The word that is held stays until it is taken; then the next one is fetched, if there is one. -/
theorem fetched_of_hold {n r : ℕ} (hf : Fetched s ws n r) (hno : NoReset s e)
    (hclk : e.aclk = true) (hs : s.rdState = .hold)
    (hpops : s.core.pops (s.coreEvent e) = s.fetch e)
    (hdata : s.core.pops (s.coreEvent e) = true → ws[r]? = some (s.step e).core.rdData) :
    Fetched (s.step e) (ws ++ s.fifoAccepts e) (n + (s.mAxisFire e).length)
      (bump (s.core.pops (s.coreEvent e)) r) := by
  have hfetch : s.fetch e = (s.streamPop e && s.canIssue) := by simp [fetch, hs]
  unfold Fetched at hf ⊢
  rw [rdState_step hno, outReg_step hno, hclk]
  simp only [if_true]
  simp only [hs] at hf ⊢
  cases hsp : s.streamPop e with
  | false =>
    have hp : s.core.pops (s.coreEvent e) = false := by rw [hpops, hfetch, hsp]; rfl
    simp only [rdStateNext, hs, hsp, mAxisFire, hclk, hp, bump, Bool.and_false,
      Bool.false_eq_true, if_false, List.length_nil, Nat.add_zero, reduceCtorEq]
    exact ⟨hf.1, getElem?_append_of_some hf.2⟩
  | true =>
    have hfire : s.mAxisFire e = [s.outReg] := by simp [mAxisFire, hclk, hsp]
    rw [hfetch, hsp, Bool.true_and] at hpops
    cases hcan : s.canIssue with
    | false =>
      rw [hcan] at hpops
      simp [rdStateNext, hs, hsp, hcan, hfire, hpops, bump, hf.1]
    | true =>
      rw [hcan] at hpops
      simp only [rdStateNext, hs, hsp, hcan, hfire, hpops, bump, if_true, List.length_singleton]
      exact ⟨by omega, getElem?_append_of_some (hf.1 ▸ hdata hpops)⟩

theorem fetched_of_idle {n r : ℕ} (hf : Fetched s ws n r) (hno : NoReset s e)
    (hclk : e.aclk = true) (hs : s.rdState = .idle)
    (hpops : s.core.pops (s.coreEvent e) = s.fetch e)
    (hdata : s.core.pops (s.coreEvent e) = true → ws[r]? = some (s.step e).core.rdData) :
    Fetched (s.step e) (ws ++ s.fifoAccepts e) (n + (s.mAxisFire e).length)
      (bump (s.core.pops (s.coreEvent e)) r) := by
  have hfire : s.mAxisFire e = [] := by simp [mAxisFire, streamPop, mAxisTvalid, hs]
  have hfetch : s.fetch e = s.canIssue := by simp [fetch, hs]
  unfold Fetched at hf ⊢
  rw [rdState_step hno, outReg_step hno, hclk]
  simp only [if_true]
  simp only [hs] at hf
  cases hcan : s.canIssue with
  | false => simp [rdStateNext, hs, hcan, hfire, hpops, hfetch, bump, hf]
  | true =>
    have hp : s.core.pops (s.coreEvent e) = true := by rw [hpops, hfetch, hcan]
    simp only [rdStateNext, hs, hcan, hfire, hp, bump, if_true, List.length_nil, Nat.add_zero]
    exact ⟨by omega, getElem?_append_of_some (hf ▸ hdata hp)⟩

theorem fetched_of_pending {n r : ℕ} (hf : Fetched s ws n r) (hno : NoReset s e)
    (hclk : e.aclk = true) (hs : s.rdState = .pending)
    (hpops : s.core.pops (s.coreEvent e) = s.fetch e) :
    Fetched (s.step e) (ws ++ s.fifoAccepts e) (n + (s.mAxisFire e).length)
      (bump (s.core.pops (s.coreEvent e)) r) := by
  have hfire : s.mAxisFire e = [] := by simp [mAxisFire, streamPop, mAxisTvalid, hs]
  have hp : s.core.pops (s.coreEvent e) = false := by
    rw [hpops]
    simp [fetch, hs]
  unfold Fetched at hf ⊢
  rw [rdState_step hno, outReg_step hno, hclk]
  simp only [if_true]
  simp only [hs] at hf
  simp only [rdStateNext, hs, hfire, hp, bump, if_true, Bool.false_eq_true, if_false,
    List.length_nil, Nat.add_zero]
  exact ⟨hf.1, getElem?_append_of_some hf.2⟩

/-- The fetch machine over one event: the pointer moves with the fetch, the count of words that
left with the handshake. -/
theorem fetched_step {n r : ℕ} (hcore : CoreInv s.core ws r) (hf : Fetched s ws n r)
    (hno : NoReset s e) (hpop : s.cpuPop = false) :
    Fetched (s.step e) (ws ++ s.fifoAccepts e) (n + (s.mAxisFire e).length)
      (bump (s.core.pops (s.coreEvent e)) r) := by
  have hpops := pops_eq_fetch hno hpop
  have hdata : s.core.pops (s.coreEvent e) = true → ws[r]? = some (s.step e).core.rdData := by
    rw [hno.core_step]
    exact hcore.rdData_of_pops (s.coreEvent e)
  cases hclk : e.aclk with
  | false => exact fetched_of_not_aclk hf hno hpop hclk
  | true =>
    rw [hclk, Bool.true_and] at hpops
    cases hs : s.rdState with
    | hold => exact fetched_of_hold hf hno hclk hs hpops hdata
    | idle => exact fetched_of_idle hf hno hclk hs hpops hdata
    | pending => exact fetched_of_pending hf hno hclk hs hpops
    | stream =>
      unfold Fetched at hf
      simp only [hs] at hf

theorem take_step {n r : ℕ} (hcore : CoreInv s.core ws r) (hf : Fetched s ws n r) :
    (ws ++ s.fifoAccepts e).take (n + (s.mAxisFire e).length) = ws.take n ++ s.mAxisFire e := by
  have hle : n ≤ ws.length := hf.le.1.trans hcore.rdSide.le
  unfold mAxisFire
  split_ifs with h
  · have hhold : s.rdState = .hold := by
      simp only [streamPop, mAxisTvalid, Bool.and_eq_true, beq_iff_eq] at h
      exact h.2.1.1.1
    simp only [Fetched, hhold] at hf
    exact take_succ_append hf.2
  · simp [List.take_append_of_le_length hle]

/-- **The stream path over one event.** -/
theorem step (h : StreamInv s ws outs) (hno : NoReset s e) (hpop : s.cpuPop = false) :
    StreamInv (s.step e) (ws ++ s.fifoAccepts e) (outs ++ s.mAxisFire e) := by
  obtain ⟨r, hcore, hf, htake⟩ := h
  refine ⟨bump (s.core.pops (s.coreEvent e)) r, ?_, ?_, ?_⟩
  · rw [hno.core_step]
    exact hcore.step _ hno.running
  · rw [List.length_append]
    exact fetched_step hcore hf hno hpop
  · rw [List.length_append, take_step hcore hf, ← htake]

end StreamInv

/-! ## Streaming only -/

/-- No write to `DATA` or `DATA_LAST` executes at the event. -/
def NoPush (s : PacketFifo P) (e : FifoEvent P) : Prop :=
  e.aclk = true → s.slave.pushExec e.axi = false

/-- A write to `CTRL` keeps enable and stream-enable set and does not reset. -/
def KeepsStreaming (s : PacketFifo P) (e : FifoEvent P) : Prop :=
  e.aclk = true → s.slave.writesTo e.axi FifoReg.ctrl = true →
    e.axi.wdata.getLsbD 0 = true ∧ e.axi.wdata.getLsbD 1 = false ∧ e.axi.wdata.getLsbD 2 = true

/-- No register write of the event disturbs the stream. -/
def StreamOnly (s : PacketFifo P) (e : FifoEvent P) : Prop := NoPush s e ∧ KeepsStreaming s e

instance (s : PacketFifo P) (e : FifoEvent P) : Decidable (NoPush s e) :=
  inferInstanceAs (Decidable (_ → _))

instance (s : PacketFifo P) (e : FifoEvent P) : Decidable (KeepsStreaming s e) :=
  inferInstanceAs (Decidable (_ → _ → _))

instance (s : PacketFifo P) (e : FifoEvent P) : Decidable (StreamOnly s e) :=
  inferInstanceAs (Decidable (_ ∧ _))

/-- Enabled, streaming and not in soft reset. -/
structure Enabled (s : PacketFifo P) : Prop where
  enable : s.ctrlEnable = true
  streamEn : s.ctrlStreamEn = true
  softReset : s.ctrlSoftReset = false

theorem Enabled.step {s : PacketFifo P} {e : FifoEvent P} (h : Enabled s)
    (he : KeepsStreaming s e) : Enabled (s.step e) := by
  refine ⟨?_, ?_, ?_⟩
  · rw [ctrlEnable_step]
    split_ifs with hw
    · rw [Bool.and_eq_true] at hw
      exact (he hw.1 hw.2).1
    · exact h.enable
  · rw [ctrlStreamEn_step]
    split_ifs with hw
    · rw [Bool.and_eq_true] at hw
      exact (he hw.1 hw.2).2.2
    · exact h.streamEn
  · have hno : NoSoftReset s e := fun hclk hw => (he hclk hw).2.1
    exact (hno.noReset h.softReset).2

theorem Enabled.cpuPop {s : PacketFifo P} (h : Enabled s) : s.cpuPop = false := by
  simp [PacketFifo.cpuPop, h.streamEn]

theorem cpuWrEn_of_noPush {s : PacketFifo P} {e : FifoEvent P} (h : s.slave.cpuWrEn = false)
    (he : NoPush s e) : (s.step e).slave.cpuWrEn = false := by
  rw [cpuWrEn_step]
  split_ifs with hclk
  · exact he hclk
  · exact h

/-- The stream path while the FIFO is enabled and streaming: what the core accepts leaves in
order, also what the CPU pushes. -/
theorem streamInv_of_keepsStreaming {s : PacketFifo P} {ws outs : List Payload} (h : Enabled s)
    (hinv : StreamInv s ws outs) : ∀ es, Along PacketFifo.step KeepsStreaming s es →
      Enabled (run PacketFifo.step s es) ∧
      StreamInv (run PacketFifo.step s es) (ws ++ log PacketFifo.step fifoAccepts s es)
        (outs ++ log PacketFifo.step mAxisFire s es) := by
  refine Along.snocInduction ⟨h, by simpa using hinv⟩ ?_
  intro es e _ ⟨hs, hinv⟩ he
  have hnext := hs.step he
  simp only [run_snoc, log_snoc, ← List.append_assoc]
  exact ⟨hnext, hinv.step ⟨hs.softReset, hnext.softReset⟩ hs.cpuPop⟩

/-- Without CPU pushes and soft resets the core accepts exactly what is handshaken on `s_axis`. -/
theorem log_fifoAccepts_eq {s : PacketFifo P} (h : Enabled s) (hcpu : s.slave.cpuWrEn = false)
    (es : List (FifoEvent P)) (hes : Along PacketFifo.step StreamOnly s es) :
    log PacketFifo.step fifoAccepts s es = log PacketFifo.step sAxisFire s es := by
  refine hes.log_congr (fun s => Enabled s ∧ s.slave.cpuWrEn = false) ?_ ?_ ⟨h, hcpu⟩
  · exact fun s e hs he => ⟨hs.1.step he.2, cpuWrEn_of_noPush hs.2 he.1⟩
  · exact fun s e hs _ => fifoAccepts_eq_sAxisFire hs.1.softReset hs.2

theorem Enabled.reset (mem : BitVec P.addrWidth → Payload) (x : Payload) :
    Enabled (PacketFifo.reset mem x) :=
  ⟨FifoSlave.reset_ctrlEnable, FifoSlave.reset_ctrlStreamEn, rfl⟩

/-- **Stream integrity.** In every run from a common reset that keeps the FIFO enabled and
streaming, without soft reset and without CPU data writes, the words handshaken on `m_axis` are a
prefix of those handshaken on `s_axis`, and at most `FIFO_DEPTH + 1` are in between. -/
theorem stream_integrity (mem : BitVec P.addrWidth → Payload) (x : Payload)
    (es : List (FifoEvent P)) (h : Along PacketFifo.step StreamOnly (PacketFifo.reset mem x) es) :
    let ins := log PacketFifo.step sAxisFire (PacketFifo.reset mem x) es
    let outs := log PacketFifo.step mAxisFire (PacketFifo.reset mem x) es
    outs <+: ins ∧ ins.length - outs.length ≤ P.depth + 1 := by
  intro ins outs
  have hkeep := (streamInv_of_keepsStreaming (Enabled.reset mem x) (StreamInv.reset mem x) es
    (h.mono fun _ _ he => he.2)).2
  rw [log_fifoAccepts_eq (Enabled.reset mem x) rfl es h] at hkeep
  have hinv : StreamInv _ ins outs := hkeep
  have := hinv.length_le
  exact ⟨hinv.isPrefix, by omega⟩

/-- Two words pass the smallest FIFO. The second is written at an instant at which `aclk` rises
too and the synchroniser sees the changing pointer bit new. -/
theorem stream_integrity_two_words :
    let a : Payload := ⟨false, 0b1111, 0x10000000⟩
    let b : Payload := ⟨true, 0b0011, 0x10000001⟩
    let es : List (FifoEvent FifoParams.smallest) :=
      [.push a, { FifoEvent.push b with aclk := true, wr2rdPick := 0b111 }] ++
        List.replicate 8 (.tick true .idle)
    Along PacketFifo.step StreamOnly (PacketFifo.reset (fun _ => .zero) .zero) es ∧
      log PacketFifo.step mAxisFire (PacketFifo.reset (fun _ => .zero) .zero) es = [a, b] ∧
      log PacketFifo.step mAxisFire (PacketFifo.reset (fun _ => .zero) .zero) es <+:
        log PacketFifo.step sAxisFire (PacketFifo.reset (fun _ => .zero) .zero) es := by
  intro a b es
  have h : Along PacketFifo.step StreamOnly (PacketFifo.reset (fun _ => .zero) .zero) es := by decide
  exact ⟨h, by decide, (stream_integrity _ _ es h).1⟩

end PacketBuffering
