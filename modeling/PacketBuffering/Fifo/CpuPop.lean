import PacketBuffering.Fifo.Diag
import PacketBuffering.Fifo.ModeSwitch
import PacketBuffering.Fifo.Occupancy

/-!
# Reads of `DATA` by the CPU

A read of `DATA` returns the memory's read register and raises `cpu_rd_en`, which pops the first word
at the next `aclk` edge, whether or not the read returned it. The read register shows the word behind
it one more edge later.

* `Queued`: the FIFO with the words in its core, and whether the last `aclk` edge read one.
* `QueueInv`, **`QueueInv.step`**: unless it did, the read register shows the first of them.
* `Spaced`: no read of `DATA` executes directly behind such an edge, or in the cycle in which
  `rd_empty` falls.
* `Serving.pass`: what is returned, and what is still to be returned, over one event.
* **`cpu_pops_in_order`**: then every word is returned once, in order.
* `word_read_twice`: two reads, back to back.
-/

namespace PacketBuffering

variable {P : FifoParams}

open PacketFifo

variable (P) in
/-- The FIFO with the words written into its core and not yet read from it, and whether the last
rising `aclk` read one. An event with `ctrl_soft_reset = 1` empties the queue. -/
structure Queued where
  fifo : PacketFifo P
  queue : List Payload
  popped : Bool

namespace Queued

/-- An event of the FIFO, with its queue and the read of its core. -/
def step (t : Queued P) (e : FifoEvent P) : Queued P where
  fifo := t.fifo.step e
  queue :=
    if t.fifo.ctrlSoftReset then []
    else (t.queue ++ t.fifo.fifoAccepts e).drop (t.fifo.fifoReads e).toNat
  popped := if e.aclk then t.fifo.fifoReads e else t.popped

/-- The state after a hardware reset: nothing is queued. -/
def reset (mem : BitVec P.addrWidth → Payload) (x : Payload) : Queued P := ⟨.reset mem x, [], false⟩

/-- The words that the FIFO accepts at an event. -/
def accepts (t : Queued P) (e : FifoEvent P) : List Payload := t.fifo.fifoAccepts e

/-- The data returned by a read of `DATA` that executes while `rd_empty = 0`. -/
def cpuReads (t : Queued P) (e : FifoEvent P) : List (BitVec 32) :=
  if t.fifo.dataRead e && !t.fifo.rdEmpty then [(t.fifo.step e).slave.rdata] else []

/-- The first word has been returned, and is popped at the next `aclk` edge. -/
def returned (t : Queued P) : Bool := t.fifo.slave.cpuRdEn && !t.fifo.rdEmpty

/-- The data still to be returned. -/
def held (t : Queued P) : List (BitVec 32) :=
  (t.queue.drop t.returned.toNat).map Payload.tdata

/-! ## The queue -/

/-- **The invariant of the queue**: it is what the core holds, and its first word is in the read
register two edges behind a pop. -/
structure QueueInv (t : Queued P) : Prop where
  safe : RdSafe t.fifo
  view : t.fifo.ctrlSoftReset = false → ∃ ws r, CoreInv t.fifo.core ws r ∧ t.queue = ws.drop r ∧
    (t.popped = false → t.fifo.rdEmpty = false → ws[r]? = some t.fifo.core.rdData)

variable {t : Queued P} {e : FifoEvent P}

namespace QueueInv

theorem reset (mem : BitVec P.addrWidth → Payload) (x : Payload) :
    QueueInv (Queued.reset mem x) :=
  ⟨RdSafe.reset mem x, fun _ => ⟨[], 0, CoreInv.reset mem x, rfl, fun _ h => Bool.noConfusion h⟩⟩

theorem queue_step {ws : List Payload} {r : ℕ} (hcore : CoreInv t.fifo.core ws r)
    (hqueue : t.queue = ws.drop r) (hreset : t.fifo.ctrlSoftReset = false) :
    (t.step e).queue =
      (ws ++ t.fifo.fifoAccepts e).drop (bump (t.fifo.core.pops (t.fifo.coreEvent e)) r) := by
  have hle : r ≤ ws.length := hcore.rdSide.le
  have hq : (t.step e).queue =
      (t.queue ++ t.fifo.fifoAccepts e).drop (t.fifo.fifoReads e).toNat := by
    simp [Queued.step, hreset]
  rw [hq, hqueue, ← List.drop_append_of_le_length hle, List.drop_drop, fifoReads, bump]
  split_ifs with hp
  · rw [hp, Bool.toNat_true]
  · rw [Bool.not_eq_true] at hp
    rw [hp, Bool.toNat_false, Nat.add_zero]

/-- **Every event keeps the queue.** -/
theorem step (h : QueueInv t) : QueueInv (t.step e) := by
  refine ⟨h.safe.step, fun hlow => ?_⟩
  cases hreset : t.fifo.ctrlSoftReset with
  | true =>
    obtain ⟨mem, x, hc⟩ := core_after_reset (e := e) hreset hlow
    refine ⟨[], 0, ?_, by simp [Queued.step, hreset], fun _ hne => ?_⟩
    · rw [Queued.step, hc]
      exact CoreInv.reset mem x
    · rw [Queued.step, rdEmpty, hc] at hne
      exact Bool.noConfusion hne
  | false =>
    obtain ⟨ws, r, hcore, hqueue, hsettled⟩ := h.view hreset
    have hno : NoReset t.fifo e := ⟨hreset, hlow⟩
    have hnext := hcore.step (t.fifo.coreEvent e) hno.running
    rw [← hno.core_step] at hnext
    refine ⟨_, _, hnext, queue_step hcore hqueue hreset, fun hpop hne => ?_⟩
    have hp : t.fifo.core.pops (t.fifo.coreEvent e) = false := by
      cases hclk : e.aclk with
      | false => exact pops_of_not_aclk hno hclk
      | true => simpa [Queued.step, hclk, fifoReads] using hpop
    rw [hp]
    refine rdData_step hcore hno hp (fun hclk hne₀ => hsettled ?_ hne₀) hne
    simpa [Queued.step, hclk] using hpop

theorem of_run (mem : BitVec P.addrWidth → Payload) (x : Payload) (es : List (FifoEvent P)) :
    QueueInv (run Queued.step (Queued.reset mem x) es) :=
  (along_true _ (Queued.reset mem x) es).invariant QueueInv (fun _ _ hs _ => hs.step)
    (QueueInv.reset mem x)

end QueueInv

/-! ## The CPU phase -/

/-- Streaming is off, and no soft reset is requested. -/
structure CpuMode (t : Queued P) (e : FifoEvent P) : Prop where
  noReset : NoSoftReset t.fifo e
  streamOff : t.fifo.ctrlStreamEn = false

/-- A read of `DATA` that finds a word does not follow directly on the edge that popped one; one that
finds none is not executed in the cycle in which `rd_empty` falls. -/
structure Spaced (t : Queued P) (e : FifoEvent P) : Prop where
  apart : t.fifo.dataRead e = true → t.fifo.rdEmpty = false → t.popped = false
  empty : t.fifo.dataRead e = true → t.fifo.rdEmpty = true →
    t.fifo.core.rd.rdEmptyNext (t.fifo.fifoRdEn e) = true

instance (t : Queued P) (e : FifoEvent P) : Decidable (CpuMode t e) :=
  decidable_of_iff (_ ∧ _) ⟨fun h => ⟨h.1, h.2⟩, fun h => ⟨h.1, h.2⟩⟩

instance (t : Queued P) (e : FifoEvent P) : Decidable (Spaced t e) :=
  decidable_of_iff (_ ∧ _) ⟨fun h => ⟨h.1, h.2⟩, fun h => ⟨h.1, h.2⟩⟩

/-- The fetch machine is idle, out of soft reset. -/
structure Serving (t : Queued P) : Prop where
  inv : QueueInv t
  low : t.fifo.ctrlSoftReset = false
  idle : t.fifo.rdState = .idle

namespace Serving

theorem step (h : Serving t) (he : CpuMode t e) : Serving (t.step e) := by
  have hno := he.noReset.noReset h.low
  refine ⟨h.inv.step, hno.2, ?_⟩
  rw [Queued.step, rdState_step hno, rdStateNext, h.idle]
  simp [canIssue, he.streamOff]

theorem fifoRdEn (h : Serving t) (he : CpuMode t e) : t.fifo.fifoRdEn e = t.returned := by
  simp [PacketFifo.fifoRdEn, fetch, canIssue, cpuPop, h.idle, he.streamOff, returned]

theorem fifoReads (h : Serving t) (he : CpuMode t e) :
    t.fifo.fifoReads e = (e.aclk && t.returned) := by
  rw [PacketFifo.fifoReads, pops_eq (he.noReset.noReset h.low), h.fifoRdEn he, returned]
  cases t.fifo.rdEmpty <;> simp

theorem returned_le (h : Serving t) : t.returned.toNat ≤ t.queue.length := by
  obtain ⟨ws, r, hcore, hqueue, -⟩ := h.inv.view h.low
  cases hr : t.returned with
  | false => exact Nat.zero_le _
  | true =>
    simp only [returned, Bool.and_eq_true, Bool.not_eq_true'] at hr
    have := hcore.rdSide.lt_of_not_empty hr.2
    rw [hqueue, List.length_drop, Bool.toNat_true]
    omega

theorem cpuReads_of_found (h : Serving t) (he : Spaced t e) (hread : t.fifo.dataRead e = true)
    (hne : t.fifo.rdEmpty = false) : ∃ w rest, t.queue = w :: rest ∧ t.cpuReads e = [w.tdata] := by
  obtain ⟨ws, r, -, hqueue, hsettled⟩ := h.inv.view h.low
  obtain ⟨hlt, hw⟩ := List.getElem?_eq_some_iff.mp (hsettled (he.apart hread hne) hne)
  refine ⟨t.fifo.core.rdData, ws.drop (r + 1), ?_, ?_⟩
  · rw [hqueue, List.drop_eq_getElem_cons hlt, hw]
  · simp [cpuReads, hread, hne, rdata_of_dataRead hread]

theorem queue_step (h : Serving t) (he : CpuMode t e) :
    (t.step e).queue = (t.queue ++ t.accepts e).drop (e.aclk && t.returned).toNat := by
  rw [← h.fifoReads he]
  simp [Queued.step, h.low, accepts]

/-- An event without a read of `DATA`: at an `aclk` edge the word that was returned leaves the queue. -/
theorem held_of_not_read (h : Serving t) (he : CpuMode t e) (hread : t.fifo.dataRead e = false) :
    (t.step e).held = t.held ++ (t.accepts e).map Payload.tdata := by
  have hno := he.noReset.noReset h.low
  have hdrop : (t.step e).queue.drop (t.step e).returned.toNat =
      (t.queue ++ t.accepts e).drop t.returned.toNat := by
    rw [h.queue_step he]
    cases hclk : e.aclk with
    | false =>
      have hret : (t.step e).returned = t.returned := by
        rw [returned, Queued.step, rdEmpty_of_not_aclk hno hclk, step_slave_of_not_aclk hclk]
        rfl
      rw [hret, Bool.false_and, Bool.toNat_false, List.drop_zero]
    | true =>
      have hret : (t.step e).returned = false := by
        rw [dataRead, hclk, Bool.true_and] at hread
        rw [returned, Queued.step, cpuRdEn_step, hclk, if_pos rfl, hread, Bool.false_and]
      rw [hret, Bool.true_and, Bool.toNat_false, List.drop_zero]
  rw [held, hdrop, List.drop_append_of_le_length h.returned_le, List.map_append, held]

theorem not_returned_of_read (h : Serving t) (hread : t.fifo.dataRead e = true) :
    t.returned = false := by
  by_contra hr
  simp only [returned, Bool.and_eq_true, Bool.not_eq_false] at hr
  simp [dataRead, FifoSlave.readsFrom, FifoSlave.readExec, h.inv.safe.read hr.1] at hread

/-- A read of `DATA`: the word it returns is popped at the next edge, and a read that returns none
pops none. -/
theorem pass_of_read (h : Serving t) (he : CpuMode t e) (hs : Spaced t e)
    (hread : t.fifo.dataRead e = true) :
    t.cpuReads e ++ (t.step e).held = t.held ++ (t.accepts e).map Payload.tdata := by
  have hno := he.noReset.noReset h.low
  have hret := h.not_returned_of_read hread
  have hclk : e.aclk = true := by
    rw [dataRead, Bool.and_eq_true] at hread
    exact hread.1
  have hcpu : (t.step e).fifo.slave.cpuRdEn = true := by
    rw [dataRead, hclk, Bool.true_and] at hread
    rw [Queued.step, cpuRdEn_step, hclk, if_pos rfl, hread]
  have hqueue := h.queue_step he
  rw [hret, Bool.and_false, Bool.toNat_false, List.drop_zero] at hqueue
  rw [held, held, hqueue, hret, Bool.toNat_false, List.drop_zero, returned, hcpu, Bool.true_and]
  cases hne : t.fifo.rdEmpty with
  | false =>
    obtain ⟨w, rest, hq, hreads⟩ := h.cpuReads_of_found hs hread hne
    obtain ⟨ws, r, hcore, -, -⟩ := h.inv.view h.low
    have hstays : (t.step e).fifo.rdEmpty = false :=
      rdEmpty_of_not_read hcore hno hne (by rw [h.fifoRdEn he, hret])
    rw [hreads, hstays, hq]
    simp
  | true =>
    have hreads : t.cpuReads e = [] := by simp [cpuReads, hne]
    have hstays : (t.step e).fifo.rdEmpty = true := by
      rw [Queued.step, rdEmpty_of_aclk hno hclk, hs.empty hread hne]
    rw [hreads, hstays]
    simp

/-- **One event**: what it returns, and then what is still to be returned, is what was still to be
returned before it, and the words it accepts. -/
theorem pass (h : Serving t) (he : CpuMode t e) (hs : Spaced t e) :
    t.cpuReads e ++ (t.step e).held = t.held ++ (t.accepts e).map Payload.tdata := by
  cases hread : t.fifo.dataRead e with
  | false =>
    have hreads : t.cpuReads e = [] := by simp [cpuReads, hread]
    rw [hreads, List.nil_append, h.held_of_not_read he hread]
  | true => exact h.pass_of_read he hs hread

end Serving

/-- **The CPU pops each word once.** From any state that a run from reset reaches, out of soft reset,
with the fetch machine idle and no pop outstanding: in every run that stays in the CPU mode, with any
traffic on the write side and any timing of the clocks, in which every read of `DATA` is `Spaced`, the
`k`-th read that executes while `rd_empty = 0` returns the `k`-th word, of those in the core and those
accepted since. What has been returned, followed by what is still to be returned, is all of them. -/
theorem cpu_pops_in_order (mem : BitVec P.addrWidth → Payload) (x : Payload)
    (es₀ es : List (FifoEvent P)) :
    let t := run step (reset mem x) es₀
    t.fifo.ctrlSoftReset = false → t.fifo.rdState = .idle → t.returned = false →
      Along step (fun t e => CpuMode t e ∧ Spaced t e) t es →
      let words := t.queue ++ log step accepts t es
      (∀ (k : ℕ) d, (log step cpuReads t es)[k]? = some d →
          words[k]?.map Payload.tdata = some d) ∧
        log step cpuReads t es ++ (run step t es).held = words.map Payload.tdata := by
  intro t hlow hidle hret hrun words
  have hpass : log step cpuReads t es ++ (run step t es).held =
      t.held ++ log step (fun t e => (t.accepts e).map Payload.tdata) t es :=
    hrun.log_buffer Serving held (fun _ _ hs he => hs.step he.1) (fun _ _ hs he => hs.pass he.1 he.2)
      ⟨QueueInv.of_run mem x es₀, hlow, hidle⟩
  have hall : log step cpuReads t es ++ (run step t es).held = words.map Payload.tdata := by
    rw [hpass, held, hret, Bool.toNat_false, List.drop_zero, log_map, List.map_append]
  refine ⟨fun k d hk => ?_, hall⟩
  rw [← List.getElem?_map, ← hall]
  exact getElem?_append_of_some hk

/-- The CPU mode is set, and two words are pushed. -/
def twoPushed : List (FifoEvent .smallest) :=
  FifoEvent.busWrite FifoReg.ctrl 0x1 ++
    [.push ⟨false, 0b1111, 0xAAAA0001⟩, .push ⟨true, 0b1111, 0xBBBB0002⟩]

/-- Reads with a cycle between them return both words. -/
theorem cpu_pops_in_order_two :
    let es₀ := twoPushed ++ List.replicate 4 (.tick false .idle)
    let es : List (FifoEvent .smallest) :=
      FifoEvent.busRead FifoReg.data ++ [.tick false .idle] ++ FifoEvent.busRead FifoReg.data
    let t := run step (reset (fun _ => .zero) .zero) es₀
    (∀ (k : ℕ) d, (log step cpuReads t es)[k]? = some d →
        (t.queue ++ log step accepts t es)[k]?.map Payload.tdata = some d) ∧
      log step cpuReads t es = [0xAAAA0001, 0xBBBB0002] := by
  intro es₀ es t
  exact ⟨(cpu_pops_in_order (fun _ => .zero) .zero es₀ es (by decide +kernel) (by decide +kernel)
    (by decide +kernel) (by decide +kernel)).1, by decide +kernel⟩

/-- **A word is read twice.** Two reads, the second as soon as the slave accepts it: both return the
first word, and the second one is popped unread. -/
theorem word_read_twice :
    let es₀ := twoPushed ++ List.replicate 4 (.tick false .idle)
    let es : List (FifoEvent .smallest) :=
      FifoEvent.busRead FifoReg.data ++ FifoEvent.busRead FifoReg.data
    let t := run step (reset (fun _ => .zero) .zero) es₀
    t.fifo.ctrlEnable = true ∧ t.fifo.rdState = .idle ∧ t.returned = false ∧
      Along step CpuMode t es ∧
      (t.queue ++ log step accepts t es).map Payload.tdata = [0xAAAA0001, 0xBBBB0002] ∧
      log step cpuReads t es = [0xAAAA0001, 0xAAAA0001] ∧ (run step t es).queue = [] := by
  decide +kernel

/-- A word is skipped: the first read finds `rd_empty = 1` in the cycle in which it falls, and its pop
takes the first word; the next read returns the second one. -/
example :
    let es₀ := twoPushed ++ List.replicate 2 (.tick false .idle)
    let es : List (FifoEvent .smallest) :=
      FifoEvent.busRead FifoReg.data ++ List.replicate 3 (.tick false .idle) ++
        FifoEvent.busRead FifoReg.data
    let t := run step (reset (fun _ => .zero) .zero) es₀
    t.fifo.ctrlEnable = true ∧ t.fifo.rdState = .idle ∧ t.returned = false ∧
      Along step CpuMode t es ∧
      (t.queue ++ log step accepts t es).map Payload.tdata = [0xAAAA0001, 0xBBBB0002] ∧
      log step cpuReads t es = [0xBBBB0002] := by
  decide +kernel

end Queued

end PacketBuffering
