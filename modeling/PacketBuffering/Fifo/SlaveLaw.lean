import PacketBuffering.Fifo.Slave
import PacketBuffering.Lib.Packet

/-!
# The accounts of the FIFO's register interface

A write executes one cycle before its address and its data are handshaken, and the answer to a read
is up in the cycle in which its address is handshaken. With a master that keeps its requests, every
write still executes once, and every read is answered once.

* `WriteReq`, `RegFile`: a write and what it asks for.
* `FifoSlave.Compliant`: a run under a master that keeps its requests.
* `WriteInv`, `ReadInv`: the invariants of the two channels.
* `Accounted`, **`slave_accounts`**: requests against effects and responses, in every cycle of such
  a run; `write_progress`, `read_progress`: requests are taken.
-/

namespace PacketBuffering

/-! ## What a write asks for -/

/-- A write, of address, data and strobes. -/
structure WriteReq where
  addr : BitVec 32
  data : BitVec 32
  strb : BitVec 4

namespace WriteReq

variable (w : WriteReq)

/-- The offset in the register map. -/
def offset : BitVec 6 := w.addr.setWidth 6

/-- The word to push into the FIFO. -/
def push : Option Payload :=
  if w.offset = FifoReg.data then some ⟨false, w.strb, w.data⟩
  else if w.offset = FifoReg.dataLast then some ⟨true, w.strb, w.data⟩
  else none

/-- The soft reset. -/
def softReset : Option Unit :=
  if w.offset = FifoReg.ctrl ∧ w.data.getLsbD 1 = true then some () else none

/-- The diagnostic latches to clear, if there are any. -/
def diagClear : Option (BitVec 6) :=
  if w.offset = FifoReg.diagStatus ∧ w.data.extractLsb' 0 6 ≠ 0 then some (w.data.extractLsb' 0 6)
  else none

end WriteReq

/-- The registers that keep what is written. -/
@[ext] structure RegFile where
  ctrl : BitVec 32
  threshold : BitVec 32
  almostFull : BitVec 16
  almostEmpty : BitVec 16

/-- The registers after a write. -/
def RegFile.write (r : RegFile) (w : WriteReq) : RegFile :=
  if w.offset = FifoReg.ctrl then { r with ctrl := w.data }
  else if w.offset = FifoReg.threshold then
    { r with
      threshold := w.data
      almostFull := w.data.extractLsb' 16 16
      almostEmpty := w.data.extractLsb' 0 16 }
  else r

/-! ## Observations -/

/-- The inputs of a cycle: the bus, and the status of the FIFO. -/
abbrev SlaveIn := AxiLiteIn × FifoStatus

namespace FifoSlave

/-- A rising `aclk`, on the inputs of a cycle. -/
def step (s : FifoSlave) (e : SlaveIn) : FifoSlave := s.clock e.1 e.2

section Observe

variable (s : FifoSlave) (e : SlaveIn)

/-- What the master must keep. -/
def owes : AxiLiteOwed := e.1.owes s.awready s.wready s.arready

/-- The write addresses accepted in a cycle. -/
def awFires : List (BitVec 32) := if s.awready && e.1.awvalid then [e.1.awaddr] else []

/-- The write data accepted in a cycle. -/
def wFires : List (BitVec 32 × BitVec 4) :=
  if s.wready && e.1.wvalid then [(e.1.wdata, e.1.wstrb)] else []

/-- The write responses handed over in a cycle. -/
def bFires : List (BitVec 2) := if s.bvalid && e.1.bready then [s.bresp] else []

/-- The read addresses accepted in a cycle. -/
def arFires : List (BitVec 32) := if s.arready && e.1.arvalid then [e.1.araddr] else []

/-- The read answers handed over in a cycle. -/
def rFires : List (BitVec 32 × BitVec 2) :=
  if s.rvalid && e.1.rready then [(s.rdata, s.rresp)] else []

/-- The write that executes at the edge. -/
def writes : List WriteReq :=
  if s.writeExec e.1 then [⟨e.1.awaddr, e.1.wdata, e.1.wstrb⟩] else []

/-- The read that executes at the edge, with the word it loads. -/
def reads : List (BitVec 32 × BitVec 32) :=
  if s.readExec e.1 then [(e.1.araddr, s.readWord e.1 e.2)] else []

/-- The push that is up. -/
def pushes : List Payload := if s.cpuWrEn then [⟨s.cpuWrLast, s.cpuWrBe, s.cpuWrData⟩] else []

/-- The soft reset that is up. -/
def softResets : List Unit := if s.ctrlSoftReset then [()] else []

/-- The clear of diagnostic flags that is up. -/
def diagClears : List (BitVec 6) := if s.diagClear ≠ 0 then [s.diagClear] else []

/-- The pop that is up. -/
def pops : List Unit := if s.cpuRdEn then [()] else []

/-- The registers that keep what is written. -/
def regFile : RegFile := ⟨s.regCtrl, s.regThreshold, s.almostFullThresh, s.almostEmptyThresh⟩

end Observe

/-- The slave with the duty of its master. -/
abbrev Host := Watched FifoSlave AxiLiteOwed

/-- One cycle of both. -/
abbrev hostStep : Host → SlaveIn → Host := Watched.step step owes

/-- Out of reset nothing is owed. -/
def hostReset : Host := ⟨.reset, .none⟩

/-- The master keeps its requests in this cycle. -/
def KeepsDuty (p : Host) (e : SlaveIn) : Prop := e.1.Keeps p.owes

instance (p : Host) (e : SlaveIn) : Decidable (KeepsDuty p e) :=
  inferInstanceAs (Decidable (e.1.Keeps p.owes))

/-- A run out of reset under a master that keeps its requests. -/
def Compliant (es : List SlaveIn) : Prop := Along hostStep KeepsDuty hostReset es

instance (es : List SlaveIn) : Decidable (Compliant es) :=
  inferInstanceAs (Decidable (Along ..))

/-! ## The write channel -/

/-- The write whose ready pulse is up. -/
def owedWrite (p : Host) : List WriteReq :=
  if p.state.awready then
    (p.owes.aw.bind fun a => p.owes.w.map fun d => ⟨a, d.1, d.2⟩).toList
  else []

/-- The response to the write in progress. -/
def response (s : FifoSlave) : List (BitVec 2) := if s.writeInProgress then [0] else []

/-- **The invariant of the write channel**: a write in progress has either its ready pulse or its
response up, and with the ready pulse its address and its data are owed. -/
structure WriteInv (p : Host) : Prop where
  wready : p.state.wready = p.state.awready
  progress : p.state.writeInProgress = (p.state.awready || p.state.bvalid)
  once : p.state.awready = true → p.state.bvalid = false
  okay : p.state.bvalid = true → p.state.bresp = 0
  owed : p.state.awready = true → ∃ a d, p.owes.aw = some a ∧ p.owes.w = some d

section Write

variable {p : Host} {e : SlaveIn}

theorem WriteInv.reset : WriteInv hostReset :=
  ⟨rfl, rfl, fun _ => rfl, fun h => absurd h (by decide), fun h => absurd h (by decide)⟩

theorem WriteInv.quiet (h : WriteInv p) (hwip : p.state.writeInProgress = false) :
    p.state.awready = false ∧ p.state.wready = false ∧ p.state.bvalid = false := by
  have hor := h.progress
  rw [hwip, eq_comm, Bool.or_eq_false_iff] at hor
  exact ⟨hor.1, h.wready.trans hor.1, hor.2⟩

theorem WriteInv.next_of_idle (h : WriteInv p) (hwip : p.state.writeInProgress = false) :
    (p.state.step e).awready = (e.1.awvalid && e.1.wvalid) ∧
      (p.state.step e).wready = (e.1.awvalid && e.1.wvalid) ∧
      (p.state.step e).bvalid = false ∧
      (p.state.step e).writeInProgress = (e.1.awvalid && e.1.wvalid) := by
  obtain ⟨haw, hw, hb⟩ := h.quiet hwip
  simp [step, clock, writeExec, hwip, haw, hw, hb]

theorem next_of_progress (hwip : p.state.writeInProgress = true) :
    (p.state.step e).awready = false ∧ (p.state.step e).wready = false ∧
      (p.state.step e).bvalid = !(p.state.bvalid && e.1.bready) ∧
      (p.state.step e).bresp = 0 ∧
      (p.state.step e).writeInProgress = !(p.state.bvalid && e.1.bready) := by
  simp [step, clock, writeExec, hwip]

theorem WriteInv.next (h : WriteInv p) : WriteInv (hostStep p e) := by
  cases hwip : p.state.writeInProgress with
  | false =>
    obtain ⟨haw, hw, hb⟩ := h.quiet hwip
    obtain ⟨haw', hw', hb', hwip'⟩ := h.next_of_idle (e := e) hwip
    refine ⟨hw'.trans haw'.symm, ?_, fun _ => hb', ?_, ?_⟩
    · exact hwip'.trans (by rw [show (hostStep p e).state = p.state.step e from rfl, haw', hb',
        Bool.or_false])
    · intro hv
      rw [show (hostStep p e).state.bvalid = false from hb'] at hv
      cases hv
    · intro hv
      rw [show (hostStep p e).state.awready = _ from haw', Bool.and_eq_true] at hv
      refine ⟨e.1.awaddr, (e.1.wdata, e.1.wstrb), ?_, ?_⟩
      · show PacketBuffering.owed e.1.awvalid p.state.awready _ = _
        rw [haw, hv.1, owed_of_not_ready]
      · show PacketBuffering.owed e.1.wvalid p.state.wready _ = _
        rw [hw, hv.2, owed_of_not_ready]
  | true =>
    obtain ⟨haw', hw', hb', hresp, hwip'⟩ := next_of_progress (e := e) hwip
    refine ⟨hw'.trans haw'.symm, ?_, ?_, fun _ => hresp, ?_⟩
    · exact hwip'.trans (by rw [show (hostStep p e).state = p.state.step e from rfl, haw', hb',
        Bool.false_or])
    · intro hv
      rw [show (hostStep p e).state.awready = false from haw'] at hv
      cases hv
    · intro hv
      rw [show (hostStep p e).state.awready = false from haw'] at hv
      cases hv

theorem WriteInv.owedWrite_next (h : WriteInv p) : owedWrite (hostStep p e) = p.state.writes e := by
  show (if (p.state.step e).awready then _ else []) = _
  cases hwip : p.state.writeInProgress with
  | false =>
    obtain ⟨haw, hw, -⟩ := h.quiet hwip
    rw [(h.next_of_idle hwip).1, writes, writeExec, hwip]
    cases hav : e.1.awvalid <;> cases hwv : e.1.wvalid <;>
      simp [Watched.step, owes, AxiLiteIn.owes, haw, hw, hav, hwv]
  | true =>
    rw [(next_of_progress hwip).1, writes, writeExec, hwip]
    simp

theorem WriteInv.fires (h : WriteInv p) (he : KeepsDuty p e) :
    p.state.awFires e = (owedWrite p).map WriteReq.addr ∧
      p.state.wFires e = (owedWrite p).map fun w => (w.data, w.strb) := by
  cases haw : p.state.awready with
  | false => simp [awFires, wFires, owedWrite, h.wready, haw]
  | true =>
    obtain ⟨a, d, ha, hd⟩ := h.owed haw
    have hkeepAw := he.aw
    have hkeepW := he.w
    rw [ha, keeps_some] at hkeepAw
    rw [hd, keeps_some] at hkeepW
    simp [awFires, wFires, owedWrite, h.wready, haw, ha, hd, hkeepAw.1, hkeepAw.2, hkeepW.1,
      ← hkeepW.2]

theorem WriteInv.bFires_append (h : WriteInv p) :
    p.state.bFires e ++ response (p.state.step e) =
      response p.state ++ (p.state.writes e).map fun _ => 0#2 := by
  unfold response
  cases hwip : p.state.writeInProgress with
  | false =>
    rw [(h.next_of_idle hwip).2.2.2, bFires, (h.quiet hwip).2.2, writes, writeExec, hwip]
    cases e.1.awvalid <;> cases e.1.wvalid <;> rfl
  | true =>
    rw [(next_of_progress hwip).2.2.2.2, bFires, writes, writeExec, hwip]
    cases hb : p.state.bvalid with
    | false => simp
    | true => cases hr : e.1.bready <;> simp [h.okay hb]

end Write

/-! ## The read channel -/

/-- The address whose ready pulse is up. -/
def owedRead (p : Host) : List (BitVec 32) := if p.state.arready then p.owes.ar.toList else []

/-- The answer that is up. -/
def answer (s : FifoSlave) : List (BitVec 32 × BitVec 2) :=
  if s.rvalid then [(s.rdata, s.rresp)] else []

/-- **The invariant of the read channel**: the ready pulse comes with the answer, and with it the
address is owed. -/
structure ReadInv (p : Host) : Prop where
  answered : p.state.arready = true → p.state.rvalid = true
  okay : p.state.rresp = 0
  owed : p.state.arready = true → ∃ a, p.owes.ar = some a

section Read

variable {p : Host} {e : SlaveIn}

theorem ReadInv.reset : ReadInv hostReset :=
  ⟨fun h => absurd h (by decide), rfl, fun h => absurd h (by decide)⟩

theorem ReadInv.arready_of_idle (h : ReadInv p) (hr : p.state.rvalid = false) :
    p.state.arready = false := by
  by_contra harr
  rw [Bool.not_eq_false] at harr
  rw [h.answered harr] at hr
  cases hr

theorem ReadInv.next_of_idle (h : ReadInv p) (hr : p.state.rvalid = false) :
    (p.state.step e).arready = e.1.arvalid ∧ (p.state.step e).rvalid = e.1.arvalid := by
  simp [step, clock, hr, h.arready_of_idle hr]

theorem next_of_answer (hr : p.state.rvalid = true) :
    (p.state.step e).arready = false ∧ (p.state.step e).rvalid = !e.1.rready ∧
      (p.state.step e).rdata = p.state.rdata ∧ (p.state.step e).rresp = p.state.rresp := by
  simp [step, clock, hr, readExec]

theorem ReadInv.next (h : ReadInv p) : ReadInv (hostStep p e) := by
  have hresp : (p.state.step e).rresp = 0 := by
    simp only [step, clock, h.okay, ite_self]
  cases hr : p.state.rvalid with
  | false =>
    obtain ⟨har, hrv⟩ := h.next_of_idle (e := e) hr
    refine ⟨fun hv => hrv.trans (har.symm.trans hv), hresp, fun hv => ⟨e.1.araddr, ?_⟩⟩
    show PacketBuffering.owed e.1.arvalid p.state.arready _ = _
    rw [h.arready_of_idle hr, har.symm.trans hv, owed_of_not_ready]
  | true =>
    obtain ⟨har, -⟩ := next_of_answer (e := e) hr
    refine ⟨fun hv => ?_, hresp, fun hv => ?_⟩ <;>
    · rw [show (hostStep p e).state.arready = false from har] at hv
      cases hv

theorem ReadInv.owedRead_next (h : ReadInv p) :
    owedRead (hostStep p e) = (p.state.reads e).map Prod.fst := by
  show (if (p.state.step e).arready then _ else []) = _
  cases hr : p.state.rvalid with
  | false =>
    rw [(h.next_of_idle hr).1, reads, readExec, hr]
    cases hav : e.1.arvalid <;>
      simp [Watched.step, owes, AxiLiteIn.owes, h.arready_of_idle hr, hav]
  | true =>
    rw [(next_of_answer hr).1, reads, readExec, hr]
    simp

theorem ReadInv.fires (h : ReadInv p) (he : KeepsDuty p e) : p.state.arFires e = owedRead p := by
  cases har : p.state.arready with
  | false => simp [arFires, owedRead, har]
  | true =>
    obtain ⟨a, ha⟩ := h.owed har
    have hkeep := he.ar
    rw [ha, keeps_some] at hkeep
    simp [arFires, owedRead, har, ha, hkeep.1, hkeep.2]

theorem ReadInv.rFires_append (h : ReadInv p) :
    p.state.rFires e ++ answer (p.state.step e) =
      answer p.state ++ (p.state.reads e).map fun r => (r.2, 0#2) := by
  cases hr : p.state.rvalid with
  | false =>
    rw [rFires, answer, answer, (h.next_of_idle hr).2, reads, readExec, hr]
    cases hav : e.1.arvalid <;> simp [step, clock, readExec, hr, hav]
  | true =>
    obtain ⟨-, hrv, hdata, hresp⟩ := next_of_answer (e := e) hr
    rw [rFires, answer, answer, hrv, hdata, hresp, reads, readExec, hr]
    cases e.1.rready <;> simp

end Read

/-! ## Effects -/

section Effects

variable (s : FifoSlave) (e : SlaveIn)

theorem pushes_step : (s.step e).pushes = (s.writes e).filterMap WriteReq.push := by
  simp only [pushes, step, clock, pushExec, writesTo, writes]
  by_cases hexec : s.writeExec e.1 = true
  · by_cases hdata : e.1.awaddr.setWidth 6 = FifoReg.data
    · simp [hexec, WriteReq.push, WriteReq.offset, hdata,
        show FifoReg.data ≠ FifoReg.dataLast by decide]
    · by_cases hlast : e.1.awaddr.setWidth 6 = FifoReg.dataLast
      · simp [hexec, WriteReq.push, WriteReq.offset, hlast,
          show FifoReg.dataLast ≠ FifoReg.data by decide]
      · simp [hexec, WriteReq.push, WriteReq.offset, hdata, hlast]
  · simp [hexec]

theorem softResets_step : (s.step e).softResets = (s.writes e).filterMap WriteReq.softReset := by
  simp only [softResets, step, clock, writesTo, writes]
  by_cases hexec : s.writeExec e.1 = true
  · by_cases hctrl : e.1.awaddr.setWidth 6 = FifoReg.ctrl <;>
      by_cases hbit : e.1.wdata[1] = true <;>
        simp [hexec, WriteReq.softReset, WriteReq.offset, hctrl, hbit]
  · simp [hexec]

theorem diagClears_step : (s.step e).diagClears = (s.writes e).filterMap WriteReq.diagClear := by
  simp only [diagClears, step, clock, writesTo, writes]
  by_cases hexec : s.writeExec e.1 = true
  · by_cases hdiag : e.1.awaddr.setWidth 6 = FifoReg.diagStatus <;>
      by_cases hbits : e.1.wdata.extractLsb' 0 6 = 0#6 <;>
        simp [hexec, WriteReq.diagClear, WriteReq.offset, hdiag, hbits]
  · simp [hexec]

theorem regFile_step : (s.step e).regFile = (s.writes e).foldl RegFile.write s.regFile := by
  simp only [regFile, step, clock, writesTo, writes]
  by_cases hexec : s.writeExec e.1 = true
  · by_cases hctrl : e.1.awaddr.setWidth 6 = FifoReg.ctrl
    · simp [hexec, RegFile.write, WriteReq.offset, hctrl,
        show FifoReg.ctrl ≠ FifoReg.threshold by decide]
    · by_cases hthresh : e.1.awaddr.setWidth 6 = FifoReg.threshold
      · simp [hexec, RegFile.write, WriteReq.offset, hthresh,
          show FifoReg.threshold ≠ FifoReg.ctrl by decide]
      · simp [hexec, RegFile.write, WriteReq.offset, hctrl, hthresh]
  · simp [hexec]

theorem pops_step : (s.step e).pops =
    (((s.reads e).map Prod.fst).filter fun a => a.setWidth 6 = FifoReg.data).map fun _ => () := by
  simp only [pops, step, clock, readsFrom, reads]
  by_cases hexec : s.readExec e.1 = true
  · by_cases hdata : e.1.araddr.setWidth 6 = FifoReg.data <;> simp [hexec, hdata]
  · simp [hexec]

end Effects

/-! ## The accounts -/

/-- **The accounts in the cycle `e` of a run `es`**, with the writes `ws` and the reads `rs` (address
and word) that executed before. -/
structure Accounted (es : List SlaveIn) (e : SlaveIn) (ws : List WriteReq)
    (rs : List (BitVec 32 × BitVec 32)) : Prop where
  /-- The addresses and the data handshaken up to this cycle are those of the writes, in order. -/
  aw : log step awFires reset (es ++ [e]) = ws.map WriteReq.addr
  w : log step wFires reset (es ++ [e]) = ws.map fun w => (w.data, w.strb)
  /-- The pulses up to this cycle are those the writes ask for, a cycle each. -/
  push : log step (fun s _ => s.pushes) reset (es ++ [e]) = ws.filterMap WriteReq.push
  softReset : log step (fun s _ => s.softResets) reset (es ++ [e]) =
    ws.filterMap WriteReq.softReset
  diagClear : log step (fun s _ => s.diagClears) reset (es ++ [e]) =
    ws.filterMap WriteReq.diagClear
  /-- The registers are as the writes leave them. -/
  regs : (run step reset es).regFile = ws.foldl RegFile.write reset.regFile
  /-- Every write but the one in progress has its response, which is OKAY. -/
  b : log step bFires reset es ++ response (run step reset es) = ws.map fun _ => 0
  /-- The addresses handshaken up to this cycle are those of the reads. -/
  ar : log step arFires reset (es ++ [e]) = rs.map Prod.fst
  /-- Every read but the one whose answer is up has its answer: the word it loaded, and OKAY. -/
  r : log step rFires reset es ++ answer (run step reset es) = rs.map fun r => (r.2, 0)
  /-- The pops up to this cycle are the reads of `DATA`. -/
  pop : log step (fun s _ => s.pops) reset (es ++ [e]) =
    ((rs.map Prod.fst).filter fun a => a.setWidth 6 = FifoReg.data).map fun _ => ()
  /-- Responses and answers stay until they are accepted. -/
  keepsB : Keeps (owed (run step reset es).bvalid e.1.bready (run step reset es).bresp)
    (run step reset (es ++ [e])).bvalid (run step reset (es ++ [e])).bresp
  keepsR : Keeps (owed (run step reset es).rvalid e.1.rready
      ((run step reset es).rdata, (run step reset es).rresp)) (run step reset (es ++ [e])).rvalid
    ((run step reset (es ++ [e])).rdata, (run step reset (es ++ [e])).rresp)

section Accounts

variable {es : List SlaveIn} {e : SlaveIn}

theorem log_host {ο : Type*} (obs : FifoSlave → SlaveIn → List ο) (es : List SlaveIn) :
    log step obs reset es = log hostStep (fun p => obs p.state) hostReset es :=
  (log_watched step owes obs hostReset es).symm

theorem run_host (es : List SlaveIn) : run step reset es = (run hostStep hostReset es).state :=
  (run_watched step owes hostReset es).symm

theorem log_pulse {ο ο' : Type*} {out : FifoSlave → List ο'} {obs : FifoSlave → SlaveIn → List ο}
    {f : List ο → List ο'} (hnil : f [] = []) (happ : ∀ l m, f (l ++ m) = f l ++ f m)
    (hreset : out reset = []) (hstep : ∀ s e, out (s.step e) = f (obs s e)) (es : List SlaveIn)
    (e : SlaveIn) :
    log step (fun s _ => out s) reset (es ++ [e]) = f (log step obs reset es) := by
  have hes := along_true step reset es
  rw [hes.log_registered (fun _ => True) (fun _ _ _ _ => trivial) (fun s e _ _ => hstep s e) trivial,
    hreset, List.nil_append, log_hom _ _ hnil happ]

/-- The writes handshaken up to a cycle are the one that is owed and those that executed before it. -/
theorem WriteInv.log_fires {p : Host} (h : WriteInv p)
    (hes : Along hostStep KeepsDuty p (es ++ [e])) :
    log step awFires p.state (es ++ [e]) =
        (owedWrite p ++ log step writes p.state es).map WriteReq.addr ∧
      log step wFires p.state (es ++ [e]) =
        (owedWrite p ++ log step writes p.state es).map fun w => (w.data, w.strb) := by
  have hkeep : ∀ p e, WriteInv p → KeepsDuty p e → WriteInv (hostStep p e) :=
    fun _ _ hp _ => hp.next
  have howed : log hostStep (fun p _ => owedWrite p) p (es ++ [e]) =
      owedWrite p ++ log step writes p.state es := by
    rw [← log_watched step owes writes p es]
    exact (Along.of_isPrefix hes (List.prefix_append _ _)).log_registered WriteInv hkeep
      (fun _ _ hp _ => hp.owedWrite_next) h e
  constructor
  · rw [← howed, ← log_map, ← log_watched step owes awFires]
    exact hes.log_congr WriteInv hkeep (fun _ _ hp he => (hp.fires he).1) h
  · rw [← howed, ← log_map, ← log_watched step owes wFires]
    exact hes.log_congr WriteInv hkeep (fun _ _ hp he => (hp.fires he).2) h

theorem ReadInv.log_fires {p : Host} (h : ReadInv p)
    (hes : Along hostStep KeepsDuty p (es ++ [e])) :
    log step arFires p.state (es ++ [e]) =
      owedRead p ++ (log step reads p.state es).map Prod.fst := by
  have hkeep : ∀ p e, ReadInv p → KeepsDuty p e → ReadInv (hostStep p e) :=
    fun _ _ hp _ => hp.next
  have howed : log hostStep (fun p _ => owedRead p) p (es ++ [e]) =
      owedRead p ++ (log step reads p.state es).map Prod.fst := by
    rw [← log_watched step owes reads p es, ← log_map]
    exact (Along.of_isPrefix hes (List.prefix_append _ _)).log_registered ReadInv hkeep
      (fun _ _ hp _ => hp.owedRead_next) h e
  rw [← howed, ← log_watched step owes arFires]
  exact hes.log_congr ReadInv hkeep (fun _ _ hp he => hp.fires he) h

theorem Compliant.writeInv (h : Compliant es) : WriteInv (run hostStep hostReset es) :=
  Along.invariant WriteInv (fun _ _ hp _ => hp.next) WriteInv.reset h

theorem Compliant.readInv (h : Compliant es) : ReadInv (run hostStep hostReset es) :=
  Along.invariant ReadInv (fun _ _ hp _ => hp.next) ReadInv.reset h

theorem Compliant.of_append {fs : List SlaveIn} (h : Compliant (es ++ fs)) : Compliant es :=
  Along.of_isPrefix h (List.prefix_append _ _)

theorem WriteInv.keeps {p : Host} (h : WriteInv p) (e : SlaveIn) :
    Keeps (PacketBuffering.owed p.state.bvalid e.1.bready p.state.bresp)
      (p.state.step e).bvalid (p.state.step e).bresp := by
  cases hb : p.state.bvalid with
  | false => simp
  | true =>
    have hwip : p.state.writeInProgress = true := by rw [h.progress, hb, Bool.or_true]
    obtain ⟨-, -, hb', hresp, -⟩ := next_of_progress (e := e) hwip
    cases hr : e.1.bready with
    | false => simp [hb', hresp, hb, hr, h.okay hb]
    | true => simp

theorem keeps_answer (p : Host) (e : SlaveIn) :
    Keeps (owed p.state.rvalid e.1.rready (p.state.rdata, p.state.rresp))
      (p.state.step e).rvalid ((p.state.step e).rdata, (p.state.step e).rresp) := by
  cases hr : p.state.rvalid with
  | false => simp
  | true =>
    obtain ⟨-, hrv, hdata, hresp⟩ := next_of_answer (e := e) hr
    cases hready : e.1.rready with
    | false => simp [hrv, hdata, hresp, hready]
    | true => simp

/-- **The accounts hold in every cycle** of a run under a master that keeps its requests. -/
theorem accounted (h : Compliant (es ++ [e])) :
    Accounted es e (log step writes reset es) (log step reads reset es) where
  aw := (WriteInv.reset.log_fires h).1
  w := (WriteInv.reset.log_fires h).2
  push := log_pulse rfl (fun _ _ => List.filterMap_append) rfl pushes_step es e
  softReset := log_pulse rfl (fun _ _ => List.filterMap_append) rfl softResets_step es e
  diagClear := log_pulse rfl (fun _ _ => List.filterMap_append) rfl diagClears_step es e
  regs := run_eq_foldl_log step writes regFile_step reset es
  b := by
    rw [log_host, run_host, log_host, ← log_map]
    exact Along.log_buffer WriteInv (fun p => response p.state) (fun _ _ hp _ => hp.next)
      (fun _ _ hp _ => hp.bFires_append) WriteInv.reset h.of_append
  ar := ReadInv.reset.log_fires h
  r := by
    rw [log_host, run_host, log_host, ← log_map]
    exact Along.log_buffer ReadInv (fun p => answer p.state) (fun _ _ hp _ => hp.next)
      (fun _ _ hp _ => hp.rFires_append) ReadInv.reset h.of_append
  pop := log_pulse
    (f := fun l => ((l.map Prod.fst).filter fun a : BitVec 32 => a.setWidth 6 = FifoReg.data).map
      fun _ => ())
    rfl (fun _ _ => by simp) rfl pops_step es e
  keepsB := by
    rw [run_snoc, run_host]
    exact h.of_append.writeInv.keeps e
  keepsR := by
    rw [run_snoc, run_host]
    exact keeps_answer _ e

/-! ## Progress -/

variable {c₁ c₂ c₃ : SlaveIn}

/-- A write that is offered is handshaken within three cycles, if an open response is accepted. -/
theorem write_progress (h : Compliant (es ++ [c₁, c₂, c₃])) (haw : c₁.1.awvalid = true)
    (hw : c₁.1.wvalid = true) (hb : c₁.1.bready = true) :
    log step awFires (run step reset es) [c₁, c₂, c₃] ≠ [] := by
  have hinv := h.of_append.writeInv
  have hrest := ((along_append _ _ _).mp h).2
  have hkeep := hrest.2.1
  rw [run_host]
  set p := run hostStep hostReset es
  rw [show [c₁, c₂, c₃] = [c₁, c₂] ++ [c₃] from rfl, (hinv.log_fires hrest).1, log_cons, log_cons,
    log_nil]
  cases hwip : p.state.writeInProgress with
  | false => simp [writes, writeExec, hwip, haw, hw]
  | true =>
    cases hready : p.state.awready with
    | true =>
      obtain ⟨a, d, ha, hd⟩ := hinv.owed hready
      simp [owedWrite, hready, ha, hd]
    | false =>
      -- the response is accepted in the first cycle, and the write executes in the second
      have hbv : p.state.bvalid = true := by
        have hor := hinv.progress
        rwa [hwip, hready, Bool.false_or, eq_comm] at hor
      have hwip' : (p.state.step c₁).writeInProgress = false := by
        rw [(next_of_progress hwip).2.2.2.2, hbv, hb]
        rfl
      have hkeepAw := hkeep.aw
      have hkeepW := hkeep.w
      rw [show (hostStep p c₁).owes.aw = owed c₁.1.awvalid p.state.awready _ from rfl, haw, hready,
        owed_of_not_ready, keeps_some] at hkeepAw
      rw [show (hostStep p c₁).owes.w = owed c₁.1.wvalid p.state.wready _ from rfl, hw,
        hinv.wready, hready, owed_of_not_ready, keeps_some] at hkeepW
      simp [writes, writeExec, hwip', hkeepAw.1, hkeepW.1]

theorem response_progress (h : Compliant es)
    (hwip : (run step reset es).writeInProgress = true) (hb₁ : c₁.1.bready = true)
    (hb₂ : c₂.1.bready = true) : log step bFires (run step reset es) [c₁, c₂] ≠ [] := by
  rw [run_host] at hwip ⊢
  have hinv := h.writeInv
  set p := run hostStep hostReset es
  rw [log_cons, log_cons, log_nil, List.append_nil]
  cases hbv : p.state.bvalid with
  | true => simp [bFires, hbv, hb₁]
  | false =>
    have hbv' : (p.state.step c₁).bvalid = true := by
      rw [(next_of_progress hwip).2.2.1, hbv]
      rfl
    simp [bFires, hbv', hb₂]

/-- An address that is offered is handshaken within three cycles, if an open answer is accepted. -/
theorem read_progress (h : Compliant (es ++ [c₁, c₂, c₃])) (har : c₁.1.arvalid = true)
    (hr : c₁.1.rready = true) : log step arFires (run step reset es) [c₁, c₂, c₃] ≠ [] := by
  have hinv := h.of_append.readInv
  have hrest := ((along_append _ _ _).mp h).2
  have hkeep := hrest.2.1
  rw [run_host]
  set p := run hostStep hostReset es
  rw [show [c₁, c₂, c₃] = [c₁, c₂] ++ [c₃] from rfl, hinv.log_fires hrest, log_cons, log_cons,
    log_nil]
  cases hrv : p.state.rvalid with
  | false => simp [reads, readExec, hrv, har]
  | true =>
    cases hready : p.state.arready with
    | true =>
      obtain ⟨a, ha⟩ := hinv.owed hready
      simp [owedRead, hready, ha]
    | false =>
      have hrv' : (p.state.step c₁).rvalid = false := by
        rw [(next_of_answer hrv).2.1, hr]
        rfl
      have hkeepAr := hkeep.ar
      rw [show (hostStep p c₁).owes.ar = owed c₁.1.arvalid p.state.arready _ from rfl, har, hready,
        owed_of_not_ready, keeps_some] at hkeepAr
      simp [reads, readExec, hrv', hkeepAr.1]

end Accounts

/-- **Progress behind a run**: offered requests are handshaken, and the write in progress is
answered, as soon as the master accepts what is open. -/
structure Progress (es : List SlaveIn) : Prop where
  write : ∀ c₁ c₂ c₃, Compliant (es ++ [c₁, c₂, c₃]) → c₁.1.awvalid = true → c₁.1.wvalid = true →
    c₁.1.bready = true → log step awFires (run step reset es) [c₁, c₂, c₃] ≠ []
  response : ∀ c₁ c₂, (run step reset es).writeInProgress = true → c₁.1.bready = true →
    c₂.1.bready = true → log step bFires (run step reset es) [c₁, c₂] ≠ []
  read : ∀ c₁ c₂ c₃, Compliant (es ++ [c₁, c₂, c₃]) → c₁.1.arvalid = true →
    c₁.1.rready = true → log step arFires (run step reset es) [c₁, c₂, c₃] ≠ []

/-- **The accounts of the register interface.** In every cycle of every run under a master that keeps
its requests, the writes and reads that executed are exactly the requests handshaken up to this
cycle; each had its effect once and has, or awaits, one response. -/
theorem slave_accounts (es : List SlaveIn) (e : SlaveIn) (h : Compliant (es ++ [e])) :
    (∃ ws rs, Accounted es e ws rs) ∧ Progress es where
  left := ⟨_, _, accounted h⟩
  right :=
    { write := fun _ _ _ hc haw hw hb => write_progress hc haw hw hb
      response := fun _ _ hwip hb₁ hb₂ => response_progress h.of_append hwip hb₁ hb₂
      read := fun _ _ _ hc har hr => read_progress hc har hr }

/-- A FIFO that holds the word `0x2A`. -/
def oneWord : FifoStatus :=
  ⟨0x2A, false, false, false, false, false, false, true, 0, 1, 1, 0⟩

/-- A write of `DATA` whose data come a cycle after its address, and a read of `DATA` meanwhile. -/
def crossing : List SlaveIn :=
  [({ AxiLiteIn.read FifoReg.data with awvalid := true }, oneWord),
    ({ AxiLiteIn.write FifoReg.data 0x55 with arvalid := true }, oneWord),
    ({ AxiLiteIn.write FifoReg.data 0x55 with rready := true }, oneWord)]

/-- In the last of these cycles the word is pushed once, and popped once. -/
theorem slave_accounts_crossing :
    (∃ ws rs, Accounted crossing (AxiLiteIn.idle, oneWord) ws rs) ∧
      log step (fun s _ => s.pushes) reset (crossing ++ [(AxiLiteIn.idle, oneWord)]) =
        [⟨false, 0b1111, 0x55⟩] ∧
      log step (fun s _ => s.pops) reset (crossing ++ [(AxiLiteIn.idle, oneWord)]) = [()] ∧
      log step rFires reset crossing = [(0x2A, 0)] := by
  refine ⟨(slave_accounts crossing (AxiLiteIn.idle, oneWord) (by decide +kernel)).1, ?_⟩
  decide +kernel

end FifoSlave

end PacketBuffering
