import PacketBuffering.Lib.Endless
import PacketBuffering.Uart.AdapterFlow

/-!
# The accounts of the UART adapter

Runs out of reset, for any timing of the master and of the UART.

* `Fair`: a UART that answers what it is asked, and a master that accepts what it is offered;
  `Fair.settles`, `Fair.answers`: nothing is held forever.
* `awLog`, `wLog`, `bLog`, `arLog`, `rLog`: the handshakes of the master; `uartWriteLog`,
  `uartReadLog`: the responses of the UART, each with the request it answers.
* `UartAdapterLaw`, **`uart_adapter_law`**: each request of the master is passed on once and answered
  once, never two at a time.
-/

namespace PacketBuffering

variable {R : UartWidths}

namespace UartAdapter

variable {s : UartAdapter R} {i : UartAdapterIn R}

/-! ## Progress -/

/-- The UART answers what it is asked, and the master accepts what it is offered, some time. -/
structure Fair (s : UartAdapter R) (f : ℕ → UartAdapterIn R) : Prop where
  write : ∀ n, (run UartAdapter.clock s (firsts f n)).uartAwvalid = true →
    (run UartAdapter.clock s (firsts f n)).uartWvalid = true → ∃ m, n ≤ m ∧ (f m).uartBvalid = true
  read : ∀ n, (run UartAdapter.clock s (firsts f n)).uartArvalid = true →
    ∃ m, n ≤ m ∧ (f m).uartRvalid = true
  bready : ∀ n, (run UartAdapter.clock s (firsts f n)).writeRespValid = true →
    ∃ m, n ≤ m ∧ (f m).bready = true
  rready : ∀ n, (run UartAdapter.clock s (firsts f n)).readRespValid = true →
    ∃ m, n ≤ m ∧ (f m).rready = true

section Progress

/-- A write waits for a read. -/
structure Behind (s : UartAdapter R) : Prop where
  inv : Inv s
  aw : s.awBufValid = true
  w : s.wBufValid = true
  read : s.readActive = true

/-- A write waits for its start. -/
structure Starting (s : UartAdapter R) : Prop where
  inv : Inv s
  aw : s.awBufValid = true
  w : s.wBufValid = true
  read : s.readActive = false
  write : s.writeActive = false

/-- A write waits for the UART. -/
structure Writing (s : UartAdapter R) : Prop where
  inv : Inv s
  write : s.writeActive = true

/-- The response to a write waits for the master. -/
structure Responding (s : UartAdapter R) : Prop where
  inv : Inv s
  response : s.writeRespValid = true

/-- The write is over. -/
structure Settled (s : UartAdapter R) : Prop where
  inv : Inv s
  aw : s.awBufValid = false
  response : s.writeRespValid = false

theorem Inv.writeActive_of_readActive (h : Inv s) (hra : s.readActive = true) :
    s.writeActive = false := by
  by_contra hwa
  rw [Bool.not_eq_false] at hwa
  rw [(h.write hwa).1] at hra
  exact Bool.false_ne_true hra

theorem Behind.clock (h : Behind s) : (s.clock i).awBufValid = true ∧
    (s.clock i).wBufValid = true ∧ (s.clock i).writeActive = false ∧
    (s.clock i).readActive = !i.uartRvalid := by
  have hwa := h.inv.writeActive_of_readActive h.read
  have hd : s.writeDone i = false := by rw [h.inv.writeDone_eq, hwa, Bool.false_and]
  have hstart : s.start = false := by simp [h.inv.start_eq, h.read]
  have hf : s.arFire i = false := by simp [arFire, arready, h.read]
  simp [UartAdapter.clock, h.inv.readDone_eq, hd, hstart, hf, h.aw, h.w, hwa, h.read]

theorem Starting.clock (h : Starting s) : Writing (s.clock i) := by
  have hd : s.writeDone i = false := by rw [h.inv.writeDone_eq, h.write, Bool.false_and]
  have hstart : s.start = true := by rw [h.inv.start_eq, h.aw, h.w, h.write, h.read]; rfl
  exact ⟨h.inv.clock, by simp [UartAdapter.clock, hd, hstart]⟩

theorem Writing.clock (h : Writing s) : (s.clock i).writeActive = (!i.uartBvalid) ∧
    (s.clock i).writeRespValid = i.uartBvalid := by
  obtain ⟨-, -, -, hstart, hwr⟩ := h.inv.closed_of_writeActive (i := i) h.write
  simp [UartAdapter.clock, h.inv.writeDone_eq, bFire, hstart, hwr, h.write]

theorem Responding.clock (h : Responding s) : (s.clock i).awBufValid = false ∧
    (s.clock i).writeRespValid = !i.bready := by
  have hab := (h.inv.response h.response).1
  have hf : s.awFire i = false := by simp [awFire, awready, h.response]
  cases hb : i.bready <;> simp [UartAdapter.clock, bFire, h.response, hab, hf, hb]

/-- A read waits for the UART. -/
structure Reading (s : UartAdapter R) : Prop where
  inv : Inv s
  read : s.readActive = true

/-- The answer to a read waits for the master. -/
structure Answering (s : UartAdapter R) : Prop where
  inv : Inv s
  answer : s.readRespValid = true

/-- The read is over. -/
structure Answered (s : UartAdapter R) : Prop where
  inv : Inv s
  read : s.readActive = false
  answer : s.readRespValid = false

theorem Reading.clock (h : Reading s) : (s.clock i).readActive = (!i.uartRvalid) ∧
    (s.clock i).readRespValid = i.uartRvalid := by
  have hf : s.arFire i = false := by simp [arFire, arready, h.read]
  simp [UartAdapter.clock, h.inv.readDone_eq, rFire, hf, h.read, h.inv.read h.read]

theorem Answering.clock (h : Answering s) : (s.clock i).readActive = false ∧
    (s.clock i).readRespValid = !i.rready := by
  have hra : s.readActive = false := by
    by_contra hra
    rw [Bool.not_eq_false] at hra
    exact Bool.false_ne_true ((h.inv.read hra).symm.trans h.answer)
  have hf : s.arFire i = false := by simp [arFire, arready, h.answer]
  cases hr : i.rready <;>
    simp [UartAdapter.clock, h.inv.readDone_eq, rFire, hra, hf, h.answer, hr]

variable {f : ℕ → UartAdapterIn R}

theorem Fair.behind (h : Fair s f) : LeadsTo UartAdapter.clock s f Behind Starting := by
  refine LeadsTo.of_event (A := fun i => i.uartRvalid = true) ?_ ?_ fun n hn => ?_
  · intro t i ht hno
    obtain ⟨haw, hw, -, hra⟩ := ht.clock (i := i)
    rw [Bool.not_eq_true] at hno
    exact ⟨ht.inv.clock, haw, hw, by rw [hra, hno]; rfl⟩
  · intro t i ht hev
    obtain ⟨haw, hw, hwa, hra⟩ := ht.clock (i := i)
    exact ⟨ht.inv.clock, haw, hw, by rw [hra, hev]; rfl, hwa⟩
  · exact h.read n (hn.inv.arvalid.trans hn.read)

theorem starting_leadsTo : LeadsTo UartAdapter.clock s f Starting Writing :=
  LeadsTo.of_step fun _ _ ht => ht.clock

theorem Fair.writing (h : Fair s f) : LeadsTo UartAdapter.clock s f Writing Responding := by
  refine LeadsTo.of_event (A := fun i => i.uartBvalid = true) ?_ ?_ fun n hn => ?_
  · intro t i ht hno
    rw [Bool.not_eq_true] at hno
    exact ⟨ht.inv.clock, by rw [ht.clock.1, hno]; rfl⟩
  · exact fun t i ht hev => ⟨ht.inv.clock, ht.clock.2.trans hev⟩
  · exact h.write n (hn.inv.awvalid.trans hn.write) (hn.inv.wvalid.trans hn.write)

theorem Fair.responding (h : Fair s f) : LeadsTo UartAdapter.clock s f Responding Settled := by
  refine LeadsTo.of_event (A := fun i => i.bready = true) ?_ ?_ fun n hn => h.bready n hn.response
  · intro t i ht hno
    rw [Bool.not_eq_true] at hno
    exact ⟨ht.inv.clock, by rw [ht.clock.2, hno]; rfl⟩
  · exact fun t i ht hev => ⟨ht.inv.clock, ht.clock.1, by rw [ht.clock.2, hev]; rfl⟩

/-- **A write that is held is answered.** -/
theorem Fair.settles (h : Fair s f) :
    LeadsTo UartAdapter.clock s f
      (fun t => Inv t ∧ ((t.awBufValid = true ∧ t.wBufValid = true) ∨ t.writeRespValid = true))
      Settled := by
  have hwriting := h.writing.trans h.responding
  have hstarting := starting_leadsTo.trans hwriting
  rintro n ⟨hinv, ⟨haw, hw⟩ | hwr⟩
  · cases hwa : (run UartAdapter.clock s (firsts f n)).writeActive with
    | true => exact hwriting n ⟨hinv, hwa⟩
    | false =>
      cases hra : (run UartAdapter.clock s (firsts f n)).readActive with
      | false => exact hstarting n ⟨hinv, haw, hw, hra, hwa⟩
      | true => exact (h.behind.trans hstarting) n ⟨hinv, haw, hw, hra⟩
  · exact h.responding n ⟨hinv, hwr⟩

theorem Fair.reading (h : Fair s f) : LeadsTo UartAdapter.clock s f Reading Answering := by
  refine LeadsTo.of_event (A := fun i => i.uartRvalid = true) ?_ ?_ fun n hn => ?_
  · intro t i ht hno
    rw [Bool.not_eq_true] at hno
    exact ⟨ht.inv.clock, by rw [ht.clock.1, hno]; rfl⟩
  · exact fun t i ht hev => ⟨ht.inv.clock, ht.clock.2.trans hev⟩
  · exact h.read n (hn.inv.arvalid.trans hn.read)

theorem Fair.answering (h : Fair s f) : LeadsTo UartAdapter.clock s f Answering Answered := by
  refine LeadsTo.of_event (A := fun i => i.rready = true) ?_ ?_ fun n hn => h.rready n hn.answer
  · intro t i ht hno
    rw [Bool.not_eq_true] at hno
    exact ⟨ht.inv.clock, by rw [ht.clock.2, hno]; rfl⟩
  · exact fun t i ht hev => ⟨ht.inv.clock, ht.clock.1, by rw [ht.clock.2, hev]; rfl⟩

/-- **A read that is held is answered.** -/
theorem Fair.answers (h : Fair s f) :
    LeadsTo UartAdapter.clock s f
      (fun t => Inv t ∧ (t.readActive = true ∨ t.readRespValid = true)) Answered := by
  rintro n ⟨hinv, hra | hrr⟩
  · exact (h.reading.trans h.answering) n ⟨hinv, hra⟩
  · exact h.answering n ⟨hinv, hrr⟩

end Progress

/-! ## Runs -/

section Runs

variable (es : List (UartAdapterIn R))

/-- The write requests accepted in a run. -/
def awLog : List (UartReq R) := log UartAdapter.clock aws (reset R) es

/-- The write data accepted in a run. -/
def wLog : List (UartWData R) := log UartAdapter.clock ws (reset R) es

/-- The write responses handed over in a run. -/
def bLog : List (BitVec R.idWidth × BitVec 2) := log UartAdapter.clock bs (reset R) es

/-- The read requests accepted in a run. -/
def arLog : List (UartReq R) := log UartAdapter.clock ars (reset R) es

/-- The read answers handed over in a run. -/
def rLog : List (BitVec R.idWidth × UartRData R) := log UartAdapter.clock rs (reset R) es

/-- The write responses of the UART in a run, each with its request. -/
def uartWriteLog : List (UartCmd R × UartWData R × BitVec 2) :=
  log UartAdapter.clock uartWrites (reset R) es

/-- The read answers of the UART in a run, each with its request. -/
def uartReadLog : List (UartCmd R × UartRData R) := log UartAdapter.clock uartReads (reset R) es

/-- The writes complete at the UART. -/
def writeLog : List (UartWrite R) := log UartAdapter.clock writes (reset R) es

/-- The reads complete at the UART. -/
def readLog : List (UartRead R) := log UartAdapter.clock reads (reset R) es

/-- The state after a run. -/
abbrev after : UartAdapter R := run UartAdapter.clock (reset R) es

theorem inv_of_run : Inv (after es) :=
  (along_true _ (reset R) es).invariant Inv (fun _ _ h _ => h.clock) Inv.reset

theorem log_held {ο : Type*} {held : UartAdapter R → List ο}
    {out inp : UartAdapter R → UartAdapterIn R → List ο}
    (pass : ∀ s i, Inv s → out s i ++ held (s.clock i) = held s ++ inp s i)
    (h₀ : held (reset R) = []) :
    log UartAdapter.clock out (reset R) es ++ held (after es) =
      log UartAdapter.clock inp (reset R) es := by
  have hbuf := (along_true UartAdapter.clock (reset R) es).log_buffer Inv held
    (fun _ _ h _ => h.clock) (fun s i h _ => pass s i h) Inv.reset
  rwa [h₀, List.nil_append] at hbuf

theorem awLog_eq :
    (writeLog es).map UartWrite.req ++ (after es).heldAw = (awLog es).map UartReq.seen := by
  rw [writeLog, awLog, ← log_map, ← log_map]
  exact log_held es (fun _ _ h => h.aws_append) rfl

theorem wLog_eq : (writeLog es).map UartWrite.w ++ (after es).heldW = wLog es := by
  rw [writeLog, ← log_map]
  exact log_held es (fun _ _ h => h.ws_append) rfl

theorem uartWriteLog_eq :
    uartWriteLog es = (writeLog es).map fun d => (d.req.2, d.w, d.resp) := by
  rw [writeLog, ← log_map]
  exact (along_true _ _ es).log_congr Inv (fun _ _ h _ => h.clock)
    (fun _ _ h _ => h.uartWrites_eq) Inv.reset

theorem bLog_eq :
    bLog es ++ (after es).heldB = (writeLog es).map fun d => (d.req.1, d.resp) := by
  rw [writeLog, ← log_map]
  exact log_held es (fun _ _ h => h.bs_append) rfl

theorem arLog_eq :
    (readLog es).map UartRead.req ++ (after es).heldAr = (arLog es).map UartReq.seen := by
  rw [readLog, arLog, ← log_map, ← log_map]
  exact log_held es (fun _ _ h => h.ars_append) rfl

theorem uartReadLog_eq : uartReadLog es = (readLog es).map fun d => (d.req.2, d.answer) := by
  rw [readLog, ← log_map]
  exact (along_true _ _ es).log_congr Inv (fun _ _ h _ => h.clock)
    (fun _ _ h _ => h.uartReads_eq) Inv.reset

theorem rLog_eq :
    rLog es ++ (after es).heldR = (readLog es).map fun d => (d.req.1, d.answer) := by
  rw [readLog, ← log_map]
  exact log_held es (fun _ _ h => h.rs_append) rfl

end Runs

/-! ## Every pair and every read is answered -/

section Answered

variable {es : List (UartAdapterIn R)} {f : ℕ → UartAdapterIn R}

theorem length_bLog_of_settled (h : Settled (after es)) :
    (bLog es).length = (awLog es).length := by
  have haw := congrArg List.length (awLog_eq es)
  have hb := congrArg List.length (bLog_eq es)
  simp only [heldAw, heldB, h.aw, h.response, List.length_append, List.length_map] at haw hb
  exact hb.trans haw

theorem length_rLog_of_answered (h : Answered (after es)) :
    (rLog es).length = (arLog es).length := by
  have har := congrArg List.length (arLog_eq es)
  have hr := congrArg List.length (rLog_eq es)
  simp only [heldAr, heldR, h.read, h.answer, List.length_append, List.length_map] at har hr
  exact hr.trans har

theorem length_pairs_le (hwr : (after es).writeRespValid = false)
    (hpair : ¬ ((after es).awBufValid = true ∧ (after es).wBufValid = true)) :
    min (awLog es).length (wLog es).length ≤ (bLog es).length := by
  have haw := congrArg List.length (awLog_eq es)
  have hw := congrArg List.length (wLog_eq es)
  have hb := congrArg List.length (bLog_eq es)
  simp only [heldAw, heldW, heldB, hwr, List.length_append, List.length_map] at haw hw hb
  cases hab : (after es).awBufValid with
  | false =>
    rw [hab] at haw
    exact (Nat.min_le_left _ _).trans (haw ▸ hb ▸ Nat.le_refl _)
  | true =>
    have hwb : (after es).wBufValid = false := by simpa [hab] using hpair
    rw [hwb] at hw
    exact (Nat.min_le_right _ _).trans (hw ▸ hb ▸ Nat.le_refl _)

theorem exists_responses (h : Fair (after es) f) :
    ∃ n, min (awLog es).length (wLog es).length ≤ (bLog (es ++ firsts f n)).length := by
  by_cases hheld : ((after es).awBufValid = true ∧ (after es).wBufValid = true) ∨
      (after es).writeRespValid = true
  · obtain ⟨n, -, hn⟩ := h.settles 0 ⟨inv_of_run es, hheld⟩
    refine ⟨n, ?_⟩
    rw [← run_append] at hn
    rw [length_bLog_of_settled hn]
    exact (Nat.min_le_left _ _).trans (log_isPrefix _ _ _ (List.prefix_append _ _)).length_le
  · rw [not_or, Bool.not_eq_true] at hheld
    refine ⟨0, ?_⟩
    rw [firsts_zero, List.append_nil]
    exact length_pairs_le hheld.2 hheld.1

theorem exists_answers (h : Fair (after es) f) :
    ∃ n, (arLog es).length ≤ (rLog (es ++ firsts f n)).length := by
  by_cases hheld : (after es).readActive = true ∨ (after es).readRespValid = true
  · obtain ⟨n, -, hn⟩ := h.answers 0 ⟨inv_of_run es, hheld⟩
    refine ⟨n, ?_⟩
    rw [← run_append] at hn
    rw [length_rLog_of_answered hn]
    exact (log_isPrefix _ _ _ (List.prefix_append _ _)).length_le
  · rw [not_or, Bool.not_eq_true, Bool.not_eq_true] at hheld
    refine ⟨0, ?_⟩
    rw [firsts_zero, List.append_nil, length_rLog_of_answered ⟨inv_of_run es, hheld.1, hheld.2⟩]

end Answered

/-! ## The law -/

/-- **The accounts of the adapter**, after the cycles `es`, and in the next one, with the inputs `i`. -/
structure UartAdapterLaw (es : List (UartAdapterIn R)) (i : UartAdapterIn R) : Prop where
  /-- A write and a read are never passed on together. -/
  exclusive : (after es).uartAwvalid = true ∨ (after es).uartWvalid = true →
    (after es).uartArvalid = false
  /-- Each pair of address and data leads to one response of the UART, and one to the master. -/
  aw : (writeLog es).map UartWrite.req ++ (after es).heldAw = (awLog es).map UartReq.seen
  w : (writeLog es).map UartWrite.w ++ (after es).heldW = wLog es
  uartWrites : uartWriteLog es = (writeLog es).map fun d => (d.req.2, d.w, d.resp)
  bs : bLog es ++ (after es).heldB = (writeLog es).map fun d => (d.req.1, d.resp)
  /-- Each read leads to one answer of the UART, and one to the master. -/
  ar : (readLog es).map UartRead.req ++ (after es).heldAr = (arLog es).map UartReq.seen
  uartReads : uartReadLog es = (readLog es).map fun d => (d.req.2, d.answer)
  rs : rLog es ++ (after es).heldR = (readLog es).map fun d => (d.req.1, d.answer)
  /-- Nothing is held forever. -/
  responses : ∀ f, Fair (after es) f →
    ∃ n, min (awLog es).length (wLog es).length ≤ (bLog (es ++ firsts f n)).length
  answers : ∀ f, Fair (after es) f → ∃ n, (arLog es).length ≤ (rLog (es ++ firsts f n)).length
  /-- The requests to the UART are stable until they are answered, and are withdrawn then. -/
  keepsUartAw : Keeps (owed (after es).uartAwvalid ((after es).uartBFire i) (after es).uartAw)
    (after (es ++ [i])).uartAwvalid (after (es ++ [i])).uartAw
  keepsUartW : Keeps (owed (after es).uartWvalid ((after es).uartBFire i) (after es).wBuf)
    (after (es ++ [i])).uartWvalid (after (es ++ [i])).wBuf
  keepsUartAr : Keeps (owed (after es).uartArvalid ((after es).uartRFire i) (after es).uartAr)
    (after (es ++ [i])).uartArvalid (after (es ++ [i])).uartAr
  withdrawn : (after es).uartBFire i = true →
    (after (es ++ [i])).uartAwvalid = false ∧ (after (es ++ [i])).uartWvalid = false
  withdrawnAr : (after es).uartRFire i = true → (after (es ++ [i])).uartArvalid = false
  /-- The responses to the master are stable until they are accepted. -/
  keepsB : Keeps (owed (after es).writeRespValid i.bready (after es).b)
    (after (es ++ [i])).writeRespValid (after (es ++ [i])).b
  keepsR : Keeps (owed (after es).readRespValid i.rready (after es).r)
    (after (es ++ [i])).readRespValid (after (es ++ [i])).r

/-- **Transaction safety of the UART adapter**: for any widths and any timing of the master and of the
UART. -/
theorem uart_adapter_law (es : List (UartAdapterIn R)) (i : UartAdapterIn R) :
    UartAdapterLaw es i := by
  have hinv := inv_of_run es
  have hnext : after (es ++ [i]) = (after es).clock i := by
    rw [after, run_snoc]
  have hexcl : (after es).uartAwvalid = true ∨ (after es).uartWvalid = true →
      (after es).uartArvalid = false := by
    rw [hinv.awvalid, hinv.wvalid, or_self, hinv.arvalid]
    exact fun hwa => (hinv.write hwa).1
  refine ⟨hexcl, awLog_eq es, wLog_eq es, uartWriteLog_eq es, bLog_eq es, arLog_eq es,
    uartReadLog_eq es, rLog_eq es, fun f => exists_responses, fun f => exists_answers, ?_, ?_, ?_, ?_,
    ?_, ?_, ?_⟩
  all_goals rw [hnext]
  · exact hinv.keeps_uartAw
  · exact hinv.keeps_uartW
  · exact hinv.keeps_uartAr
  · exact hinv.withdrawn_of_uartBFire
  · exact hinv.withdrawn_of_uartRFire
  · exact hinv.keeps_b
  · exact hinv.keeps_r

/-- No request, responses accepted. -/
def idle : UartAdapterIn .default where
  awvalid := false
  aw := ⟨0, 0⟩
  wvalid := false
  w := ⟨0, 0⟩
  bready := true
  arvalid := false
  ar := ⟨0, 0⟩
  rready := true
  uartBvalid := false
  uartBresp := 0
  uartRvalid := false
  uartR := ⟨0, 0⟩

/-- Address, data and a read in one cycle; the UART answers the read first, then the write. -/
def crossing : List (UartAdapterIn .default) :=
  [{ idle with
      awvalid := true, aw := ⟨3, 0x0002000C⟩, wvalid := true, w := ⟨0x80, 0b0001⟩, arvalid := true,
      ar := ⟨7, 0x00020014⟩ },
    { idle with uartRvalid := true, uartR := ⟨0x60, 0⟩ },
    idle,
    { idle with uartBvalid := true },
    idle]

theorem uart_adapter_law_crossing :
    uartReadLog crossing = [(⟨7, 0x14⟩, ⟨0x60, 0⟩)] ∧ rLog crossing = [(7, ⟨0x60, 0⟩)] ∧
      uartWriteLog crossing = [(⟨3, 0x0C⟩, ⟨0x80, 0b0001⟩, 0)] ∧ bLog crossing = [(3, 0)] ∧
      UartAdapterLaw crossing idle :=
  ⟨by decide, by decide, by decide, by decide, uart_adapter_law crossing idle⟩

end UartAdapter

end PacketBuffering
