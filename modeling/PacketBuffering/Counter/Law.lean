import PacketBuffering.Counter.Wrapper

/-!
# The packet counter as a register file

Runs out of reset, with resets in between, for any events and any timing of the master.

* `sinceReset`: the cycles since the last reset; `awLog`, `wLog`, `bLog`, `rLog`: the handshakes in
  them; `writeLog`: the writes executed; `readLog`: the reads, each with its answer.
* `Inv`: a write executes as soon as both halves are there.
* `CounterLaw`, **`counter_law`**: each write and each read is answered once; only writes of `CONTROL`
  have an effect, and each counter shows the enabled events since the last reset or clear.
-/

namespace PacketBuffering

/-- The inputs of a cycle without its read channel. -/
def CounterIn.writeSide (i : CounterIn) : CounterIn :=
  { i with axi := { i.axi with arvalid := false, araddr := 0, rready := false } }

namespace CounterWrapper

variable {w : ℕ} {s : CounterWrapper w}

/-! ## One cycle -/

section Observers

variable (s : CounterWrapper w) (i : AxiLiteIn)

/-- The write addresses accepted in a cycle. -/
def aws : List (BitVec 32) := if s.awHandshake i then [i.awaddr] else []

/-- The write data accepted in a cycle, with the strobes. -/
def ws : List (BitVec 32 × BitVec 4) := if s.wHandshake i then [(i.wdata, i.wstrb)] else []

/-- The write responses handed over in a cycle. -/
def bs : List (BitVec 2) := if s.bHandshake i then [s.bresp] else []

/-- The read answers handed over in a cycle. -/
def rs : List (BitVec 32 × BitVec 2) := if s.rHandshake i then [(s.rdata, s.rresp)] else []

/-- The write that a cycle executes. -/
def writes : List CounterWrite := if s.writeComplete i then [s.write i] else []

/-- The read that a cycle answers, with the answer. -/
def reads : List (BitVec 32 × BitVec 32 × BitVec 2) :=
  if s.arHandshake i then [(i.araddr, s.answer i.araddr)] else []

/-- The write address held. -/
def heldAw : List (BitVec 32) := if s.awPending then [s.awaddrHold] else []

/-- The write data held. -/
def heldW : List (BitVec 32 × BitVec 4) := if s.wPending then [(s.wdataHold, s.wstrbHold)] else []

/-- The write response that waits. -/
def heldB : List (BitVec 2) := if s.bvalid then [s.bresp] else []

/-- The read answer that waits. -/
def heldR : List (BitVec 32 × BitVec 2) := if s.rvalid then [(s.rdata, s.rresp)] else []

/-- The clear of the counters. -/
def pulse : List Unit := if s.clearPulse then [()] else []

end Observers

/-- **The invariant.** At most one half of a write waits, and none while a response is open. -/
structure Inv (s : CounterWrapper w) : Prop where
  half : s.awPending = true → s.wPending = false
  response : s.bvalid = true → s.awPending = false ∧ s.wPending = false

theorem Inv.reset : Inv (reset w) := ⟨nofun, nofun⟩

variable {i : AxiLiteIn} {e : PacketEvents}

theorem closed_of_bvalid (hb : s.bvalid = true) :
    s.awHandshake i = false ∧ s.wHandshake i = false ∧ s.writeComplete i = false := by
  simp [awHandshake, wHandshake, awready, wready, writeComplete, hb]

theorem writeComplete_eq (hb : s.bvalid = false) :
    s.writeComplete i = ((s.awPending || i.awvalid) && (s.wPending || i.wvalid)) := by
  simp only [writeComplete, awHandshake, wHandshake, awready, wready, hb]
  cases s.awPending <;> cases s.wPending <;> simp

theorem Inv.next (h : Inv s) : Inv (s.next i e) where
  half := by
    cases hb : s.bvalid with
    | true =>
      obtain ⟨haw, hw, hc⟩ := closed_of_bvalid (i := i) hb
      simp [CounterWrapper.next, haw, hw, hc, (h.response hb).1]
    | false =>
      have hhalf := h.half
      simp only [CounterWrapper.next, writeComplete_eq hb, awHandshake, wHandshake, awready, wready,
        hb]
      grind
  response := by
    cases hb : s.bvalid with
    | true =>
      obtain ⟨haw, hw, hc⟩ := closed_of_bvalid (i := i) hb
      simp [CounterWrapper.next, haw, hw, hc, h.response hb]
    | false =>
      cases hc : s.writeComplete i with
      | true => simp [CounterWrapper.next, hc]
      | false => simp [CounterWrapper.next, bHandshake, hb, hc]

theorem aws_append : (s.writes i).map CounterWrite.addr ++ (s.next i e).heldAw =
    s.heldAw ++ s.aws i := by
  cases hp : s.awPending with
  | true =>
    have haw : s.awHandshake i = false := by simp [awHandshake, awready, hp]
    cases hc : s.writeComplete i <;>
      simp [writes, write, aws, heldAw, CounterWrapper.next, haw, hc, hp]
  | false =>
    cases haw : s.awHandshake i with
    | true =>
      cases hc : s.writeComplete i <;>
        simp [writes, write, aws, heldAw, CounterWrapper.next, haw, hc, hp]
    | false =>
      have hc : s.writeComplete i = false := by simp [writeComplete, haw, hp]
      simp [writes, aws, heldAw, CounterWrapper.next, haw, hc, hp]

theorem ws_append :
    (s.writes i).map (fun x => (x.data, x.strb)) ++ (s.next i e).heldW = s.heldW ++ s.ws i := by
  cases hp : s.wPending with
  | true =>
    have hw : s.wHandshake i = false := by simp [wHandshake, wready, hp]
    cases hc : s.writeComplete i <;>
      simp [writes, write, ws, heldW, CounterWrapper.next, hw, hc, hp]
  | false =>
    cases hw : s.wHandshake i with
    | true =>
      cases hc : s.writeComplete i <;>
        simp [writes, write, ws, heldW, CounterWrapper.next, hw, hc, hp]
    | false =>
      have hc : s.writeComplete i = false := by simp [writeComplete, hw, hp]
      simp [writes, ws, heldW, CounterWrapper.next, hw, hc, hp]

theorem bs_append : s.bs i ++ (s.next i e).heldB = s.heldB ++ (s.writes i).map CounterWrite.resp := by
  cases hb : s.bvalid with
  | true =>
    obtain ⟨-, -, hc⟩ := closed_of_bvalid (i := i) hb
    cases hr : i.bready <;> simp [bs, heldB, writes, CounterWrapper.next, bHandshake, hb, hc, hr]
  | false =>
    cases hc : s.writeComplete i <;>
      simp [bs, heldB, writes, CounterWrapper.next, bHandshake, hb, hc]

theorem keeps_b :
    Keeps (owed s.bvalid i.bready s.bresp) (s.next i e).bvalid (s.next i e).bresp := by
  cases hb : s.bvalid with
  | false => simp
  | true =>
    obtain ⟨-, -, hc⟩ := closed_of_bvalid (i := i) hb
    cases hr : i.bready <;> simp [CounterWrapper.next, bHandshake, hb, hc, hr]

theorem rs_append : s.rs i ++ (s.next i e).heldR = s.heldR ++ (s.reads i).map Prod.snd := by
  cases hv : s.rvalid with
  | true =>
    have har : s.arHandshake i = false := by simp [arHandshake, arready, hv]
    cases hr : i.rready <;> simp [rs, heldR, reads, CounterWrapper.next, rHandshake, hv, har, hr]
  | false =>
    cases har : s.arHandshake i <;>
      simp [rs, heldR, reads, CounterWrapper.next, rHandshake, hv, har]

theorem keeps_r : Keeps (owed s.rvalid i.rready (s.rdata, s.rresp)) (s.next i e).rvalid
    ((s.next i e).rdata, (s.next i e).rresp) := by
  cases hv : s.rvalid with
  | false => simp
  | true =>
    have har : s.arHandshake i = false := by simp [arHandshake, arready, hv]
    cases hr : i.rready <;> simp [CounterWrapper.next, rHandshake, hv, har, hr]

/-- The enable bit follows the writes. -/
def setEnable (enable : Bool) (x : CounterWrite) : Bool :=
  if x.setsEnable then x.data.getLsbD 0 else enable

theorem enableReg_next :
    (s.next i e).enableReg = (s.writes i).foldl setEnable s.enableReg := by
  cases hc : s.writeComplete i <;> simp [writes, setEnable, CounterWrapper.next, hc]

theorem pulse_next : (s.next i e).pulse = ((s.writes i).filter CounterWrite.clears).map fun _ => () := by
  cases hc : s.writeComplete i with
  | false => simp [writes, pulse, CounterWrapper.next, hc]
  | true => cases hx : (s.write i).clears <;> simp [writes, pulse, CounterWrapper.next, hc, hx]

/-! ## Runs -/

/-- The cycles since the last reset. -/
def sinceReset (es : List CounterIn) : List CounterIn := es.rtakeWhile CounterIn.aresetn

variable {es : List CounterIn}

theorem aresetn_of_mem (es : List CounterIn) : ∀ i ∈ sinceReset es, i.aresetn = true :=
  fun _ hi => List.mem_rtakeWhile_imp hi

theorem clock_of_aresetn {i : CounterIn} (h : i.aresetn = true) :
    s.clock i = s.next i.axi i.events := by
  rw [clock, if_pos h]

variable (w) in
theorem run_sinceReset (es : List CounterIn) :
    run clock (reset w) es = run clock (reset w) (sinceReset es) := by
  induction es using List.reverseRecOn with
  | nil => rfl
  | append_singleton es i ih =>
    cases hi : i.aresetn with
    | true =>
      rw [sinceReset, List.rtakeWhile_concat_pos _ _ _ hi, run_append, run_append, ih]
      rfl
    | false =>
      rw [sinceReset, List.rtakeWhile_concat_neg _ _ _ (by simp [hi]), run_append, run_cons, clock,
        if_neg (by simp [hi]), run_nil]

section Logs

variable (w) (es : List CounterIn)

/-- The state after a run. -/
abbrev after : CounterWrapper w := run clock (reset w) es

/-- The write addresses accepted since the last reset. -/
def awLog : List (BitVec 32) := log clock (fun s i => s.aws i.axi) (reset w) (sinceReset es)

/-- The write data accepted since the last reset. -/
def wLog : List (BitVec 32 × BitVec 4) :=
  log clock (fun s i => s.ws i.axi) (reset w) (sinceReset es)

/-- The write responses since the last reset. -/
def bLog : List (BitVec 2) := log clock (fun s i => s.bs i.axi) (reset w) (sinceReset es)

/-- The read answers since the last reset. -/
def rLog : List (BitVec 32 × BitVec 2) :=
  log clock (fun s i => s.rs i.axi) (reset w) (sinceReset es)

/-- The writes executed since the last reset. -/
def writeLog : List CounterWrite := log clock (fun s i => s.writes i.axi) (reset w) (sinceReset es)

/-- The reads answered since the last reset. -/
def readLog : List (BitVec 32 × BitVec 32 × BitVec 2) :=
  log clock (fun s i => s.reads i.axi) (reset w) (sinceReset es)

/-- The clear cycles since the last reset. -/
def clearLog : List Unit := log clock (fun s _ => s.pulse) (reset w) (sinceReset es)

/-- The cycles of a run, for one of the counters: is it a reset or clear cycle, and is its event seen
while the enable register is set? -/
def ticks (k : PacketStat) : List (Bool × Bool) :=
  log clock (fun s i => [(!i.aresetn || s.clearPulse, s.enableReg && i.events.of k)]) (reset w) es

/-- The enabled events since the last reset or clear cycle. -/
def eventCount (k : PacketStat) : ℕ :=
  ((ticks w es k).rtakeWhile fun t => !t.1).countP Prod.snd

end Logs

theorem along_sinceReset (es : List CounterIn) :
    Along clock (fun _ i => i.aresetn = true) (reset w) (sinceReset es) :=
  along_of_forall _ (aresetn_of_mem es)

theorem log_held {ο : Type*} {held : CounterWrapper w → List ο}
    {out inp : CounterWrapper w → AxiLiteIn → List ο}
    (pass : ∀ s i e, out s i ++ held (s.next i e) = held s ++ inp s i)
    (h₀ : held (reset w) = []) (es : List CounterIn) :
    log clock (fun s i => out s i.axi) (reset w) (sinceReset es) ++ held (after w es) =
      log clock (fun s i => inp s i.axi) (reset w) (sinceReset es) := by
  have hpass : ∀ (s : CounterWrapper w) (i : CounterIn), True → i.aresetn = true →
      out s i.axi ++ held (s.clock i) = held s ++ inp s i.axi := by
    intro s i _ hi
    rw [clock_of_aresetn hi]
    exact pass s i.axi i.events
  have hbuf := (along_sinceReset es).log_buffer (fun _ => True) held (fun _ _ _ _ => trivial) hpass
    trivial
  rwa [h₀, List.nil_append, ← run_sinceReset] at hbuf

theorem inv_of_run (es : List CounterIn) : Inv (after w es) := by
  rw [after, run_sinceReset]
  refine (along_sinceReset es).invariant Inv (fun s i h hi => ?_) Inv.reset
  rw [clock_of_aresetn hi]
  exact h.next

theorem Inv.paired (h : Inv s) : s.heldAw = [] ∨ s.heldW = [] := by
  cases hp : s.awPending with
  | false => exact .inl (by simp [heldAw, hp])
  | true => exact .inr (by simp [heldW, h.half hp])

theorem enableReg_eq (es : List CounterIn) :
    (after w es).enableReg = (writeLog w es).foldl setEnable false := by
  rw [after, run_sinceReset, writeLog]
  refine (along_sinceReset es).run_eq_foldl (fun _ => True) (fun _ _ _ _ => trivial) ?_ trivial
  intro s i _ hi
  rw [clock_of_aresetn hi]
  exact enableReg_next

theorem clearLog_eq (es : List CounterIn) : clearLog w es ++ (after w es).pulse =
    ((writeLog w es).filter CounterWrite.clears).map fun _ => () := by
  have hpulse : ∀ (s : CounterWrapper w) i e, s.pulse ++ (s.next i e).pulse =
      s.pulse ++ ((s.writes i).filter CounterWrite.clears).map fun _ => () := by
    intro s i e
    rw [pulse_next]
  have hlog := log_held hpulse rfl es
  rw [log_hom clock (fun s i => s.writes i.axi)
    (f := fun l => (l.filter CounterWrite.clears).map fun _ => ()) rfl (by simp)] at hlog
  exact hlog

theorem count_eq (es : List CounterIn) (k : PacketStat) :
    (after w es).core.of k = BitVec.ofNat w (eventCount w es k) := by
  let count : CounterWrapper w → BitVec w := fun s => s.core.of k
  have hstep : ∀ (s : CounterWrapper w) (i : CounterIn), count (s.clock i) =
      if !i.aresetn || s.clearPulse then 0
      else if s.enableReg && i.events.of k then count s + 1 else count s := by
    intro s i
    cases hi : i.aresetn with
    | true =>
      rw [clock_of_aresetn hi]
      exact s.core.clock_of _ _ _ k
    | false =>
      rw [clock, if_neg (by simp [hi])]
      cases k <;> rfl
  have h₀ : count (reset w) = 0 := by cases k <;> rfl
  exact run_eq_countP hstep h₀ es

/-- The registers without those of the read channel. -/
def writePart (s : CounterWrapper w) : CounterWrapper w :=
  { s with rdata := 0, rresp := 0, rvalid := false }

theorem writePart_clock (s : CounterWrapper w) (i : CounterIn) :
    (s.clock i).writePart = (s.writePart.clock i.writeSide).writePart := by
  cases hi : i.aresetn <;> simp only [clock, CounterIn.writeSide, hi] <;> rfl

theorem writePart_congr {es es' : List CounterIn}
    (h : es'.map CounterIn.writeSide = es.map CounterIn.writeSide) :
    (after w es').writePart = (after w es).writePart := by
  refine run_part_congr (fun s s' i i' hs hi => ?_) rfl h
  rw [writePart_clock s, writePart_clock s', hs, hi]

/-! ## The law -/

/-- **The register file of the packet counter**, after the cycles `es`, and in the next one, with the
inputs `i`. -/
structure CounterLaw (w : ℕ) (es : List CounterIn) (i : CounterIn) : Prop where
  /-- Addresses and data are paired in order, and a pair is executed as soon as it is complete. -/
  addresses : (writeLog w es).map CounterWrite.addr ++ (after w es).heldAw = awLog w es
  data : (writeLog w es).map (fun x => (x.data, x.strb)) ++ (after w es).heldW = wLog w es
  paired : (after w es).heldAw = [] ∨ (after w es).heldW = []
  /-- Each pair has one response and each read one answer, which stay until they are accepted. -/
  bs : bLog w es ++ (after w es).heldB = (writeLog w es).map CounterWrite.resp
  rs : rLog w es ++ (after w es).heldR = (readLog w es).map Prod.snd
  keepsB : i.aresetn = true → Keeps (owed (after w es).bvalid i.axi.bready (after w es).bresp)
    (after w (es ++ [i])).bvalid (after w (es ++ [i])).bresp
  keepsR : i.aresetn = true →
    Keeps (owed (after w es).rvalid i.axi.rready ((after w es).rdata, (after w es).rresp))
      (after w (es ++ [i])).rvalid ((after w (es ++ [i])).rdata, (after w (es ++ [i])).rresp)
  /-- The writes set the enable register in order, and clear once each; an error does neither. -/
  enable : (after w es).enableReg = (writeLog w es).foldl setEnable false
  clear : clearLog w es ++ (after w es).pulse =
    ((writeLog w es).filter CounterWrite.clears).map fun _ => ()
  error : ∀ x ∈ writeLog w es, x.resp ≠ axiRespOkay → x.setsEnable = false ∧ x.clears = false
  /-- Reads change nothing. -/
  reads : ∀ es', es'.map CounterIn.writeSide = es.map CounterIn.writeSide →
    (after w es').enableReg = (after w es).enableReg ∧ (after w es').core = (after w es).core
  /-- Each counter shows the enabled events since the last reset or clear cycle. -/
  counts : ∀ k, (after w es).core.of k = BitVec.ofNat w (eventCount w es k)

/-- **The packet counter is a register file**, for any width, any events, any resets and any timing of
the master. -/
theorem counter_law (w : ℕ) (es : List CounterIn) (i : CounterIn) : CounterLaw w es i := by
  have hnext : i.aresetn = true → after w (es ++ [i]) = (after w es).next i.axi i.events := by
    intro hi
    rw [after, run_snoc, clock_of_aresetn hi]
  refine ⟨?_, ?_, (inv_of_run es).paired, ?_, ?_, ?_, ?_, enableReg_eq es, clearLog_eq es, ?_, ?_,
    count_eq es⟩
  · rw [writeLog, ← log_map]
    exact log_held (fun s i e => aws_append) rfl es
  · rw [writeLog, ← log_map]
    exact log_held (fun s i e => ws_append) rfl es
  · rw [writeLog, ← log_map]
    exact log_held (fun s i e => bs_append) rfl es
  · rw [readLog, ← log_map]
    exact log_held (fun s i e => rs_append) rfl es
  · intro hi
    rw [hnext hi]
    exact keeps_b
  · intro hi
    rw [hnext hi]
    exact keeps_r
  · intro x _ hx
    have hno : x.isControl = false := by
      by_contra hc
      rw [Bool.not_eq_false] at hc
      exact hx (by rw [CounterWrite.resp, if_pos hc])
    simp [CounterWrite.setsEnable, CounterWrite.clears, hno]
  · intro es' hes
    have hpart := writePart_congr (w := w) hes
    have henable := congrArg enableReg hpart
    have hcore := congrArg core hpart
    exact ⟨henable, hcore⟩

/-- An enable write whose data come first, three received packets in the cycles behind it, a clear in
the last of them, and one more packet. -/
def clearRun : List CounterIn :=
  let quiet : PacketEvents := ⟨false, false, false, false⟩
  let packet : PacketEvents := ⟨true, false, false, false⟩
  let idle : AxiLiteIn := { AxiLiteIn.idle with bready := true }
  [⟨true, { idle with wvalid := true, wdata := 1, wstrb := 0b0001 }, quiet⟩,
    ⟨true, { idle with awvalid := true }, quiet⟩,
    ⟨true, idle, packet⟩,
    ⟨true, { idle with arvalid := true, araddr := 0x08, rready := true }, packet⟩,
    ⟨true, { idle with
      awvalid := true, wvalid := true, wdata := 3, wstrb := 0b0001, rready := true }, packet⟩,
    ⟨true, idle, packet⟩,
    ⟨true, idle, packet⟩]

theorem counter_law_clear : rLog 8 clearRun = [(1, 0)] ∧ bLog 8 clearRun = [0, 0] ∧
    (after 8 clearRun).core.receivedCount = 1 ∧ eventCount 8 clearRun .received = 1 ∧
    CounterLaw 8 clearRun ⟨true, .idle, ⟨false, false, false, false⟩⟩ :=
  ⟨by decide, by decide, by decide, by decide, counter_law 8 clearRun _⟩

end CounterWrapper

end PacketBuffering
