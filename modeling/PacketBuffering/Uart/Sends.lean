import PacketBuffering.Uart.Core

/-!
# What the UART sends

The bytes written to `THR` on their way through the register interface, the transmit FIFO, the controller
and the transmitter to the line, and back through a receiver.

* `UartTx.Rest`, `UartLink.Rest`: nothing is on the line, whatever the configuration.
* `UartCore.Untouched`: no byte has been written; `UartCore.Steady`: the configuration stays.
* **`uart_core_sends`**: the bytes written are sent, each within a bounded time, but for the first write.
* **`uart_core_loopback`**: they are received if the line leads back to the UART.
-/

namespace PacketBuffering

/-! ## The serial side at rest -/

section Rest

variable {w : ℕ} {c : UartConfig w}

/-- No frame is under way. -/
def UartTx.Rest (s : UartTx w) : Prop :=
  s.tx = true ∧ (s.state = .reset ∨ s.state = .idle ∧ s.txSampleResetInt = true)

namespace UartTx

variable {s : UartTx w} {i : TxIn}

theorem Rest.inv (h : s.Rest) : s.Inv c := by
  rcases h.2 with hstate | ⟨hstate, hreset⟩
  · rw [Inv, hstate]
    exact h.1
  · rw [Inv, hstate]
    exact ⟨h.1, hreset⟩

theorem Rest.sending (h : s.Rest) : s.sending = false := by
  rcases h.2 with hstate | ⟨hstate, -⟩ <;> simp [UartTx.sending, hstate]

theorem Rest.held (h : s.Rest) : s.held c = [] := by
  rw [UartTx.held, if_neg]
  simp [h.sending]

theorem Rest.clock (h : s.Rest) (hsend : i.txSend = false) : (s.clock c i).Rest := by
  obtain ⟨htx, hstate | ⟨hstate, hreset⟩⟩ := h
  · rw [UartTx.clock, next, hstate]
    exact ⟨rfl, .inr ⟨rfl, rfl⟩⟩
  · rw [UartTx.clock, next, hstate]
    simp [Rest, clockIdle, hsend, htx, hstate, hreset]

end UartTx

/-- The receiver has seen nothing but ones for a while. -/
structure UartRx.Rest (s : UartRx w) : Prop where
  trigger : s.rxTriggerInt = 0b111
  core : s.core.state = .reset ∨ s.core.state = .idle
  valid : s.core.rxValid = false

theorem UartRx.Rest.clock {s : UartRx w} (h : s.Rest) (en : Bool) : (s.clock c en true).Rest := by
  obtain ⟨htrigger, hcore, hvalid⟩ := h
  have hsync : (s.rxTriggerInt <<< 1) ||| (if true then 1 else 0 : BitVec 3) = 0b111 := by
    rw [htrigger]
    decide
  have hone : s.rxTriggerInt.getLsbD 2 = true := by
    rw [htrigger]
    decide
  refine ⟨hsync, ?_, ?_⟩
  · show (s.core.clock c en _).state = _ ∨ (s.core.clock c en _).state = _
    unfold RxCore.clock
    rcases hcore with hstate | hstate <;> simp [hstate, hone]
  · show (s.core.clock c en _).rxValid = _
    unfold RxCore.clock
    rcases hcore with hstate | hstate <;> simp [hstate]

theorem UartLink.quiet_of_rest {tx : UartTx w} {rx : UartRx w} (htx : tx.Rest) (hrx : rx.Rest) :
    UartLink.Quiet c ⟨tx, rx⟩ := by
  refine ⟨htx.inv, htx.sending, ?_, hrx.core, hrx.valid⟩
  rw [UartLink.late, hrx.trigger]
  decide

end Rest

namespace UartCore

variable {a : ℕ} {s : UartCore a} {i : UartCoreIn}

/-! ## Before the first byte -/

/-- No byte has been written. -/
structure Untouched (s : UartCore a) : Prop where
  inv : s.WriteInv
  words : s.path.fifo.words = []
  pending : s.pending = []
  ctl : s.path.ctl.state ≠ .send
  tx : s.path.tx.Rest
  div : s.uart.wr.state ≠ .ack → s.uart.wr.baudrateDivisor = s.uart.wr.uartBaudrateDiv

theorem untouched_reset (txMem rxMem : BitVec a → BitVec 8) : Untouched (reset txMem rxMem) where
  inv := .reset txMem rxMem
  words := InternalFifo.words_eq (InternalFifo.holds_reset txMem)
  pending := rfl
  ctl := fun h => nomatch h
  tx := ⟨rfl, .inl rfl⟩
  div := fun _ => rfl

theorem Untouched.idle (h : s.Untouched) :
    s.path.ctl.txSendInt = false ∧ s.path.ctl.txPullInt = false := by
  cases h.inv.path.phase with
  | boot ctl tx =>
    rw [ctl]
    exact ⟨rfl, rfl⟩
  | idle ctl send pull tx busy => exact ⟨send, pull⟩
  | start ctl | sending ctl | done ctl => exact absurd ctl h.ctl

/-- **A cycle without a byte written.** -/
theorem untouched_clock (h : s.Untouched) (hnone : (s.writes i).reduceOption = []) :
    (s.clock i).Untouched := by
  obtain ⟨hsend, hpull⟩ := h.idle
  refine ⟨h.inv.clock, ?_, ?_, ?_, h.tx.clock hsend, (config_clock h.div).1⟩
  · have hwords : (s.clock i).path.fifo.words = _ := TxPath.words_clock h.inv.path.holds h.inv.room
    rw [hwords, hpull, WriteInv.pushes_eq, h.pending, h.words]
    rfl
  · rw [h.inv.pending_clock, accepted, hnone, ite_self]
  · have hload : s.path.fifo.load = false := by
      rw [InternalFifo.load_eq h.inv.path.holds, h.words]
      rfl
    show (s.path.ctl.clock _ _ _ _).state ≠ _
    unfold TxController.clock
    cases hstate : s.path.ctl.state with
    | reset => simp
    | idle => simp [hload, hstate]
    | send => exact absurd hstate h.ctl

/-! ## While the configuration stays -/

/-- The configuration is `c`, and no write to it is under way. -/
structure Steady (c : UartConfig 32) (s : UartCore a) : Prop where
  inv : s.WriteInv
  tx : s.path.tx.Inv c
  config : s.uart.wr.config = c
  boot : s.uart.wr.state ≠ .reset
  div : s.uart.wr.baudrateDivisor = s.uart.wr.uartBaudrateDiv

variable {c : UartConfig 32}

theorem steady_clock (h : s.Steady c) (hdiv : c.parityBit = true → c.baudDiv ≠ 0) (hset : ¬ s.Reconfigures i) :
    (s.clock i).Steady c := by
  obtain ⟨hconfig, hdiv'⟩ := (config_clock fun _ => h.div).2 h.boot h.div hset
  have htx : (s.clock i).path.tx = s.path.tx.clock c s.path.txIn := by
    rw [← h.config]
    rfl
  refine ⟨h.inv.clock, ?_, hconfig.trans h.config, ?_, hdiv'⟩
  · rw [htx]
    exact (UartTx.inv_pass hdiv h.tx).1
  · obtain ⟨-, -, h', -⟩ | ⟨-, -, h', -⟩ | ⟨-, -, h', -⟩ | ⟨-, -, h', -⟩ | ⟨-, -, -, h', -⟩ := wr_cases s i <;>
      simp [h']

theorem Steady.path_clock (h : s.Steady c) : (s.clock i).path = s.path.clock c s.pathIn := by
  rw [← h.config]
  rfl

section Run

variable (hdiv : c.parityBit = true → c.baudDiv ≠ 0) {is is' : List UartCoreIn}
include hdiv

/-- **The bytes accepted are taken**, each within a bounded time. -/
theorem Steady.taken (h : s.Steady c) (hwords : s.path.fifo.words = []) (hpending : s.pending = [])
    (hset : Along clock (fun s i => ¬ s.Reconfigures i) s (is ++ is'))
    (hlen : 2 ^ a * TxPath.byteTime c + 1 ≤ is'.length) :
    log clock accepted s is <+: log clock takes s (is ++ is') ∧
      log clock takes s (is ++ is') <+: log clock accepted s (is ++ is') := by
  obtain ⟨i, is', rfl⟩ := List.exists_cons_of_ne_nil (List.ne_nil_of_length_pos (by omega : 0 < is'.length))
  rw [List.append_cons] at hset ⊢
  have keep : ∀ (s : UartCore a) i, s.Steady c → ¬ s.Reconfigures i → (s.clock i).Steady c :=
    fun s i h hset => steady_clock h hdiv hset
  have part : ∀ (s : UartCore a) i, s.Steady c → ¬ s.Reconfigures i →
      (s.clock i).path = s.path.clock c s.pathIn := fun s i h _ => h.path_clock
  -- what is on its way to the FIFO was written a cycle ago
  have hpushes : ∀ is i, Along clock (fun s i => ¬ s.Reconfigures i) s is →
      log clock (fun s _ => s.pending) s (is ++ [i]) = log clock accepted s is := by
    intro is i hset
    rw [hset.log_registered (Steady c) keep (fun s i h _ => h.inv.pending_clock) h, hpending, List.nil_append]
  have hpath : ∀ {is} (_ : Along clock (fun s i => ¬ s.Reconfigures i) s is)
      (obs : TxPath a 32 → TxPathIn → List (BitVec 8)),
      log clock (fun s _ => obs s.path s.pathIn) s is =
        log (TxPath.clock c) obs s.path (log clock (fun s _ => [s.pathIn]) s is) :=
    fun hset obs => hset.log_component (Steady c) keep part obs h
  have hroom : Along (TxPath.clock c) TxPath.Room s.path _ :=
    hset.component (Steady c) keep part (fun s i h _ => h.inv.room) h
  rw [log_append] at hroom
  have hcount : (log clock (fun s _ => [s.pathIn]) (run clock s (is ++ [i])) is').length = is'.length :=
    length_log_signal _ is'
  have hserved := (TxPath.drains c hdiv).served (n := 2 ^ a * TxPath.byteTime c) ?_ ⟨h.inv.path, h.tx⟩ hwords
    hroom ?_
  · rw [← log_append, ← hpath hset, ← hpath hset, ← hpath (hset.of_isPrefix (List.prefix_append _ _))] at hserved
    refine ⟨?_, hserved.2.trans ?_⟩
    · rw [← hpushes is i (hset.of_isPrefix ⟨[i] ++ is', by simp⟩)]
      exact hserved.1
    · rw [← hpushes _ i hset]
      exact log_isPrefix _ _ _ (List.prefix_append _ _)
  · rintro t ⟨ht, -⟩
    have hle := ht.holds.le
    have hwait := TxPath.wait_le (c := c) (s := t)
    show t.wait c + (t.fifo.words.length - 1) * TxPath.byteTime c ≤ _
    have hmul := Nat.mul_le_mul_right (TxPath.byteTime c)
      (show t.fifo.words.length - 1 + 1 ≤ 2 ^ a by have := Nat.two_pow_pos a; omega)
    rw [Nat.succ_mul] at hmul
    omega
  · rw [List.length_cons] at hlen
    rw [hcount]
    omega

/-- **The line** shows the frames of the bytes taken. -/
theorem Steady.line_items (h : s.Steady c) (hrest : s.path.tx.Rest)
    (hset : Along clock (fun s i => ¬ s.Reconfigures i) s is) :
    ∃ items : List (List (BitVec 8)), items.flatten = log clock takes s is ∧
      log clock line s is ++ (run clock s is).path.tx.held c =
        items.flatMap fun ds => true :: ds.flatMap (frame c) := by
  have keep : ∀ (s : UartCore a) i, s.Steady c → ¬ s.Reconfigures i → (s.clock i).Steady c :=
    fun s i h hset => steady_clock h hdiv hset
  have part : ∀ (s : UartCore a) i, s.Steady c → ¬ s.Reconfigures i →
      (s.clock i).path.tx = s.path.tx.clock c s.path.txIn := fun s i h _ => by
    rw [h.path_clock]
    rfl
  obtain ⟨es, hes⟩ : ∃ es, log clock (fun s _ => [s.path.txIn]) s is = es := ⟨_, rfl⟩
  have hobs : ∀ {ο : Type} (obs : UartTx 32 → TxIn → List ο),
      log clock (fun s _ => obs s.path.tx s.path.txIn) s is = log (UartTx.clock c) obs s.path.tx es := by
    intro ο obs
    rw [← hes]
    exact hset.log_component (Steady c) keep part obs h
  have hrun : (run clock s is).path.tx = run (UartTx.clock c) s.path.tx es := by
    rw [← hes]
    exact @Along.run_component _ _ clock _ _ _ (UartTx.clock c) (fun s => s.path.tx) (fun s _ => s.path.txIn)
      (Steady c) keep part s h is hset
  have hline : log clock line s is = _ := hobs fun t _ => [t.tx]
  have htakes : log clock takes s is = _ := hobs UartTx.takes
  refine ⟨_, (UartLink.log_takes s.path.tx es).symm.trans htakes.symm, ?_⟩
  rw [hline, hrun, UartTx.line_append hdiv h.tx, hrest.held, List.nil_append, UartLink.log_adds]

end Run

/-- The line leads back to the UART. -/
def Looped (s : UartCore a) (i : UartCoreIn) : Prop := i.rx = s.path.tx.tx

/-- Transmitter and receiver. -/
def link (s : UartCore a) : UartLink 32 := ⟨s.path.tx, s.rx⟩

theorem Steady.link_clock (h : s.Steady c) (hloop : s.Looped i) :
    (s.clock i).link = s.link.clock c s.path.txIn := by
  have hrx : (s.clock i).rx = s.rx.clock s.uart.wr.config true s.path.tx.tx := by
    rw [← hloop]
    rfl
  rw [link, hrx, ← h.config]
  rfl

/-- **The bytes taken are received** by the UART itself. -/
theorem Steady.received (h : s.Steady c) (hal : Aligned c) (hquiet : s.link.Quiet c)
    {is is' : List UartCoreIn}
    (hok : Along clock (fun s i => ¬ s.Reconfigures i ∧ s.Looped i) s (is ++ is'))
    (hlen : TxPath.byteTime c ≤ is'.length) :
    log clock takes s is <+: log clock results s (is ++ is') ∧
      log clock results s (is ++ is') <+: log clock takes s (is ++ is') := by
  have keep : ∀ (s : UartCore a) i, s.Steady c → ¬ s.Reconfigures i ∧ s.Looped i → (s.clock i).Steady c :=
    fun s i h hok => steady_clock h (fun _ => hal.baudDiv_ne_zero) hok.1
  have part : ∀ (s : UartCore a) i, s.Steady c → ¬ s.Reconfigures i ∧ s.Looped i →
      (s.clock i).link = s.link.clock c s.path.txIn := fun s i h hok => h.link_clock hok.2
  have hobs : ∀ {is} (_ : Along clock (fun s i => ¬ s.Reconfigures i ∧ s.Looped i) s is)
      (obs : UartLink 32 → TxIn → List (BitVec 8)),
      log clock (fun s _ => obs s.link s.path.txIn) s is =
        log (UartLink.clock c) obs s.link (log clock (fun s _ => [s.path.txIn]) s is) :=
    fun hok obs => hok.log_component (Steady c) keep part obs h
  have htakes : ∀ {is} (_ : Along clock (fun s i => ¬ s.Reconfigures i ∧ s.Looped i) s is),
      log clock takes s is = _ := fun hok => hobs hok fun s i => s.tx.takes i
  have hresults : log clock results s (is ++ is') = _ := hobs hok UartLink.results
  have hen : ∀ j ∈ log clock (fun s _ => [s.path.txIn]) s (is ++ is'), j.en = true := by
    refine (along_true clock s (is ++ is')).forall_mem_log fun s i _ j hj => ?_
    rw [List.mem_singleton.mp hj]
    rfl
  have hcount : (log clock (fun s _ => [s.path.txIn]) (run clock s is) is').length = is'.length :=
    length_log_signal _ is'
  rw [htakes (hok.of_isPrefix (List.prefix_append _ _)), htakes hok, hresults]
  rw [log_append] at hen ⊢
  exact hquiet.received hal hen (hcount.symm ▸ hlen)

/-! ## From reset on -/

variable {txMem rxMem : BitVec a → BitVec 8} {is₀ is is' : List UartCoreIn}

variable (txMem rxMem) in
/-- The bytes written in a run from reset, but for the first write. -/
def written (is : List UartCoreIn) : List (BitVec 8) :=
  (log clock writes (reset txMem rxMem) is).tail.reduceOption

variable (txMem rxMem is₀ s) in
/-- **A UART that has been set up**: no byte has been written, and the last write is answered. -/
structure SetUp : Prop where
  run : run clock (reset txMem rxMem) is₀ = s
  none : Along clock (fun s i => (s.writes i).reduceOption = []) (reset txMem rxMem) is₀
  idle : s.uart.wr.state = .idle

namespace SetUp

variable (h : SetUp s txMem rxMem is₀)
include h

theorem untouched : s.Untouched := by
  rw [← h.run]
  exact h.none.invariant Untouched (fun _ _ h hnone => untouched_clock h hnone) (untouched_reset txMem rxMem)

theorem steady : s.Steady s.uart.wr.config where
  inv := h.untouched.inv
  tx := h.untouched.tx.inv
  config := rfl
  boot := by simp [h.idle]
  div := h.untouched.div (by simp [h.idle])

theorem written_append (is : List UartCoreIn) :
    written txMem rxMem (is₀ ++ is) = log clock accepted s is := by
  have hnone : log clock accepted (reset txMem rxMem) is₀ = [] := by
    refine h.none.log_eq_nil (fun _ => True) (fun _ _ _ _ => trivial) (fun s i _ hnone => ?_) trivial
    rw [accepted, hnone, ite_self]
  rw [written, ← accepted_log, log_append, hnone, h.run, List.nil_append]

end SetUp

theorem SetUp.rx_rest (h : SetUp s txMem rxMem is₀) (hloop : Along clock Looped (reset txMem rxMem) is₀) :
    s.rx.Rest := by
  have hboth := h.none.and hloop
  have hinv := hboth.invariant (fun s => s.Untouched ∧ s.rx.Rest) ?_
    ⟨untouched_reset txMem rxMem, ⟨rfl, .inl rfl, rfl⟩⟩
  · rw [h.run] at hinv
    exact hinv.2
  · intro s i hs hok
    refine ⟨untouched_clock hs.1 hok.1, ?_⟩
    have hone : i.rx = true := hok.2.trans hs.1.tx.1
    show (s.rx.clock _ true i.rx).Rest
    rw [hone]
    exact hs.2.clock true

end UartCore

open UartCore

variable {a : ℕ} {s : UartCore a} {txMem rxMem : BitVec a → BitVec 8} {is₀ is is' : List UartCoreIn}

/-- **What the UART sends.** Once it has been set up, in every run without further writes to the
configuration, whatever its master and the other line do: the bytes that its transmitter takes are those
written to `THR`, in their order, but for the very first write after reset; each of them is taken within a
bounded time; and the line shows their frames, with ones in between. With parity the divisor must not be
zero. -/
theorem uart_core_sends (h : SetUp s txMem rxMem is₀)
    (hset : Along clock (fun s i => ¬ s.Reconfigures i) s (is ++ is'))
    (hdiv : s.uart.wr.config.parityBit = true → s.uart.wr.config.baudDiv ≠ 0)
    (hlen : 2 ^ a * TxPath.byteTime s.uart.wr.config + 1 ≤ is'.length) :
    written txMem rxMem (is₀ ++ is) <+: log clock takes s (is ++ is') ∧
      log clock takes s (is ++ is') <+: written txMem rxMem (is₀ ++ (is ++ is')) ∧
      ∃ items : List (List (BitVec 8)), items.flatten = log clock takes s (is ++ is') ∧
        log clock line s (is ++ is') ++ (run clock s (is ++ is')).path.tx.held s.uart.wr.config =
          items.flatMap fun ds => true :: ds.flatMap (frame s.uart.wr.config) := by
  obtain ⟨htaken, htaken'⟩ := h.steady.taken hdiv h.untouched.words h.untouched.pending hset hlen
  rw [h.written_append, h.written_append]
  exact ⟨htaken, htaken', h.steady.line_items hdiv h.untouched.tx hset⟩

/-- A cycle with a write. -/
def writeCycle (addr : BitVec 5) (data : BitVec 32) : AxiUartIn := ⟨true, ⟨0, addr⟩, true, data, false, ⟨0, 0⟩⟩

/-- A cycle without a request. -/
def quietCycle : AxiUartIn := ⟨false, ⟨0, 0⟩, false, 0, false, ⟨0, 0⟩⟩

theorem not_reconfigures_of_quiet {i : UartCoreIn} (hi : i.axi = quietCycle) : ¬ s.Reconfigures i := by
  rintro ⟨⟨-, hwren⟩, -⟩
  have hno : (s.writeIn i).wren = false := by
    rw [writeIn, hi]
    rfl
  rw [hno] at hwren
  cases hwren

/-- A UART with the configuration of its reset and FIFOs of four bytes, to which three bytes are written: the
first one is lost. -/
theorem uart_core_sends_two :
    let s : UartCore 2 := run clock (reset (fun _ => 0) fun _ => 0) [⟨quietCycle, true⟩]
    let thr (d : BitVec 32) : List UartCoreIn := [⟨writeCycle 0 d, true⟩, ⟨quietCycle, true⟩]
    let is := thr 0x17 ++ thr 0xa5 ++ thr 0x3c
    [0xa5, 0x3c] <+: log clock takes s (is ++ List.replicate 41725 ⟨quietCycle, true⟩) := by
  intro s thr is
  have hset : Along clock (fun s i => ¬ s.Reconfigures i) s
      (is ++ List.replicate 41725 ⟨quietCycle, true⟩) := by
    rw [along_append]
    refine ⟨by decide +kernel, ?_⟩
    refine (along_of_forall (p := fun i : UartCoreIn => i.axi = quietCycle) _ ?_).mono
      fun s i hi => not_reconfigures_of_quiet hi
    intro i hi
    rw [List.eq_of_mem_replicate hi]
  have hup : SetUp s (fun _ => 0) (fun _ => 0) [⟨quietCycle, true⟩] := ⟨rfl, by decide +kernel, rfl⟩
  have hwritten : written (a := 2) (fun _ => 0) (fun _ => 0) ([⟨quietCycle, true⟩] ++ is) = [0xa5, 0x3c] := by
    decide +kernel
  have hsent := uart_core_sends hup hset (by decide +kernel) (by rw [List.length_replicate]; decide +kernel)
  exact hwritten ▸ hsent.1

/-- **The UART on its own line.** If the line leads back to it, and the samples of its receiver stay within
their bits, the receiver shows the bytes written, in their order, but for the first write after reset, and
each of them within a bounded time. -/
theorem uart_core_loopback (h : SetUp s txMem rxMem is₀)
    (hloop : Along clock Looped (reset txMem rxMem) (is₀ ++ (is ++ is')))
    (hset : Along clock (fun s i => ¬ s.Reconfigures i) s (is ++ is')) (hal : Aligned s.uart.wr.config)
    (hlen : (2 ^ a + 1) * TxPath.byteTime s.uart.wr.config + 1 ≤ is'.length) :
    written txMem rxMem (is₀ ++ is) <+: log clock results s (is ++ is') ∧
      log clock results s (is ++ is') <+: written txMem rxMem (is₀ ++ (is ++ is')) := by
  have hdiv : s.uart.wr.config.parityBit = true → s.uart.wr.config.baudDiv ≠ 0 := fun _ => hal.baudDiv_ne_zero
  rw [along_append, h.run] at hloop
  rw [Nat.succ_mul] at hlen
  have hquiet : s.link.Quiet s.uart.wr.config :=
    UartLink.quiet_of_rest h.untouched.tx (h.rx_rest hloop.1)
  -- first the bytes are taken, then the last of them is received
  obtain ⟨js, ks, rfl, hjs⟩ : ∃ js ks, is' = js ++ ks ∧
      js.length = 2 ^ a * TxPath.byteTime s.uart.wr.config + 1 :=
    ⟨_, _, (List.take_append_drop _ is').symm, List.length_take_of_le (by omega)⟩
  rw [List.length_append] at hlen
  have hall := h.steady.taken hdiv h.untouched.words h.untouched.pending hset
    (by rw [List.length_append]; omega)
  rw [← List.append_assoc] at hset hloop hall ⊢
  have htaken := h.steady.taken hdiv h.untouched.words h.untouched.pending
    (hset.of_isPrefix (List.prefix_append _ _)) hjs.ge
  have hreceived := h.steady.received hal hquiet (hset.and hloop.2) (by omega)
  rw [h.written_append, h.written_append]
  exact ⟨htaken.1.trans hreceived.1, hreceived.2.trans hall.2⟩

/-- The inputs of a UART on its own line. -/
def looped : UartCore a → List AxiUartIn → List UartCoreIn
  | _, [] => []
  | s, i :: is => ⟨i, s.path.tx.tx⟩ :: looped (s.clock ⟨i, s.path.tx.tx⟩) is

theorem along_looped (s : UartCore a) (is : List AxiUartIn) : Along clock Looped s (looped s is) := by
  induction is generalizing s with
  | nil => trivial
  | cons i is ih => exact ⟨rfl, ih _⟩

theorem map_axi_looped (s : UartCore a) (is : List AxiUartIn) : (looped s is).map UartCoreIn.axi = is := by
  induction is generalizing s with
  | nil => rfl
  | cons i is ih => rw [looped, List.map_cons, ih]

/-- The three bytes again: the last two are received. -/
theorem uart_core_loopback_two :
    let s : UartCore 2 := run clock (reset (fun _ => 0) fun _ => 0) [⟨quietCycle, true⟩]
    let is := looped s [writeCycle 0 0x17, quietCycle, writeCycle 0 0xa5, quietCycle, writeCycle 0 0x3c,
      quietCycle]
    let is' := looped (run clock s is) (List.replicate 52156 quietCycle)
    [0xa5, 0x3c] <+: log clock results s (is ++ is') := by
  intro s is is'
  have hloop : Along clock Looped s (is ++ is') :=
    (along_append s is is').mpr ⟨along_looped s _, along_looped _ _⟩
  have hset : Along clock (fun s i => ¬ s.Reconfigures i) s (is ++ is') := by
    rw [along_append]
    refine ⟨by decide +kernel, ?_⟩
    refine (along_of_forall (p := fun i : UartCoreIn => i.axi = quietCycle) _ ?_).mono
      fun s i hi => not_reconfigures_of_quiet hi
    intro i hi
    have hmem := List.mem_map_of_mem (f := UartCoreIn.axi) hi
    rw [map_axi_looped] at hmem
    exact List.eq_of_mem_replicate hmem
  have hcount : is'.length = 52156 := by
    rw [← List.length_map UartCoreIn.axi, map_axi_looped, List.length_replicate]
  have hup : SetUp s (fun _ => 0) (fun _ => 0) [⟨quietCycle, true⟩] := ⟨rfl, by decide +kernel, rfl⟩
  have hwritten : written (a := 2) (fun _ => 0) (fun _ => 0) ([⟨quietCycle, true⟩] ++ is) =
      [0xa5, 0x3c] := by
    decide +kernel
  have hloop' : Along clock Looped (reset (a := 2) (fun _ => 0) fun _ => 0)
      ([⟨quietCycle, true⟩] ++ (is ++ is')) := ⟨rfl, hloop⟩
  have hreceived := uart_core_loopback hup hloop' hset ⟨by decide +kernel, by decide +kernel⟩
    (by rw [hcount]; decide +kernel)
  exact hwritten ▸ hreceived.1

end PacketBuffering
