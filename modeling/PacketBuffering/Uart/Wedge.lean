import PacketBuffering.Uart.AdapterLaw
import PacketBuffering.Uart.Top

/-!
# Reads through the UART bridge

The adapter holds a read until the UART answers it, and the UART answers only the registers it knows.

* `Served`: the read that is acknowledged is answered in the same cycle.
* `BridgeInv`: the UART acknowledges only the read that the adapter holds, and answers it if the
  register can be read.
* **`reads_served_iff`**: every read is served iff the UART is never asked for another register.
* `Wedged`, **`Wedged.run`**: after such a read the bridge accepts nothing any more.
-/

namespace PacketBuffering

/-- The registers that the UART answers a read of. -/
def Readable (addr : BitVec 5) : Prop :=
  uartOffset addr = UartOffset.rbr ∨ uartOffset addr = UartOffset.lsr

instance (addr : BitVec 5) : Decidable (Readable addr) := inferInstanceAs (Decidable (_ ∨ _))

namespace UartReader

variable {s : UartReader} {i : UartReadIn}

theorem clock_of_idle (hs : s.state = .idle) (hi : i.arvalid = true) :
    (s.clock i).state = .ack ∧ ((s.clock i).rvalid = true ↔ Readable i.ar.addr) := by
  simp only [clock, next, hs, hi, if_true, decode, Readable]
  split_ifs <;> simp [*]

theorem clock_of_quiet (h : s.state = .idle → i.arvalid = false) :
    (s.clock i).state ≠ .ack ∧ (s.clock i).rvalid = false ∧ (s.clock i).arready = false := by
  cases hs : s.state with
  | idle => simp [clock, next, hs, h hs]
  | reset | config | ack => simp [clock, next, hs]

end UartReader

namespace UartBridge

variable {p : UartBridge} {i : UartBridgeIn}

/-- The UART acknowledges the read that the adapter waits for. -/
def Serving (p : UartBridge) : Prop := p.adapter.readActive = true ∧ p.uart.rd.state = .ack

/-- **Then it answers it**, and the adapter does not wait for it any more. -/
def Served (p : UartBridge) : Prop :=
  p.Serving → p.uartRvalid = true ∧ ∀ i, (p.clock i).adapter.readActive = false

/-- The UART is asked only for registers that it answers. -/
def Decodes (p : UartBridge) : Prop :=
  p.uart.rd.state = .idle → p.adapter.uartArvalid = true → Readable p.adapter.uartReadAddr

instance (p : UartBridge) : Decidable p.Decodes := inferInstanceAs (Decidable (_ → _))

/-- **The invariant.** -/
structure BridgeInv (p : UartBridge) : Prop where
  adapter : p.adapter.Inv
  sync : p.uart.rd.syncRden = false
  serving : p.uart.rd.state = .ack → p.adapter.readActive = true ∧
    (p.uart.rd.rvalid = true ↔ Readable p.adapter.uartReadAddr)
  quiet : p.uart.rd.state ≠ .ack → p.uart.rd.rvalid = false ∧ p.uart.rd.arready = false

theorem BridgeInv.reset : BridgeInv reset := ⟨.reset, rfl, nofun, fun _ => ⟨rfl, rfl⟩⟩

theorem BridgeInv.uartRvalid_eq (h : BridgeInv p) (hra : p.adapter.readActive = true) :
    p.uartRvalid = p.uart.rd.rvalid := by
  rw [uartRvalid, UartReader.rvalidO, h.adapter.arvalid, hra, h.sync]
  rfl

theorem BridgeInv.adapter_clock (h : BridgeInv p) (hra : p.adapter.readActive = true) :
    (p.clock i).adapter.readActive = (!p.uart.rd.rvalid) ∧
      (p.clock i).adapter.uartReadAddr = p.adapter.uartReadAddr := by
  have hreading : p.adapter.Reading := ⟨h.adapter, hra⟩
  have hf : p.adapter.arFire (p.adapterIn i) = false := by
    simp [UartAdapter.arFire, UartAdapter.arready, hra]
  refine ⟨?_, by simp [clock, UartAdapter.clock, hf]⟩
  rw [← h.uartRvalid_eq hra]
  exact hreading.clock.1

theorem idle_of_ack (hack : (p.clock i).uart.rd.state = .ack) :
    p.uart.rd.state = .idle ∧ p.adapter.uartArvalid = true := by
  by_contra hno
  rw [not_and, Bool.not_eq_true] at hno
  exact (UartReader.clock_of_quiet (i := p.uart.readIn p.uartIn i.status) hno).1 hack

theorem ack_of_idle (hs : p.uart.rd.state = .idle) (har : p.adapter.uartArvalid = true) :
    (p.clock i).uart.rd.state = .ack ∧
      ((p.clock i).uart.rd.rvalid = true ↔ Readable p.adapter.uartReadAddr) :=
  UartReader.clock_of_idle (i := p.uart.readIn p.uartIn i.status) hs har

theorem BridgeInv.clock (h : BridgeInv p) : BridgeInv (p.clock i) where
  adapter := h.adapter.clock
  sync := by
    show p.uart.rd.syncRdenNext _ = false
    rw [UartReader.syncRdenNext, h.sync]
    by_cases hs : p.uart.rd.state = .ack
    · have hra : p.adapter.uartArvalid = true := h.adapter.arvalid.trans (h.serving hs).1
      simp [AxiUart.readIn, uartIn, hra]
    · simp [(h.quiet hs).2]
  serving := by
    intro hack
    obtain ⟨hs, har⟩ := idle_of_ack hack
    have hrv : p.uart.rd.rvalid = false := (h.quiet (by simp [hs])).1
    obtain ⟨hnext, haddr⟩ := h.adapter_clock (i := i) (h.adapter.arvalid.symm.trans har)
    rw [hnext, haddr, hrv]
    exact ⟨rfl, (ack_of_idle hs har).2⟩
  quiet := by
    intro hno
    refine (UartReader.clock_of_quiet (i := p.uart.readIn p.uartIn i.status) fun hs => ?_).2
    by_contra har
    rw [Bool.not_eq_false] at har
    exact hno (ack_of_idle hs har).1

theorem BridgeInv.served_iff (h : BridgeInv p) :
    p.Served ↔ (p.uart.rd.state = .ack → Readable p.adapter.uartReadAddr) := by
  constructor
  · intro hserved hs
    obtain ⟨hra, hiff⟩ := h.serving hs
    rw [← hiff, ← h.uartRvalid_eq hra]
    exact (hserved ⟨hra, hs⟩).1
  · rintro hread ⟨hra, hs⟩
    have hrv : p.uart.rd.rvalid = true := (h.serving hs).2.mpr (hread hs)
    refine ⟨(h.uartRvalid_eq hra).trans hrv, fun i => ?_⟩
    rw [(h.adapter_clock hra).1, hrv]
    rfl

/-- **One cycle**: the next state is served iff the register that is decoded can be read. -/
theorem BridgeInv.served_clock_iff (h : BridgeInv p) : (p.clock i).Served ↔ p.Decodes := by
  rw [h.clock.served_iff]
  constructor
  · intro hread hs har
    rw [← (h.adapter_clock (i := i) (h.adapter.arvalid.symm.trans har)).2]
    exact hread (ack_of_idle hs har).1
  · intro hdec hack
    obtain ⟨hs, har⟩ := idle_of_ack hack
    rw [(h.adapter_clock (h.adapter.arvalid.symm.trans har)).2]
    exact hdec hs har

/-! ## Runs -/

section Runs

variable {es : List UartBridgeIn}

theorem inv_of_run (es : List UartBridgeIn) : BridgeInv (run clock reset es) :=
  (along_true _ reset es).invariant BridgeInv (fun _ _ h _ => h.clock) BridgeInv.reset

theorem served_of_along (h : Along clock (fun p _ => p.Decodes) reset es) :
    (run clock reset es).Served := by
  induction es using List.reverseRecOn with
  | nil => exact fun hserving => absurd hserving.2 nofun
  | append_singleton es i _ =>
    rw [run_snoc, (inv_of_run es).served_clock_iff]
    exact ((along_append _ es [i]).mp h).2.1

/-- **Every read is served iff the UART is asked only for the registers that it answers.** -/
theorem reads_served_iff (es : List UartBridgeIn) :
    (∀ es', es' <+: es → (run clock reset es').Served) ↔
      Along clock (fun p _ => p.Decodes) reset es := by
  constructor
  · intro h
    refine along_iff_forall_isPrefix.mpr fun es' i hpre => ?_
    have hserved := h (es' ++ [i]) hpre
    rw [run_snoc] at hserved
    exact (inv_of_run es').served_clock_iff.mp hserved
  · exact fun h es' hpre => served_of_along (h.of_isPrefix hpre)

end Runs

/-! ## After a read that is not answered -/

/-- The adapter waits for an answer that the UART does not give. -/
structure Wedged (p : UartBridge) : Prop where
  inv : BridgeInv p
  read : p.adapter.readActive = true
  addr : ¬ Readable p.adapter.uartReadAddr

theorem Wedged.rvalid (h : Wedged p) : p.uart.rd.rvalid = false := by
  by_cases hs : p.uart.rd.state = .ack
  · rw [← Bool.not_eq_true, (h.inv.serving hs).2]
    exact h.addr
  · exact (h.inv.quiet hs).1

theorem Wedged.clock (h : Wedged p) : Wedged (p.clock i) := by
  obtain ⟨hread, haddr⟩ := h.inv.adapter_clock (i := i) h.read
  rw [h.rvalid] at hread
  exact ⟨h.inv.clock, hread, haddr ▸ h.addr⟩

/-- **The bridge does not recover**: it accepts no request and gives no answer any more. -/
theorem Wedged.run (h : Wedged p) (es : List UartBridgeIn) :
    Wedged (run UartBridge.clock p es) :=
  (along_true _ p es).invariant Wedged (fun _ _ h _ => h.clock) h

theorem Wedged.closed (h : Wedged p) : p.adapter.awready = false ∧ p.adapter.wready = false ∧
    p.adapter.arready = false ∧ p.uartRvalid = false := by
  have hrv := (h.inv.uartRvalid_eq h.read).trans h.rvalid
  simp [UartAdapter.awready, UartAdapter.wready, UartAdapter.arready, h.read, hrv]

/-- No request, responses accepted; the FIFOs are empty. -/
def idle : UartBridgeIn where
  awvalid := false
  aw := ⟨0, 0⟩
  wvalid := false
  w := ⟨0, 0⟩
  bready := true
  arvalid := false
  ar := ⟨0, 0⟩
  rready := true
  status := ⟨0, true, false, true⟩

/-- A read of `IER`, acknowledged in the last cycle. -/
def ierRead : List UartBridgeIn :=
  [idle, idle, { idle with arvalid := true, ar := ⟨7, 0x00020004⟩ }, idle]

theorem ier_read_wedges : (run clock reset ierRead).Serving ∧ ¬ (run clock reset ierRead).Served ∧
    ∀ es, (run clock reset (ierRead ++ es)).adapter.readActive = true ∧
      (run clock reset (ierRead ++ es)).adapter.awready = false ∧
      (run clock reset (ierRead ++ es)).adapter.arready = false := by
  have hserving : (run clock reset ierRead).Serving := ⟨by decide, by decide⟩
  have haddr : ¬ Readable (run clock reset ierRead).adapter.uartReadAddr := by decide
  refine ⟨hserving, ?_, fun es => ?_⟩
  · rw [(inv_of_run ierRead).served_iff]
    exact fun h => haddr (h hserving.2)
  · have hwedged : Wedged (run clock reset ierRead) := ⟨inv_of_run ierRead, hserving.1, haddr⟩
    rw [run_append]
    exact ⟨(hwedged.run es).read, (hwedged.run es).closed.1, (hwedged.run es).closed.2.2.1⟩

end UartBridge

end PacketBuffering
