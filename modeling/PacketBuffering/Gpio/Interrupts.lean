import PacketBuffering.Gpio.Top
import PacketBuffering.Lib.Sticky

/-!
# Interrupt status of the pins

`gpio_core` alone, for any number of pins and any sequence of its inputs.

* `GpioCore.pinsBefore`: the pins some cycles ago; `GpioCore.synchroniser_run`: what the synchroniser
  holds of them.
* `GpioCore.PinInputs`: the part of the inputs that concerns one pin.
* **`GpioCore.interrupt_status`**: a status bit is set iff the condition of its pin was met and no clear
  came later, and it depends on the inputs of its pin only.
-/

namespace PacketBuffering

namespace GpioCore

variable {w : ℕ}

/-- One cycle, with the control inputs and the pins. -/
def step (s : GpioCore w) (e : GpioCtrl w × BitVec w) : GpioCore w := s.clock e.1 e.2

/-! ## The synchroniser -/

/-- The pins `d + 1` cycles before the cycle that comes after `past`, and 0 before the first one. -/
def pinsBefore (past : List (GpioCtrl w × BitVec w)) (d : ℕ) : BitVec w :=
  (past.reverse.map Prod.snd).getD d 0

theorem pinsBefore_snoc_zero (past : List (GpioCtrl w × BitVec w)) (e : GpioCtrl w × BitVec w) :
    pinsBefore (past ++ [e]) 0 = e.2 := by
  simp [pinsBefore]

theorem pinsBefore_snoc_succ (past : List (GpioCtrl w × BitVec w)) (e : GpioCtrl w × BitVec w)
    (d : ℕ) : pinsBefore (past ++ [e]) (d + 1) = pinsBefore past d := by
  simp [pinsBefore]

/-- **The synchroniser** holds the pins of the last three cycles. -/
theorem synchroniser_run (past : List (GpioCtrl w × BitVec w)) :
    (run step (reset w) past).syncFf1 = pinsBefore past 0 ∧
      (run step (reset w) past).syncFf2 = pinsBefore past 1 ∧
      (run step (reset w) past).syncFf2Prev = pinsBefore past 2 := by
  induction past using List.reverseRecOn with
  | nil => exact ⟨rfl, rfl, rfl⟩
  | append_singleton past e ih =>
    obtain ⟨h₁, h₂, -⟩ := ih
    rw [run_snoc, pinsBefore_snoc_zero, pinsBefore_snoc_succ, pinsBefore_snoc_succ]
    exact ⟨rfl, h₁, h₂⟩

/-! ## The status bits -/

/-- The interrupt condition, from the type (edge or level), the polarity, the pin and the pin a cycle
earlier. -/
def condition : (type pol now earlier : Bool) → Bool
  | false, false, now, earlier => now && !earlier
  | false, true, now, earlier => !now && earlier
  | true, false, now, _ => now
  | true, true, now, _ => !now

theorem fires_eq (s : GpioCore w) (i : ℕ) :
    s.fires i = (s.regs.intEn.getLsbD i && condition (s.regs.intType.getLsbD i)
      (s.regs.intPol.getLsbD i) (s.syncFf2.getLsbD i) (s.syncFf2Prev.getLsbD i)) := by
  unfold fires
  cases s.regs.intType.getLsbD i <;> cases s.regs.intPol.getLsbD i <;> rfl

theorem getLsbD_fired (s : GpioCore w) (i : ℕ) : s.fired.getLsbD i = s.fires i := by
  rw [fired, BitVec.getLsbD_cast, BitVec.getLsbD_ofBoolListLE, List.getD_eq_getElem?_getD,
    List.getElem?_map]
  by_cases hi : i < w
  · rw [List.getElem?_range hi]
    rfl
  · rw [List.getElem?_eq_none (by simpa using hi), fires, BitVec.getLsbD_of_ge _ _ (Nat.le_of_not_lt hi)]
    rfl

/-- **One status bit behind a clock.** -/
theorem getLsbD_intStat_step (i : ℕ) (s : GpioCore w) (e : GpioCtrl w × BitVec w) :
    (s.step e).intStat.getLsbD i =
      (s.fires i || s.intStat.getLsbD i && !e.1.intStatClear.getLsbD i) := by
  have hlt : s.intStat.getLsbD i = true → i < w := BitVec.lt_of_getLsbD
  simp only [step, clock, BitVec.getLsbD_or, BitVec.getLsbD_and, BitVec.getLsbD_not, getLsbD_fired]
  cases hs : s.intStat.getLsbD i with
  | false => simp
  | true => simp [hlt hs, Bool.or_comm]

/-! ## One pin -/

/-- The inputs of one cycle that concern the interrupt of one pin: a configuration bit that is written,
the clear strobe and the pin itself. -/
structure PinInputs where
  intEn : Option Bool
  intType : Option Bool
  intPol : Option Bool
  intStatClear : Bool
  gpioI : Bool
deriving DecidableEq

/-- What is given to pin `i`. -/
def pinInputs (i : ℕ) (e : GpioCtrl w × BitVec w) : PinInputs where
  intEn := if e.1.intEnWe then some (e.1.intEnWrite.getLsbD i) else none
  intType := if e.1.intTypeWe then some (e.1.intTypeWrite.getLsbD i) else none
  intPol := if e.1.intPolWe then some (e.1.intPolWrite.getLsbD i) else none
  intStatClear := e.1.intStatClear.getLsbD i
  gpioI := e.2.getLsbD i

/-- The registers of one pin. -/
structure PinState where
  syncFf1 : Bool
  syncFf2 : Bool
  syncFf2Prev : Bool
  intEn : Bool
  intType : Bool
  intPol : Bool
  intStat : Bool

/-- What the core holds for pin `i`. -/
def pinState (i : ℕ) (s : GpioCore w) : PinState where
  syncFf1 := s.syncFf1.getLsbD i
  syncFf2 := s.syncFf2.getLsbD i
  syncFf2Prev := s.syncFf2Prev.getLsbD i
  intEn := s.regs.intEn.getLsbD i
  intType := s.regs.intType.getLsbD i
  intPol := s.regs.intPol.getLsbD i
  intStat := s.intStat.getLsbD i

/-- One pin by itself. -/
def PinState.step (p : PinState) (e : PinInputs) : PinState where
  syncFf1 := e.gpioI
  syncFf2 := p.syncFf1
  syncFf2Prev := p.syncFf2
  intEn := e.intEn.getD p.intEn
  intType := e.intType.getD p.intType
  intPol := e.intPol.getD p.intPol
  intStat := p.intEn && condition p.intType p.intPol p.syncFf2 p.syncFf2Prev ||
    p.intStat && !e.intStatClear

/-- **The core is one such machine for every pin.** -/
theorem pinState_step (i : ℕ) (s : GpioCore w) (e : GpioCtrl w × BitVec w) :
    pinState i (s.step e) = (pinState i s).step (pinInputs i e) := by
  unfold pinState PinState.step pinInputs
  rw [getLsbD_intStat_step, fires_eq]
  simp only [step, clock, GpioRegs.update, PinState.mk.injEq, true_and, and_true]
  refine ⟨?_, ?_, ?_⟩ <;> split_ifs <;> rfl

/-- In the cycle after `past` the interrupt of pin `i` is enabled, and its condition is met by the pin as
it was two and three cycles earlier. -/
def event (i : ℕ) (past : List (GpioCtrl w × BitVec w)) : Bool :=
  let r := (run step (reset w) past).regs
  r.intEn.getLsbD i && condition (r.intType.getLsbD i) (r.intPol.getLsbD i)
    ((pinsBefore past 1).getLsbD i) ((pinsBefore past 2).getLsbD i)

theorem fires_run (i : ℕ) (past : List (GpioCtrl w × BitVec w)) :
    (run step (reset w) past).fires i = event i past := by
  obtain ⟨-, h₂, h₃⟩ := synchroniser_run past
  rw [fires_eq, h₂, h₃, event]

/-- **Interrupt status.** Bit `i` is set iff there was an event of pin `i` and no clear strobe for it in
a later cycle. It depends on the inputs of pin `i` only. -/
theorem interrupt_status (i : ℕ) :
    (∀ es : List (GpioCtrl w × BitVec w),
      (run step (reset w) es).intStat.getLsbD i = true ↔
        ∃ past e later, es = past ++ e :: later ∧ event i past = true ∧
          ∀ e' ∈ later, e'.1.intStatClear.getLsbD i = false) ∧
    ∀ es es' : List (GpioCtrl w × BitVec w), es.map (pinInputs i) = es'.map (pinInputs i) →
      (run step (reset w) es).intStat.getLsbD i = (run step (reset w) es').intStat.getLsbD i := by
  constructor
  · intro es
    have hzero : (reset w).intStat.getLsbD i = false := by simp [reset]
    refine (run_sticky (fun s : GpioCore w => s.intStat.getLsbD i)
      (getLsbD_intStat_step i) hzero es).trans ?_
    simp only [Pending, fires_run]
  · intro es es' h
    have hpin : pinState i (run step (reset w) es) = pinState i (run step (reset w) es') := by
      refine run_part_congr (fun s s' e e' hs he => ?_) rfl h
      rw [pinState_step, pinState_step, hs, he]
    exact congrArg PinState.intStat hpin

/-- Two pins, the second of which rises; its interrupt is enabled, and cleared in the end. -/
theorem interrupt_status_rise :
    let q : GpioCtrl 2 := .reset 2
    let es : List (GpioCtrl 2 × BitVec 2) :=
      ({ q with intEnWe := true, intEnWrite := 0b11 }, 0) :: List.replicate 3 (q, 0b10)
    (run step (reset 2) es).intStat.getLsbD 1 = true ∧
      (run step (reset 2) es).intStat.getLsbD 0 = false ∧
      (run step (reset 2) (es ++ [({ q with intStatClear := 0b10 }, 0b10)])).intStat = 0 := by
  intro q es
  refine ⟨((interrupt_status 1).1 es).mpr ⟨es.take 3, (q, 0b10), [], rfl, by decide, nofun⟩, ?_, ?_⟩
  · -- the first pin sees the same as without any pin
    rw [(interrupt_status 0).2 es (({ q with intEnWe := true, intEnWrite := 0b11 }, 0) ::
      List.replicate 3 (q, 0)) (by decide)]
    decide
  · decide

end GpioCore

end PacketBuffering
