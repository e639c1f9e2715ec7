import PacketBuffering.Counter.Wrapper
import PacketBuffering.Gpio.Top
import PacketBuffering.Timer.Top

/-!
# Unmapped offsets

The packet counter, the timer and the GPIO block have a window of 4 KB, of which they decode the low
eight address bits.

* `RegBlock`: registers behind a bus, and what is known of their accesses.
* `RegBlock.Rejects`: in a cycle, accesses at offsets outside the map are refused and change nothing;
  `RegBlock.Avoids`: none of them is at an alias of a register it can use.
* **`RegBlock.rejects_iff`**: the cycles in which they are refused; **`unmapped_rejected_iff`**: for the
  three blocks.
-/

namespace PacketBuffering

variable {σ ι ρ : Type*}

/-! ## Blocks -/

/-- **A block of registers.** The single-beat accesses of a cycle are given by their addresses; a cycle
without accesses is one from `calm`, under `mute`; a cycle without a read is one under `muteRead`. -/
structure RegBlock (σ ι ρ : Type*) where
  step : σ → ι → σ
  /-- The registers, counters and status bits. -/
  regs : σ → ρ
  calm : σ → σ
  mute : ι → ι
  muteRead : ι → ι
  /-- The writes that execute, and the reads that are accepted. -/
  writes : σ → ι → List (BitVec 32)
  reads : σ → ι → List (BitVec 32)
  bresp : σ → BitVec 2
  answer : σ → BitVec 32 × BitVec 2
  /-- The offsets of the registers, of those that can be written, and of those that can be read. -/
  map : List (BitVec 8)
  writable : List (BitVec 8)
  readable : List (BitVec 8)
  bresp_step : ∀ s i, ∀ x ∈ writes s i,
    bresp (step s i) = if x.extractLsb' 0 8 ∈ writable then axiRespOkay else axiRespSlverr
  regs_step : ∀ s i, (∀ x ∈ writes s i, x.extractLsb' 0 8 ∉ writable) →
    regs (step s i) = regs (step (calm s) (mute i))
  regs_muteRead : ∀ s i, regs (step s i) = regs (step s (muteRead i))
  answer_step : ∀ s i, ∀ x ∈ reads s i, x.extractLsb' 0 8 ∉ readable →
    answer (step s i) = (0, axiRespSlverr)
  okay_step : ∀ s i, ∀ x ∈ reads s i, x.extractLsb' 0 8 ∈ readable →
    (answer (step s i)).2 = axiRespOkay

namespace RegBlock

variable (B : RegBlock σ ι ρ) (s : σ) (i : ι)

/-- The offset in the window is not one of a register. -/
def Unmapped (x : BitVec 32) : Prop := x.extractLsb' 0 12 ∉ B.map.map (BitVec.setWidth 12)

instance (x : BitVec 32) : Decidable (B.Unmapped x) := inferInstanceAs (Decidable (¬ _))

/-- **Unmapped accesses are refused**: they are answered with `SLVERR`, a read with the word 0; in a
cycle in which no other write executes the registers change as without any access, and in every cycle
as without the read. -/
structure Rejects : Prop where
  write : ∀ x ∈ B.writes s i, B.Unmapped x → B.bresp (B.step s i) = axiRespSlverr
  read : ∀ x ∈ B.reads s i, B.Unmapped x → B.answer (B.step s i) = (0, axiRespSlverr)
  still : (∀ x ∈ B.writes s i, B.Unmapped x) →
    B.regs (B.step s i) = B.regs (B.step (B.calm s) (B.mute i))
  readStill : B.regs (B.step s i) = B.regs (B.step s (B.muteRead i))

/-- No unmapped write has the low address byte of a register that can be written, and no unmapped read
that of one that can be read. -/
structure Avoids : Prop where
  write : ∀ x ∈ B.writes s i, B.Unmapped x → x.extractLsb' 0 8 ∉ B.writable
  read : ∀ x ∈ B.reads s i, B.Unmapped x → x.extractLsb' 0 8 ∉ B.readable

variable {B s i}

theorem rejects_iff : B.Rejects s i ↔ B.Avoids s i := by
  have hne : axiRespOkay ≠ axiRespSlverr := by decide
  constructor
  · intro h
    refine ⟨fun x hx hu hmem => ?_, fun x hx hu hmem => ?_⟩
    · have hresp := h.write x hx hu
      rw [B.bresp_step s i x hx, if_pos hmem] at hresp
      exact hne hresp
    · have hok := B.okay_step s i x hx hmem
      rw [h.read x hx hu] at hok
      exact hne hok.symm
  · intro h
    refine ⟨fun x hx hu => ?_, fun x hx hu => ?_, fun hall => ?_, B.regs_muteRead s i⟩
    · rw [B.bresp_step s i x hx, if_neg (h.write x hx hu)]
    · exact B.answer_step s i x hx (h.read x hx hu)
    · exact B.regs_step s i fun x hx => h.write x hx (hall x hx)

end RegBlock

theorem extractLsb'_two_of_mem {regs : List (BitVec 8)}
    (hregs : ∀ o ∈ regs, o.extractLsb' 0 2 = 0) {x : BitVec 32} (hx : x.extractLsb' 0 8 ∈ regs) :
    x.extractLsb' 0 2 = 0 := by
  have hlow : x.extractLsb' 0 2 = (x.extractLsb' 0 8).extractLsb' 0 2 := by
    ext k hk
    simp only [BitVec.getElem_extractLsb', BitVec.getLsbD_extractLsb', Nat.zero_add]
    rw [decide_eq_true (by omega : k < 8), Bool.true_and]
  rw [hlow]
  exact hregs _ hx

theorem mem_ite_singleton {α : Type*} {b c : Bool} {x y : α} (h : x ∈ if b && c then [y] else []) :
    b = true ∧ c = true ∧ x = y := by
  obtain ⟨hbc, hx⟩ := List.mem_ite_nil_right.mp h
  obtain ⟨hb, hc⟩ := Bool.and_eq_true_iff.mp hbc
  exact ⟨hb, hc, List.mem_singleton.mp hx⟩

/-! ## The packet counter -/

/-- The cycle without its requests. -/
def AxiLiteIn.mute (i : AxiLiteIn) : AxiLiteIn :=
  { i with awvalid := false, wvalid := false, arvalid := false }

namespace CounterReg

/-- The registers. -/
def known : List (BitVec 8) := [control, status, rxCount, processed, crcErrors, fifoOverflow]

/-- The registers that can be written. -/
def writable : List (BitVec 8) := [control]

end CounterReg

namespace CounterWrapper

variable {w : ℕ} (s : CounterWrapper w)

/-- Nothing is held. -/
def calm : CounterWrapper w := { s with awPending := false, wPending := false }

theorem isControl_iff (x : CounterWrite) :
    x.isControl = true ↔ x.addr.extractLsb' 0 8 ∈ CounterReg.writable := by
  have hlow := @extractLsb'_two_of_mem CounterReg.writable (by decide) x.addr
  simp only [CounterWrite.isControl, CounterReg.writable, List.mem_singleton, Bool.and_eq_true,
    beq_iff_eq] at hlow ⊢
  exact ⟨fun h => h.2, fun h => ⟨hlow h, h⟩⟩

theorem writeComplete_calm (i : AxiLiteIn) : s.calm.writeComplete i.mute = false := by
  simp [calm, AxiLiteIn.mute, writeComplete, awHandshake]

/-- The registers: the enable bit, the clear pulse and the counters. -/
def regs : Bool × Bool × PacketCounter w := (s.enableReg, s.clearPulse, s.core)

theorem regs_clock {i : CounterIn} (hrst : i.aresetn = true)
    (h : s.writeComplete i.axi = true → (s.write i.axi).isControl = false) :
    (s.clock i).regs = (s.enableReg, false, s.core.clock s.enableReg s.clearPulse i.events) := by
  cases hw : s.writeComplete i.axi with
  | false => simp [regs, clock, next, hrst, hw]
  | true => simp [regs, clock, next, hrst, hw, CounterWrite.clears, CounterWrite.setsEnable, h hw]

theorem answer_of_not_mem {x : BitVec 32} (h : x.extractLsb' 0 8 ∉ CounterReg.known) :
    s.answer x = (0, axiRespSlverr) := by
  simp only [CounterReg.known, List.mem_cons, List.not_mem_nil, or_false, not_or] at h
  obtain ⟨h0, h1, h2, h3, h4, h5⟩ := h
  simp only [answer, h0, h1, h2, h3, h4, h5, if_false, ite_self]

theorem answer_of_mem {x : BitVec 32} (h : x.extractLsb' 0 8 ∈ CounterReg.known) :
    (s.answer x).2 = axiRespOkay := by
  have hlow := @extractLsb'_two_of_mem CounterReg.known (by decide) x h
  simp only [CounterReg.known, List.mem_cons, List.not_mem_nil, or_false] at h
  simp only [answer, hlow, ne_eq, not_true_eq_false, if_false]
  rcases h with h | h | h | h | h | h <;> rw [h] <;> rfl

/-- The packet counter as a block. -/
def block (w : ℕ) : RegBlock (CounterWrapper w) CounterIn (Bool × Bool × PacketCounter w) where
  step := clock
  regs := regs
  calm := calm
  mute := fun i => { i with axi := i.axi.mute }
  muteRead := fun i => { i with axi := { i.axi with arvalid := false } }
  writes := fun s i => if i.aresetn && s.writeComplete i.axi then [(s.write i.axi).addr] else []
  reads := fun s i => if i.aresetn && s.arHandshake i.axi then [i.axi.araddr] else []
  bresp := bresp
  answer := fun s => (s.rdata, s.rresp)
  map := CounterReg.known
  writable := CounterReg.writable
  readable := CounterReg.known
  bresp_step := by
    intro s i x hx
    obtain ⟨hrst, hw, rfl⟩ := mem_ite_singleton hx
    simp only [clock, next, hrst, hw, if_true, CounterWrite.resp, isControl_iff]
  regs_step := by
    intro s i h
    cases hrst : i.aresetn with
    | false => simp only [clock, hrst, Bool.false_eq_true, if_false]
    | true =>
      rw [regs_clock s hrst fun hw => ?_, regs_clock s.calm rfl fun hw => ?_]
      · rfl
      · exact absurd (hw.symm.trans (s.writeComplete_calm i.axi)) Bool.false_ne_true.symm
      · rw [← Bool.not_eq_true, isControl_iff]
        exact h _ (List.mem_ite_nil_right.mpr ⟨by rw [hrst, hw]; rfl, List.mem_singleton.mpr rfl⟩)
  regs_muteRead := by
    intro s i
    cases hrst : i.aresetn <;> simp only [clock, hrst] <;> rfl
  answer_step := by
    intro s i x hx hno
    obtain ⟨hrst, hr, rfl⟩ := mem_ite_singleton hx
    simp only [clock, next, hrst, hr, if_true, s.answer_of_not_mem hno]
  okay_step := by
    intro s i x hx hmem
    obtain ⟨hrst, hr, rfl⟩ := mem_ite_singleton hx
    simp only [clock, next, hrst, hr, if_true, s.answer_of_mem hmem]

end CounterWrapper

/-! ## The channels of the timer and of the GPIO block -/

variable {n : ℕ}

/-- The cycle without its requests. -/
def PeriphIn.mute (i : PeriphIn n) : PeriphIn n :=
  { i with awvalid := false, wvalid := false, arvalid := false }

/-- The cycle without its read request. -/
def PeriphIn.muteRead (i : PeriphIn n) : PeriphIn n := { i with arvalid := false }

/-- The addresses of the requests for a single beat. -/
def singles (rs : List (PeriphReq n)) : List (BitVec 32) :=
  (rs.filter (·.len == 0)).map PeriphReq.addr

/-- Nothing is held. -/
def WriteChannel.calm (s : WriteChannel n) : WriteChannel n :=
  { s with awCaptured := false, wCaptured := false }

theorem PeriphReq.plain_of_mem {regs : List (BitVec 8)}
    (hregs : ∀ o ∈ regs, o.extractLsb' 0 2 = 0) {r : PeriphReq n} (hlen : r.len = 0)
    (h : r.offset ∈ regs) : r.plain = true := by
  simp [PeriphReq.plain, hlen, extractLsb'_two_of_mem hregs h]

theorem PeriphReq.plain_and_contains {regs : List (BitVec 8)}
    (hregs : ∀ o ∈ regs, o.extractLsb' 0 2 = 0) {r : PeriphReq n} (hlen : r.len = 0) :
    (r.plain && regs.contains r.offset) = decide (r.offset ∈ regs) := by
  rw [List.contains_eq_mem]
  by_cases h : r.offset ∈ regs
  · rw [PeriphReq.plain_of_mem hregs hlen h, Bool.true_and]
  · rw [decide_eq_false h, Bool.and_false]

theorem WriteChannel.bresp_of_mem {s : WriteChannel n} {i : PeriphIn n} {ok : PeriphWrite n → Bool}
    {regs : List (BitVec 8)}
    (hok : ∀ x, x.req.len = 0 → ok x = decide (x.req.offset ∈ regs)) {x : BitVec 32}
    (hx : x ∈ singles ((s.writes i).map PeriphWrite.req)) :
    (s.clock i ok).bresp =
      if x.extractLsb' 0 8 ∈ regs then axiRespOkay else axiRespSlverr := by
  cases hf : s.writeFire with
  | false => simp [singles, writes, hf] at hx
  | true =>
    obtain ⟨hlen, rfl⟩ : (s.eff i).req.len = 0 ∧ (s.eff i).req.addr = x := by
      simpa [singles, writes, hf] using hx
    have hresp : (s.clock i ok).bresp = periphResp (ok (s.eff i)) := if_pos hf
    rw [hresp, hok _ hlen, periphResp]
    simp only [decide_eq_true_eq]
    rfl

/-- A write that executes is not one of a known register unless it is among the single beats. -/
theorem WriteChannel.not_mem_of_singles {s : WriteChannel n} {i : PeriphIn n} {regs : List (BitVec 8)}
    (hf : s.writeFire = true)
    (h : ∀ x ∈ singles ((s.writes i).map PeriphWrite.req), x.extractLsb' 0 8 ∉ regs) :
    (s.eff i).req.plain = false ∨ (s.eff i).req.offset ∉ regs := by
  by_cases hlen : (s.eff i).req.len = 0
  · refine .inr (h _ ?_)
    simp [singles, writes, hf, hlen]
  · left
    rw [PeriphReq.plain, beq_false_of_ne hlen, Bool.false_and]

theorem ReadChannel.answer_of_mem {s : ReadChannel n} {i : PeriphIn n}
    (answer : PeriphReq n → BitVec 32 × BitVec 2) {x : BitVec 32} (hx : x ∈ singles (s.ars i)) :
    i.ar.len = 0 ∧ i.ar.addr = x ∧
      ((s.clock i answer).rdata, (s.clock i answer).rresp) = answer i.ar := by
  cases hf : s.arFire i with
  | false => simp [singles, ars, hf] at hx
  | true =>
    obtain ⟨hlen, haddr⟩ : i.ar.len = 0 ∧ i.ar.addr = x := by simpa [singles, ars, hf] using hx
    exact ⟨hlen, haddr, by simp [ReadChannel.clock, hf]⟩

/-! ## The timer -/

namespace TimerTop

theorem timerOk_eq (x : PeriphWrite n) (hlen : x.req.len = 0) :
    timerOk x = decide (x.req.offset ∈ TimerReg.known) :=
  PeriphReq.plain_and_contains (by decide) hlen

theorem execute_of_not_mem (c : TimerCtrl) {x : PeriphWrite n}
    (h : x.req.plain = false ∨ x.req.offset ∉ TimerReg.known) : c.execute x = c.relaxed := by
  rcases h with h | h
  · rw [TimerCtrl.execute, h]
    rfl
  · simp only [TimerReg.known, List.mem_cons, List.not_mem_nil, or_false, not_or] at h
    obtain ⟨h0, h1, h2, h3, h4⟩ := h
    simp only [TimerCtrl.execute, h0, h1, h2, h3, h4, if_false, ite_self]

variable (s : TimerTop n)

theorem answer_of_not_mem {r : PeriphReq n} (h : r.offset ∉ TimerReg.known) :
    s.answer r = (0, axiRespSlverr) := by
  simp only [TimerReg.known, List.mem_cons, List.not_mem_nil, or_false, not_or] at h
  obtain ⟨h0, h1, h2, h3, h4⟩ := h
  simp only [answer, h0, h1, h2, h3, h4, if_false, ite_self]

theorem answer_of_mem {r : PeriphReq n} (hlen : r.len = 0) (h : r.offset ∈ TimerReg.known) :
    (s.answer r).2 = axiRespOkay := by
  have hplain := PeriphReq.plain_of_mem (by decide) hlen h
  simp only [TimerReg.known, List.mem_cons, List.not_mem_nil, or_false] at h
  simp only [answer, hplain, Bool.not_true, Bool.false_eq_true, if_false]
  rcases h with h | h | h | h | h <;> rw [h] <;> rfl

variable (n) in
/-- The timer as a block. -/
def block : RegBlock (TimerTop n) (PeriphIn n) (TimerCtrl × TimerCore) where
  step := clock
  regs := fun s => (s.ctrl, s.core)
  calm := fun s => { s with wr := s.wr.calm }
  mute := PeriphIn.mute
  muteRead := PeriphIn.muteRead
  writes := fun s i => singles ((s.wr.writes i).map PeriphWrite.req)
  reads := fun s i => singles (s.rd.ars i)
  bresp := fun s => s.wr.bresp
  answer := fun s => (s.rd.rdata, s.rd.rresp)
  map := TimerReg.known
  writable := TimerReg.known
  readable := TimerReg.known
  bresp_step := fun s i x hx => WriteChannel.bresp_of_mem timerOk_eq hx
  regs_step := by
    intro s i h
    have hctrl : (s.clock i).ctrl = s.ctrl.relaxed := by
      cases hf : s.wr.writeFire with
      | false => simp [clock, hf]
      | true =>
        rw [clock, if_pos hf]
        exact execute_of_not_mem _ (WriteChannel.not_mem_of_singles hf h)
    rw [hctrl]
    rfl
  regs_muteRead := fun _ _ => rfl
  answer_step := by
    intro s i x hx hno
    obtain ⟨-, rfl, hans⟩ := ReadChannel.answer_of_mem s.answer hx
    exact hans.trans (s.answer_of_not_mem hno)
  okay_step := by
    intro s i x hx hmem
    obtain ⟨hlen, rfl, hans⟩ := ReadChannel.answer_of_mem s.answer hx
    exact (congrArg Prod.snd hans).trans (s.answer_of_mem hlen hmem)

end TimerTop

/-! ## The GPIO block -/

namespace GpioReg

/-- The registers. -/
def known : List (BitVec 8) :=
  [dataIn, dataOut, dir, set, clear, intEn, intType, intPol, intStatus]

/-- The registers that can be read. -/
def readable : List (BitVec 8) := [dataIn, dataOut, dir, intEn, intType, intPol, intStatus]

end GpioReg

namespace GpioTop

theorem gpioOk_eq (x : PeriphWrite n) (hlen : x.req.len = 0) :
    gpioOk x = decide (x.req.offset ∈ GpioReg.writable) :=
  PeriphReq.plain_and_contains (by decide) hlen

theorem stage_of_not_mem (c : GpioCtrl 32) (r : GpioRegs 32) {x : PeriphWrite n}
    (h : x.req.plain = false ∨ x.req.offset ∉ GpioReg.writable) : c.stage r x = c.relaxed := by
  rcases h with h | h
  · rw [GpioCtrl.stage, h]
    rfl
  · simp only [GpioReg.writable, List.mem_cons, List.not_mem_nil, or_false, not_or] at h
    obtain ⟨h0, h1, h2, h3, h4, h5, h6, h7⟩ := h
    simp only [GpioCtrl.stage, h0, h1, h2, h3, h4, h5, h6, h7, if_false, ite_self]

theorem answer_of_not_mem (s : GpioCore 32) {r : PeriphReq n} (h : r.offset ∉ GpioReg.readable) :
    s.answer r = (0, axiRespSlverr) := by
  simp only [GpioReg.readable, List.mem_cons, List.not_mem_nil, or_false, not_or] at h
  obtain ⟨h0, h1, h2, h3, h4, h5, h6⟩ := h
  simp only [GpioCore.answer, h0, h1, h2, h3, h4, h5, h6, if_false, ite_self]

theorem answer_of_mem (s : GpioCore 32) {r : PeriphReq n} (hlen : r.len = 0)
    (h : r.offset ∈ GpioReg.readable) : (s.answer r).2 = axiRespOkay := by
  have hplain := PeriphReq.plain_of_mem (by decide) hlen h
  simp only [GpioReg.readable, List.mem_cons, List.not_mem_nil, or_false] at h
  simp only [GpioCore.answer, hplain, Bool.not_true, Bool.false_eq_true, if_false]
  rcases h with h | h | h | h | h | h | h <;> rw [h] <;> rfl

variable (n) in
/-- The GPIO block as a block. -/
def block : RegBlock (GpioTop n) (GpioIn n) (GpioCtrl 32 × GpioCore 32) where
  step := clock
  regs := fun s => (s.ctrl, s.core)
  calm := fun s => { s with wr := s.wr.calm }
  mute := fun i => { i with axi := i.axi.mute }
  muteRead := fun i => { i with axi := i.axi.muteRead }
  writes := fun s i => singles ((s.wr.writes i.axi).map PeriphWrite.req)
  reads := fun s i => singles (s.rd.ars i.axi)
  bresp := fun s => s.wr.bresp
  answer := fun s => (s.rd.rdata, s.rd.rresp)
  map := GpioReg.known
  writable := GpioReg.writable
  readable := GpioReg.readable
  bresp_step := fun s i x hx => WriteChannel.bresp_of_mem gpioOk_eq hx
  regs_step := by
    intro s i h
    have hctrl : (s.clock i).ctrl = s.ctrl.relaxed := by
      cases hf : s.wr.writeFire with
      | false => simp [clock, hf]
      | true =>
        rw [clock, if_pos hf]
        exact stage_of_not_mem _ _ (WriteChannel.not_mem_of_singles hf h)
    rw [hctrl]
    rfl
  regs_muteRead := fun _ _ => rfl
  answer_step := by
    intro s i x hx hno
    obtain ⟨-, rfl, hans⟩ := ReadChannel.answer_of_mem s.core.answer hx
    exact hans.trans (answer_of_not_mem s.core hno)
  okay_step := by
    intro s i x hx hmem
    obtain ⟨hlen, rfl, hans⟩ := ReadChannel.answer_of_mem s.core.answer hx
    exact (congrArg Prod.snd hans).trans (answer_of_mem s.core hlen hmem)

end GpioTop

/-! ## The three blocks -/

/-- **Unmapped offsets**, in every state and under all inputs: the single-beat accesses of a cycle that
are at no register offset are refused and change nothing, iff no write among them has the low address
byte of a register that can be written, and no read that of one that can be read. -/
theorem unmapped_rejected_iff (w n : ℕ) :
    (∀ s i, (CounterWrapper.block w).Rejects s i ↔ (CounterWrapper.block w).Avoids s i) ∧
      (∀ s i, (TimerTop.block n).Rejects s i ↔ (TimerTop.block n).Avoids s i) ∧
      ∀ s i, (GpioTop.block n).Rejects s i ↔ (GpioTop.block n).Avoids s i :=
  ⟨fun _ _ => RegBlock.rejects_iff, fun _ _ => RegBlock.rejects_iff, fun _ _ => RegBlock.rejects_iff⟩

/-- A timer out of reset that has taken a write to offset `0x100` of its window, with the data 1. -/
def timerAlias : TimerTop 8 :=
  (TimerTop.reset 8).clock
    { PeriphIn.idle with
      awvalid := true, aw := ⟨3, 0x21100, 0⟩, wvalid := true, w := ⟨1, 0b0001⟩ }

/-- A read of the packet counter at offset `0x108`, in a cycle out of reset. -/
def counterAlias : CounterIn :=
  ⟨true, { AxiLiteIn.idle with arvalid := true, araddr := 0x108 }, ⟨false, false, false, false⟩⟩

/-- The write starts the timer, and the read returns a counter, both with `OKAY`. -/
theorem unmapped_alias :
    ((TimerTop.block 8).writes timerAlias .idle = [0x21100] ∧
      (TimerTop.block 8).Unmapped 0x21100 ∧
      (timerAlias.clock .idle).wr.bresp = axiRespOkay ∧
      timerAlias.ctrl.en = false ∧ (timerAlias.clock .idle).ctrl.en = true ∧
      ¬ (TimerTop.block 8).Rejects timerAlias .idle) ∧
    (CounterWrapper.block 32).reads (.reset 32) counterAlias = [0x108] ∧
      (CounterWrapper.block 32).Unmapped 0x108 ∧
      ((CounterWrapper.reset 32).clock counterAlias).rresp = axiRespOkay ∧
      ¬ (CounterWrapper.block 32).Rejects (.reset 32) counterAlias := by
  refine ⟨⟨rfl, by decide, by decide, rfl, by decide, fun h => ?_⟩, rfl, by decide, by decide,
    fun h => ?_⟩
  · have hresp := h.write 0x21100 List.mem_cons_self (by decide)
    revert hresp
    decide
  · have hans := h.read 0x108 List.mem_cons_self (by decide)
    revert hans
    decide

end PacketBuffering
