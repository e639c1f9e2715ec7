import PacketBuffering.Gpio.Top

/-!
# The GPIO register file linearises

* `GpioRegs.apply`: what a write is meant to do to the registers.
* `GpioTop.settled`: the registers with the write that is staged; `GpioTop.settled_clock`: it follows the
  writes, since none executes while another one is staged (`GpioTop.Inv`).
* `GpioTop.GpioLaw`, **`GpioTop.gpio_law`**: the registers are the writes executed, one after the other,
  and a read sees every write that was answered before.
-/

namespace PacketBuffering

variable {n : ℕ}

/-! ## What a write is meant to do -/

namespace GpioRegs

/-- The registers after a write; the write of another register, or one that is refused, does nothing. -/
def apply (r : GpioRegs 32) (x : PeriphWrite n) : GpioRegs 32 :=
  let merge := strobed x.w.strb x.w.data
  if !x.req.plain then r
  else if x.req.offset = GpioReg.dataOut then { r with dataOut := merge r.dataOut }
  else if x.req.offset = GpioReg.dir then { r with dir := merge r.dir }
  else if x.req.offset = GpioReg.set then { r with dataOut := r.dataOut ||| merge 0 }
  else if x.req.offset = GpioReg.clear then { r with dataOut := r.dataOut &&& ~~~merge 0 }
  else if x.req.offset = GpioReg.intEn then { r with intEn := merge r.intEn }
  else if x.req.offset = GpioReg.intType then { r with intType := merge r.intType }
  else if x.req.offset = GpioReg.intPol then { r with intPol := merge r.intPol }
  else r

/-- The registers after the writes that are answered with `OKAY`, oldest first. -/
def after (xs : List (PeriphWrite n)) : GpioRegs 32 := (xs.filter gpioOk).foldl apply (reset 32)

/-- The word at an offset. -/
def word (r : GpioRegs 32) (offset : BitVec 8) : Option (BitVec 32) :=
  if offset = GpioReg.dataOut then some r.dataOut
  else if offset = GpioReg.dir then some r.dir
  else if offset = GpioReg.intEn then some r.intEn
  else if offset = GpioReg.intType then some r.intType
  else if offset = GpioReg.intPol then some r.intPol
  else none

theorem and_not_zero (x : BitVec 32) : x &&& ~~~0#32 = x := BitVec.and_allOnes

theorem dataOut_keep (x : BitVec 32) : (x ||| 0#32) &&& ~~~0#32 = x := by
  rw [BitVec.or_zero, and_not_zero]

theorem update_relaxed (r : GpioRegs 32) (c : GpioCtrl 32) : r.update c.relaxed = r :=
  GpioRegs.ext (dataOut_keep _) rfl rfl rfl rfl

/-- **A staged write** does to the registers what it is meant to do. -/
theorem update_stage (r : GpioRegs 32) (c : GpioCtrl 32) (x : PeriphWrite n) :
    r.update (c.stage r x) = r.apply x := by
  -- the two have the same branches, but for `INT_STATUS`, which is none of these registers
  simp only [GpioCtrl.stage, apply, apply_ite r.update]
  refine ite_congr rfl (fun _ => update_relaxed r c) fun _ => ?_
  refine ite_congr rfl (fun _ => rfl) fun _ => ?_
  refine ite_congr rfl (fun _ => GpioRegs.ext (dataOut_keep _) rfl rfl rfl rfl) fun _ => ?_
  refine ite_congr rfl (fun _ => GpioRegs.ext (and_not_zero _) rfl rfl rfl rfl) fun _ => ?_
  refine ite_congr rfl (fun _ => GpioRegs.ext ?_ rfl rfl rfl rfl) fun _ => ?_
  · exact congrArg (· &&& ~~~strobed x.w.strb x.w.data 0) BitVec.or_zero
  refine ite_congr rfl (fun _ => GpioRegs.ext (dataOut_keep _) rfl rfl rfl rfl) fun _ => ?_
  refine ite_congr rfl (fun _ => GpioRegs.ext (dataOut_keep _) rfl rfl rfl rfl) fun _ => ?_
  refine ite_congr rfl (fun _ => GpioRegs.ext (dataOut_keep _) rfl rfl rfl rfl) fun _ => ?_
  split_ifs with hstat
  · exact GpioRegs.ext (dataOut_keep _) rfl rfl rfl rfl
  · exact update_relaxed r c

theorem plain_or_writable_of_error {x : PeriphWrite n} (h : gpioOk x = false) :
    x.req.plain = false ∨ x.req.offset ∉ GpioReg.writable := by
  rw [gpioOk, Bool.and_eq_false_iff] at h
  exact h.imp_right fun hc hmem => by simp [hmem] at hc

theorem apply_of_error (r : GpioRegs 32) {x : PeriphWrite n} (h : gpioOk x = false) :
    r.apply x = r := by
  obtain hp | hw := plain_or_writable_of_error h
  · simp [apply, hp]
  · simp only [GpioReg.writable, List.mem_cons, not_or] at hw
    simp [apply, hw]

theorem after_eq_foldl (xs : List (PeriphWrite n)) : after xs = xs.foldl apply (reset 32) := by
  rw [after, List.foldl_filter]
  refine congrArg (fun f => xs.foldl f (reset 32)) ?_
  funext r x
  cases h : gpioOk x with
  | true => rfl
  | false => exact (apply_of_error r h).symm

/-- **A write that is refused** stages what a cycle without a write does. -/
theorem stage_of_error (r : GpioRegs 32) (c : GpioCtrl 32) {x : PeriphWrite n} (h : gpioOk x = false) :
    c.stage r x = c.relaxed := by
  obtain hp | hw := plain_or_writable_of_error h
  · simp [GpioCtrl.stage, hp]
  · simp only [GpioReg.writable, List.mem_cons, not_or] at hw
    simp [GpioCtrl.stage, hw]

theorem word_answer {s : GpioCore 32} {r : PeriphReq n} (hr : r.plain = true) {v : BitVec 32}
    (hv : s.regs.word r.offset = some v) : s.answer r = (v, axiRespOkay) := by
  unfold word at hv
  unfold GpioCore.answer
  split_ifs at hv with h h h h h
  all_goals
    obtain rfl := Option.some.inj hv
    rw [hr, h]
    rfl

end GpioRegs

namespace GpioTop

/-! ## One cycle -/

variable {s : GpioTop n} {i : GpioIn n}

/-- The registers with the write that is staged. -/
def settled (s : GpioTop n) : GpioRegs 32 := s.core.regs.update s.ctrl

/-- **The invariant.** A write is staged only while its response is open. -/
structure Inv (s : GpioTop n) : Prop where
  wr : s.wr.Inv
  staged : s.wr.bvalid = false → s.ctrl.relaxed = s.ctrl

theorem Inv.reset : Inv (reset n) := ⟨.reset, fun _ => rfl⟩

theorem Inv.clock (h : Inv s) : Inv (s.clock i) where
  wr := h.wr.clock
  staged := by
    intro hb
    cases hf : s.wr.writeFire with
    | true => simp [GpioTop.clock, WriteChannel.clock, hf] at hb
    | false =>
      simp only [GpioTop.clock, hf, Bool.false_eq_true, if_false]
      rfl

/-- **The registers follow the writes**: one that executes is merged with what all the writes before it
have left. -/
theorem Inv.settled_clock (h : Inv s) :
    (s.clock i).settled = (s.wr.writes i.axi).foldl GpioRegs.apply s.settled := by
  have hcore : (s.clock i).core.regs = s.settled := rfl
  rw [settled, hcore]
  cases hf : s.wr.writeFire with
  | true =>
    have hquiet := h.staged (WriteChannel.captured_of_writeFire hf).2.2
    have hregs : s.core.regs = s.settled := by
      rw [settled, ← hquiet, GpioRegs.update_relaxed]
    have hctrl : (s.clock i).ctrl = s.ctrl.stage s.settled (s.wr.eff i.axi) := by
      rw [GpioTop.clock, ← hregs]
      exact if_pos hf
    rw [hctrl, GpioRegs.update_stage, WriteChannel.writes, if_pos hf]
    rfl
  | false =>
    have hctrl : (s.clock i).ctrl = s.ctrl.relaxed := if_neg (by simp [hf])
    rw [hctrl, GpioRegs.update_relaxed, WriteChannel.writes, if_neg (by simp [hf])]
    rfl

/-- **A write that is refused leaves the controls as a cycle without a write**, the strobe that clears
`INT_STATUS` among them. -/
theorem ctrl_of_error {x : PeriphWrite n} (hx : x ∈ s.wr.writes i.axi) (herr : gpioOk x = false) :
    (s.clock i).ctrl = s.ctrl.relaxed := by
  rw [WriteChannel.writes] at hx
  split_ifs at hx with hf
  · obtain rfl := List.mem_singleton.mp hx
    exact (if_pos hf).trans (GpioRegs.stage_of_error _ _ herr)
  · cases hx

/-- **Relaxed controls** change no register of the core, and set only the status bits of the interrupts
of that cycle. -/
theorem core_of_relaxed {c : GpioCtrl 32} (hc : s.ctrl = c.relaxed) :
    (s.clock i).core.regs = s.core.regs ∧
      (s.clock i).core.intStat = s.core.intStat ||| s.core.fired := by
  constructor
  · exact (congrArg s.core.regs.update hc).trans (GpioRegs.update_relaxed _ c)
  · have hclear : s.ctrl.intStatClear = 0#32 := by rw [hc]; rfl
    change (s.core.intStat &&& ~~~s.ctrl.intStatClear) ||| s.core.fired = _
    rw [hclear, GpioRegs.and_not_zero]

/-! ## Runs -/

section Runs

variable (es : List (GpioIn n))

theorem settled_eq :
    ((periph n).after es).settled = GpioRegs.after ((periph n).writeLog es) := by
  have h₀ : (reset n).settled = GpioRegs.reset 32 := GpioRegs.update_relaxed _ (.reset 32)
  rw [GpioRegs.after_eq_foldl, ← h₀]
  exact (along_true clock (reset n) es).run_eq_foldl Inv (fun _ _ h _ => h.clock)
    (fun _ _ h _ => h.settled_clock) Inv.reset

theorem regs_eq (i : GpioIn n) : ((periph n).after (es ++ [i])).core.regs =
    GpioRegs.after ((periph n).writeLog es) := by
  rw [Periph.after_append, ← settled_eq]
  rfl

/-- **What a read sees**: the writes up to some moment behind the last response accepted. -/
theorem exists_seen : ∃ xs, xs <+: (periph n).writeLog es ∧
    ((periph n).bLog es).length ≤ xs.length ∧
    ((periph n).after es).core.regs = GpioRegs.after xs := by
  induction es using List.reverseRecOn with
  | nil => exact ⟨[], List.prefix_refl _, Nat.le_refl _, rfl⟩
  | append_singleton es i _ =>
    exact ⟨(periph n).writeLog es, log_isPrefix _ _ _ (List.prefix_append _ _),
      (periph n).length_bLog_le es i, regs_eq es i⟩

end Runs

/-! ## The law -/

/-- **The GPIO register file**, after the cycles `es`, and in the next one, with the inputs `i`. -/
structure GpioLaw (es : List (GpioIn n)) (i : GpioIn n) : Prop where
  /-- Each pair of address and data is executed and answered once, and so is each read. -/
  accounts : (periph n).Accounts es i
  /-- The registers are those of the writes executed up to the cycle before the last one. -/
  regs : ((periph n).after (es ++ [i])).core.regs = GpioRegs.after ((periph n).writeLog es)
  /-- A write that is refused stages what a cycle without a write stages: in the next cycle the registers
  keep their values, and `INT_STATUS` loses no bit. -/
  error : ∀ es' i', es' ++ [i'] <+: es → ∀ x ∈ ((periph n).after es').wr.writes i'.axi,
    gpioOk x = false →
      ((periph n).after (es' ++ [i'])).ctrl = ((periph n).after es').ctrl.relaxed ∧
        ∀ j, ((periph n).after (es' ++ [i', j])).core.regs =
            ((periph n).after (es' ++ [i'])).core.regs ∧
          ((periph n).after (es' ++ [i', j])).core.intStat =
            ((periph n).after (es' ++ [i'])).core.intStat |||
              ((periph n).after (es' ++ [i'])).core.fired
  /-- A read sees every write whose response was accepted in an earlier cycle. -/
  reads : ∀ es' i', es' ++ [i'] <+: es → ∀ r ∈ ((periph n).after es').rd.ars i'.axi,
    ∃ xs, xs <+: (periph n).writeLog es' ∧ ((periph n).bLog es').length ≤ xs.length ∧
      (r.plain = true → ∀ v, (GpioRegs.after xs).word r.offset = some v →
        (periph n).answer ((periph n).after es') r = (v, axiRespOkay))

/-- **The GPIO register file linearises**, for any timing of writes and reads. -/
theorem gpio_law (es : List (GpioIn n)) (i : GpioIn n) : GpioLaw es i := by
  refine ⟨(periph n).accounts es i, regs_eq es i, ?_, ?_⟩
  · intro es' i' _ x hx herr
    have hctrl : ((periph n).after (es' ++ [i'])).ctrl = ((periph n).after es').ctrl.relaxed := by
      rw [Periph.after_append]
      exact ctrl_of_error hx herr
    refine ⟨hctrl, fun j => ?_⟩
    rw [show es' ++ [i', j] = (es' ++ [i']) ++ [j] by simp, Periph.after_append]
    exact core_of_relaxed hctrl
  · intro es' i' _ r _
    obtain ⟨xs, hpre, hlen, hregs⟩ := exists_seen es'
    refine ⟨xs, hpre, hlen, fun hr v hv => ?_⟩
    rw [← hregs] at hv
    exact GpioRegs.word_answer hr hv

/-- A cycle without a request. -/
def quiet : GpioIn 8 := ⟨.idle, 0⟩

/-- A write of `DATA_OUT` whose data come first, one of the read-only `DATA_IN`, one of `SET`, and a read in
the cycle behind its response. -/
def setRun : List (GpioIn 8) :=
  let idle : PeriphIn 8 := .idle
  [⟨{ idle with wvalid := true, w := ⟨0x1234, 0b0001⟩ }, 0⟩,
    ⟨{ idle with awvalid := true, aw := ⟨3, 0x04, 0⟩ }, 0⟩,
    quiet,
    quiet,
    ⟨{ idle with
      awvalid := true, aw := ⟨6, 0x00, 0⟩, wvalid := true, w := ⟨0xFFFF, 0b1111⟩ }, 0⟩,
    quiet,
    quiet,
    ⟨{ idle with
      awvalid := true, aw := ⟨4, 0x0C, 0⟩, wvalid := true, w := ⟨0x0203, 0b0011⟩ }, 0⟩,
    quiet,
    quiet,
    ⟨{ idle with arvalid := true, ar := ⟨5, 0x04, 0⟩ }, 0⟩,
    quiet]

theorem gpio_law_set : (periph 8).rLog setRun = [⟨5, 0x0237, 0, true⟩] ∧
    (periph 8).bLog setRun = [(3, 0), (6, 2), (4, 0)] ∧ GpioLaw setRun quiet :=
  ⟨by decide +kernel, by decide +kernel, gpio_law setRun quiet⟩

end GpioTop

end PacketBuffering
