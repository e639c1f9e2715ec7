import PacketBuffering.Crc.CheckerReset
import PacketBuffering.Crc.Top

/-!
# Byte strobes of the CRC registers

The configuration registers are merged lane by lane; the soft reset, the strobes of the expected CRC and
of the manual port and the clears of the counters are taken without a look at their lanes.

* `SameShown`: states that are the same but for lanes of the manual word that are not enabled.
* `CrcSlave.clock_withData`, `CrcChecker.clock_withManual`: what such lanes reach in a cycle.
* `Unstrobed`, `SafeReset`: two runs that differ on unstrobed lanes, and the writes that make no
  difference; `Untouched`, `Effectless`: a write without a strobe.
* **`CrcTop.unstrobed_iff`**: when unstrobed lanes are inert.
-/

namespace PacketBuffering

/-! ## The checker -/

theorem enabledBytes_congr {be : BitVec 4} {d d' : BitVec 32} (h : AgreeOn be d d') :
    enabledBytes d' be = enabledBytes d be := by
  refine List.map_congr_left fun k hk => ?_
  obtain ⟨hk, hbe⟩ := List.mem_filter.mp hk
  rw [List.mem_range] at hk
  ext j hj
  rw [BitVec.getElem_extractLsb', BitVec.getElem_extractLsb']
  exact (h (8 * k + j) (by omega) (by rwa [show (8 * k + j) / 8 = k by omega])).symm

namespace CrcChecker

variable {s : CrcChecker} {i : CheckerIn} {d : BitVec 32}

theorem engine_withManual (h : AgreeOn i.manualDataBe i.manualDataIn d) :
    s.engine.clock (s.engineIn { i with manualDataIn := d }) = s.engine.clock (s.engineIn i) := by
  have hbytes : (s.engineIn { i with manualDataIn := d }).bytes = (s.engineIn i).bytes := by
    rw [bytes_engineIn, bytes_engineIn, enabledBytes_congr h]
    rfl
  apply Crc32Engine.ext
  rw [Crc32Engine.clock_crcReg, Crc32Engine.clock_crcReg, hbytes]
  rfl

/-- **The checker** looks at the enabled lanes of the manual word only. -/
theorem clock_withManual (h : AgreeOn i.manualDataBe i.manualDataIn d) :
    s.clock { i with manualDataIn := d } = s.clock i := by
  have hdata : s.clockDatapath { i with manualDataIn := d } = s.clockDatapath i := by
    rw [clockDatapath, engine_withManual h]
    rfl
  have hdefaults : s.clockDefaults { i with manualDataIn := d } = s.clockDefaults i := by
    rw [clockDefaults, hdata]
    rfl
  unfold clock clockSoftReset clockIdle clockStream clockVerify
  rw [hdata, hdefaults]
  rfl

end CrcChecker

/-! ## The registers -/

namespace CrcSlave

variable {s : CrcSlave} {i : AxiLiteIn} {t : CrcStatus} {d m : BitVec 32}

theorem w1c_congr (h : AgreeOn i.wstrb i.wdata d) (hstrb : i.wstrb.getLsbD 0 = true) :
    d &&& 0xE = i.wdata &&& 0xE := by
  apply BitVec.eq_of_getLsbD_eq
  intro k hk
  rw [BitVec.getLsbD_and, BitVec.getLsbD_and]
  by_cases hlane : k < 8
  · rw [h k hk (by rwa [show k / 8 = 0 by omega])]
  · have hmask : ∀ k < 32, ¬ k < 8 → (0xE : BitVec 32).getLsbD k = false := by decide
    rw [hmask k hk hlane, Bool.and_false, Bool.and_false]

/-- **The registers** take the strobed lanes only, and the reset bit of `CRC_CTRL`. -/
theorem clock_withData (h : AgreeOn i.wstrb i.wdata d)
    (hreset : s.writesTo i CrcReg.ctrl = true → i.wdata.getLsbD 1 = d.getLsbD 1) :
    { s with manualDataIn := m }.clock { i with wdata := d } t =
      { s.clock i t with manualDataIn := if s.writesTo i CrcReg.manualData then d else m } := by
  have hconfig : ∀ a old, configNext { s with manualDataIn := m } { i with wdata := d } a old =
      s.configNext i a old := by
    intro a old
    unfold configNext
    rw [h.strobed_eq]
    rfl
  have hmask : (if s.writesTo i CrcReg.status && i.wstrb.getLsbD 0 then d &&& 0xE else 0) =
      if s.writesTo i CrcReg.status && i.wstrb.getLsbD 0 then i.wdata &&& 0xE else 0 := by
    cases hstrb : i.wstrb.getLsbD 0 with
    | false => rw [Bool.and_false]; rfl
    | true => rw [w1c_congr h hstrb]
  have hstatus : regStatusNext { s with manualDataIn := m } { i with wdata := d } t =
      s.regStatusNext i t := congrArg (_ &&& ~~~ ·) hmask
  have hsoft : (s.writesTo i CrcReg.ctrl && d.getLsbD 1) =
      (s.writesTo i CrcReg.ctrl && i.wdata.getLsbD 1) := by
    cases hw : s.writesTo i CrcReg.ctrl with
    | false => rfl
    | true => rw [hreset hw]
  rw [clock, clock, CrcSlave.mk.injEq]
  exact ⟨rfl, rfl, rfl, rfl, rfl, hconfig _ _, hstatus, hconfig _ _, hconfig _ _, hconfig _ _,
    hconfig _ _, rfl, hsoft, rfl, rfl, rfl, rfl, rfl, rfl, rfl, rfl, rfl, rfl⟩

/-- A cycle in which no write executes. -/
def withoutWrite (i : AxiLiteIn) : AxiLiteIn := { i with awvalid := false, wvalid := false }

/-- A write without a strobe that no side effect hangs on. -/
def Effectless (i : AxiLiteIn) : Prop :=
  let a := crcRegOf i.awaddr
  a ≠ CrcReg.expResult ∧ a ≠ CrcReg.manualData ∧ a ≠ CrcReg.errorCount ∧ a ≠ CrcReg.passCount ∧
    (a = CrcReg.ctrl → i.wdata.getLsbD 1 = false)

instance (i : AxiLiteIn) : Decidable (Effectless i) :=
  inferInstanceAs (Decidable (_ ∧ _ ∧ _ ∧ _ ∧ _))

/-- The registers and strobes `s` and `t` are the same: all but those of the write handshake. -/
def SameRegs (s t : CrcSlave) : Prop :=
  t = { s with
    awready := t.awready, wready := t.wready, bvalid := t.bvalid, bresp := t.bresp, awEn := t.awEn }

theorem writesTo_withoutWrite (a : BitVec 4) : s.writesTo (withoutWrite i) a = false := by
  simp [writesTo, writeExec, withoutWrite]

theorem writesTo_of_exec (hexec : s.writeExec i = true) (a : BitVec 4) :
    s.writesTo i a = (crcRegOf i.awaddr == a) := by
  rw [writesTo, hexec, Bool.true_and]

theorem effectless_of_sameRegs (hexec : s.writeExec i = true)
    (h : SameRegs (s.clock (withoutWrite i) t) (s.clock i t)) : Effectless i := by
  have hwe := congrArg CrcSlave.expCrcWe h
  have hman := congrArg CrcSlave.manualDataValid h
  have hclear := congrArg CrcSlave.clearCounters h
  have hsoft := congrArg CrcSlave.ctrlSoftReset h
  simp only [clock, writesTo_withoutWrite, writesTo_of_exec hexec, Bool.false_and, Bool.or_self,
    Bool.or_eq_false_iff, beq_eq_false_iff_ne] at hwe hman hclear hsoft
  refine ⟨hwe, hman, hclear.1, hclear.2, fun hctrl => ?_⟩
  rwa [beq_iff_eq.mpr hctrl, Bool.true_and] at hsoft

theorem sameRegs_of_effectless (hexec : s.writeExec i = true) (hstrb : i.wstrb = 0)
    (h : Effectless i) : SameRegs (s.clock (withoutWrite i) t) (s.clock i t) := by
  obtain ⟨hexp, hman, herror, hpass, hctrl⟩ := h
  have hconfig : ∀ a old, s.configNext i a old = s.configNext (withoutWrite i) a old := by
    intro a old
    unfold configNext
    rw [writesTo_withoutWrite, hstrb, strobed_zero, ite_self]
    rfl
  have hstatus : s.regStatusNext i t = s.regStatusNext (withoutWrite i) t := by
    unfold regStatusNext
    rw [writesTo_withoutWrite, hstrb]
    simp
  have hnone : ∀ a, crcRegOf i.awaddr ≠ a → s.writesTo i a = s.writesTo (withoutWrite i) a := by
    intro a ha
    rw [writesTo_of_exec hexec, writesTo_withoutWrite]
    exact beq_eq_false_iff_ne.mpr ha
  have hsoft : (s.writesTo i CrcReg.ctrl && i.wdata.getLsbD 1) =
      (s.writesTo (withoutWrite i) CrcReg.ctrl && i.wdata.getLsbD 1) := by
    by_cases hc : crcRegOf i.awaddr = CrcReg.ctrl
    · rw [hctrl hc, Bool.and_false, Bool.and_false]
    · rw [hnone _ hc]
  unfold SameRegs clock
  rw [hstatus, hnone _ hexp, hnone _ hman, hnone _ herror, hnone _ hpass, hsoft]
  simp only [hconfig]
  rfl

/-- **A write without a strobe** does nothing iff no side effect hangs on it. -/
theorem sameRegs_iff (hexec : s.writeExec i = true) (hstrb : i.wstrb = 0) :
    SameRegs (s.clock (withoutWrite i) t) (s.clock i t) ↔ Effectless i :=
  ⟨effectless_of_sameRegs hexec, sameRegs_of_effectless hexec hstrb⟩

end CrcSlave

/-! ## Two runs -/

/-- The states are the same but for lanes of the manual word that are not enabled. -/
def SameShown (s t : CrcTop) : Prop :=
  ∃ m, t = ⟨{ s.slave with manualDataIn := m }, s.checker⟩ ∧
    AgreeOn s.slave.manualDataBe s.slave.manualDataIn m

theorem SameShown.refl (s : CrcTop) : SameShown s s := ⟨_, rfl, .refl _ _⟩

/-- The inputs are the same but for unstrobed lanes of the write data. -/
def Unstrobed (e f : CrcTopIn) : Prop :=
  ∃ d, f = { e with axi := { e.axi with wdata := d } } ∧ AgreeOn e.axi.wstrb e.axi.wdata d

/-- A write to `CRC_CTRL` has the same reset bit in both runs, also where its lane is not strobed. -/
def SafeReset (p : CrcTop × CrcTop) (e : CrcTopIn × CrcTopIn) : Prop :=
  p.1.slave.writesTo e.1.axi CrcReg.ctrl = true → e.1.axi.wdata.getLsbD 1 = e.2.axi.wdata.getLsbD 1

namespace CrcTop

variable {s t : CrcTop} {e f : CrcTopIn}

/-- **A cycle** keeps such states the same iff the reset bits are. -/
theorem sameShown_step_iff (h : SameShown s t) (hef : Unstrobed e f) :
    SameShown (s.step e) (t.step f) ↔ SafeReset (s, t) (e, f) := by
  obtain ⟨m, rfl, hlanes⟩ := h
  obtain ⟨d, rfl, hdata⟩ := hef
  constructor
  · rintro ⟨m', hnext, -⟩ hwrite
    have hsoft := congrArg (fun u : CrcTop => u.slave.ctrlSoftReset) hnext
    have hsoft' : (s.slave.writesTo e.axi CrcReg.ctrl && d.getLsbD 1) =
        (s.slave.writesTo e.axi CrcReg.ctrl && e.axi.wdata.getLsbD 1) := hsoft
    rw [show s.slave.writesTo e.axi CrcReg.ctrl = true from hwrite] at hsoft'
    exact hsoft'.symm
  · intro hreset
    refine ⟨_, congrArg₂ CrcTop.mk (CrcSlave.clock_withData hdata hreset)
      (CrcChecker.clock_withManual (i := s.checkerIn e) hlanes), ?_⟩
    · show AgreeOn (if s.slave.writesTo e.axi CrcReg.manualData then e.axi.wstrb else
          s.slave.manualDataBe) (if s.slave.writesTo e.axi CrcReg.manualData then e.axi.wdata else
          s.slave.manualDataIn) (if s.slave.writesTo e.axi CrcReg.manualData then d else m)
      split_ifs
      · exact hdata
      · exact hlanes

/-- **Runs** that differ on unstrobed lanes show the same throughout iff the reset bits are the same. -/
theorem sameShown_run_iff (s : CrcTop) {es : List (CrcTopIn × CrcTopIn)}
    (hes : ∀ e ∈ es, Unstrobed e.1 e.2) :
    (∀ es', es' <+: es →
        SameShown (run step s (es'.map Prod.fst)) (run step s (es'.map Prod.snd))) ↔
      Along (paired step) SafeReset (s, s) es := by
  constructor
  · intro hall
    refine along_iff_forall_isPrefix.mpr fun es' e hp => ?_
    have hnow := hall es' ((List.prefix_append _ _).trans hp)
    have hnext := hall _ hp
    rw [List.map_append, List.map_append, run_append, run_append] at hnext
    rw [run_paired]
    exact (sameShown_step_iff hnow (hes e (hp.subset (by simp)))).mp hnext
  · intro hsafe es' hp
    have hinputs : Along (paired step) (fun _ e => Unstrobed e.1 e.2) (s, s) es :=
      along_of_forall _ hes
    have h := ((hinputs.and hsafe).of_isPrefix hp).invariant (fun p => SameShown p.1 p.2)
      (fun p e hp he => (sameShown_step_iff hp he.1).mpr he.2) (SameShown.refl s)
    rwa [run_paired] at h

/-- The cycle leaves the registers, the strobes and the checker as one in which no write executes, and
so does the checker in the next cycle. -/
def Untouched (s : CrcTop) (e : CrcTopIn) : Prop :=
  let e' := { e with axi := CrcSlave.withoutWrite e.axi }
  CrcSlave.SameRegs (s.step e').slave (s.step e).slave ∧ (s.step e).checker = (s.step e').checker ∧
    ∀ f, ((s.step e).step f).checker = ((s.step e').step f).checker

theorem untouched_iff (hexec : s.slave.writeExec e.axi = true) (hstrb : e.axi.wstrb = 0) :
    Untouched s e ↔ CrcSlave.Effectless e.axi := by
  rw [← CrcSlave.sameRegs_iff (t := s.status) hexec hstrb]
  constructor
  · exact fun h => h.1
  · intro h
    refine ⟨h, rfl, fun f => ?_⟩
    -- The checker sees none of the registers of the handshake.
    have hin : (s.step e).checkerIn f =
        (s.step { e with axi := CrcSlave.withoutWrite e.axi }).checkerIn f := by
      unfold checkerIn
      rw [show (s.step e).slave = _ from h]
      rfl
    exact congrArg (CrcChecker.clock _) hin

/-- **Unstrobed lanes.** Of two runs from one state that differ on unstrobed lanes of the write data, all
registers, strobes and results stay the same iff no write to `CRC_CTRL` differs in the reset bit; and a
write without any strobe does nothing iff it is not to one of the four registers with a side effect, nor
sets the reset bit. -/
theorem unstrobed_iff (s : CrcTop) :
    (∀ es : List (CrcTopIn × CrcTopIn), (∀ e ∈ es, Unstrobed e.1 e.2) →
      ((∀ es', es' <+: es →
          SameShown (run step s (es'.map Prod.fst)) (run step s (es'.map Prod.snd))) ↔
        Along (paired step) SafeReset (s, s) es)) ∧
    ∀ e, s.slave.writeExec e.axi = true → e.axi.wstrb = 0 →
      (Untouched s e ↔ CrcSlave.Effectless e.axi) :=
  ⟨fun _ hes => sameShown_run_iff s hes, fun _ hexec hstrb => untouched_iff hexec hstrb⟩

/-- The two cycles of a register write of `d` without a strobe. -/
def blankWrite (a : BitVec 6) (d : BitVec 32) : List CrcTopIn :=
  let i : CrcTopIn := ⟨{ AxiLiteIn.write a d with wstrb := 0 }, false, .zero⟩
  [i, i]

/-- The two cycles of a register write of the lower half of `d`. -/
def halfWrite (a : BitVec 6) (d : BitVec 32) : List CrcTopIn :=
  let i : CrcTopIn := ⟨{ AxiLiteIn.write a d with wstrb := 0b0011 }, false, .zero⟩
  [i, i]

/-- The upper half of a write of `CRC_POLY` is inert, and so is a write of it without a strobe. -/
theorem unstrobed_poly :
    SameShown (run step reset (halfWrite 0x10 0x1234ABCD)) (run step reset (halfWrite 0x10 0xABCD)) ∧
      (run step reset (halfWrite 0x10 0x1234ABCD)).slave.polyRev.extractLsb' 0 16 = 0xABCD ∧
      Untouched (run step reset ((blankWrite 0x10 2).take 1))
        ⟨{ AxiLiteIn.write 0x10 2 with wstrb := 0 }, false, .zero⟩ := by
  refine ⟨?_, by decide, ?_⟩
  · refine ((unstrobed_iff reset).1 ((halfWrite 0x10 0x1234ABCD).zip (halfWrite 0x10 0xABCD)) ?_).mpr ?_
      _ (List.prefix_refl _)
    · intro e he
      have h : e = (⟨{ AxiLiteIn.write 0x10 0x1234ABCD with wstrb := 0b0011 }, false, .zero⟩,
          ⟨{ AxiLiteIn.write 0x10 0xABCD with wstrb := 0b0011 }, false, .zero⟩) := by
        simpa [halfWrite] using he
      rw [h]
      exact ⟨0xABCD, rfl, by decide⟩
    · exact ⟨fun _ => rfl, fun _ => rfl, trivial⟩
  · exact ((unstrobed_iff _).2 _ (by decide) rfl).mpr (by decide)

/-- The reset bit is taken from a lane without a strobe. -/
theorem reset_unstrobed :
    (∀ e ∈ (blankWrite 0x00 0).zip (blankWrite 0x00 2), Unstrobed e.1 e.2) ∧
      ¬ SameShown (run step reset (blankWrite 0x00 0)) (run step reset (blankWrite 0x00 2)) := by
  constructor
  · intro e he
    have h : e = (⟨{ AxiLiteIn.write 0x00 0 with wstrb := 0 }, false, .zero⟩,
        ⟨{ AxiLiteIn.write 0x00 2 with wstrb := 0 }, false, .zero⟩) := by
      simpa [blankWrite] using he
    rw [h]
    exact ⟨2, rfl, by decide⟩
  · rintro ⟨m, hm, -⟩
    have hsoft : (run step reset (blankWrite 0x00 2)).slave.ctrlSoftReset =
        (run step reset (blankWrite 0x00 0)).slave.ctrlSoftReset := by rw [hm]
    exact absurd hsoft (by decide)

end CrcTop

end PacketBuffering
