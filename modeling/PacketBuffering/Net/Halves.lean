import PacketBuffering.Net.Phases

/-!
# The two halves of the interconnect

What a rising edge does to the registers of one half, and what passes through them.

* `WriteIdle.clock`, `ReadIdle.clock`, `noAddr_clock`: a half that is not used stays at rest.
* `events_rest`, `pending_rest`: at rest nothing is handed over, and nothing is to come.
* **`flow_mW`**, **`flow_sR`**, `flow_mAw`, `flow_mAr`: what is handed over, followed by what is to come
  after the edge, is what was to come, followed by what enters.
-/

namespace PacketBuffering

variable {N : NetParams}

namespace Interconnect

variable {s : Interconnect N} {i : NetIn N}

/-! ## A step, half by half -/

theorem clock_eq (hrst : i.rst = false) : s.clock i = { s.next i with
    arb := s.arb.clock N.arbiter (s.arbIn i)
    rOut := s.rOut.next (s.rIn i)
    wOut := s.wOut.next (s.wIn i) } := by
  have hr : s.rOut.clock (s.rIn i) = s.rOut.next (s.rIn i) := SkidInv.clock_eq (i := s.rIn i) hrst
  have hw : s.wOut.clock (s.wIn i) = s.wOut.next (s.wIn i) := SkidInv.clock_eq (i := s.wIn i) hrst
  rw [clock, hrst, hr, hw]
  rfl

theorem buser_clock (hrst : i.rst = false) : (s.clock i).buser = s.buser := by
  rw [clock_eq hrst]
  show (s.next i).buser = s.buser
  unfold next
  split
  · unfold clockIdle; dsimp only; split_ifs <;> rfl
  · unfold clockDecode; dsimp only; split <;> split_ifs <;> rfl
  · unfold clockWrite; dsimp only; split_ifs <;> rfl
  · unfold clockWriteResp; dsimp only; split_ifs <;> rfl
  · unfold clockWriteDrop; dsimp only; split_ifs <;> rfl
  · unfold clockRead; dsimp only; split_ifs <;> rfl
  · unfold clockReadDrop; dsimp only; split_ifs <;> rfl
  · unfold clockWaitIdle; dsimp only; split_ifs <;> rfl

theorem WriteIdle.clock (h : WriteIdle s) (hrst : i.rst = false)
    (hst : s.state = .idle ∨ s.state = .decode ∧ s.isRead = true ∨ s.state = .read ∨
      s.state = .readDrop ∨ s.state = .waitIdle) : WriteIdle (s.clock i) := by
  obtain ⟨⟨haw, hb, hout⟩, hw, hsb⟩ := h
  have hint : (s.wIn i).intValid = false := by
    show s.wIntValid i = false
    unfold wIntValid
    rcases hst with h | ⟨h, -⟩ | h | h | h <;> rw [h]
  have hout' := hout.next hint
  rw [clock_eq hrst]
  refine ⟨⟨?_, ?_, hout'⟩, ?_, ?_⟩
  all_goals
    intro n
    dsimp only
    unfold Interconnect.next
    rcases hst with h | ⟨h, hread⟩ | h | h | h <;> rw [h] <;> dsimp only
  all_goals
    first | unfold clockIdle | unfold clockDecode | unfold clockRead | unfold clockReadDrop | unfold clockWaitIdle
    dsimp only
    simp only [defaults]
    repeat' split
    all_goals simp_all [allOff]

theorem ReadIdle.clock (h : ReadIdle s) (hrst : i.rst = false) (h₁ : s.state ≠ .read)
    (h₂ : s.state ≠ .readDrop) : ReadIdle (s.clock i) := by
  obtain ⟨har, hout⟩ := h
  have hint : (s.rIn i).intValid = false := by
    show s.rIntValid i = false
    unfold rIntValid
    split <;> simp_all
  have hout' := hout.next hint
  rw [clock_eq hrst]
  refine ⟨fun m => ?_, hout'⟩
  dsimp only
  unfold Interconnect.next
  cases hst : s.state with
  | idle => unfold clockIdle; dsimp only; split_ifs <;> simp [defaults, har]
  | decode => unfold clockDecode; dsimp only; split <;> split_ifs <;> simp [defaults, har]
  | write => unfold clockWrite; dsimp only; split_ifs <;> simp [defaults, har]
  | writeResp => unfold clockWriteResp; dsimp only; split_ifs <;> simp [defaults, har]
  | writeDrop => unfold clockWriteDrop; dsimp only; split_ifs <;> simp [defaults, har]
  | read => exact absurd hst h₁
  | readDrop => exact absurd hst h₂
  | waitIdle => unfold clockWaitIdle; dsimp only; split_ifs <;> simp [defaults, har]

theorem noAddr_clock (hrst : i.rst = false) (h : s.state ≠ .idle) : NoAddr (s.clock i) := by
  rw [clock_eq hrst]
  constructor
  all_goals
    intro n
    dsimp only
    unfold Interconnect.next
    cases hst : s.state with
    | idle => exact absurd hst h
    | decode => unfold clockDecode; dsimp only; split <;> split_ifs <;> simp [defaults, allOff]
    | write => unfold clockWrite; dsimp only; split_ifs <;> simp [defaults, allOff]
    | writeResp => unfold clockWriteResp; dsimp only; split_ifs <;> simp [defaults, allOff]
    | writeDrop => unfold clockWriteDrop; dsimp only; split_ifs <;> simp [defaults, allOff]
    | read => unfold clockRead; dsimp only; split_ifs <;> simp [defaults, allOff]
    | readDrop => unfold clockReadDrop; dsimp only; split_ifs <;> simp [defaults, allOff]
    | waitIdle => unfold clockWaitIdle; dsimp only; split_ifs <;> simp [defaults, allOff]

/-- The state behind an edge, but for the edges that leave the idle state or a finished transaction. -/
theorem clock_state_busy (hrst : i.rst = false) (h₁ : s.state ≠ .idle) (h₂ : s.state ≠ .waitIdle) :
    (s.clock i).state ≠ .idle ∧ (s.clock i).state ≠ .decode := by
  rw [clock_eq hrst]
  show (s.next i).state ≠ .idle ∧ (s.next i).state ≠ .decode
  unfold Interconnect.next
  cases hst : s.state with
  | idle => exact absurd hst h₁
  | decode => unfold clockDecode; dsimp only; split <;> split_ifs <;> simp
  | write => unfold clockWrite; dsimp only; split_ifs <;> simp
  | writeResp => unfold clockWriteResp; dsimp only; split_ifs <;> simp
  | writeDrop => unfold clockWriteDrop; dsimp only; split_ifs <;> simp
  | read => unfold clockRead; dsimp only; split_ifs <;> simp
  | readDrop => unfold clockReadDrop; dsimp only; split_ifs <;> simp
  | waitIdle => exact absurd hst h₂

theorem clock_state_idle (hrst : i.rst = false) (hst : s.state = .idle) :
    (s.clock i).state = if s.arb.grantValid then .decode else .idle := by
  rw [clock_eq hrst]
  show (s.next i).state = _
  rw [Interconnect.next, hst]
  show (s.clockIdle i).state = _
  unfold clockIdle
  dsimp only
  split_ifs <;> rfl

theorem next_waitIdle (h : ArbiterInv N.arbiter s.arb) (hg : s.arb.grantValid = true)
    (hst : s.state = .waitIdle) :
    s.next i = { s.defaults i with state := if s.acked i then .idle else .waitIdle } := by
  rw [Interconnect.next, hst]
  show s.clockWaitIdle i = _
  unfold clockWaitIdle
  rw [anyBit_acknowledge h hg, hg]
  cases s.acked i <;> rfl

theorem clock_state_waitIdle (hrst : i.rst = false) (h : ArbiterInv N.arbiter s.arb)
    (hg : s.arb.grantValid = true) (hst : s.state = .waitIdle) :
    (s.clock i).state = if s.acked i then .idle else .waitIdle := by
  rw [clock_eq hrst, next_waitIdle h hg hst]

/-! ## What is handed over at rest -/

section Rest

variable (hw : WriteIdle s) (hr : ReadIdle s) (ha : NoAddr s)

include hw in
theorem WriteIdle.events : (∀ n, s.events i (.sW n) = []) ∧ (∀ n, s.events i (.sB n) = []) ∧
    (∀ m, s.events i (.mAw m) = []) ∧ (∀ m, s.events i (.mW m) = []) ∧
    ∀ m, s.events i (.mB m) = [] :=
  ⟨fun n => by simp [Interconnect.events, hw.sWready], fun n => by simp [Interconnect.events, hw.sBvalid],
    fun m => by simp [Interconnect.events, hw.mAwvalid],
    fun m => by simp [Interconnect.events, hw.wOut.valid],
    fun m => by simp [Interconnect.events, hw.mBready]⟩

include hw in
theorem WriteIdle.pending (hst : s.state ≠ .write) : (∀ n, s.pending (.sB n) = []) ∧
    (∀ m, s.pending (.mAw m) = []) ∧ ∀ m, s.pending (.mW m) = [] :=
  ⟨fun n => by simp [Interconnect.pending, hw.sBvalid],
    fun m => by simp [Interconnect.pending, hw.mAwvalid, hst],
    fun m => by simp [Interconnect.pending, hw.wOut.held]⟩

include hr in
theorem ReadIdle.events : (∀ n, s.events i (.sR n) = []) ∧ ∀ m, s.events i (.mAr m) = [] :=
  ⟨fun n => by simp [Interconnect.events, hr.rOut.valid],
    fun m => by simp [Interconnect.events, hr.mArvalid]⟩

include hr in
theorem ReadIdle.pending (hst : s.state ≠ .read) : (∀ n, s.pending (.sR n) = []) ∧
    ∀ m, s.pending (.mAr m) = [] :=
  ⟨fun n => by simp [Interconnect.pending, hr.rOut.held],
    fun m => by simp [Interconnect.pending, hr.mArvalid, hst]⟩

include ha in
theorem NoAddr.events : (∀ n, s.events i (.sAw n) = []) ∧ ∀ n, s.events i (.sAr n) = [] :=
  ⟨fun n => by simp [Interconnect.events, ha.sAwready], fun n => by simp [Interconnect.events, ha.sArready]⟩

theorem events_mR_of_not {m : ℕ} (h : i.mRvalid m = false) : s.events i (.mR m) = [] := by
  simp [Interconnect.events, h]

include hw hr in
theorem pending_rest (h₁ : s.state ≠ .write) (h₂ : s.state ≠ .read) (w : Wire) : s.pending w = [] := by
  obtain ⟨hsB, hmAw, hmW⟩ := hw.pending h₁
  obtain ⟨hsR, hmAr⟩ := hr.pending h₂
  cases w with
  | sB n => exact hsB n
  | sR n => exact hsR n
  | mAw m => exact hmAw m
  | mW m => exact hmW m
  | mAr m => exact hmAr m
  | sAw n | sW n | sAr n | mB m | mR m => rfl

include hw hr ha in
theorem events_rest (hno : ∀ m, i.mRvalid m = false) (w : Wire) : s.events i w = [] := by
  obtain ⟨hsW, hsB, hmAw, hmW, hmB⟩ := hw.events (i := i)
  obtain ⟨hsR, hmAr⟩ := hr.events (i := i)
  obtain ⟨hsAw, hsAr⟩ := ha.events (i := i)
  cases w with
  | sAw n => exact hsAw n
  | sW n => exact hsW n
  | sB n => exact hsB n
  | sAr n => exact hsAr n
  | sR n => exact hsR n
  | mAw m => exact hmAw m
  | mW m => exact hmW m
  | mB m => exact hmB m
  | mAr m => exact hmAr m
  | mR m => exact events_mR_of_not (hno m)

end Rest

/-! ## What passes through the registers -/

theorem flow_mW (hrst : i.rst = false) (h : SkidInv s.wOut s.mSelect) (k : ℕ) :
    s.events i (.mW k) ++ (s.clock i).pending (.mW k) = s.pending (.mW k) ++
      if k = s.mSelect then (s.wOut.accepted (s.wIn i)).map fun x => NetBeat.w (mWOf x) else [] := by
  have hout : (s.clock i).wOut = s.wOut.next (s.wIn i) := by rw [clock_eq hrst]
  have hnext : SkidInv (s.wOut.next (s.wIn i)) s.mSelect := SkidInv.next (i := s.wIn i) h
  simp only [Interconnect.events, Interconnect.pending, hout]
  by_cases hk : k = s.mSelect
  · subst hk
    have hpass := congrArg (List.map fun x => NetBeat.w (mWOf x)) (SkidInv.pass (i := s.wIn i) h)
    rw [List.map_append, List.map_append] at hpass
    rw [if_pos rfl]
    refine Eq.trans ?_ hpass
    congr 1
    show _ = List.map _ (if s.wOut.valid s.mSelect && i.mWready s.mSelect then [s.wOut.out] else [])
    split_ifs <;> rfl
  · rw [h.only k hk, SkidInv.held_of_ne (i := s.wIn i) hnext hk, SkidInv.held_of_ne (i := s.wIn i) h hk]
    simp [hk]

theorem flow_sR (hrst : i.rst = false) (h : SkidInv s.rOut s.sSelect) (k : ℕ) :
    s.events i (.sR k) ++ (s.clock i).pending (.sR k) = s.pending (.sR k) ++
      if k = s.sSelect then (s.rOut.accepted (s.rIn i)).map fun x => NetBeat.r (sROf x) else [] := by
  have hout : (s.clock i).rOut = s.rOut.next (s.rIn i) := by rw [clock_eq hrst]
  have hnext : SkidInv (s.rOut.next (s.rIn i)) s.sSelect := SkidInv.next (i := s.rIn i) h
  simp only [Interconnect.events, Interconnect.pending, hout]
  by_cases hk : k = s.sSelect
  · subst hk
    have hpass := congrArg (List.map fun x => NetBeat.r (sROf x)) (SkidInv.pass (i := s.rIn i) h)
    rw [List.map_append, List.map_append] at hpass
    rw [if_pos rfl]
    refine Eq.trans ?_ hpass
    congr 1
    show _ = List.map _ (if s.rOut.valid s.sSelect && i.sRready s.sSelect then [s.rOut.out] else [])
    split_ifs <;> rfl
  · rw [h.only k hk, SkidInv.held_of_ne (i := s.rIn i) hnext hk, SkidInv.held_of_ne (i := s.rIn i) h hk]
    simp [hk]

theorem mAw_eq {req : NetReq N N.awuserWidth} {j : ℕ} (haxi : s.axi = req.withUser _)
    (hregion : s.region = BitVec.ofNat 4 j) : s.mAw = req.toFwd N.awuserEnable j := by
  have hle : N.awuserWidth ≤ N.auserWidth := by
    unfold NetParams.auserWidth
    split_ifs <;> omega
  unfold mAw forward NetReq.toFwd
  rw [haxi, hregion]
  simp [NetReq.withUser, BitVec.setWidth_setWidth_of_le _ hle]

theorem mAr_eq {req : NetReq N N.aruserWidth} {j : ℕ} (haxi : s.axi = req.withUser _)
    (hregion : s.region = BitVec.ofNat 4 j) : s.mAr = req.toFwd N.aruserEnable j := by
  have hle : N.aruserWidth ≤ N.auserWidth := by
    unfold NetParams.auserWidth
    split_ifs <;> omega
  unfold mAr forward NetReq.toFwd
  rw [haxi, hregion]
  simp [NetReq.withUser, BitVec.setWidth_setWidth_of_le _ hle]

theorem clock_axi (hrst : i.rst = false) (h₁ : s.state ≠ .idle) (h₂ : s.state ≠ .readDrop) :
    (s.clock i).axi = s.axi := by
  rw [clock_eq hrst]
  show (s.next i).axi = s.axi
  unfold Interconnect.next
  cases hst : s.state with
  | idle => exact absurd hst h₁
  | decode => unfold clockDecode; dsimp only; split <;> split_ifs <;> rfl
  | write => unfold clockWrite; dsimp only; split_ifs <;> rfl
  | writeResp => unfold clockWriteResp; dsimp only; split_ifs <;> rfl
  | writeDrop => unfold clockWriteDrop; dsimp only; split_ifs <;> rfl
  | read => unfold clockRead; dsimp only; split_ifs <;> rfl
  | readDrop => exact absurd hst h₂
  | waitIdle => unfold clockWaitIdle; dsimp only; split_ifs <;> rfl

theorem clock_region (hrst : i.rst = false) (h : s.state ≠ .decode) :
    (s.clock i).region = s.region ∧ (s.clock i).mSelect = s.mSelect := by
  rw [clock_eq hrst]
  show (s.next i).region = s.region ∧ (s.next i).mSelect = s.mSelect
  unfold Interconnect.next
  cases hst : s.state with
  | idle => unfold clockIdle; dsimp only; split_ifs <;> exact ⟨rfl, rfl⟩
  | decode => exact absurd hst h
  | write => unfold clockWrite; dsimp only; split_ifs <;> exact ⟨rfl, rfl⟩
  | writeResp => unfold clockWriteResp; dsimp only; split_ifs <;> exact ⟨rfl, rfl⟩
  | writeDrop => unfold clockWriteDrop; dsimp only; split_ifs <;> exact ⟨rfl, rfl⟩
  | read => unfold clockRead; dsimp only; split_ifs <;> exact ⟨rfl, rfl⟩
  | readDrop => unfold clockReadDrop; dsimp only; split_ifs <;> exact ⟨rfl, rfl⟩
  | waitIdle => unfold clockWaitIdle; dsimp only; split_ifs <;> exact ⟨rfl, rfl⟩

end Interconnect

end PacketBuffering
