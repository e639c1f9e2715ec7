import PacketBuffering.Lsu.System

/-!
# Writes through the LSU adapter

* `WriteInv`, **`WriteInv.step`**: the invariant of the write path, from the channels taken to the
  response; `WriteInv.of_run`: it holds in every reachable state.
* `WriteLands`: every strobed byte is at its address and no other has changed;
  `writeLands_stored_iff`: when the adapter's 32-bit write does that.
* `LsuWrite`: the writes of the load/store unit.
* **`lsu_write_lands_iff`**: a write lands iff it is not a doubleword with a strobe in its upper half,
  other than on a byte that already had the written value.
* `lsu_write_upper_dropped`: such a write is answered `OKAY` and dropped.
-/

namespace PacketBuffering

variable {L : LsuParams}

open LsuWrapper (forward selectHalf)

/-! ## The invariant of the write path -/

/-- No channel is offered to the memory or sent to it, and the memory holds no write. -/
structure Clear (s : LsuSystem L) : Prop where
  awSent : s.wrapper.wrAwSent = false
  wSent : s.wrapper.wrWSent = false
  mAwvalid : s.wrapper.mAwvalidR = false
  mWvalid : s.wrapper.mWvalidR = false
  slaveAw : s.slave.aw = none
  slaveW : s.slave.w = none
  slaveB : s.slave.b = none

/-- The adapter has taken the request `aw` and the beat `w`. -/
structure Latched (aw : AddrReq L.lsuBusTag) (w : Beat64) (s : LsuSystem L) : Prop where
  awValid : s.wrapper.wrAwValid = true
  wValid : s.wrapper.wrWValid = true
  wrAw : s.wrapper.wrAw = aw
  wrW : s.wrapper.wrW = w

/-- No channel is offered to the memory. -/
structure Unoffered (s : LsuSystem L) : Prop where
  mAwvalid : s.wrapper.mAwvalidR = false
  mWvalid : s.wrapper.mWvalidR = false

/-- In `WS_CMD` each channel is offered until it is sent, and then in the memory. -/
structure Sending (aw : AddrReq L.lsuBusTag) (w : Beat64) (m : BitVec 32 → BitVec 8)
    (s : LsuSystem L) : Prop where
  notBoth : (s.wrapper.wrAwSent && s.wrapper.wrWSent) = false
  mAwvalid : s.wrapper.mAwvalidR = !s.wrapper.wrAwSent
  mWvalid : s.wrapper.mWvalidR = !s.wrapper.wrWSent
  slaveAw : s.slave.aw = if s.wrapper.wrAwSent then some (forward aw) else none
  slaveW : s.slave.w = if s.wrapper.wrWSent then some (selectHalf aw w) else none
  slaveB : s.slave.b = none
  mem : s.slave.mem = m

/-- The memory after the adapter's write. -/
def stored (aw : AddrReq L.lsuBusTag) (w : Beat64) (m : BitVec 32 → BitVec 8) :
    BitVec 32 → BitVec 8 :=
  storeLanes m (alignDown 2 aw.addr) (selectHalf aw w).strb (selectHalf aw w).data

/-- The write has been sent and is not performed yet. -/
structure Waiting (aw : AddrReq L.lsuBusTag) (w : Beat64) (m : BitVec 32 → BitVec 8)
    (t : MemSlave L) : Prop where
  slaveAw : t.aw = some (forward aw)
  slaveW : t.w = some (selectHalf aw w)
  slaveB : t.b = none
  mem : t.mem = m

/-- The write has been performed and answered with `resp`. -/
structure Answered (aw : AddrReq L.lsuBusTag) (w : Beat64) (m : BitVec 32 → BitVec 8)
    (resp : BitVec 2) (t : MemSlave L) : Prop where
  slaveAw : t.aw = none
  slaveW : t.w = none
  slaveB : ∃ id, t.b = some (id, resp)
  mem : resp = respOkay → t.mem = stored aw w m

/-- At most one channel has been taken. -/
structure Front (aw : AddrReq L.lsuBusTag) (w : Beat64) (m : BitVec 32 → BitVec 8)
    (s : LsuSystem L) : Prop where
  clear : Clear s
  mem : s.slave.mem = m
  state : s.wrapper.wrState = if s.wrapper.wrAwValid || s.wrapper.wrWValid then .wait else .idle
  notBoth : (s.wrapper.wrAwValid && s.wrapper.wrWValid) = false
  wrAw : s.wrapper.wrAwValid = true → s.wrapper.wrAw = aw
  wrW : s.wrapper.wrWValid = true → s.wrapper.wrW = w

/-- **The invariant of the write path**, for a write of `aw` and `w` to the memory `m`. -/
inductive WriteInv (aw : AddrReq L.lsuBusTag) (w : Beat64) (m : BitVec 32 → BitVec 8)
    (s : LsuSystem L) : Prop
  | front (h : Front aw w m s)
  | cmd (hs : s.wrapper.wrState = .cmd) (hl : Latched aw w s) (h : Sending aw w m s)
  | waiting (hs : s.wrapper.wrState = .bresp) (hl : Latched aw w s) (hq : Unoffered s)
      (h : Waiting aw w m s.slave)
  | answered (hs : s.wrapper.wrState = .bresp) (hl : Latched aw w s) (hq : Unoffered s)
      (resp : BitVec 2) (h : Answered aw w m resp s.slave)

/-- What the adapter takes at the event is `aw` and `w`. -/
structure Takes (aw : AddrReq L.lsuBusTag) (w : Beat64) (s : LsuSystem L) (e : LsuEvent L) :
    Prop where
  aw : s.wrapper.awTake (s.input e) = true → e.sAw = aw
  w : s.wrapper.wTake (s.input e) = true → e.sW = w

section Step

variable {s : LsuSystem L} {e : LsuEvent L} {aw : AddrReq L.lsuBusTag} {w : Beat64}
  {m : BitVec 32 → BitVec 8}

theorem Clear.slaveNext (h : Clear s) :
    (s.slaveNext e).aw = none ∧ (s.slaveNext e).w = none ∧ (s.slaveNext e).b = none ∧
      (s.slaveNext e).mem = s.slave.mem := by
  have hcommit : s.commits e = none := by simp [LsuSystem.commits, h.slaveAw]
  have hb : s.bFire e = false := by
    simp [LsuSystem.bFire, LsuWrapper.sAxiBvalid, LsuSystem.input, h.slaveB]
  simp [LsuSystem.slaveNext, LsuSystem.memNext, hcommit, hb, LsuSystem.awFire, LsuSystem.wFire,
    LsuWrapper.awFire, LsuWrapper.wFire, h.mAwvalid, h.mWvalid, h.slaveAw, h.slaveW, h.slaveB]

theorem Clear.step (aw : AddrReq L.lsuBusTag) (w : Beat64) (h : Clear s)
    (hret : s.wrapper.retires (s.input e) = false) :
    (s.wrapper.entersCmd (s.input e) = false → Clear (s.step e)) ∧
      (s.wrapper.entersCmd (s.input e) = true → Sending aw w s.slave.mem (s.step e)) := by
  obtain ⟨haw, hw, hb, hm⟩ := h.slaveNext (e := e)
  refine ⟨fun hc => ⟨?_, ?_, ?_, ?_, haw, hw, hb⟩, fun hc => ⟨?_, ?_, ?_, ?_, ?_, hb, hm⟩⟩
  all_goals
    simp [LsuSystem.step, LsuWrapper.clock, LsuWrapper.awFire, LsuWrapper.wFire, h.awSent, h.wSent,
      h.mAwvalid, h.mWvalid, hret, hc, haw, hw]

theorem latch_step (hret : s.wrapper.retires (s.input e) = false) :
    (s.step e).wrapper.wrAwValid = (s.wrapper.awTake (s.input e) || s.wrapper.wrAwValid) ∧
      (s.step e).wrapper.wrWValid = (s.wrapper.wTake (s.input e) || s.wrapper.wrWValid) ∧
      (s.step e).wrapper.wrAw = (if s.wrapper.awTake (s.input e) then e.sAw else s.wrapper.wrAw) ∧
      (s.step e).wrapper.wrW = (if s.wrapper.wTake (s.input e) then e.sW else s.wrapper.wrW) := by
  simp only [LsuSystem.step, LsuWrapper.clock, hret, Bool.not_false, Bool.and_true, true_and]
  exact ⟨rfl, rfl⟩

theorem Front.retires (h : Front aw w m s) : s.wrapper.retires (s.input e) = false := by
  unfold LsuWrapper.retires LsuWrapper.wrStateNext
  rw [h.state]
  cases s.wrapper.wrAwValid || s.wrapper.wrWValid
  · simp
  · simp only [if_true]
    split_ifs <;> rfl

theorem awTake_of_valid (h : s.wrapper.wrAwValid = true) :
    s.wrapper.awTake (s.input e) = false := by
  simp [LsuWrapper.awTake, LsuWrapper.sAxiAwready, h]

theorem wTake_of_valid (h : s.wrapper.wrWValid = true) : s.wrapper.wTake (s.input e) = false := by
  simp [LsuWrapper.wTake, LsuWrapper.sAxiWready, h]

theorem Front.wrState_step (h : Front aw w m s) : (s.step e).wrapper.wrState =
    if (s.step e).wrapper.wrAwValid && (s.step e).wrapper.wrWValid then .cmd
    else if (s.step e).wrapper.wrAwValid || (s.step e).wrapper.wrWValid then .wait else .idle := by
  obtain ⟨hav, hwv, -, -⟩ := latch_step (h.retires (e := e))
  have hst : (s.step e).wrapper.wrState = s.wrapper.wrStateNext (s.input e) := rfl
  have hnot := h.notBoth
  rw [hst, hav, hwv, LsuWrapper.wrStateNext, h.state]
  cases ha : s.wrapper.wrAwValid with
  | true =>
    rw [ha, Bool.true_and] at hnot
    rw [awTake_of_valid ha, hnot]
    cases s.wrapper.wTake (s.input e) <;> rfl
  | false =>
    cases hw : s.wrapper.wrWValid with
    | true =>
      rw [wTake_of_valid hw]
      cases s.wrapper.awTake (s.input e) <;> rfl
    | false =>
      cases s.wrapper.awTake (s.input e) <;> cases s.wrapper.wTake (s.input e) <;> rfl

theorem Front.latch (h : Front aw w m s) (ht : Takes aw w s e) :
    ((s.step e).wrapper.wrAwValid = true → (s.step e).wrapper.wrAw = aw) ∧
      ((s.step e).wrapper.wrWValid = true → (s.step e).wrapper.wrW = w) := by
  obtain ⟨hav, hwv, ha, hw⟩ := latch_step (h.retires (e := e))
  rw [hav, hwv, ha, hw]
  refine ⟨fun hv => ?_, fun hv => ?_⟩
  · split_ifs with htake
    · exact ht.aw htake
    · exact h.wrAw (by simpa [htake] using hv)
  · split_ifs with htake
    · exact ht.w htake
    · exact h.wrW (by simpa [htake] using hv)

theorem Front.step (h : Front aw w m s) (ht : Takes aw w s e) : WriteInv aw w m (s.step e) := by
  have hstate := h.wrState_step (e := e)
  have hmem : (s.step e).slave.mem = m := h.clear.slaveNext.2.2.2.trans h.mem
  obtain ⟨hwa, hww⟩ := h.latch ht
  obtain ⟨hclear, hsend⟩ := h.clear.step aw w (h.retires (e := e))
  have hne : s.wrapper.wrState ≠ .cmd := by
    rw [h.state]
    split_ifs <;> decide
  cases hboth : (s.step e).wrapper.wrAwValid && (s.step e).wrapper.wrWValid with
  | true =>
    rw [hboth, if_pos rfl] at hstate
    have henters : s.wrapper.entersCmd (s.input e) = true := by
      have : s.wrapper.wrStateNext (s.input e) = .cmd := hstate
      simp [LsuWrapper.entersCmd, this, hne]
    rw [Bool.and_eq_true] at hboth
    exact .cmd hstate ⟨hboth.1, hboth.2, hwa hboth.1, hww hboth.2⟩ (h.mem ▸ hsend henters)
  | false =>
    rw [hboth, if_neg Bool.false_ne_true] at hstate
    have henters : s.wrapper.entersCmd (s.input e) = false := by
      have : s.wrapper.wrStateNext (s.input e) ≠ .cmd := by
        rw [show s.wrapper.wrStateNext (s.input e) = _ from hstate]
        split_ifs <;> decide
      simp [LsuWrapper.entersCmd, this]
    exact .front ⟨hclear henters, hmem, hstate, hboth, hwa, hww⟩

theorem Latched.step (h : Latched aw w s) (hret : s.wrapper.retires (s.input e) = false) :
    Latched aw w (s.step e) := by
  obtain ⟨hav, hwv, ha, hw⟩ := latch_step hret
  rw [awTake_of_valid h.awValid] at hav ha
  rw [wTake_of_valid h.wValid] at hwv hw
  exact ⟨hav.trans h.awValid, hwv.trans h.wValid, ha.trans h.wrAw, hw.trans h.wrW⟩

theorem Sending.commits (h : Sending aw w m s) : s.commits e = none := by
  unfold LsuSystem.commits
  rw [h.slaveAw, h.slaveW]
  have := h.notBoth
  cases ha : s.wrapper.wrAwSent <;> cases hw : s.wrapper.wrWSent <;> simp_all

theorem Sending.fire (h : Sending aw w m s) :
    s.awFire e = (!s.wrapper.wrAwSent && e.awready) ∧
      s.wFire e = (!s.wrapper.wrWSent && e.wready) := by
  rw [LsuSystem.awFire, LsuWrapper.awFire, h.mAwvalid, LsuSystem.wFire, LsuWrapper.wFire, h.mWvalid]
  exact ⟨rfl, rfl⟩

/-- In `WS_CMD` the sent flags follow the handshakes, and the path goes on when both are set. -/
theorem Sending.ctrl (hs : s.wrapper.wrState = .cmd) (h : Sending aw w m s) :
    s.wrapper.retires (s.input e) = false ∧
      (s.step e).wrapper.wrAwSent = (s.wrapper.wrAwSent || e.awready) ∧
      (s.step e).wrapper.wrWSent = (s.wrapper.wrWSent || e.wready) ∧
      (s.step e).wrapper.mAwvalidR = !(s.wrapper.wrAwSent || e.awready) ∧
      (s.step e).wrapper.mWvalidR = !(s.wrapper.wrWSent || e.wready) ∧
      (s.step e).wrapper.wrState =
        if (s.wrapper.wrAwSent || e.awready) && (s.wrapper.wrWSent || e.wready) then .bresp
        else .cmd := by
  have hA : s.wrapper.awFire (s.input e) = (!s.wrapper.wrAwSent && e.awready) := h.fire.1
  have hW : s.wrapper.wFire (s.input e) = (!s.wrapper.wrWSent && e.wready) := h.fire.2
  have hnext : s.wrapper.wrStateNext (s.input e) =
      if (s.wrapper.wrAwSent || e.awready) && (s.wrapper.wrWSent || e.wready) then .bresp
      else .cmd := by
    rw [LsuWrapper.wrStateNext, hs, h.notBoth, hA, hW]
    cases s.wrapper.wrAwSent <;> cases s.wrapper.wrWSent <;> cases e.awready <;>
      cases e.wready <;> rfl
  have hret : s.wrapper.retires (s.input e) = false := by
    rw [LsuWrapper.retires, hnext]
    split_ifs <;> rfl
  have henters : s.wrapper.entersCmd (s.input e) = false := by simp [LsuWrapper.entersCmd, hs]
  refine ⟨hret, ?_, ?_, ?_, ?_, hnext⟩
  all_goals
    simp only [LsuSystem.step, LsuWrapper.clock, hret, henters, hA, hW, h.mAwvalid, h.mWvalid]
    cases s.wrapper.wrAwSent <;> cases s.wrapper.wrWSent <;> cases e.awready <;>
      cases e.wready <;> rfl

theorem Sending.slaveNext (hl : Latched aw w s) (h : Sending aw w m s) :
    (s.step e).slave.aw =
        (if s.wrapper.wrAwSent || e.awready then some (forward aw) else none) ∧
      (s.step e).slave.w =
        (if s.wrapper.wrWSent || e.wready then some (selectHalf aw w) else none) ∧
      (s.step e).slave.b = none ∧ (s.step e).slave.mem = m := by
  obtain ⟨hA, hW⟩ := h.fire (e := e)
  have hb : s.bFire e = false := by
    simp [LsuSystem.bFire, LsuWrapper.sAxiBvalid, LsuSystem.input, h.slaveB]
  simp only [LsuSystem.step, LsuSystem.slaveNext, LsuSystem.memNext, h.commits, hA, hW, hb,
    h.slaveAw, h.slaveW, h.slaveB, h.mem, LsuWrapper.mAxiAw, LsuWrapper.mAxiW, hl.wrAw, hl.wrW]
  cases s.wrapper.wrAwSent <;> cases s.wrapper.wrWSent <;> cases e.awready <;>
    cases e.wready <;> simp

theorem Sending.step (hs : s.wrapper.wrState = .cmd) (hl : Latched aw w s) (h : Sending aw w m s) :
    WriteInv aw w m (s.step e) := by
  obtain ⟨hret, ha, hw, hma, hmw, hstate⟩ := h.ctrl (e := e) hs
  obtain ⟨hsa, hsw, hsb, hmem⟩ := h.slaveNext (e := e) hl
  have hl' := hl.step hret
  cases hboth : (s.wrapper.wrAwSent || e.awready) && (s.wrapper.wrWSent || e.wready) with
  | true =>
    rw [hboth] at hstate
    rw [Bool.and_eq_true] at hboth
    rw [hboth.1] at hma hsa
    rw [hboth.2] at hmw hsw
    exact .waiting hstate hl' ⟨hma, hmw⟩ ⟨hsa, hsw, hsb, hmem⟩
  | false =>
    rw [hboth] at hstate
    rw [← ha] at hma hsa
    rw [← hw] at hmw hsw
    exact .cmd hstate hl' ⟨by rw [ha, hw, hboth], hma, hmw, hsa, hsw, hsb, hmem⟩

theorem bresp_ctrl (hs : s.wrapper.wrState = .bresp) :
    s.wrapper.retires (s.input e) = s.bFire e ∧
      (s.step e).wrapper.wrState = if s.bFire e then .idle else .bresp := by
  have hb : s.bFire e = ((s.input e).mBvalid && e.sBready) := by
    simp [LsuSystem.bFire, LsuWrapper.sAxiBvalid, hs]
  have hnext : s.wrapper.wrStateNext (s.input e) = if s.bFire e then .idle else .bresp := by
    rw [LsuWrapper.wrStateNext, hs, hb]
    rfl
  refine ⟨?_, hnext⟩
  rw [LsuWrapper.retires, hnext, hs]
  cases s.bFire e <;> rfl

theorem Unoffered.step (hs : s.wrapper.wrState = .bresp) (h : Unoffered s) :
    Unoffered (s.step e) ∧ s.awFire e = false ∧ s.wFire e = false := by
  have hA : s.awFire e = false := by
    rw [LsuSystem.awFire, LsuWrapper.awFire, h.mAwvalid, Bool.false_and]
  have hW : s.wFire e = false := by
    rw [LsuSystem.wFire, LsuWrapper.wFire, h.mWvalid, Bool.false_and]
  have henters : s.wrapper.entersCmd (s.input e) = false := by
    rw [LsuWrapper.entersCmd, show s.wrapper.wrStateNext (s.input e) = _ from (bresp_ctrl hs).2]
    cases s.bFire e <;> rfl
  refine ⟨⟨?_, ?_⟩, hA, hW⟩
  · simp [LsuSystem.step, LsuWrapper.clock, h.mAwvalid, henters]
  · simp [LsuSystem.step, LsuWrapper.clock, h.mWvalid, henters]

theorem Waiting.bFire (h : Waiting aw w m s.slave) : s.bFire e = false := by
  simp [LsuSystem.bFire, LsuWrapper.sAxiBvalid, LsuSystem.input, h.slaveB]

theorem Waiting.step (hs : s.wrapper.wrState = .bresp) (hl : Latched aw w s) (hq : Unoffered s)
    (h : Waiting aw w m s.slave) : WriteInv aw w m (s.step e) := by
  obtain ⟨hret, hstate⟩ := bresp_ctrl (e := e) hs
  obtain ⟨hq', hA, hW⟩ := hq.step (e := e) hs
  rw [h.bFire] at hret hstate
  have hl' := hl.step hret
  cases hc : e.commit with
  | none =>
    have hcommit : s.commits e = none := by simp [LsuSystem.commits, hc]
    refine .waiting hstate hl' hq' ⟨?_, ?_, ?_, ?_⟩
    · simp [LsuSystem.step, LsuSystem.slaveNext, hcommit, hA, h.slaveAw]
    · simp [LsuSystem.step, LsuSystem.slaveNext, hcommit, hW, h.slaveW]
    · simp [LsuSystem.step, LsuSystem.slaveNext, hcommit, h.bFire, h.slaveB]
    · simp [LsuSystem.step, LsuSystem.slaveNext, LsuSystem.memNext, hcommit, h.mem]
  | some resp =>
    have hcommit : s.commits e = some (forward aw, selectHalf aw w, resp) := by
      simp [LsuSystem.commits, hc, h.slaveAw, h.slaveW]
    refine .answered hstate hl' hq' resp ⟨?_, ?_, ⟨(forward aw).id, ?_⟩, ?_⟩
    · simp [LsuSystem.step, LsuSystem.slaveNext, hcommit, hA]
    · simp [LsuSystem.step, LsuSystem.slaveNext, hcommit, hW]
    · simp [LsuSystem.step, LsuSystem.slaveNext, hcommit]
    · intro hok
      simp only [LsuSystem.step, LsuSystem.slaveNext, LsuSystem.memNext, hcommit, hok, if_true,
        h.mem, forward, stored]

theorem Answered.step {resp : BitVec 2} (hs : s.wrapper.wrState = .bresp) (hl : Latched aw w s)
    (hq : Unoffered s) (h : Answered aw w m resp s.slave) (hb : s.bFire e = false) :
    WriteInv aw w m (s.step e) := by
  obtain ⟨hret, hstate⟩ := bresp_ctrl (e := e) hs
  obtain ⟨hq', hA, hW⟩ := hq.step (e := e) hs
  rw [hb] at hret hstate
  have hcommit : s.commits e = none := by simp [LsuSystem.commits, h.slaveAw]
  obtain ⟨id, hid⟩ := h.slaveB
  refine .answered hstate (hl.step hret) hq' resp ⟨?_, ?_, ⟨id, ?_⟩, fun hok => ?_⟩
  · simp [LsuSystem.step, LsuSystem.slaveNext, hcommit, hA, h.slaveAw]
  · simp [LsuSystem.step, LsuSystem.slaveNext, hcommit, hW, h.slaveW]
  · simp [LsuSystem.step, LsuSystem.slaveNext, hcommit, hb, hid]
  · rw [← h.mem hok]
    simp [LsuSystem.step, LsuSystem.slaveNext, LsuSystem.memNext, hcommit]

theorem Answered.retire {resp : BitVec 2} (hs : s.wrapper.wrState = .bresp) (hl : Latched aw w s)
    (hq : Unoffered s) (h : Answered aw w m resp s.slave) (hb : s.bFire e = true) :
    Front aw w s.slave.mem (s.step e) := by
  obtain ⟨hret, hstate⟩ := bresp_ctrl (e := e) hs
  obtain ⟨hq', hA, hW⟩ := hq.step (e := e) hs
  rw [hb] at hret hstate
  have hcommit : s.commits e = none := by simp [LsuSystem.commits, h.slaveAw]
  have hav : (s.step e).wrapper.wrAwValid = false := by
    simp [LsuSystem.step, LsuWrapper.clock, hret, awTake_of_valid hl.awValid]
  have hwv : (s.step e).wrapper.wrWValid = false := by
    simp [LsuSystem.step, LsuWrapper.clock, hret, wTake_of_valid hl.wValid]
  refine ⟨⟨?_, ?_, hq'.mAwvalid, hq'.mWvalid, ?_, ?_, ?_⟩, ?_, ?_, ?_, ?_, ?_⟩
  · simp [LsuSystem.step, LsuWrapper.clock, hret]
  · simp [LsuSystem.step, LsuWrapper.clock, hret]
  · simp [LsuSystem.step, LsuSystem.slaveNext, hcommit, hA, h.slaveAw]
  · simp [LsuSystem.step, LsuSystem.slaveNext, hcommit, hW, h.slaveW]
  · simp [LsuSystem.step, LsuSystem.slaveNext, hcommit, hb]
  · simp [LsuSystem.step, LsuSystem.slaveNext, LsuSystem.memNext, hcommit]
  · rw [hstate, hav, hwv]
    rfl
  · rw [hav, Bool.false_and]
  · rw [hav]
    exact fun h => Bool.noConfusion h
  · rw [hwv]
    exact fun h => Bool.noConfusion h

/-- **One cycle before the response is accepted.** -/
theorem WriteInv.step (h : WriteInv aw w m s) (ht : Takes aw w s e) (hb : s.bFire e = false) :
    WriteInv aw w m (s.step e) := by
  cases h with
  | front h => exact h.step ht
  | cmd hs hl h => exact h.step hs hl
  | waiting hs hl hq h => exact h.step hs hl hq
  | answered hs hl hq resp h => exact h.step hs hl hq hb

theorem WriteInv.bFire (h : WriteInv aw w m s) (hb : s.bFire e = true) :
    Latched aw w s ∧ Unoffered s ∧ s.wrapper.wrState = .bresp ∧
      ∃ resp, Answered aw w m resp s.slave := by
  have hs : s.wrapper.wrState = .bresp := by
    simp only [LsuSystem.bFire, LsuWrapper.sAxiBvalid, Bool.and_eq_true, beq_iff_eq] at hb
    exact hb.1.1
  cases h with
  | front h =>
    rw [h.state] at hs
    split_ifs at hs
  | cmd hc hl h => rw [hc] at hs; cases hs
  | waiting hs hl hq h => rw [h.bFire] at hb; cases hb
  | answered hs hl hq resp h => exact ⟨hl, hq, hs, resp, h⟩

theorem WriteInv.retarget (h : WriteInv aw w m s) :
    WriteInv (if s.wrapper.awTake (s.input e) then e.sAw else aw)
      (if s.wrapper.wTake (s.input e) then e.sW else w) m s := by
  have hsame : Latched aw w s → (if s.wrapper.awTake (s.input e) then e.sAw else aw) = aw ∧
      (if s.wrapper.wTake (s.input e) then e.sW else w) = w := fun hl => by
    rw [awTake_of_valid hl.awValid, wTake_of_valid hl.wValid]
    exact ⟨rfl, rfl⟩
  cases h with
  | front h =>
    refine .front ⟨h.clear, h.mem, h.state, h.notBoth, fun hv => ?_, fun hv => ?_⟩
    · rw [awTake_of_valid hv]
      exact h.wrAw hv
    · rw [wTake_of_valid hv]
      exact h.wrW hv
  | cmd hs hl h =>
    rw [(hsame hl).1, (hsame hl).2]
    exact .cmd hs hl h
  | waiting hs hl hq h =>
    rw [(hsame hl).1, (hsame hl).2]
    exact .waiting hs hl hq h
  | answered hs hl hq resp h =>
    rw [(hsame hl).1, (hsame hl).2]
    exact .answered hs hl hq resp h

theorem WriteInv.exists_step (h : WriteInv aw w m s) (e : LsuEvent L) :
    ∃ aw' w' m', WriteInv aw' w' m' (s.step e) := by
  cases hb : s.bFire e with
  | true =>
    obtain ⟨hl, hq, hs, resp, hans⟩ := h.bFire hb
    exact ⟨aw, w, _, .front (hans.retire hs hl hq hb)⟩
  | false =>
    refine ⟨_, _, m, (h.retarget (e := e)).step ⟨?_, ?_⟩ hb⟩
    · intro ht
      rw [ht, if_pos rfl]
    · intro ht
      rw [ht, if_pos rfl]

theorem WriteInv.of_idle (h : WriteInv aw w m s) (hs : s.wrapper.wrState = .idle)
    (aw' : AddrReq L.lsuBusTag) (w' : Beat64) : WriteInv aw' w' s.slave.mem s := by
  cases h with
  | front h =>
    have hnone : s.wrapper.wrAwValid = false ∧ s.wrapper.wrWValid = false := by
      have hst := h.state
      rw [hs] at hst
      split_ifs at hst with hor
      simpa using hor
    refine .front ⟨h.clear, rfl, h.state, h.notBoth, fun hv => ?_, fun hv => ?_⟩
    · rw [hnone.1] at hv
      cases hv
    · rw [hnone.2] at hv
      cases hv
  | cmd hc hl h => rw [hc] at hs; cases hs
  | waiting hc hl hq h => rw [hc] at hs; cases hs
  | answered hc hl hq resp h => rw [hc] at hs; cases hs

end Step

theorem WriteInv.of_run (mem : BitVec 32 → BitVec 8) (es : List (LsuEvent L)) :
    ∃ aw w m, WriteInv aw w m (run LsuSystem.step (LsuSystem.reset L mem) es) := by
  induction es using List.reverseRecOn with
  | nil =>
    exact ⟨.zero _, ⟨0, 0⟩, mem, .front ⟨⟨rfl, rfl, rfl, rfl, rfl, rfl, rfl⟩, rfl, rfl, rfl,
      fun h => Bool.noConfusion h, fun h => Bool.noConfusion h⟩⟩
  | append_singleton es e ih =>
    obtain ⟨aw, w, m, h⟩ := ih
    rw [run_snoc]
    exact h.exists_step e

/-! ## Where the bytes go -/

/-- The write of `aw` and `w` has landed: every strobed byte is at its address in the doubleword,
and no other byte has changed. -/
def WriteLands (aw : AddrReq L.lsuBusTag) (w : Beat64) (m m' : BitVec 32 → BitVec 8) : Prop :=
  (∀ i < 8, w.strb.getLsbD i = true →
      m' (alignDown 3 aw.addr + BitVec.ofNat 32 i) = lane w.data i) ∧
    ∀ x, (∀ i < 8, w.strb.getLsbD i = true → x ≠ alignDown 3 aw.addr + BitVec.ofNat 32 i) →
      m' x = m x

section Lands

variable {aw : AddrReq L.lsuBusTag} {w : Beat64} {m : BitVec 32 → BitVec 8}

theorem selectHalf_strb (aw : AddrReq L.lsuBusTag) (w : Beat64) {j : ℕ} (hj : j < 4) :
    (selectHalf aw w).strb.getLsbD j = w.strb.getLsbD (halfOffset aw + j) := by
  unfold selectHalf halfOffset
  split_ifs
  · rw [BitVec.getLsbD_extractLsb', decide_eq_true hj, Bool.true_and]
  · rw [BitVec.getLsbD_extractLsb', decide_eq_true hj, Bool.true_and]

theorem selectHalf_data (aw : AddrReq L.lsuBusTag) (w : Beat64) {j : ℕ} (hj : j < 4) :
    lane (selectHalf aw w).data j = lane w.data (halfOffset aw + j) := by
  unfold selectHalf halfOffset
  split_ifs
  · exact lane_extractLsb' w.data 4 j (by omega)
  · exact lane_extractLsb' w.data 0 j (by omega)

theorem stored_of_half {j : ℕ} (hj : j < 4) (hs : w.strb.getLsbD (halfOffset aw + j) = true) :
    stored aw w m (alignDown 3 aw.addr + BitVec.ofNat 32 (halfOffset aw + j)) =
      lane w.data (halfOffset aw + j) := by
  rw [← base_add, stored, storeLanes_strobed (by omega) (by rwa [selectHalf_strb aw w hj]),
    selectHalf_data aw w hj]

theorem stored_other {x : BitVec 32}
    (h : ∀ j < 4, w.strb.getLsbD (halfOffset aw + j) = true →
      x ≠ alignDown 3 aw.addr + BitVec.ofNat 32 (halfOffset aw + j)) :
    stored aw w m x = m x := by
  refine storeLanes_other fun j hj hs => ?_
  rw [selectHalf_strb aw w hj] at hs
  rw [base_add]
  exact h j hj hs

/-- The write lands iff the strobed bytes outside the selected half already have their values. -/
theorem writeLands_stored_iff : WriteLands aw w m (stored aw w m) ↔
    ∀ i < 8, w.strb.getLsbD i = true → (∀ j < 4, i ≠ halfOffset aw + j) →
      m (alignDown 3 aw.addr + BitVec.ofNat 32 i) = lane w.data i := by
  have hoff : halfOffset aw ≤ 4 := by
    unfold halfOffset
    split_ifs <;> omega
  refine ⟨fun h i hi hs hout => ?_, fun h => ⟨fun i hi hs => ?_, fun x hx => ?_⟩⟩
  · rw [← h.1 i hi hs, stored_other]
    intro j hj _ heq
    exact hout j hj (add_ofNat_inj (by omega) (by omega) heq)
  · by_cases hin : ∃ j < 4, i = halfOffset aw + j
    · obtain ⟨j, hj, rfl⟩ := hin
      exact stored_of_half hj hs
    · have hout : ∀ j < 4, i ≠ halfOffset aw + j := fun j hj heq => hin ⟨j, hj, heq⟩
      rw [stored_other, h i hi hs hout]
      intro j hj _ heq
      exact hout j hj (add_ofNat_inj (by omega) (by omega) heq)
  · exact stored_other fun j hj hs => hx _ (by omega) hs

end Lands

/-! ## The writes of the load/store unit -/

/-- A write the load/store unit issues: to side-effect memory with the actual address, a size of at
most a word and strobes in the half that address bit `2` selects; or to other memory with the address
of the doubleword and size `3`. -/
inductive LsuWrite (aw : AddrReq L.lsuBusTag) (w : Beat64) : Prop
  | sideEffect (hsize : aw.size.toNat ≤ 2)
      (hstrb : ∀ i < 8, w.strb.getLsbD i = true → (4 ≤ i ↔ aw.addr.getLsbD 2 = true))
  | cacheable (hsize : aw.size = 3) (haddr : alignDown 3 aw.addr = aw.addr)

theorem LsuWrite.outside_iff {aw : AddrReq L.lsuBusTag} {w : Beat64} (h : LsuWrite aw w)
    (m : BitVec 32 → BitVec 8) :
    (∀ i < 8, w.strb.getLsbD i = true → (∀ j < 4, i ≠ halfOffset aw + j) →
      m (alignDown 3 aw.addr + BitVec.ofNat 32 i) = lane w.data i) ↔
    (aw.size = 3 → ∀ i, 4 ≤ i → i < 8 → w.strb.getLsbD i = true →
      m (alignDown 3 aw.addr + BitVec.ofNat 32 i) = lane w.data i) := by
  cases h with
  | sideEffect hsize hstrb =>
    refine ⟨fun _ h3 => absurd hsize (by rw [h3]; decide), fun _ i hi hs hout => ?_⟩
    have hhalf := hstrb i hi hs
    unfold halfOffset at hout
    split_ifs at hout with hbit
    · have hge : 4 ≤ i := hhalf.mpr hbit
      exact absurd (by omega) (hout (i - 4) (by omega))
    · have hlt : ¬ 4 ≤ i := fun h => hbit (hhalf.mp h)
      exact absurd (by omega) (hout i (by omega))
  | cacheable hsize haddr =>
    have hbit : aw.addr.getLsbD 2 = false := by
      rw [← haddr, alignDown, BitVec.getLsbD_shiftLeft]
      simp
    have hoff : halfOffset aw = 0 := by rw [halfOffset, hbit, if_neg Bool.false_ne_true]
    refine ⟨fun h _ i h4 h8 hs => h i h8 hs fun j hj => by omega, fun h i hi hs hout => ?_⟩
    refine h hsize i ?_ hi hs
    by_contra hlt
    exact hout i (by omega) (by omega)

/-- The write of `aw` and `w` is under way: nothing else is taken, and no response is accepted. -/
def Underway (aw : AddrReq L.lsuBusTag) (w : Beat64) (s : LsuSystem L) (e : LsuEvent L) : Prop :=
  Takes aw w s e ∧ s.bFire e = false

theorem WriteInv.run_underway {s : LsuSystem L} {aw : AddrReq L.lsuBusTag} {w : Beat64}
    {m : BitVec 32 → BitVec 8} (h : WriteInv aw w m s) {es : List (LsuEvent L)}
    (hes : Along LsuSystem.step (Underway aw w) s es) :
    WriteInv aw w m (run LsuSystem.step s es) :=
  hes.invariant (WriteInv aw w m) (fun _ _ hinv he => hinv.step he.1 he.2) h

theorem WriteInv.mem_of_okay {s : LsuSystem L} {e : LsuEvent L} {aw : AddrReq L.lsuBusTag}
    {w : Beat64} {m : BitVec 32 → BitVec 8} (h : WriteInv aw w m s)
    (hb : s.bResponses e = [respOkay]) : (s.step e).slave.mem = stored aw w m := by
  unfold LsuSystem.bResponses at hb
  split_ifs at hb with hfire
  obtain ⟨hl, hq, hs, resp, hans⟩ := h.bFire hfire
  obtain ⟨id, hid⟩ := hans.slaveB
  have hresp : resp = respOkay := by
    simpa [LsuWrapper.sAxiBresp, LsuSystem.input, hid] using hb
  rw [(hans.retire hs hl hq hfire).mem, hans.mem hresp]

/-- **When a write lands.** After any traffic `es₀` that leaves the write path in `WS_IDLE`, the load/store
unit issues the write of `aw` and `w`; `es` are the cycles up to the one, `e`, in which it accepts the
response `OKAY`. Whatever the order of address and data and the delays of the memory, every strobed
byte is then at its address and no other byte has changed, iff the write is not a doubleword with a
strobe in its upper half, other than on a byte that already had the written value. -/
theorem lsu_write_lands_iff (mem : BitVec 32 → BitVec 8) (es₀ es : List (LsuEvent L))
    (e : LsuEvent L) (aw : AddrReq L.lsuBusTag) (w : Beat64) (hw : LsuWrite aw w)
    (hidle : (run LsuSystem.step (LsuSystem.reset L mem) es₀).wrapper.wrState = .idle)
    (hes : Along LsuSystem.step (Underway aw w)
      (run LsuSystem.step (LsuSystem.reset L mem) es₀) es)
    (hb : (run LsuSystem.step (run LsuSystem.step (LsuSystem.reset L mem) es₀) es).bResponses e =
      [respOkay]) :
    let s := run LsuSystem.step (LsuSystem.reset L mem) es₀
    let s' := run LsuSystem.step s (es ++ [e])
    WriteLands aw w s.slave.mem s'.slave.mem ↔
      (aw.size = 3 → ∀ i, 4 ≤ i → i < 8 → w.strb.getLsbD i = true →
        s.slave.mem (alignDown 3 aw.addr + BitVec.ofNat 32 i) = lane w.data i) := by
  intro s s'
  obtain ⟨aw₀, w₀, m₀, hinv₀⟩ := WriteInv.of_run (L := L) mem es₀
  have hinv := (hinv₀.of_idle hidle aw w).run_underway hes
  have hmem : s'.slave.mem = stored aw w s.slave.mem := by
    rw [show s' = (run LsuSystem.step s es).step e by simp [s']]
    exact hinv.mem_of_okay hb
  rw [hmem, writeLands_stored_iff, hw.outside_iff]

/-- A write with address and data together, taken at once, performed and answered `OKAY`. -/
def LsuEvent.writeCycles (aw : AddrReq L.lsuBusTag) (w : Beat64) : List (LsuEvent L) :=
  let idle := LsuEvent.idle aw w aw
  [{ idle with sAwvalid := true, sWvalid := true }, { idle with awready := true, wready := true },
    { idle with commit := some respOkay }]

/-- A doubleword write with strobes in the lower half only lands. -/
theorem lsu_write_lands_lower :
    let aw : AddrReq LsuParams.default.lsuBusTag := .doubleword 0x100
    let w : Beat64 := ⟨0x1122334455667788, 0x0F⟩
    let e : LsuEvent LsuParams.default := { LsuEvent.idle aw w aw with bvalid := true }
    WriteLands aw w (fun _ => 0)
      (run LsuSystem.step (LsuSystem.reset LsuParams.default fun _ => 0)
        (LsuEvent.writeCycles aw w ++ [e])).slave.mem := by
  intro aw w e
  refine (lsu_write_lands_iff (L := LsuParams.default) (fun _ => 0) [] (LsuEvent.writeCycles aw w) e
    aw w (.cacheable rfl (by decide)) rfl ?_ rfl).mpr ?_
  · exact ⟨⟨⟨fun _ => rfl, fun _ => rfl⟩, rfl⟩, ⟨⟨fun _ => rfl, fun _ => rfl⟩, rfl⟩,
      ⟨⟨fun _ => rfl, fun _ => rfl⟩, rfl⟩, trivial⟩
  · intro _ i h4 h8 hs
    obtain rfl | rfl | rfl | rfl : i = 4 ∨ i = 5 ∨ i = 6 ∨ i = 7 := by omega
    all_goals exact absurd hs (by decide)

/-- **A doubleword write with strobes in the upper half is dropped.** The response is `OKAY`, but
byte `4` of the doubleword is not written. -/
theorem lsu_write_upper_dropped :
    let aw : AddrReq LsuParams.default.lsuBusTag := .doubleword 0x100
    let w : Beat64 := ⟨0x1122334455667788, 0xF0⟩
    let e : LsuEvent LsuParams.default := { LsuEvent.idle aw w aw with bvalid := true }
    let s : LsuSystem LsuParams.default := .reset _ fun _ => 0
    LsuWrite aw w ∧ s.wrapper.wrState = .idle ∧
      Along LsuSystem.step (Underway aw w) s (LsuEvent.writeCycles aw w) ∧
      (run LsuSystem.step s (LsuEvent.writeCycles aw w)).bResponses e = [respOkay] ∧
      ¬ WriteLands aw w s.slave.mem
        (run LsuSystem.step s (LsuEvent.writeCycles aw w ++ [e])).slave.mem := by
  intro aw w e s
  refine ⟨.cacheable rfl (by decide), rfl, ?_, rfl, fun h => ?_⟩
  · exact ⟨⟨⟨fun _ => rfl, fun _ => rfl⟩, rfl⟩, ⟨⟨fun _ => rfl, fun _ => rfl⟩, rfl⟩,
      ⟨⟨fun _ => rfl, fun _ => rfl⟩, rfl⟩, trivial⟩
  · exact absurd (h.1 4 (by decide) (by decide)) (by decide)

end PacketBuffering
