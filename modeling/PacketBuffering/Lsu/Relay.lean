import PacketBuffering.Lib.Handshake
import PacketBuffering.Lsu.Wrapper

/-!
# The LSU adapter as a relay

The handshakes of the adapter on its two sides, over runs of any length and for any timing of the
load/store unit and of the 32-bit bus.

* `WrPhase`, `WrPhase.clock`: the invariant of the write path.
* `pairs`: the address and the beat that are sent on together; each buffer of the adapter between
  the handshakes upstream, the pairs and the handshakes downstream has a lemma `…_append`.
* `Relayed`, **`lsu_relay`**: what is sent on, and what is answered.
-/

namespace PacketBuffering

namespace LsuWrapper

variable {L : LsuParams}

/-! ## Handshakes -/

section Observe

variable (s : LsuWrapper L) (i : LsuIn L)

/-- The write addresses of a cycle upstream. -/
def upAw : List (AddrReq L.lsuBusTag) := if s.awTake i then [i.sAw] else []

/-- The write data of a cycle upstream. -/
def upW : List Beat64 := if s.wTake i then [i.sW] else []

/-- The write responses of a cycle upstream. -/
def upB : List (BitVec L.lsuBusTag × BitVec 2) :=
  if s.sAxiBvalid i && i.sBready then [(sAxiBid i, sAxiBresp i)] else []

/-- The read addresses of a cycle upstream. -/
def upAr : List (AddrReq L.lsuBusTag) := if s.arTake i then [i.sAr] else []

/-- The read data of a cycle upstream. -/
def upR : List (BitVec L.lsuBusTag × BitVec 64 × BitVec 2) :=
  if s.sAxiRvalid i && i.sRready then [(s.sAxiRid, s.sAxiRdata i, sAxiRresp i)] else []

/-- The write addresses of a cycle downstream. -/
def downAw : List (AddrReq L.mIdWidth) := if s.mAxiAwvalid && i.mAwready then [s.mAxiAw] else []

/-- The write data of a cycle downstream. -/
def downW : List Beat32 := if s.mAxiWvalid && i.mWready then [s.mAxiW] else []

/-- The write responses of a cycle downstream. -/
def downB : List (BitVec L.mIdWidth × BitVec 2) :=
  if i.mBvalid && s.mAxiBready i then [(i.mBid, i.mBresp)] else []

/-- The read addresses of a cycle downstream. -/
def downAr : List (AddrReq L.mIdWidth) := if s.mAxiArvalid && i.mArready then [s.mAxiAr] else []

/-- The read data of a cycle downstream. -/
def downR : List (BitVec 32 × BitVec 2) :=
  if i.mRvalid && s.mAxiRready i then [(i.mRdata, i.mRresp)] else []

/-- The write that becomes complete: its address and its beat. -/
def pairs : List (AddrReq L.lsuBusTag × Beat64) :=
  if s.entersCmd i then [((s.clock i).wrAw, (s.clock i).wrW)] else []

end Observe

section Buffers

variable (s : LsuWrapper L)

/-- An address that waits for its beat. -/
def waitingAw : List (AddrReq L.lsuBusTag) := if s.wrState = .wait ∧ s.wrAwValid then [s.wrAw] else []

/-- A beat that waits for its address. -/
def waitingW : List Beat64 := if s.wrState = .wait ∧ s.wrWValid then [s.wrW] else []

/-- The write address on offer downstream. -/
def offeredAw : List (AddrReq L.mIdWidth) := if s.mAxiAwvalid then [s.mAxiAw] else []

/-- The beat on offer downstream. -/
def offeredW : List Beat32 := if s.mAxiWvalid then [s.mAxiW] else []

/-- The read address on offer downstream. -/
def offeredAr : List (AddrReq L.mIdWidth) := if s.mAxiArvalid then [s.mAxiAr] else []

/-- The complete write that awaits a response. -/
def openWrite : List Unit := if s.wrState = .cmd ∨ s.wrState = .bresp then [()] else []

/-- The read that awaits a response. -/
def openRead : List (AddrReq L.lsuBusTag) := if s.rdState = .idle then [] else [s.rdAr]

end Buffers

/-! ## The write path -/

/-- **The invariant of the write path**: channels are taken, then both are offered until they are
sent, then the response is awaited. -/
inductive WrPhase (s : LsuWrapper L) : Prop
  | front (hs : s.wrState = if s.wrAwValid || s.wrWValid then .wait else .idle)
      (hboth : (s.wrAwValid && s.wrWValid) = false) (hawSent : s.wrAwSent = false)
      (hwSent : s.wrWSent = false) (hav : s.mAwvalidR = false) (hwv : s.mWvalidR = false)
  | cmd (hs : s.wrState = .cmd) (haw : s.wrAwValid = true) (hw : s.wrWValid = true)
      (hboth : (s.wrAwSent && s.wrWSent) = false) (hav : s.mAwvalidR = !s.wrAwSent)
      (hwv : s.mWvalidR = !s.wrWSent)
  | bresp (hs : s.wrState = .bresp) (haw : s.wrAwValid = true) (hw : s.wrWValid = true)
      (hav : s.mAwvalidR = false) (hwv : s.mWvalidR = false)

section Write

variable {s : LsuWrapper L} {i : LsuIn L}

theorem WrPhase.reset : WrPhase (reset L) := .front rfl rfl rfl rfl rfl rfl

theorem clock_front (hs : s.wrState = if s.wrAwValid || s.wrWValid then .wait else .idle)
    (hboth : (s.wrAwValid && s.wrWValid) = false) :
    s.awTake i = (i.sAwvalid && !s.wrAwValid) ∧ s.wTake i = (i.sWvalid && !s.wrWValid) ∧
      s.retires i = false ∧
      s.entersCmd i = ((i.sAwvalid || s.wrAwValid) && (i.sWvalid || s.wrWValid)) ∧
      s.wrStateNext i =
        (if (i.sAwvalid || s.wrAwValid) && (i.sWvalid || s.wrWValid) then .cmd
        else if i.sAwvalid || s.wrAwValid || (i.sWvalid || s.wrWValid) then .wait else .idle) := by
  simp only [awTake, wTake, sAxiAwready, sAxiWready, retires, entersCmd, wrStateNext, hs]
  cases haw : s.wrAwValid <;> cases hw : s.wrWValid <;> cases i.sAwvalid <;> cases i.sWvalid <;>
    simp_all

theorem clock_cmd (hs : s.wrState = .cmd) (hboth : (s.wrAwSent && s.wrWSent) = false) :
    s.awTake i = false ∧ s.wTake i = false ∧ s.retires i = false ∧ s.entersCmd i = false ∧
      s.wrStateNext i =
        if (s.awFire i || s.wrAwSent) && (s.wFire i || s.wrWSent) then .bresp else .cmd := by
  simp only [awTake, wTake, sAxiAwready, sAxiWready, retires, entersCmd, wrStateNext, hs, hboth]
  cases s.awFire i <;> cases s.wrAwSent <;> cases s.wFire i <;> cases s.wrWSent <;> simp

theorem clock_bresp (hs : s.wrState = .bresp) :
    s.awTake i = false ∧ s.wTake i = false ∧ s.retires i = (i.mBvalid && i.sBready) ∧
      s.entersCmd i = false ∧
      s.wrStateNext i = if i.mBvalid && i.sBready then .idle else .bresp := by
  simp only [awTake, wTake, sAxiAwready, sAxiWready, retires, entersCmd, wrStateNext, hs]
  cases i.mBvalid <;> cases i.sBready <;> simp

theorem WrPhase.clock (h : WrPhase s) : WrPhase (s.clock i) := by
  cases h with
  | front hs hboth hawSent hwSent hav hwv =>
    obtain ⟨haw, hw, hret, hent, hnext⟩ := clock_front (i := i) hs hboth
    cases hfull : (i.sAwvalid || s.wrAwValid) && (i.sWvalid || s.wrWValid) with
    | true =>
      rw [hfull] at hent hnext
      refine .cmd hnext ?_ ?_ ?_ ?_ ?_ <;>
        simp [LsuWrapper.clock, haw, hw, hret, hent, hawSent, hwSent, hav, hwv, awFire, wFire] <;>
        grind
    | false =>
      rw [hfull] at hent hnext
      refine .front (hnext.trans ?_) ?_ ?_ ?_ ?_ ?_ <;>
        simp [LsuWrapper.clock, haw, hw, hret, hent, hawSent, hwSent, hav, hwv, awFire, wFire] <;>
        grind
  | cmd hs haw hw hboth hav hwv =>
    obtain ⟨htake, htakeW, hret, hent, hnext⟩ := clock_cmd (i := i) hs hboth
    cases hsent : (s.awFire i || s.wrAwSent) && (s.wFire i || s.wrWSent) with
    | true =>
      rw [hsent] at hnext
      refine .bresp hnext ?_ ?_ ?_ ?_ <;>
        simp [LsuWrapper.clock, htake, htakeW, haw, hw, hret, hent, hav, hwv] <;> grind
    | false =>
      rw [hsent] at hnext
      refine .cmd hnext ?_ ?_ ?_ ?_ ?_ <;>
        simp [LsuWrapper.clock, htake, htakeW, haw, hw, hret, hent, hav, hwv] <;> grind
  | bresp hs haw hw hav hwv =>
    obtain ⟨htake, htakeW, hret, hent, hnext⟩ := clock_bresp (i := i) hs
    cases hb : i.mBvalid && i.sBready with
    | true =>
      rw [hb] at hret hnext
      refine .front (hnext.trans ?_) ?_ ?_ ?_ ?_ ?_ <;>
        simp [LsuWrapper.clock, htake, htakeW, hret]
    | false =>
      rw [hb] at hret hnext
      refine .bresp hnext ?_ ?_ ?_ ?_ <;>
        simp [LsuWrapper.clock, htake, htakeW, haw, hw, hret, hent, hav, hwv]

theorem latches_of_not_retires (hret : s.retires i = false) :
    (s.clock i).wrAwValid = (s.awTake i || s.wrAwValid) ∧
      (s.clock i).wrWValid = (s.wTake i || s.wrWValid) ∧
      (s.clock i).wrAw = (if s.awTake i then i.sAw else s.wrAw) ∧
      (s.clock i).wrW = (if s.wTake i then i.sW else s.wrW) := by
  simp [LsuWrapper.clock, hret]

theorem WrPhase.busy (h : WrPhase s) (hs : s.wrState = .cmd ∨ s.wrState = .bresp) :
    s.awTake i = false ∧ s.wTake i = false ∧ s.entersCmd i = false ∧
      (s.wrStateNext i = .idle ∨ s.wrStateNext i = .cmd ∨ s.wrStateNext i = .bresp) := by
  rcases hs with hs | hs
  · cases h with
    | front hs' hboth _ _ _ _ =>
      rw [hs'] at hs
      split_ifs at hs
    | bresp hs' _ _ _ _ => rw [hs'] at hs; cases hs
    | cmd _ _ _ hboth _ _ =>
      obtain ⟨htake, htakeW, -, hent, hnext⟩ := clock_cmd (i := i) hs hboth
      rw [hnext]
      exact ⟨htake, htakeW, hent, by split_ifs <;> simp⟩
  · obtain ⟨htake, htakeW, -, hent, hnext⟩ := clock_bresp (i := i) hs
    rw [hnext]
    exact ⟨htake, htakeW, hent, by split_ifs <;> simp⟩

theorem WrPhase.upAw_append (h : WrPhase s) :
    (s.pairs i).map Prod.fst ++ (s.clock i).waitingAw = s.waitingAw ++ s.upAw i := by
  by_cases hbusy : s.wrState = .cmd ∨ s.wrState = .bresp
  · obtain ⟨htake, -, hent, hnext⟩ := h.busy (i := i) hbusy
    have hstate : (s.clock i).wrState = s.wrStateNext i := rfl
    rcases hbusy with hs | hs <;> rcases hnext with hn | hn | hn <;>
      simp [pairs, waitingAw, upAw, htake, hent, hstate, hs, hn]
  · cases h with
    | cmd hs _ _ _ _ _ => exact absurd (.inl hs) hbusy
    | bresp hs _ _ _ _ => exact absurd (.inr hs) hbusy
    | front hs hboth _ _ _ _ =>
      obtain ⟨haw, hw, hret, hent, hnext⟩ := clock_front (i := i) hs hboth
      obtain ⟨hav, -, hreq, -⟩ := latches_of_not_retires hret
      have hstate : (s.clock i).wrState = s.wrStateNext i := rfl
      cases h₁ : s.wrAwValid <;> cases h₂ : s.wrWValid <;> cases h₃ : i.sAwvalid <;>
        cases h₄ : i.sWvalid <;>
          simp_all [pairs, waitingAw, upAw]

theorem WrPhase.upW_append (h : WrPhase s) :
    (s.pairs i).map Prod.snd ++ (s.clock i).waitingW = s.waitingW ++ s.upW i := by
  by_cases hbusy : s.wrState = .cmd ∨ s.wrState = .bresp
  · obtain ⟨-, htake, hent, hnext⟩ := h.busy (i := i) hbusy
    have hstate : (s.clock i).wrState = s.wrStateNext i := rfl
    rcases hbusy with hs | hs <;> rcases hnext with hn | hn | hn <;>
      simp [pairs, waitingW, upW, htake, hent, hstate, hs, hn]
  · cases h with
    | cmd hs _ _ _ _ _ => exact absurd (.inl hs) hbusy
    | bresp hs _ _ _ _ => exact absurd (.inr hs) hbusy
    | front hs hboth _ _ _ _ =>
      obtain ⟨haw, hw, hret, hent, hnext⟩ := clock_front (i := i) hs hboth
      obtain ⟨-, hwv, -, hreq⟩ := latches_of_not_retires hret
      have hstate : (s.clock i).wrState = s.wrStateNext i := rfl
      cases h₁ : s.wrAwValid <;> cases h₂ : s.wrWValid <;> cases h₃ : i.sAwvalid <;>
        cases h₄ : i.sWvalid <;>
          simp_all [pairs, waitingW, upW]

/-- Both channels are raised with a pair, and stay until they are sent; while one is up, nothing is
taken. -/
theorem WrPhase.offers (h : WrPhase s) :
    (s.clock i).mAxiAwvalid = ((s.mAxiAwvalid && !i.mAwready) || s.entersCmd i) ∧
      (s.clock i).mAxiWvalid = ((s.mAxiWvalid && !i.mWready) || s.entersCmd i) ∧
      ((s.mAxiAwvalid || s.mAxiWvalid) = true →
        s.entersCmd i = false ∧ (s.clock i).wrAw = s.wrAw ∧ (s.clock i).wrW = s.wrW) := by
  simp only [mAxiAwvalid, mAxiWvalid]
  cases h with
  | front hs hboth _ _ hav hwv =>
    obtain ⟨-, -, hret, -, -⟩ := clock_front (i := i) hs hboth
    simp [LsuWrapper.clock, hret, awFire, wFire, hav, hwv]
  | cmd hs _ _ hboth hav hwv =>
    obtain ⟨htake, htakeW, hret, hent, -⟩ := clock_cmd (i := i) hs hboth
    simp only [LsuWrapper.clock, hret, hent, htake, htakeW, awFire, wFire]
    cases s.mAwvalidR <;> cases i.mAwready <;> cases s.mWvalidR <;> cases i.mWready <;> simp
  | bresp hs _ _ hav hwv =>
    obtain ⟨-, -, -, hent, -⟩ := clock_bresp (i := i) hs
    simp [LsuWrapper.clock, hav, hwv, hent]

theorem WrPhase.downAw_append (h : WrPhase s) :
    s.downAw i ++ (s.clock i).offeredAw = s.offeredAw ++ (s.pairs i).map fun p => forward p.1 := by
  obtain ⟨hvalid, -, hup⟩ := h.offers (i := i)
  have hmap : ((s.pairs i).map fun p => forward p.1) =
      if s.entersCmd i then [(s.clock i).mAxiAw] else [] := by
    unfold pairs
    split_ifs <;> rfl
  rw [downAw, offeredAw, offeredAw, hvalid, hmap]
  refine offer_append (fun hv => (hup (by rw [hv]; rfl)).1) fun hv _ => ?_
  rw [mAxiAw, mAxiAw, (hup (by rw [hv]; rfl)).2.1]

theorem WrPhase.downW_append (h : WrPhase s) :
    s.downW i ++ (s.clock i).offeredW =
      s.offeredW ++ (s.pairs i).map fun p => selectHalf p.1 p.2 := by
  obtain ⟨-, hvalid, hup⟩ := h.offers (i := i)
  have hmap : ((s.pairs i).map fun p => selectHalf p.1 p.2) =
      if s.entersCmd i then [(s.clock i).mAxiW] else [] := by
    unfold pairs
    split_ifs <;> rfl
  rw [downW, offeredW, offeredW, hvalid, hmap]
  refine offer_append (fun hv => (hup (by rw [hv, Bool.or_true])).1) fun hv _ => ?_
  rw [mAxiW, mAxiW, (hup (by rw [hv, Bool.or_true])).2.1, (hup (by rw [hv, Bool.or_true])).2.2]

theorem WrPhase.keeps (h : WrPhase s) :
    Keeps (owed s.mAxiAwvalid i.mAwready s.mAxiAw) (s.clock i).mAxiAwvalid (s.clock i).mAxiAw ∧
      Keeps (owed s.mAxiWvalid i.mWready s.mAxiW) (s.clock i).mAxiWvalid (s.clock i).mAxiW := by
  obtain ⟨haw, hw, hup⟩ := h.offers (i := i)
  rw [haw, hw]
  refine ⟨offer_keeps fun hv _ => ?_, offer_keeps fun hv _ => ?_⟩
  · rw [mAxiAw, mAxiAw, (hup (by rw [hv]; rfl)).2.1]
  · rw [mAxiW, mAxiW, (hup (by rw [hv, Bool.or_true])).2.1, (hup (by rw [hv, Bool.or_true])).2.2]

theorem WrPhase.downB_append (h : WrPhase s) :
    ((s.downB i).map fun _ => ()) ++ (s.clock i).openWrite =
      s.openWrite ++ (s.pairs i).map fun _ => () := by
  have hstate : (s.clock i).wrState = s.wrStateNext i := rfl
  cases h with
  | front hs hboth _ _ _ _ =>
    obtain ⟨-, -, -, hent, hnext⟩ := clock_front (i := i) hs hboth
    cases h₁ : s.wrAwValid <;> cases h₂ : s.wrWValid <;> cases h₃ : i.sAwvalid <;>
      cases h₄ : i.sWvalid <;>
        simp_all [pairs, openWrite, downB, mAxiBready]
  | cmd hs _ _ hboth _ _ =>
    obtain ⟨-, -, -, hent, hnext⟩ := clock_cmd (i := i) hs hboth
    cases hsent : (s.awFire i || s.wrAwSent) && (s.wFire i || s.wrWSent) <;>
      simp [pairs, openWrite, downB, mAxiBready, hstate, hnext, hsent, hent, hs]
  | bresp hs _ _ _ _ =>
    obtain ⟨-, -, -, hent, hnext⟩ := clock_bresp (i := i) hs
    cases hb : i.mBvalid <;> cases hr : i.sBready <;>
      simp [pairs, openWrite, downB, mAxiBready, hstate, hnext, hent, hs, hb, hr]

end Write

/-! ## The read path -/

section Read

variable (s : LsuWrapper L) (i : LsuIn L)

theorem offers_ar :
    (s.clock i).mAxiArvalid = ((s.mAxiArvalid && !i.mArready) || s.arTake i) ∧
      (s.mAxiArvalid = true → s.arTake i = false) := by
  cases hs : s.rdState with
  | idle =>
    cases hv : i.sArvalid <;>
      simp [mAxiArvalid, arTake, sAxiArready, LsuWrapper.clock, rdStateNext, hs, hv]
  | cmd =>
    cases hr : i.mArready <;>
      simp [mAxiArvalid, arTake, sAxiArready, LsuWrapper.clock, rdStateNext, hs, hr, beq_eq_decide]
  | data =>
    cases hv : i.mRvalid <;> cases hr : i.sRready <;>
      simp [mAxiArvalid, arTake, sAxiArready, LsuWrapper.clock, rdStateNext, mAxiRready, hs, hv, hr,
        beq_eq_decide]

theorem mAxiAr_clock : (s.clock i).mAxiAr = forward (if s.arTake i then i.sAr else s.rdAr) := rfl

theorem downAr_append :
    s.downAr i ++ (s.clock i).offeredAr = s.offeredAr ++ (s.upAr i).map forward := by
  obtain ⟨hvalid, hup⟩ := offers_ar s i
  have hmap : (s.upAr i).map forward = if s.arTake i then [(s.clock i).mAxiAr] else [] := by
    rw [mAxiAr_clock]
    unfold upAr
    split_ifs <;> rfl
  rw [downAr, offeredAr, offeredAr, hvalid, hmap]
  refine offer_append hup fun hv _ => ?_
  rw [mAxiAr_clock, hup hv, if_neg Bool.false_ne_true, mAxiAr]

theorem keeps_ar :
    Keeps (owed s.mAxiArvalid i.mArready s.mAxiAr) (s.clock i).mAxiArvalid (s.clock i).mAxiAr := by
  obtain ⟨hvalid, hup⟩ := offers_ar s i
  rw [hvalid]
  refine offer_keeps fun hv _ => ?_
  rw [mAxiAr_clock, hup hv, if_neg Bool.false_ne_true, mAxiAr]

/-- The read that is answered, with its data. -/
def answers : List (AddrReq L.lsuBusTag × BitVec 32 × BitVec 2) :=
  if i.mRvalid && s.mAxiRready i then [(s.rdAr, i.mRdata, i.mRresp)] else []

theorem answers_append :
    (s.answers i).map Prod.fst ++ (s.clock i).openRead = s.openRead ++ s.upAr i := by
  cases hs : s.rdState with
  | idle =>
    cases hv : i.sArvalid <;>
      simp [answers, openRead, upAr, mAxiRready, arTake, sAxiArready, LsuWrapper.clock,
        rdStateNext, hs, hv]
  | cmd =>
    cases hr : i.mArready <;>
      simp [answers, openRead, upAr, mAxiRready, arTake, sAxiArready, LsuWrapper.clock,
        rdStateNext, mAxiArvalid, hs, hr]
  | data =>
    cases hv : i.mRvalid <;> cases hr : i.sRready <;>
      simp [answers, openRead, upAr, mAxiRready, arTake, sAxiArready, LsuWrapper.clock,
        rdStateNext, hs, hv, hr]

/-- The answer to the read `r` on the data `d`, as it is given upstream. -/
def answerTo (r : AddrReq L.lsuBusTag) (d : BitVec 32 × BitVec 2) :
    BitVec L.lsuBusTag × BitVec 64 × BitVec 2 :=
  (r.id, if r.addr.getLsbD 2 then d.1 ++ 0#32 else 0#32 ++ d.1, d.2)

theorem downR_eq : s.downR i = (s.answers i).map Prod.snd := by
  unfold downR answers
  split_ifs <;> rfl

theorem upR_eq : s.upR i = (s.answers i).map fun a => answerTo a.1 a.2 := by
  cases hs : s.rdState <;> cases hv : i.mRvalid <;> cases hr : i.sRready <;>
    simp [upR, answers, sAxiRvalid, mAxiRready, hs, hv, hr, answerTo, sAxiRid, sAxiRdata, sAxiRresp]

theorem upB_eq : s.upB i = (s.downB i).map fun b => (b.1.setWidth L.lsuBusTag, b.2) := by
  cases hs : s.wrState <;> cases hv : i.mBvalid <;> cases hr : i.sBready <;>
    simp [upB, downB, sAxiBvalid, mAxiBready, hs, hv, hr, sAxiBid, sAxiBresp]

end Read

/-! ## Runs -/

section Runs

variable (L) in
/-- What is observed along a run out of reset. -/
abbrev seen {ο : Type*} (obs : LsuWrapper L → LsuIn L → List ο) (is : List (LsuIn L)) : List ο :=
  log LsuWrapper.clock obs (reset L) is

variable (is : List (LsuIn L))

theorem wrPhase_of_run : WrPhase (run LsuWrapper.clock (reset L) is) :=
  (along_true _ (reset L) is).invariant WrPhase (fun _ _ h _ => h.clock) WrPhase.reset

theorem seen_write :
    let s := run LsuWrapper.clock (reset L) is
    let ps := seen L pairs is
    seen L upAw is = ps.map Prod.fst ++ s.waitingAw ∧
      seen L upW is = ps.map Prod.snd ++ s.waitingW ∧
      seen L downAw is ++ s.offeredAw = (ps.map fun p => forward p.1) ∧
      seen L downW is ++ s.offeredW = (ps.map fun p => selectHalf p.1 p.2) ∧
      (seen L downB is).length + s.openWrite.length = ps.length := by
  intro s ps
  have his := along_true LsuWrapper.clock (reset L) is
  have hkeep : ∀ (s : LsuWrapper L) i, WrPhase s → True → WrPhase (s.clock i) :=
    fun _ _ h _ => h.clock
  have hb := his.log_buffer WrPhase openWrite hkeep (fun _ _ h _ => h.downB_append)
    WrPhase.reset
  refine ⟨?_, ?_, ?_, ?_, ?_⟩
  · rw [← log_map, his.log_buffer WrPhase waitingAw hkeep
      (fun _ _ h _ => h.upAw_append) WrPhase.reset]
    rfl
  · rw [← log_map, his.log_buffer WrPhase waitingW hkeep
      (fun _ _ h _ => h.upW_append) WrPhase.reset]
    rfl
  · rw [← log_map, his.log_buffer WrPhase offeredAw hkeep
      (fun _ _ h _ => h.downAw_append) WrPhase.reset]
    rfl
  · rw [← log_map, his.log_buffer WrPhase offeredW hkeep
      (fun _ _ h _ => h.downW_append) WrPhase.reset]
    rfl
  · rw [log_map, log_map, show (reset L).openWrite = [] from rfl, List.nil_append] at hb
    simpa using congrArg List.length hb

theorem seen_read :
    let s := run LsuWrapper.clock (reset L) is
    seen L downAr is ++ s.offeredAr = (seen L upAr is).map forward ∧
      (seen L answers is).map Prod.fst ++ s.openRead = seen L upAr is := by
  intro s
  have his := along_true LsuWrapper.clock (reset L) is
  have hkeep : ∀ (s : LsuWrapper L) (i : LsuIn L), True → True → True := fun _ _ _ _ => trivial
  constructor
  · rw [← log_map, his.log_buffer (fun _ => True) offeredAr hkeep
      (fun s i _ _ => downAr_append s i) trivial]
    rfl
  · rw [← log_map, his.log_buffer (fun _ => True) openRead hkeep
      (fun s i _ _ => answers_append s i) trivial]
    rfl

end Runs

/-- **What the adapter guarantees** after the cycles `is`, and in the next one, with the inputs `i`. -/
structure Relayed (is : List (LsuIn L)) (i : LsuIn L) : Prop where
  /-- Requests are sent on in order, each once; a beat as the half its own address selects. -/
  aw : seen L downAw is <+: (seen L upAw is).map forward
  w : seen L downW is <+: List.zipWith selectHalf (seen L upAw is) (seen L upW is)
  ar : seen L downAr is <+: (seen L upAr is).map forward
  /-- What is taken and not sent on is on offer, or waits for the other channel of its write. -/
  awHeld : (seen L upAw is).length = (seen L downAw is).length +
    (run LsuWrapper.clock (reset L) is).offeredAw.length +
    (run LsuWrapper.clock (reset L) is).waitingAw.length
  wHeld : (seen L upW is).length = (seen L downW is).length +
    (run LsuWrapper.clock (reset L) is).offeredW.length +
    (run LsuWrapper.clock (reset L) is).waitingW.length
  arHeld : (seen L upAr is).length = (seen L downAr is).length +
    (run LsuWrapper.clock (reset L) is).offeredAr.length
  /-- Responses are relayed in order, each once; with a bus that echoes identifiers, under the
  identifier of their own request. -/
  b : seen L upB is = (seen L downB is).map fun b => (b.1.setWidth L.lsuBusTag, b.2)
  bId : (seen L downB is).map Prod.fst <+: (seen L downAw is).map AddrReq.id →
    (seen L upB is).map Prod.fst <+: (seen L upAw is).map AddrReq.id
  r : seen L upR is = List.zipWith answerTo (seen L upAr is) (seen L downR is)
  rLength : (seen L upR is).length = (seen L downR is).length
  /-- At most one write and one read are outstanding, on either side. -/
  oneWrite : (seen L upAw is).length ≤ (seen L upB is).length + 1 ∧
    (seen L upW is).length ≤ (seen L upB is).length + 1 ∧
    (seen L downAw is).length ≤ (seen L downB is).length + 1 ∧
    (seen L downW is).length ≤ (seen L downB is).length + 1
  oneRead : (seen L upAr is).length ≤ (seen L upR is).length + 1 ∧
    (seen L downAr is).length ≤ (seen L downR is).length + 1
  /-- An offer downstream stays until it is taken. -/
  keepsAw : Keeps (owed (run LsuWrapper.clock (reset L) is).mAxiAwvalid i.mAwready
      (run LsuWrapper.clock (reset L) is).mAxiAw)
    (run LsuWrapper.clock (reset L) (is ++ [i])).mAxiAwvalid
    (run LsuWrapper.clock (reset L) (is ++ [i])).mAxiAw
  keepsW : Keeps (owed (run LsuWrapper.clock (reset L) is).mAxiWvalid i.mWready
      (run LsuWrapper.clock (reset L) is).mAxiW)
    (run LsuWrapper.clock (reset L) (is ++ [i])).mAxiWvalid
    (run LsuWrapper.clock (reset L) (is ++ [i])).mAxiW
  keepsAr : Keeps (owed (run LsuWrapper.clock (reset L) is).mAxiArvalid i.mArready
      (run LsuWrapper.clock (reset L) is).mAxiAr)
    (run LsuWrapper.clock (reset L) (is ++ [i])).mAxiArvalid
    (run LsuWrapper.clock (reset L) (is ++ [i])).mAxiAr

theorem setWidth_forward_id (r : AddrReq L.lsuBusTag) :
    (forward r).id.setWidth L.lsuBusTag = r.id := by
  rw [forward, BitVec.setWidth_setWidth_of_le _ L.le_mIdWidth, BitVec.setWidth_eq]

theorem echoed_ids {reqs : List (AddrReq L.lsuBusTag)} {bs : List (BitVec L.mIdWidth × BitVec 2)}
    (h : bs.map Prod.fst <+: (reqs.map forward).map AddrReq.id) :
    (bs.map fun b => (b.1.setWidth L.lsuBusTag, b.2)).map Prod.fst <+: reqs.map AddrReq.id := by
  have hids : (bs.map fun b => (b.1.setWidth L.lsuBusTag, b.2)).map Prod.fst =
      (bs.map Prod.fst).map (BitVec.setWidth L.lsuBusTag) := by
    rw [List.map_map, List.map_map]
    rfl
  have hreqs : ((reqs.map forward).map AddrReq.id).map (BitVec.setWidth L.lsuBusTag) =
      reqs.map AddrReq.id := by
    rw [List.map_map, List.map_map]
    exact List.map_congr_left fun r _ => setWidth_forward_id r
  rw [hids, ← hreqs]
  exact h.map _

theorem length_waiting (s : LsuWrapper L) :
    s.waitingAw.length + s.openWrite.length ≤ 1 ∧ s.waitingW.length + s.openWrite.length ≤ 1 := by
  cases hs : s.wrState <;> cases hav : s.wrAwValid <;> cases hwv : s.wrWValid <;>
    simp [waitingAw, waitingW, openWrite, hs, hav, hwv]

theorem length_openRead_le (s : LsuWrapper L) : s.openRead.length ≤ 1 := by
  unfold openRead
  split_ifs <;> simp

/-- No request and no response; both sides accept. -/
def quietIn : LsuIn .default where
  sAwvalid := false
  sAw := .zero _
  sWvalid := false
  sW := ⟨0, 0⟩
  sBready := true
  sArvalid := false
  sAr := .zero _
  sRready := true
  mAwready := true
  mWready := true
  mBvalid := false
  mBid := 0
  mBresp := 0
  mArready := true
  mRvalid := false
  mRdata := 0
  mRresp := 0

/-- A write whose beat comes before its address, to the upper half of a doubleword. -/
def oneWrite : List (LsuIn .default) :=
  [{ quietIn with sWvalid := true, sW := ⟨0x1122334455667788, 0xF0⟩ },
    { quietIn with sAwvalid := true, sAw := ⟨5, 0x104, 3, 1, false, 0, 0, 0⟩ },
    quietIn, { quietIn with mBvalid := true, mBid := 5 }]

/-- The same, and a read of the upper half of a doubleword beside it. -/
def oneWriteRead : List (LsuIn .default) :=
  oneWrite ++ [{ quietIn with sArvalid := true, sAr := ⟨7, 0x20C, 2, 1, false, 0, 0, 0⟩ }, quietIn,
    { quietIn with mRvalid := true, mRdata := 0xCAFE }]

end LsuWrapper

end PacketBuffering
