import PacketBuffering.Aes.Slave
import PacketBuffering.Lib.Burst

/-!
# Bursts of the AES slave

* `AesSlot`, `AesReq.slots`: a beat of a burst, and the beats a request asks for.
* `WriterInv`, `ReaderInv`: the invariants of the two directions; `AesWriter.Cycle` and
  `AesReader.Cycle` say what a cycle can be.
* The lemmas `…_append` say what passes through, the lemmas `keeps` that an offer stays until it is
  accepted.
-/

namespace PacketBuffering

variable {R : AesParams}

/-! ## Beats of a burst -/

variable (R) in
/-- A beat of a burst: its address, whether the burst is supported, and whether it is the last. -/
@[ext] structure AesSlot where
  id : BitVec R.idWidth
  addr : BitVec R.addrWidth
  ok : Bool
  last : Bool

/-- The response to a beat or burst. -/
def respOf (ok : Bool) : BitVec 2 := if ok then axiRespOkay else axiRespSlverr

namespace AesReq

variable (r : AesReq R)

/-- The address of beat `k`. -/
def beatAddr (k : ℕ) : BitVec R.addrWidth := r.next^[k] r.addr

/-- The `len + 1` beats of a burst. -/
def slots : List (AesSlot R) :=
  (List.range (r.len.toNat + 1)).map fun k => ⟨r.id, r.beatAddr k, !r.error, k == r.len.toNat⟩

/-- The last `n` beats of a burst, the next one at `a`. -/
def slotsFrom (ok : Bool) (a : BitVec R.addrWidth) (n : ℕ) : List (AesSlot R) :=
  (List.range n).map fun k => ⟨r.id, r.next^[k] a, ok, k + 1 == n⟩

variable {r}

theorem slots_eq : r.slots = r.slotsFrom (!r.error) r.addr (r.len.toNat + 1) := by
  refine List.map_congr_left fun k _ => ?_
  simp [beatAddr]

theorem slotsFrom_succ (ok : Bool) (a : BitVec R.addrWidth) (n : ℕ) :
    r.slotsFrom ok a (n + 1) = ⟨r.id, a, ok, n == 0⟩ :: r.slotsFrom ok (r.next a) n := by
  rw [slotsFrom, List.range_succ_eq_map, List.map_cons, List.map_map, slotsFrom]
  congr 1
  · cases n <;> simp
  · refine List.map_congr_left fun k _ => ?_
    simp [Function.iterate_succ_apply]

theorem slotsFrom_of_le {beat : BitVec 8} (ok : Bool) (a : BitVec R.addrWidth)
    (h : beat.toNat ≤ r.len.toNat) :
    r.slotsFrom ok a (r.len.toNat - beat.toNat + 1) =
      ⟨r.id, a, ok, beat == r.len⟩ :: r.slotsFrom ok (r.next a) (r.len.toNat - beat.toNat) := by
  have hlast : (r.len.toNat - beat.toNat == 0) = (beat == r.len) := by
    rw [Bool.eq_iff_iff, beq_iff_eq, beq_iff_eq, BitVec.toNat_eq]
    omega
  rw [slotsFrom_succ, hlast]

end AesReq

theorem toNat_succ_le {beat len : BitVec 8} (h : beat.toNat ≤ len.toNat) (hne : beat ≠ len) :
    (beat + 1).toNat = beat.toNat + 1 ∧ beat.toNat + 1 ≤ len.toNat := by
  have hlt : beat.toNat ≠ len.toNat := fun heq => hne (BitVec.eq_of_toNat_eq heq)
  have := len.isLt
  refine ⟨?_, by omega⟩
  rw [BitVec.toNat_add, Nat.mod_eq_of_lt]
  · rfl
  · show beat.toNat + 1 < 256
    omega

/-! ## The write direction -/

namespace AesWriter

/-- The write requests accepted in a cycle. -/
def aws (s : AesWriter R) (i : AesSlaveIn R) : List (AesReq R) := if s.awFire i then [i.aw] else []

/-- The write data handed over in a cycle. -/
def ws (s : AesWriter R) (i : AesSlaveIn R) : List (AesWBeat R) := if s.wFire i then [i.w] else []

/-- The responses handed over in a cycle. -/
def bs (s : AesWriter R) (i : AesSlaveIn R) : List (AesBResp R) := if s.bFire i then [s.b] else []

/-- The write on the register bus. -/
def pulse (s : AesWriter R) : List (BusWrite R) := if s.regWrEn then [s.regWr] else []

/-- The beat that is taken. -/
def taken (s : AesWriter R) (i : AesSlaveIn R) : List (AesSlot R) :=
  if s.wFire i then [⟨s.req.id, s.wrAddr, !s.wrError, s.wrBeat == s.req.len⟩] else []

/-- The beats of the open burst still to come. -/
def due (s : AesWriter R) : List (AesSlot R) :=
  if s.wrActive then s.req.slotsFrom (!s.wrError) s.wrAddr (s.req.len.toNat - s.wrBeat.toNat + 1)
  else []

/-- The response still to be given. -/
def response (s : AesWriter R) : List (AesBResp R) :=
  if s.bvalid then [s.b] else if s.wrActive then [⟨s.req.id, respOf (!s.wrError)⟩] else []

/-- **The invariant of the write direction**: no response is open during a burst, the beat count has
not passed the length, and a write on the bus belongs to a burst that is not yet answered. -/
structure WriterInv (s : AesWriter R) : Prop where
  bvalid : s.wrActive = true → s.bvalid = false
  beat : s.wrActive = true → s.wrBeat.toNat ≤ s.req.len.toNat
  bus : s.regWrEn = true → s.wrActive = true ∨ s.bvalid = true

variable {s : AesWriter R} {i : AesSlaveIn R}

theorem WriterInv.reset : WriterInv (reset R) := ⟨nofun, nofun, nofun⟩

theorem length_taken : (s.taken i).length = (s.ws i).length := by
  unfold taken ws
  split_ifs <;> rfl

/-- **What a cycle of the write direction can be.** -/
inductive Cycle (s : AesWriter R) (i : AesSlaveIn R) : Prop
  | wait (haw : s.awFire i = false) (hw : s.wFire i = false) (hb : s.bFire i = false)
      (hclock : s.clock i = { s with regWrEn := false })
  | start (hs : s.wrActive = false) (hv : s.bvalid = false) (haw : s.awFire i = true)
      (hw : s.wFire i = false) (hb : s.bFire i = false)
      (hclock : s.clock i = { s with
        wrActive := true, req := i.aw, wrAddr := i.aw.addr, wrBeat := 0, wrError := i.aw.error,
        regWrEn := false })
  | beat (hs : s.wrActive = true) (hv : s.bvalid = false) (haw : s.awFire i = false)
      (hw : s.wFire i = true) (hb : s.bFire i = false) (hne : s.wrBeat ≠ s.req.len)
      (hlast : i.w.last = false)
      (hclock : s.clock i = { s with
        wrBeat := s.wrBeat + 1, wrAddr := s.req.next s.wrAddr, regWrEn := !s.wrError,
        regWr := if s.wrError then s.regWr else ⟨s.wrAddr, i.w.data, i.w.strb⟩ })
  | close (hs : s.wrActive = true) (hv : s.bvalid = false) (haw : s.awFire i = false)
      (hw : s.wFire i = true) (hb : s.bFire i = false) (hends : s.ends i = true)
      (hclock : s.clock i = { s with
        wrActive := false, wrError := s.wrError || s.mismatch i, bvalid := true,
        b := ⟨s.req.id, respOf (!(s.wrError || s.mismatch i))⟩, regWrEn := !s.wrError,
        regWr := if s.wrError then s.regWr else ⟨s.wrAddr, i.w.data, i.w.strb⟩ })
  | finish (hs : s.wrActive = false) (hv : s.bvalid = true) (haw : s.awFire i = false)
      (hw : s.wFire i = false) (hb : s.bFire i = true)
      (hclock : s.clock i = { s with bvalid := false, regWrEn := false })

theorem WriterInv.cycle (h : WriterInv s) (i : AesSlaveIn R) : Cycle s i := by
  cases hs : s.wrActive with
  | false =>
    have hwf : s.wFire i = false := by simp [wFire, wready, hs]
    cases hv : s.bvalid with
    | false =>
      have hbf : s.bFire i = false := by simp [bFire, hv]
      cases hfire : s.awFire i with
      | false => exact .wait hfire hwf hbf (by simp [clock, clockAw, clockW, clockB, hfire, hwf, hbf])
      | true =>
        exact .start hs hv hfire hwf hbf (by simp [clock, clockAw, clockW, clockB, hfire, hwf, hbf])
    | true =>
      have haf : s.awFire i = false := by simp [awFire, awready, hv]
      cases hfire : s.bFire i with
      | false => exact .wait haf hwf hfire (by simp [clock, clockAw, clockW, clockB, hfire, hwf, haf])
      | true =>
        exact .finish hs hv haf hwf hfire (by simp [clock, clockAw, clockW, clockB, hfire, hwf, haf])
  | true =>
    have hv := h.bvalid hs
    have haf : s.awFire i = false := by simp [awFire, awready, hs]
    have hbf : s.bFire i = false := by simp [bFire, hv]
    cases hfire : s.wFire i with
    | false => exact .wait haf hfire hbf (by simp [clock, clockAw, clockW, clockB, hfire, haf, hbf])
    | true =>
      cases hends : s.ends i with
      | false =>
        simp only [ends, Bool.or_eq_false_iff, beq_eq_false_iff_ne] at hends
        refine .beat hs hv haf hfire hbf hends.1 hends.2 ?_
        cases herr : s.wrError <;>
          simp [clock, clockAw, clockW, clockB, hfire, haf, hbf, ends, mismatch, hends, herr]
      | true =>
        refine .close hs hv haf hfire hbf hends ?_
        cases herr : s.wrError <;> cases hmis : s.mismatch i <;>
          simp [clock, clockAw, clockW, clockB, hfire, haf, hbf, hends, hmis, herr, respOf]

theorem WriterInv.clock (h : WriterInv s) : WriterInv (s.clock i) := by
  cases h.cycle i with
  | wait _ _ _ hclock => rw [hclock]; exact ⟨h.bvalid, h.beat, nofun⟩
  | start hs hv _ _ _ hclock => rw [hclock]; exact ⟨fun _ => hv, fun _ => Nat.zero_le _, nofun⟩
  | beat hs hv _ _ _ hne _ hclock =>
    rw [hclock]
    refine ⟨fun _ => hv, fun _ => ?_, fun _ => .inl hs⟩
    obtain ⟨hsucc, hle⟩ := toNat_succ_le (h.beat hs) hne
    exact hsucc ▸ hle
  | close _ _ _ _ _ _ hclock => rw [hclock]; exact ⟨nofun, nofun, fun _ => .inr rfl⟩
  | finish hs _ _ _ _ hclock =>
    rw [hclock]
    exact ⟨fun h' => absurd (hs.symm.trans h') Bool.false_ne_true,
      fun h' => absurd (hs.symm.trans h') Bool.false_ne_true, nofun⟩

theorem WriterInv.quiet_of_response (h : WriterInv s) (hr : s.response = []) :
    s.pulse = [] ∧ s.due = [] := by
  have hv : s.bvalid = false := Bool.eq_false_iff.mpr fun hv => by simp [response, hv] at hr
  have hs : s.wrActive = false := Bool.eq_false_iff.mpr fun hs => by simp [response, hv, hs] at hr
  have hen : s.regWrEn = false := by
    refine Bool.eq_false_iff.mpr fun hen => ?_
    rcases h.bus hen with h' | h'
    · exact Bool.false_ne_true (hs.symm.trans h')
    · exact Bool.false_ne_true (hv.symm.trans h')
  exact ⟨by simp [AesWriter.pulse, hen], by simp [due, hs]⟩

theorem WriterInv.due_eq (h : WriterInv s) (hs : s.wrActive = true) :
    s.due = ⟨s.req.id, s.wrAddr, !s.wrError, s.wrBeat == s.req.len⟩ ::
      s.req.slotsFrom (!s.wrError) (s.req.next s.wrAddr) (s.req.len.toNat - s.wrBeat.toNat) := by
  rw [due, if_pos hs, AesReq.slotsFrom_of_le _ _ (h.beat hs)]

theorem WriterInv.taken_isPrefix (h : WriterInv s) : s.taken i <+: s.due := by
  cases hw : s.wFire i with
  | false => simp [taken, hw]
  | true =>
    have hs : s.wrActive = true := by
      simp only [wFire, wready, Bool.and_eq_true] at hw
      exact hw.2.1
    rw [taken, if_pos hw, h.due_eq hs]
    simp

theorem last_of_wFire (hi : (s.taken i).map AesSlot.last = (s.ws i).map AesWBeat.last)
    (hw : s.wFire i = true) : i.w.last = (s.wrBeat == s.req.len) := by
  simp only [taken, ws, hw, if_true, List.map_cons, List.map_nil, List.cons.injEq] at hi
  exact hi.1.symm

theorem WriterInv.taken_append (h : WriterInv s)
    (hi : (s.taken i).map AesSlot.last = (s.ws i).map AesWBeat.last) :
    s.taken i ++ (s.clock i).due = s.due ++ (s.aws i).flatMap AesReq.slots := by
  cases h.cycle i with
  | wait haw hw hb hclock => simp [hclock, taken, aws, haw, hw, due]
  | start hs hv haw hw hb hclock => simp [hclock, taken, aws, haw, hw, due, hs, AesReq.slots_eq]
  | beat hs hv haw hw hb hne hlast hclock =>
    obtain ⟨hsucc, hle⟩ := toNat_succ_le (h.beat hs) hne
    have hdue : (s.clock i).due = s.req.slotsFrom (!s.wrError) (s.req.next s.wrAddr)
        (s.req.len.toNat - s.wrBeat.toNat) := by
      have hcount : s.req.len.toNat - (s.wrBeat.toNat + 1) + 1 =
          s.req.len.toNat - s.wrBeat.toNat := by omega
      simp only [hclock, due, hs, if_true, hsucc, hcount]
    rw [hdue, h.due_eq hs]
    simp [taken, aws, haw, hw]
  | close hs hv haw hw hb hends hclock =>
    have hbeat : s.wrBeat = s.req.len := by
      rw [ends, last_of_wFire hi hw, Bool.or_self, beq_iff_eq] at hends
      exact hends
    rw [h.due_eq hs, hbeat, Nat.sub_self]
    simp [hclock, taken, aws, haw, hw, due, hbeat, AesReq.slotsFrom]
  | finish hs hv haw hw hb hclock => simp [hclock, taken, aws, haw, hw, due, hs]

theorem WriterInv.bs_append (h : WriterInv s)
    (hi : (s.taken i).map AesSlot.last = (s.ws i).map AesWBeat.last) :
    s.bs i ++ (s.clock i).response =
      s.response ++ (s.aws i).map fun r => ⟨r.id, respOf (!r.error)⟩ := by
  cases h.cycle i with
  | wait haw hw hb hclock => simp [hclock, bs, aws, haw, hb, response]
  | start hs hv haw hw hb hclock => simp [hclock, bs, aws, haw, hb, response, hs, hv]
  | beat hs hv haw hw hb hne hlast hclock => simp [hclock, bs, aws, haw, hb, response, hs, hv]
  | close hs hv haw hw hb hends hclock =>
    have hmis : s.mismatch i = false := by simp [mismatch, last_of_wFire hi hw]
    simp [hclock, bs, aws, haw, hb, response, hs, hv, hmis]
  | finish hs hv haw hw hb hclock => simp [hclock, bs, aws, haw, hb, response, hs, hv]

theorem WriterInv.pulse_clock (h : WriterInv s) : (s.clock i).pulse =
    if s.wFire i && !s.wrError then [⟨s.wrAddr, i.w.data, i.w.strb⟩] else [] := by
  cases h.cycle i with
  | wait haw hw hb hclock => simp [hclock, pulse, hw]
  | start hs hv haw hw hb hclock => simp [hclock, pulse, hw]
  | beat hs hv haw hw hb hne hlast hclock => cases herr : s.wrError <;> simp [hclock, pulse, hw, herr]
  | close hs hv haw hw hb hends hclock => cases herr : s.wrError <;> simp [hclock, pulse, hw, herr]
  | finish hs hv haw hw hb hclock => simp [hclock, pulse, hw]

theorem WriterInv.keeps (h : WriterInv s) :
    Keeps (owed s.bvalid i.bready s.b) (s.clock i).bvalid (s.clock i).b := by
  cases h.cycle i with
  | wait haw hw hb hclock =>
    rw [hclock]
    cases hv : s.bvalid with
    | false => simp
    | true =>
      have hr : i.bready = false := by simpa [bFire, hv] using hb
      simp [hr]
  | start hs hv haw hw hb hclock => simp [hv]
  | beat hs hv haw hw hb hne hlast hclock => simp [hv]
  | close hs hv haw hw hb hends hclock => simp [hv]
  | finish hs hv haw hw hb hclock =>
    have hr : i.bready = true := by simpa [bFire, hv] using hb
    simp [hr]

/-- The slave waits for its master only: it takes a request unless one is open, and then its beats,
and then offers the response. -/
structure Ready (s : AesWriter R) : Prop where
  awready : s.awready = s.response.isEmpty
  wready : s.wready = !s.due.isEmpty
  bvalid : s.bvalid = (s.due.isEmpty && !s.response.isEmpty)

theorem WriterInv.ready (h : WriterInv s) : s.Ready := by
  cases hs : s.wrActive with
  | false =>
    cases hv : s.bvalid <;> exact ⟨by simp [AesWriter.awready, response, hs, hv],
      by simp [AesWriter.wready, due, hs], by simp [due, response, hs, hv]⟩
  | true =>
    have hv := h.bvalid hs
    have hdue := h.due_eq hs
    exact ⟨by simp [AesWriter.awready, response, hs, hv], by simp [AesWriter.wready, hdue, hs, hv],
      by simp [hdue, hv]⟩

end AesWriter

/-! ## The read direction -/

namespace AesReader

/-- The read requests accepted in a cycle. -/
def ars (s : AesReader R) (i : AesSlaveIn R) : List (AesReq R) := if s.arFire i then [i.ar] else []

/-- The read data handed over in a cycle. -/
def rs (s : AesReader R) (i : AesSlaveIn R) : List (AesRBeat R) := if s.rFire i then [s.r] else []

/-- The beat that is read on the register bus. -/
def loads (s : AesReader R) : List (AesSlot R) :=
  if s.regRdEn then [⟨s.req.id, s.regRdAddr, !s.rdError, s.rdBeat == s.req.len⟩] else []

/-- The beats of the open burst still to be read on the register bus. -/
def due (s : AesReader R) : List (AesSlot R) :=
  if s.rdActive then
    if s.rvalid then
      s.req.slotsFrom (!s.rdError) (s.req.next s.rdAddr) (s.req.len.toNat - s.rdBeat.toNat)
    else s.req.slotsFrom (!s.rdError) s.rdAddr (s.req.len.toNat - s.rdBeat.toNat + 1)
  else []

/-- The beat on offer. -/
def offered (s : AesReader R) : List (AesRBeat R) := if s.rvalid then [s.r] else []

/-- The read beat that is made of a beat of the burst and the data of the bus. -/
def beatOf (d : BitVec R.dataWidth) (l : AesSlot R) : AesRBeat R := ⟨l.id, d, respOf l.ok, l.last⟩

/-- **The invariant of the read direction**: a beat is on offer only during a burst, with the mark of
the beat count, which has not passed the length. -/
structure ReaderInv (s : AesReader R) : Prop where
  active : s.rvalid = true → s.rdActive = true
  last : s.rvalid = true → s.r.last = (s.rdBeat == s.req.len)
  beat : s.rdActive = true → s.rdBeat.toNat ≤ s.req.len.toNat

variable {s : AesReader R} {i : AesSlaveIn R}

theorem ReaderInv.reset : ReaderInv (reset R) := ⟨nofun, nofun, nofun⟩

/-- **What a cycle of the read direction can be.** -/
inductive Cycle (s : AesReader R) (i : AesSlaveIn R) : Prop
  | wait (har : s.arFire i = false) (hr : s.rFire i = false) (hload : s.loads = [])
      (hclock : s.clock i = s)
  | start (hs : s.rdActive = false) (hv : s.rvalid = false) (har : s.arFire i = true)
      (hr : s.rFire i = false) (hload : s.loads = [])
      (hclock : s.clock i = { s with
        rdActive := true, req := i.ar, rdAddr := i.ar.addr, rdBeat := 0, rdError := i.ar.error })
  | load (hs : s.rdActive = true) (hv : s.rvalid = false) (har : s.arFire i = false)
      (hr : s.rFire i = false)
      (hload : s.loads = [⟨s.req.id, s.rdAddr, !s.rdError, s.rdBeat == s.req.len⟩])
      (hclock : s.clock i = { s with
        rvalid := true,
        r := beatOf i.regRdData ⟨s.req.id, s.rdAddr, !s.rdError, s.rdBeat == s.req.len⟩ })
  | beat (hs : s.rdActive = true) (hv : s.rvalid = true) (har : s.arFire i = false)
      (hr : s.rFire i = true) (hload : s.loads = []) (hne : s.rdBeat ≠ s.req.len)
      (hclock : s.clock i = { s with
        rvalid := false, rdBeat := s.rdBeat + 1, rdAddr := s.req.next s.rdAddr })
  | finish (hs : s.rdActive = true) (hv : s.rvalid = true) (har : s.arFire i = false)
      (hr : s.rFire i = true) (hload : s.loads = []) (heq : s.rdBeat = s.req.len)
      (hclock : s.clock i = { s with
        rvalid := false, rdActive := false, r := { s.r with last := false } })

theorem ReaderInv.cycle (h : ReaderInv s) (i : AesSlaveIn R) : Cycle s i := by
  cases hs : s.rdActive with
  | false =>
    have hv : s.rvalid = false :=
      Bool.eq_false_iff.mpr fun hv => Bool.false_ne_true (hs.symm.trans (h.active hv))
    have hrf : s.rFire i = false := by simp [rFire, hv]
    have hload : s.loads = [] := by simp [loads, regRdEn, hs]
    cases hfire : s.arFire i with
    | false => exact .wait hfire hrf hload (by simp [clock, clockAr, clockLoad, clockR, hfire, hrf, hs])
    | true =>
      exact .start hs hv hfire hrf hload
        (by simp [clock, clockAr, clockLoad, clockR, hfire, hrf, hs])
  | true =>
    have haf : s.arFire i = false := by simp [arFire, arready, hs]
    cases hv : s.rvalid with
    | false =>
      have hrf : s.rFire i = false := by simp [rFire, hv]
      refine .load hs hv haf hrf (by simp [loads, regRdEn, regRdAddr, hs, hv]) ?_
      cases herr : s.rdError <;>
        simp [clock, clockAr, clockLoad, clockR, haf, hrf, hs, hv, beatOf, respOf, herr]
    | true =>
      have hload : s.loads = [] := by simp [loads, regRdEn, hv]
      cases hfire : s.rFire i with
      | false => exact .wait haf hfire hload (by simp [clock, clockAr, clockLoad, clockR, hfire, haf, hv])
      | true =>
        have hlast := h.last hv
        by_cases heq : s.rdBeat = s.req.len
        · have hl : s.r.last = true := by simp [hlast, heq]
          exact .finish hs hv haf hfire hload heq
            (by simp [clock, clockAr, clockLoad, clockR, hfire, haf, hv, hl])
        · have hl : s.r.last = false := by simp [hlast, heq]
          exact .beat hs hv haf hfire hload heq
            (by simp [clock, clockAr, clockLoad, clockR, hfire, haf, hv, hl])

theorem ReaderInv.clock (h : ReaderInv s) : ReaderInv (s.clock i) := by
  cases h.cycle i with
  | wait _ _ _ hclock => rwa [hclock]
  | start hs hv _ _ _ hclock =>
    rw [hclock]
    exact ⟨fun _ => rfl, fun h' => absurd (hv.symm.trans h') Bool.false_ne_true,
      fun _ => Nat.zero_le _⟩
  | load hs hv _ _ _ hclock => rw [hclock]; exact ⟨fun _ => hs, fun _ => rfl, h.beat⟩
  | beat hs hv _ _ _ hne hclock =>
    rw [hclock]
    refine ⟨nofun, nofun, fun _ => ?_⟩
    obtain ⟨hsucc, hle⟩ := toNat_succ_le (h.beat hs) hne
    exact hsucc ▸ hle
  | finish _ _ _ _ _ _ hclock => rw [hclock]; exact ⟨nofun, nofun, nofun⟩

theorem ReaderInv.loads_append (h : ReaderInv s) :
    s.loads ++ (s.clock i).due = s.due ++ (s.ars i).flatMap AesReq.slots := by
  cases h.cycle i with
  | wait har hr hload hclock => simp [hclock, hload, ars, har]
  | start hs hv har hr hload hclock =>
    simp [hclock, hload, ars, har, due, hs, hv, AesReq.slots_eq]
  | load hs hv har hr hload hclock =>
    simp [hclock, hload, ars, har, due, hs, hv, AesReq.slotsFrom_of_le _ _ (h.beat hs)]
  | beat hs hv har hr hload hne hclock =>
    obtain ⟨hsucc, hle⟩ := toNat_succ_le (h.beat hs) hne
    have hcount : s.req.len.toNat - (s.rdBeat.toNat + 1) + 1 =
        s.req.len.toNat - s.rdBeat.toNat := by omega
    simp only [hclock, hload, ars, har, due, hs, hv, hsucc, hcount, if_true, if_false,
      Bool.false_eq_true, List.nil_append, List.flatMap_nil, List.append_nil]
  | finish hs hv har hr hload heq hclock =>
    simp [hclock, hload, ars, har, due, hs, hv, heq, AesReq.slotsFrom]

theorem ReaderInv.loads_isPrefix (h : ReaderInv s) : s.loads <+: s.due := by
  cases hs : s.rdActive with
  | false => simp [loads, regRdEn, hs]
  | true =>
    cases hv : s.rvalid with
    | true => simp [loads, regRdEn, hv]
    | false =>
      simp [loads, regRdEn, regRdAddr, due, hs, hv, AesReq.slotsFrom_of_le _ _ (h.beat hs)]

theorem ReaderInv.rs_append (h : ReaderInv s) :
    s.rs i ++ (s.clock i).offered = s.offered ++ s.loads.map (beatOf i.regRdData) := by
  cases h.cycle i with
  | wait har hr hload hclock => simp [hclock, hload, rs, hr]
  | start hs hv har hr hload hclock => simp [hclock, hload, rs, hr, offered, hv]
  | load hs hv har hr hload hclock => simp [hclock, hload, rs, hr, offered, hv]
  | beat hs hv har hr hload hne hclock => simp [hclock, hload, rs, hr, offered, hv]
  | finish hs hv har hr hload heq hclock => simp [hclock, hload, rs, hr, offered, hv]

theorem ReaderInv.keeps (h : ReaderInv s) :
    Keeps (owed s.rvalid i.rready s.r) (s.clock i).rvalid (s.clock i).r := by
  cases h.cycle i with
  | wait har hr hload hclock =>
    rw [hclock]
    cases hv : s.rvalid with
    | false => simp
    | true =>
      have hr' : i.rready = false := by simpa [rFire, hv] using hr
      simp [hr']
  | start hs hv har hr hload hclock => simp [hv]
  | load hs hv har hr hload hclock => simp [hv]
  | beat hs hv har hr hload hne hclock =>
    have hr' : i.rready = true := by simpa [rFire, hv] using hr
    simp [hr']
  | finish hs hv har hr hload heq hclock =>
    have hr' : i.rready = true := by simpa [rFire, hv] using hr
    simp [hr']

/-- The slave waits for its master only: it takes a request unless one is open, and while beats are
due one is on offer or is just read on the bus. -/
structure Ready (s : AesReader R) : Prop where
  arready : s.arready = (s.offered.isEmpty && s.due.isEmpty)
  rvalid : s.due ≠ [] → s.rvalid = true ∨ s.regRdEn = true

theorem ReaderInv.ready (h : ReaderInv s) : s.Ready := by
  cases hs : s.rdActive with
  | false =>
    have hv : s.rvalid = false :=
      Bool.eq_false_iff.mpr fun hv => Bool.false_ne_true (hs.symm.trans (h.active hv))
    exact ⟨by simp [AesReader.arready, offered, due, hs, hv], fun hdue => absurd (by simp [due, hs]) hdue⟩
  | true =>
    cases hv : s.rvalid with
    | false =>
      exact ⟨by simp [AesReader.arready, offered, due, hs, hv, AesReq.slotsFrom_succ],
        fun _ => .inr (by simp [regRdEn, hs, hv])⟩
    | true => exact ⟨by simp [AesReader.arready, offered, hs, hv], fun _ => .inl hv⟩

end AesReader

end PacketBuffering
