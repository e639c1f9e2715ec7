import PacketBuffering.Ram.Ram

/-!
# Bursts of the AXI memory

* `Slot`, `BurstReq.slots`: a beat of a burst, and the beats a request asks for.
* `WriterInv`, `ReaderInv`: the invariants of the two state machines; `RamWriter.Cycle` and
  `RamReader.Cycle` say what a cycle can be.
* The lemmas `…_append` say what passes through the machines, the lemmas `keeps` that an offer stays
  until it is accepted.
-/

namespace PacketBuffering

variable {R : RamParams}

/-! ## Beats of a burst -/

variable (R) in
/-- A beat of a burst: the word it is about, and whether it is the last one. -/
@[ext] structure Slot where
  id : BitVec R.idWidth
  addr : BitVec R.wordBits
  last : Bool

/-- The last `n` beats of a burst, the next one at the word `a`. -/
def slotsFrom (id : BitVec R.idWidth) (a : BitVec R.wordBits) (n : ℕ) : List (Slot R) :=
  (List.range n).map fun k => ⟨id, a + BitVec.ofNat _ k, k + 1 == n⟩

/-- The word of beat `k`: consecutive words, modulo the size of the memory. -/
def BurstReq.beatAddr (r : BurstReq R) (k : ℕ) : BitVec R.wordBits :=
  BitVec.ofNat _ (r.addr.toNat / 4 + k)

/-- The `len + 1` beats of a burst. -/
def BurstReq.slots (r : BurstReq R) : List (Slot R) :=
  (List.range (r.len.toNat + 1)).map fun k => ⟨r.id, r.beatAddr k, k == r.len.toNat⟩

theorem slotsFrom_succ (id : BitVec R.idWidth) (a : BitVec R.wordBits) (n : ℕ) :
    slotsFrom id a (n + 1) = ⟨id, a, n == 0⟩ :: slotsFrom id (a + 1) n := by
  rw [slotsFrom, List.range_succ_eq_map, List.map_cons, List.map_map, slotsFrom]
  congr 1
  · ext
    · simp
    · simp
    · cases n <;> simp
  · refine List.map_congr_left fun k _ => ?_
    simp only [Function.comp_apply, Slot.mk.injEq, true_and]
    refine ⟨?_, by simp⟩
    rw [BitVec.add_assoc, Nat.succ_eq_one_add, BitVec.ofNat_add]
    rfl

theorem BurstReq.wordAddr_eq (r : BurstReq R) :
    r.wordAddr = BitVec.ofNat _ (r.addr.toNat / 4) := by
  apply BitVec.eq_of_toNat_eq
  rw [BurstReq.wordAddr, BitVec.extractLsb'_toNat, BitVec.toNat_ofNat, Nat.shiftRight_eq_div_pow]

theorem BurstReq.slots_eq (r : BurstReq R) :
    r.slots = slotsFrom r.id r.wordAddr (r.len.toNat + 1) := by
  refine List.map_congr_left fun k _ => ?_
  simp only [Slot.mk.injEq, true_and]
  refine ⟨?_, by simp⟩
  rw [BurstReq.beatAddr, BurstReq.wordAddr_eq, BitVec.ofNat_add]

theorem toNat_beq_zero (n : BitVec 8) : (n.toNat == 0) = (n == 0) := by
  rw [Bool.eq_iff_iff, beq_iff_eq, beq_iff_eq]
  exact ⟨fun h => BitVec.eq_of_toNat_eq h, fun h => by rw [h]; rfl⟩

theorem sub_one_beq_zero (n : BitVec 8) : (n - 1 == 0) = (n == 1) := by
  rw [Bool.eq_iff_iff, beq_iff_eq, beq_iff_eq, sub_eq_zero]

theorem toNat_pred {n : BitVec 8} (h : n ≠ 0) : (n - 1).toNat + 1 = n.toNat := by
  have hpos : n.toNat ≠ 0 := fun h0 => h (BitVec.eq_of_toNat_eq h0)
  rw [BitVec.toNat_sub_of_le (by rw [BitVec.le_def]; show 1 ≤ n.toNat; omega)]
  show n.toNat - 1 + 1 = n.toNat
  omega

/-! ## The write machine -/

namespace RamWriter

/-- The write requests accepted in a cycle. -/
def aws (s : RamWriter R) (i : RamIn R) : List (BurstReq R) := if s.awFire i then [i.aw] else []

/-- The write data handed over in a cycle. -/
def ws (s : RamWriter R) (i : RamIn R) : List WBeat := if s.wFire i then [i.w] else []

/-- The responses handed over in a cycle. -/
def bs (s : RamWriter R) (i : RamIn R) : List (BResp R) := if s.bFire i then [s.b] else []

/-- The beat that is taken. -/
def taken (s : RamWriter R) (i : RamIn R) : List (Slot R) :=
  if s.wFire i then [⟨s.wrIdReg, s.wrWordAddr, s.wrLenCnt == 0⟩] else []

theorem length_taken (s : RamWriter R) (i : RamIn R) : (s.taken i).length = (s.ws i).length := by
  unfold taken ws
  split_ifs <;> rfl

/-- The beats of the open burst still to come. -/
def due (s : RamWriter R) : List (Slot R) :=
  match s.wrState with
  | .data => slotsFrom s.wrIdReg s.wrWordAddr (s.wrLenCnt.toNat + 1)
  | _ => []

/-- The response still to be given. -/
def response (s : RamWriter R) : List (BResp R) :=
  match s.wrState with
  | .idle => []
  | .data => [⟨s.wrIdReg, axiRespOkay⟩]
  | .resp => [s.b]

/-- **The invariant of the write machine**: in each state exactly the channel it waits for is
up. -/
structure WriterInv (s : RamWriter R) : Prop where
  awready : s.awready = (s.wrState == .idle)
  wready : s.wready = (s.wrState == .data)
  bvalid : s.bvalid = (s.wrState == .resp)

/-- A beat is marked as last iff the count has run out. -/
def Marked (s : RamWriter R) (i : RamIn R) : Prop :=
  s.wFire i = true → i.w.last = (s.wrLenCnt == 0)

variable {s : RamWriter R} {i : RamIn R}

theorem WriterInv.reset : WriterInv (reset R) := ⟨rfl, rfl, rfl⟩

/-- **What a cycle of the write machine can be.** -/
inductive Cycle (s : RamWriter R) (i : RamIn R) : Prop
  | wait (haw : s.awFire i = false) (hw : s.wFire i = false) (hb : s.bFire i = false)
      (hclock : s.clock i = s)
  | start (hs : s.wrState = .idle) (haw : s.awFire i = true) (hw : s.wFire i = false)
      (hb : s.bFire i = false)
      (hclock : s.clock i = { s with
        wrState := .data, awready := false, wready := true, wrIdReg := i.aw.id,
        wrWordAddr := i.aw.wordAddr, wrLenCnt := i.aw.len })
  | beat (hs : s.wrState = .data) (haw : s.awFire i = false) (hw : s.wFire i = true)
      (hb : s.bFire i = false) (hends : s.ends i = false)
      (hclock : s.clock i = { s with
        wrWordAddr := s.wrWordAddr + 1, wrLenCnt := s.wrLenCnt - 1 })
  | close (hs : s.wrState = .data) (haw : s.awFire i = false) (hw : s.wFire i = true)
      (hb : s.bFire i = false) (hends : s.ends i = true)
      (hclock : s.clock i = { s with
        wrState := .resp, wready := false, bvalid := true, b := ⟨s.wrIdReg, axiRespOkay⟩,
        wrWordAddr := s.wrWordAddr + 1 })
  | finish (hs : s.wrState = .resp) (haw : s.awFire i = false) (hw : s.wFire i = false)
      (hb : s.bFire i = true)
      (hclock : s.clock i = { s with wrState := .idle, awready := true, bvalid := false })

theorem WriterInv.cycle (h : WriterInv s) (i : RamIn R) : Cycle s i := by
  obtain ⟨haw, hw, hb⟩ := h
  cases hs : s.wrState with
  | idle =>
    rw [hs] at haw hw hb
    have hwf : s.wFire i = false := by rw [wFire, hw]; exact Bool.and_false _
    have hbf : s.bFire i = false := by rw [bFire, hb]; rfl
    cases hfire : s.awFire i with
    | true => exact .start hs hfire hwf hbf (by simp [RamWriter.clock, hs, clockIdle, hfire])
    | false =>
      refine .wait hfire hwf hbf ?_
      have hcopy : { s with awready := true, wready := false } = s := by
        cases s
        simp_all
      simpa [RamWriter.clock, hs, clockIdle, hfire] using hcopy
  | data =>
    rw [hs] at haw hw hb
    have haf : s.awFire i = false := by rw [awFire, haw]; exact Bool.and_false _
    have hbf : s.bFire i = false := by rw [bFire, hb]; rfl
    have hcopy : { s with awready := false, wready := true } = s := by
      cases s
      simp_all
    cases hfire : s.wFire i with
    | false =>
      refine .wait haf hfire hbf ?_
      simpa [RamWriter.clock, hs, clockData, hfire] using hcopy
    | true =>
      cases hends : s.ends i with
      | false =>
        refine .beat hs haf hfire hbf hends ?_
        simp [RamWriter.clock, hs, clockData, hfire, hends]
        cases s
        simp_all
      | true =>
        refine .close hs haf hfire hbf hends ?_
        simp [RamWriter.clock, hs, clockData, hfire, hends]
        cases s
        simp_all
  | resp =>
    rw [hs] at haw hw hb
    have haf : s.awFire i = false := by rw [awFire, haw]; exact Bool.and_false _
    have hwf : s.wFire i = false := by rw [wFire, hw]; exact Bool.and_false _
    cases hfire : s.bFire i with
    | false => exact .wait haf hwf hfire (by simp [RamWriter.clock, hs, clockResp, hfire])
    | true => exact .finish hs haf hwf hfire (by simp [RamWriter.clock, hs, clockResp, hfire])

theorem WriterInv.clock_of_quiet (h : WriterInv s) (haw : s.awFire i = false)
    (hw : s.wFire i = false) (hb : s.bFire i = false) : s.clock i = s := by
  cases h.cycle i with
  | wait _ _ _ hclock => exact hclock
  | start _ haw' _ _ _ => rw [haw] at haw'; cases haw'
  | beat _ _ hw' _ _ _ | close _ _ hw' _ _ _ => rw [hw] at hw'; cases hw'
  | finish _ _ _ hb' _ => rw [hb] at hb'; cases hb'

theorem WriterInv.clock (h : WriterInv s) : WriterInv (s.clock i) := by
  have hb := h.bvalid
  have hw := h.wready
  have haw := h.awready
  cases h.cycle i with
  | wait _ _ _ hclock => rwa [hclock]
  | start hs _ _ _ hclock =>
    rw [hclock]
    exact ⟨rfl, rfl, by rw [hb, hs]; rfl⟩
  | beat hs _ _ _ _ hclock => rw [hclock]; exact ⟨haw, hw, hb⟩
  | close hs _ _ _ _ hclock =>
    rw [hclock]
    exact ⟨by rw [haw, hs]; rfl, rfl, rfl⟩
  | finish hs _ _ _ hclock =>
    rw [hclock]
    exact ⟨rfl, by rw [hw, hs]; rfl, rfl⟩

theorem WriterInv.wrState_of_wFire (h : WriterInv s) (hw : s.wFire i = true) :
    s.wrState = .data := by
  have hready := h.wready
  rw [wFire, Bool.and_eq_true] at hw
  rwa [hw.2, eq_comm, beq_iff_eq] at hready

theorem due_of_data (hs : s.wrState = .data) :
    s.due = ⟨s.wrIdReg, s.wrWordAddr, s.wrLenCnt == 0⟩ ::
      slotsFrom s.wrIdReg (s.wrWordAddr + 1) s.wrLenCnt.toNat := by
  rw [due, hs, slotsFrom_succ, toNat_beq_zero]

theorem WriterInv.due_of_bFire (h : WriterInv s) (hb : s.bFire i = true) : (s.clock i).due = [] := by
  cases h.cycle i with
  | finish _ _ _ _ hclock => rw [hclock, due]
  | wait _ _ hb' _ | start _ _ _ hb' _ | beat _ _ _ hb' _ _ | close _ _ _ hb' _ _ =>
    rw [hb] at hb'
    cases hb'

theorem WriterInv.taken_append (h : WriterInv s) (hi : Marked s i) :
    s.taken i ++ (s.clock i).due = s.due ++ (s.aws i).flatMap BurstReq.slots := by
  cases h.cycle i with
  | wait haw hw hb hclock => simp [hclock, taken, aws, haw, hw]
  | start hs haw hw hb hclock => simp [hclock, taken, aws, haw, hw, due, hs, BurstReq.slots_eq]
  | beat hs haw hw hb hends hclock =>
    have hcnt : s.wrLenCnt ≠ 0 := by
      rintro h0
      simp [ends, h0] at hends
    have hdue' : (s.clock i).due =
        slotsFrom s.wrIdReg (s.wrWordAddr + 1) s.wrLenCnt.toNat := by
      rw [hclock, due, hs, toNat_pred hcnt]
    simp [due_of_data hs, hdue', taken, aws, haw, hw]
  | close hs haw hw hb hends hclock =>
    have hcnt : s.wrLenCnt = 0 := by
      have hlast := hi hw
      simpa [ends, hlast] using hends
    simp [hclock, taken, aws, haw, hw, due, hs, hcnt, slotsFrom]
  | finish hs haw hw hb hclock => simp [hclock, taken, aws, haw, hw, due, hs]

theorem WriterInv.bs_append (h : WriterInv s) :
    s.bs i ++ (s.clock i).response =
      s.response ++ (s.aws i).map fun r => ⟨r.id, axiRespOkay⟩ := by
  cases h.cycle i with
  | wait haw hw hb hclock => simp [hclock, bs, aws, haw, hb]
  | start hs haw hw hb hclock => simp [hclock, bs, aws, haw, hb, response, hs]
  | beat hs haw hw hb hends hclock => simp [hclock, bs, aws, haw, hb, response, hs]
  | close hs haw hw hb hends hclock => simp [hclock, bs, aws, haw, hb, response, hs]
  | finish hs haw hw hb hclock => simp [hclock, bs, aws, haw, hb, response, hs]

theorem WriterInv.keeps (h : WriterInv s) :
    Keeps (owed s.bvalid i.bready s.b) (s.clock i).bvalid (s.clock i).b := by
  cases hv : s.bvalid with
  | false => simp
  | true =>
    cases hr : i.bready with
    | true => simp
    | false =>
      have hs : s.wrState = .resp := by
        have := h.bvalid
        rw [hv, eq_comm, beq_iff_eq] at this
        exact this
      simp [RamWriter.clock, hs, clockResp, bFire, hr, hv]

/-- The machine waits for its master only: it takes a request unless one is open, and then its
beats, and then offers the response. -/
structure Ready (s : RamWriter R) : Prop where
  awready : s.awready = s.response.isEmpty
  wready : s.wready = !s.due.isEmpty
  bvalid : s.bvalid = (s.due.isEmpty && !s.response.isEmpty)

theorem WriterInv.ready (h : WriterInv s) : s.Ready := by
  obtain ⟨haw, hw, hb⟩ := h
  cases hs : s.wrState <;> rw [hs] at haw hw hb <;>
    exact ⟨by simp [haw, response, hs], by simp [hw, due, hs, slotsFrom_succ],
      by simp [hb, due, response, hs, slotsFrom_succ]⟩

end RamWriter

/-! ## The read machine -/

namespace RamReader

/-- The read requests accepted in a cycle. -/
def ars (s : RamReader R) (i : RamIn R) : List (BurstReq R) := if s.arFire i then [i.ar] else []

/-- The read data handed over in a cycle. -/
def rs (s : RamReader R) (i : RamIn R) : List (RBeat R) := if s.rFire i then [s.r] else []

/-- The beat that is loaded from the memory. -/
def loads (s : RamReader R) (i : RamIn R) : List (Slot R) :=
  match s.rdState with
  | .idle => if s.arFire i then [⟨i.ar.id, i.ar.wordAddr, i.ar.len == 0⟩] else []
  | .data =>
    if s.rFire i && !s.r.last then [⟨s.rdIdReg, s.rdWordAddr, s.rdLenCnt == 1⟩] else []

/-- The beats of the open burst still to be loaded. -/
def due (s : RamReader R) : List (Slot R) :=
  match s.rdState with
  | .idle => []
  | .data => slotsFrom s.rdIdReg s.rdWordAddr s.rdLenCnt.toNat

/-- The beat on offer. -/
def offered (s : RamReader R) : List (RBeat R) := if s.rvalid then [s.r] else []

/-- The beat that a load from `m` gives. -/
def beatOf (m : LaneMem R.wordBits) (l : Slot R) : RBeat R :=
  ⟨l.id, m.word l.addr, axiRespOkay, l.last⟩

/-- **The invariant of the read machine**: a burst is open iff a beat is on offer, and the count
tells the last one. -/
structure ReaderInv (s : RamReader R) : Prop where
  arready : s.arready = (s.rdState == .idle)
  rvalid : s.rvalid = (s.rdState == .data)
  beat : s.rdState = .data → s.r = ⟨s.rdIdReg, s.r.data, axiRespOkay, s.rdLenCnt == 0⟩

variable {s : RamReader R} {m : LaneMem R.wordBits} {i : RamIn R}

theorem ReaderInv.reset : ReaderInv (reset R) := ⟨rfl, rfl, nofun⟩

/-- **What a cycle of the read machine can be.** -/
inductive Cycle (s : RamReader R) (m : LaneMem R.wordBits) (i : RamIn R) : Prop
  | wait (har : s.arFire i = false) (hr : s.rFire i = false) (hload : s.loads i = [])
      (hclock : s.clock m i = s)
  | start (hs : s.rdState = .idle) (har : s.arFire i = true) (hr : s.rFire i = false)
      (hload : s.loads i = [⟨i.ar.id, i.ar.wordAddr, i.ar.len == 0⟩])
      (hclock : s.clock m i = { s with
        rdState := .data, arready := false, rvalid := true,
        r := beatOf m ⟨i.ar.id, i.ar.wordAddr, i.ar.len == 0⟩, rdIdReg := i.ar.id,
        rdWordAddr := i.ar.wordAddr + 1, rdLenCnt := i.ar.len })
  | beat (hs : s.rdState = .data) (har : s.arFire i = false) (hr : s.rFire i = true)
      (hcnt : s.rdLenCnt ≠ 0)
      (hload : s.loads i = [⟨s.rdIdReg, s.rdWordAddr, s.rdLenCnt == 1⟩])
      (hclock : s.clock m i = { s with
        r := beatOf m ⟨s.rdIdReg, s.rdWordAddr, s.rdLenCnt == 1⟩,
        rdWordAddr := s.rdWordAddr + 1, rdLenCnt := s.rdLenCnt - 1 })
  | finish (hs : s.rdState = .data) (har : s.arFire i = false) (hr : s.rFire i = true)
      (hcnt : s.rdLenCnt = 0) (hload : s.loads i = [])
      (hclock : s.clock m i = { s with
        rdState := .idle, arready := true, rvalid := false, r := { s.r with last := false } })

theorem ReaderInv.cycle (h : ReaderInv s) (m : LaneMem R.wordBits) (i : RamIn R) :
    Cycle s m i := by
  have har := h.arready
  have hrv := h.rvalid
  cases hs : s.rdState with
  | idle =>
    rw [hs] at har hrv
    have hrf : s.rFire i = false := by rw [rFire, hrv]; rfl
    cases hfire : s.arFire i with
    | true =>
      refine .start hs hfire hrf (by simp [loads, hs, hfire]) ?_
      simp [RamReader.clock, hs, clockIdle, hfire, beatOf]
    | false =>
      refine .wait hfire hrf (by simp [loads, hs, hfire]) ?_
      have hcopy : { s with arready := true } = s := by
        cases s
        simp_all
      simpa [RamReader.clock, hs, clockIdle, hfire] using hcopy
  | data =>
    rw [hs] at har hrv
    have haf : s.arFire i = false := by rw [arFire, har]; exact Bool.and_false _
    cases hfire : s.rFire i with
    | false =>
      refine .wait haf hfire (by simp [loads, hs, hfire]) ?_
      simp [RamReader.clock, hs, clockData, hfire]
    | true =>
      have hbeat := h.beat hs
      have hlast : s.r.last = (s.rdLenCnt == 0) := by rw [hbeat]
      cases hcnt : s.rdLenCnt == 0 with
      | true =>
        rw [hcnt] at hlast
        refine .finish hs haf hfire (by simpa using hcnt) (by simp [loads, hs, hlast]) ?_
        simp [RamReader.clock, hs, clockData, hfire, hlast]
      | false =>
        rw [hcnt] at hlast
        refine .beat hs haf hfire (by simpa using hcnt) (by simp [loads, hs, hfire, hlast]) ?_
        have hid : s.r.id = s.rdIdReg := by rw [hbeat]
        have hresp : s.r.resp = axiRespOkay := by rw [hbeat]
        have hrvalid : s.rvalid = true := hrv
        simp [RamReader.clock, hs, clockData, hfire, hlast, beatOf, hid, hresp, hrvalid]

theorem ReaderInv.clock_of_quiet (h : ReaderInv s) (har : s.arFire i = false)
    (hr : s.rFire i = false) : s.clock m i = s := by
  cases h.cycle m i with
  | wait _ _ _ hclock => exact hclock
  | start _ har' _ _ _ => rw [har] at har'; cases har'
  | beat _ _ hr' _ _ _ | finish _ _ hr' _ _ _ => rw [hr] at hr'; cases hr'

theorem ReaderInv.clock (h : ReaderInv s) : ReaderInv (s.clock m i) := by
  have har := h.arready
  have hrv := h.rvalid
  cases h.cycle m i with
  | wait _ _ _ hclock => rwa [hclock]
  | start hs _ _ _ hclock =>
    rw [hclock]
    exact ⟨rfl, rfl, fun _ => rfl⟩
  | beat hs _ _ hcnt _ hclock =>
    rw [hclock]
    -- The mark is set from the count before it is decremented.
    refine ⟨har, hrv, fun _ => ?_⟩
    simp only [beatOf, sub_one_beq_zero]
  | finish hs _ _ _ _ hclock =>
    rw [hclock]
    exact ⟨rfl, rfl, nofun⟩

theorem ReaderInv.loads_append (h : ReaderInv s) :
    s.loads i ++ (s.clock m i).due = s.due ++ (s.ars i).flatMap BurstReq.slots := by
  cases h.cycle m i with
  | wait har hr hload hclock => simp [hclock, hload, ars, har]
  | start hs har hr hload hclock =>
    simp [hclock, hload, ars, har, due, hs, BurstReq.slots_eq, slotsFrom_succ, toNat_beq_zero]
  | beat hs har hr hcnt hload hclock =>
    have hdue : s.due =
        ⟨s.rdIdReg, s.rdWordAddr, s.rdLenCnt == 1⟩ :: slotsFrom s.rdIdReg (s.rdWordAddr + 1)
          (s.rdLenCnt - 1).toNat := by
      rw [due, hs, ← toNat_pred hcnt, slotsFrom_succ, toNat_beq_zero, sub_one_beq_zero]
    have hdue' : (s.clock m i).due =
        slotsFrom s.rdIdReg (s.rdWordAddr + 1) (s.rdLenCnt - 1).toNat := by
      rw [hclock, due, hs]
    simp [hdue, hdue', hload, ars, har]
  | finish hs har hr hcnt hload hclock =>
    simp [hclock, hload, ars, har, due, hs, hcnt, slotsFrom]

theorem ReaderInv.rs_append (h : ReaderInv s) :
    s.rs i ++ (s.clock m i).offered = s.offered ++ (s.loads i).map (beatOf m) := by
  have hrv := h.rvalid
  cases h.cycle m i with
  | wait har hr hload hclock => simp [hclock, hload, rs, hr]
  | start hs har hr hload hclock => simp [hclock, hload, rs, hr, offered, hrv, hs]
  | beat hs har hr hcnt hload hclock => simp [hclock, hload, rs, hr, offered, hrv, hs]
  | finish hs har hr hcnt hload hclock => simp [hclock, hload, rs, hr, offered, hrv, hs]

theorem ReaderInv.offered_of_arFire (h : ReaderInv s) (har : s.arFire i = true) :
    (s.clock m i).offered = [beatOf m ⟨i.ar.id, i.ar.wordAddr, i.ar.len == 0⟩] := by
  cases h.cycle m i with
  | start _ _ _ _ hclock => rw [hclock, offered, if_pos rfl]
  | wait har' _ _ _ | beat _ har' _ _ _ _ | finish _ har' _ _ _ _ =>
    rw [har] at har'
    cases har'

theorem ReaderInv.keeps (h : ReaderInv s) :
    Keeps (owed s.rvalid i.rready s.r) (s.clock m i).rvalid (s.clock m i).r := by
  cases hv : s.rvalid with
  | false => simp
  | true =>
    cases hr : i.rready with
    | true => simp
    | false =>
      have hs : s.rdState = .data := by
        have := h.rvalid
        rw [hv, eq_comm, beq_iff_eq] at this
        exact this
      simp [RamReader.clock, hs, clockData, rFire, hr, hv]

/-- The machine waits for its master only: it takes a request unless one is open, and while it is,
a beat is on offer. -/
structure Ready (s : RamReader R) : Prop where
  arready : s.arready = s.offered.isEmpty
  rvalid : s.due ≠ [] → s.rvalid = true

theorem ReaderInv.ready (h : ReaderInv s) : s.Ready := by
  have har := h.arready
  have hrv := h.rvalid
  cases hs : s.rdState <;> rw [hs] at har hrv <;>
    exact ⟨by simp [har, hrv, offered], fun hdue => by simp_all [due]⟩

end RamReader

end PacketBuffering
