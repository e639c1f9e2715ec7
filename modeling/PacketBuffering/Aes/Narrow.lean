import PacketBuffering.Aes.BeatAddr
import PacketBuffering.Aes.ReadBack

/-!
# Narrow bursts of the AES unit

The slave takes beats of a byte or of a halfword and counts their byte addresses; the registers
compare the whole address, so that a beat that does not start a word is answered and stored nowhere.

* `AesWriter.closes`: the response that a beat gives rise to; `marked_of_closes`: a burst that is
  answered with `OKAY` has its beats marked as it asks for.
* `AesUnit.OneWrite`: a stretch of a run with one write burst; `OneWrite.busWrites_eq`: what it puts on
  the register bus.
* `AesUnit.NarrowIncr`, `AesUnit.Stored`, `AesUnit.Kept`: the bursts in question, what is asked of them,
  and when it is so.
* **`AesUnit.narrow_stored_iff`**: the strobed bytes are stored iff every beat off the word addresses
  brings what is already there.
-/

namespace PacketBuffering

variable {R : AesParams}

/-! ## The end of a burst -/

namespace AesWriter

variable (s : AesWriter R) (i : AesSlaveIn R)

/-- The response that a beat gives rise to. -/
def closes : List (AesBResp R) :=
  if s.wFire i && s.ends i then [⟨s.req.id, respOf (!(s.wrError || s.mismatch i))⟩] else []

/-- The response on offer. -/
def offered : List (AesBResp R) := if s.bvalid then [s.b] else []

/-- The identifier of the open burst. -/
def openId : List (BitVec R.idWidth) := if s.wrActive then [s.req.id] else []

variable {s i}

theorem response_eq_nil_iff : s.response = [] ↔ s.offered = [] ∧ s.openId = [] := by
  cases hv : s.bvalid <;> cases hs : s.wrActive <;> simp [response, offered, openId, hv, hs]

theorem WriterInv.bs_append_offered (h : WriterInv s) :
    s.bs i ++ (s.clock i).offered = s.offered ++ s.closes i := by
  cases h.cycle i with
  | wait haw hw hb hclock => simp [hclock, bs, closes, offered, hw, hb]
  | start hs hv haw hw hb hclock => simp [hclock, bs, closes, offered, hw, hb]
  | beat hs hv haw hw hb hne hlast hclock =>
    have hends : s.ends i = false := by simp [ends, hne, hlast]
    simp [hclock, bs, closes, offered, hb, hends]
  | close hs hv haw hw hb hends hclock => simp [hclock, bs, closes, offered, hv, hw, hb, hends]
  | finish hs hv haw hw hb hclock => simp [hclock, bs, closes, offered, hv, hw, hb]

theorem WriterInv.closes_append (h : WriterInv s) :
    (s.closes i).map AesBResp.id ++ (s.clock i).openId =
      s.openId ++ (s.aws i).map AesReq.id := by
  cases h.cycle i with
  | wait haw hw hb hclock => simp [hclock, closes, openId, aws, haw, hw]
  | start hs hv haw hw hb hclock => simp [hclock, closes, openId, aws, haw, hw, hs]
  | beat hs hv haw hw hb hne hlast hclock =>
    have hends : s.ends i = false := by simp [ends, hne, hlast]
    simp [hclock, closes, openId, aws, haw, hends]
  | close hs hv haw hw hb hends hclock => simp [hclock, closes, openId, aws, haw, hw, hs, hends]
  | finish hs hv haw hw hb hclock => simp [hclock, closes, openId, aws, haw, hw, hs]

theorem marked_of_closes (h : ∀ b ∈ s.closes i, b.resp = axiRespOkay) :
    (s.taken i).map AesSlot.last = (s.ws i).map AesWBeat.last := by
  cases hw : s.wFire i with
  | false => simp [taken, ws, hw]
  | true =>
    cases hm : s.mismatch i with
    | false =>
      have hlast : (s.wrBeat == s.req.len) = i.w.last := by simpa [mismatch] using hm
      simp [taken, ws, hw, hlast]
    | true =>
      have hends : s.ends i = true := by
        rw [ends, Bool.or_eq_true]
        by_contra hno
        rw [not_or, Bool.not_eq_true, Bool.not_eq_true] at hno
        simp [mismatch, hno.1, hno.2] at hm
      have hb := h ⟨s.req.id, respOf (!(s.wrError || s.mismatch i))⟩ (by simp [closes, hw, hends])
      have hne : respOf (!true) ≠ axiRespOkay := by decide
      rw [hm, Bool.or_true] at hb
      exact absurd hb hne

end AesWriter

/-! ## One write burst -/

variable {a idw : ℕ} {h8 : 8 < a} {P : CipherPath}

theorem AesField.addr_mod_four (f : AesField) : f.addr % 4 = 0 := by
  cases f <;> simp only [AesField.addr] <;> omega

/-- The register write of a beat. -/
def AesSlot.regWrite (l : AesSlot (busParams a idw h8)) (w : AesWBeat (busParams a idw h8)) :
    RegWrite a := ⟨l.addr, w.data, w.strb⟩

theorem flatten_zipWith_place {ls : List (AesSlot (busParams a idw h8))}
    (hok : ∀ l ∈ ls, l.ok = true) (ws : List (AesWBeat (busParams a idw h8))) :
    ((List.zipWith AesSlot.place ls ws).flatten).map BusWrite.toReg =
      List.zipWith AesSlot.regWrite ls ws := by
  induction ls generalizing ws with
  | nil => rfl
  | cons l ls ih =>
    cases ws with
    | nil => rfl
    | cons w ws =>
      have hl : l.ok = true := hok l List.mem_cons_self
      rw [List.zipWith_cons_cons, List.flatten_cons, List.map_append, List.zipWith_cons_cons,
        ih fun x hx => hok x (List.mem_cons_of_mem _ hx), AesSlot.place, if_pos hl]
      rfl

namespace AesUnit

section OneWrite

variable (u : AesUnit idw h8 P) (es : List (AesSlaveIn (busParams a idw h8)))

/-- The write requests accepted in a run from a state. -/
def aws : List (AesReq (busParams a idw h8)) := log clock (fun u i => u.slave.wr.aws i) u es

/-- The write data accepted in a run from a state. -/
def ws : List (AesWBeat (busParams a idw h8)) := log clock (fun u i => u.slave.wr.ws i) u es

/-- The responses handed over in a run from a state. -/
def bs : List (AesBResp (busParams a idw h8)) := log clock (fun u i => u.slave.wr.bs i) u es

/-- The responses that the beats of a run give rise to. -/
def closes : List (AesBResp (busParams a idw h8)) := log clock (fun u i => u.slave.wr.closes i) u es

/-- **A stretch of a run with one write burst**: none is open at its start, one is requested, and its
response is accepted and is `OKAY`. Reads and the core go on beside it. -/
structure OneWrite (r : AesReq (busParams a idw h8)) : Prop where
  quiet : u.slave.wr.response = []
  requested : aws u es = [r]
  okay : (bs u es).map AesBResp.resp = [axiRespOkay]

variable (h8 idw P) in
/-- The write direction of the unit takes the beats of its requests. -/
def writeMachine : BurstMachine
    (clock : AesUnit idw h8 P → AesSlaveIn (busParams a idw h8) → AesUnit idw h8 P)
    (AesReq.slots (R := busParams a idw h8)) (AesSlot.last (R := busParams a idw h8))
    (AesWBeat.last (R := busParams a idw h8)) where
  Inv := fun u => u.slave.wr.WriterInv
  reqs := fun u i => u.slave.wr.aws i
  beats := fun u i => u.slave.wr.ws i
  taken := fun u i => u.slave.wr.taken i
  due := fun u => u.slave.wr.due
  keep := fun u i h => h.clock (i := u.feed i)
  length_taken := fun _ _ => AesWriter.length_taken
  taken_isPrefix := fun u i h => h.taken_isPrefix (i := u.feed i)
  pass := fun u i h hi => h.taken_append (i := u.feed i) hi

/-- The beats taken in a run. -/
def taken : List (AesSlot (busParams a idw h8)) :=
  log clock (fun u i => u.slave.wr.taken i) u es

variable {u es} {r : AesReq (busParams a idw h8)}

variable (es) in
theorem bs_append (hu : u.slave.wr.WriterInv) :
    bs u es ++ (run clock u es).slave.wr.offered = u.slave.wr.offered ++ closes u es :=
  (along_true clock u es).log_buffer (fun u => u.slave.wr.WriterInv) (fun u => u.slave.wr.offered)
    (fun u i h _ => h.clock (i := u.feed i)) (fun u i h _ => h.bs_append_offered (i := u.feed i)) hu

variable (es) in
theorem closes_append (hu : u.slave.wr.WriterInv) :
    (closes u es).map AesBResp.id ++ (run clock u es).slave.wr.openId =
      u.slave.wr.openId ++ (aws u es).map AesReq.id := by
  rw [closes, aws, ← log_map, ← log_map]
  exact (along_true clock u es).log_buffer (fun u => u.slave.wr.WriterInv)
    (fun u => u.slave.wr.openId) (fun u i h _ => h.clock (i := u.feed i))
    (fun u i h _ => h.closes_append (i := u.feed i)) hu

variable (es) in
theorem pulse_append (hu : u.slave.wr.WriterInv) :
    log clock (fun u _ => u.slave.wr.pulse) u es ++ (run clock u es).slave.wr.pulse =
      u.slave.wr.pulse ++ (List.zipWith AesSlot.place (taken u es) (ws u es)).flatten := by
  have hlen (u : AesUnit idw h8 P) i : (u.slave.wr.taken i).length = (u.slave.wr.ws i).length :=
    AesWriter.length_taken
  rw [taken, ws, ← log_zipWith clock hlen AesSlot.place,
    ← log_hom clock _ List.flatten_nil fun _ _ => List.flatten_append]
  exact (along_true clock u es).log_buffer (fun u => u.slave.wr.WriterInv)
    (fun u => u.slave.wr.pulse) (fun u i h _ => h.clock (i := u.feed i))
    (fun u i h _ => congrArg (u.slave.wr.pulse ++ ·) (h.pulse_eq (i := u.feed i))) hu

theorem OneWrite.closed (h : OneWrite u es r) (hu : u.slave.wr.WriterInv) :
    closes u es = bs u es ∧ (run clock u es).slave.wr.response = [] := by
  have hbs := bs_append es hu
  have hids := closes_append es hu
  obtain ⟨hoff, hid⟩ := AesWriter.response_eq_nil_iff.mp h.quiet
  rw [hoff, List.nil_append] at hbs
  rw [hid, List.nil_append, h.requested] at hids
  -- one burst gives rise to one response at most, and one has been accepted
  have hone : (bs u es).length = 1 := by simpa using congrArg List.length h.okay
  have hlenb := congrArg List.length hbs
  have hleni := congrArg List.length hids
  simp only [List.length_append, List.length_map, List.length_cons, List.length_nil] at hlenb hleni
  have hoffEnd : (run clock u es).slave.wr.offered = [] :=
    List.eq_nil_of_length_eq_zero (by omega)
  have hidEnd : (run clock u es).slave.wr.openId = [] := List.eq_nil_of_length_eq_zero (by omega)
  rw [hoffEnd, List.append_nil] at hbs
  exact ⟨hbs.symm, AesWriter.response_eq_nil_iff.mpr ⟨hoffEnd, hidEnd⟩⟩

/-- **A burst answered with `OKAY`** has its beats marked as it asks for. -/
theorem OneWrite.marked (h : OneWrite u es r) (hu : u.slave.wr.WriterInv) :
    Along clock (writeMachine idw h8 P).Marked u es := by
  have hmark : ∀ (u : AesUnit idw h8 P) i, (∀ b ∈ u.slave.wr.closes i, b.resp = axiRespOkay) →
      (writeMachine idw h8 P).Marked u i :=
    fun u i hb => AesWriter.marked_of_closes (i := u.feed i) hb
  refine along_of_forall_mem_log hmark fun b hb => ?_
  have hmem : b.resp ∈ (bs u es).map AesBResp.resp := by
    rw [← (h.closed hu).1]
    exact List.mem_map_of_mem hb
  rw [h.okay] at hmem
  exact List.mem_singleton.mp hmem

theorem OneWrite.taken_eq (h : OneWrite u es r) (hu : u.slave.wr.WriterInv) :
    taken u es = r.slots := by
  have huEnd : (run clock u es).slave.wr.WriterInv :=
    BurstMachine.inv_run (M := writeMachine idw h8 P) hu es
  have htaken : taken u es ++ (run clock u es).slave.wr.due = (aws u es).flatMap AesReq.slots :=
    BurstMachine.taken_append (M := writeMachine idw h8 P) hu (hu.quiet_of_response h.quiet).2
      (h.marked hu)
  rwa [(huEnd.quiet_of_response (h.closed hu).2).2, List.append_nil, h.requested,
    List.flatMap_cons, List.flatMap_nil, List.append_nil] at htaken

theorem OneWrite.length_ws (h : OneWrite u es r) (hu : u.slave.wr.WriterInv) :
    (ws u es).length = r.len.toNat + 1 := by
  have hlen : (taken u es).length = (ws u es).length :=
    length_log_eq clock (fun (u : AesUnit idw h8 P) i =>
      AesWriter.length_taken (s := u.slave.wr) (i := i)) u es
  rw [← hlen, h.taken_eq hu, AesReq.slots, List.length_map, List.length_range]

/-- **What the burst puts on the register bus**: a write for each beat, all of them by its end. -/
theorem OneWrite.busWrites_eq (h : OneWrite u es r) (hu : u.slave.wr.WriterInv)
    (hr : r.error = false) :
    log clock (fun u _ => u.busWrites) u es = List.zipWith AesSlot.regWrite r.slots (ws u es) := by
  have huEnd : (run clock u es).slave.wr.WriterInv :=
    BurstMachine.inv_run (M := writeMachine idw h8 P) hu es
  have hok : ∀ l ∈ r.slots, l.ok = true := by
    intro l hl
    obtain ⟨k, -, rfl⟩ := List.mem_map.mp hl
    simp [hr]
  have hlog := pulse_append es hu
  rw [(hu.quiet_of_response h.quiet).1, (huEnd.quiet_of_response (h.closed hu).2).1,
    List.append_nil, List.nil_append, h.taken_eq hu] at hlog
  rw [← flatten_zipWith_place hok, ← hlog, ← log_map]
  rfl

end OneWrite

/-! ## Bytes -/

/-- **A narrow incrementing burst** of beats of at most a word, aligned to their size, that starts at the
key or the input text and strobes only the lanes of each beat. -/
structure NarrowIncr (r : AesReq (busParams a idw h8)) (ws : List (AesWBeat (busParams a idw h8))) :
    Prop where
  burst : r.burst = 0b01
  size : r.size.toNat ≤ 2
  aligned : 2 ^ r.size.toNat ∣ r.addr.toNat
  start : 0x10 ≤ r.addr.toNat ∧ r.addr.toNat < 0x30
  lanes : ∀ k w, ws[k]? = some w → ∀ j, w.strb.getLsbD j = true →
    r.byteAddr k % 4 ≤ j ∧ j < r.byteAddr k % 4 + 2 ^ r.size.toNat

/-- Beat `k` strobes byte `j` of the word `f`, which contains its address. -/
def Carries (r : AesReq (busParams a idw h8)) (k : ℕ) (w : AesWBeat (busParams a idw h8))
    (f : AesField) (j : ℕ) : Prop :=
  w.strb.getLsbD j = true ∧ r.byteAddr k / 4 * 4 = f.addr

/-- **What is asked of a burst**: every strobed byte is stored in the word that contains the address of
its beat, and every other byte of the key and of the input text stays. -/
structure Stored (r : AesReq (busParams a idw h8)) (ws : List (AesWBeat (busParams a idw h8)))
    (s s' : AesRegisterSet) : Prop where
  strobed : ∀ k w, ws[k]? = some w → ∀ f j, Carries r k w f j →
    lane (f.of s') j = lane w.data j
  other : ∀ (f : AesField), ∀ j < 4, (∀ k w, ws[k]? = some w → ¬ Carries r k w f j) →
    lane (f.of s') j = lane (f.of s) j

/-- A beat that does not start a word brings what the registers already hold. -/
def Kept (r : AesReq (busParams a idw h8)) (ws : List (AesWBeat (busParams a idw h8)))
    (s : AesRegisterSet) : Prop :=
  ∀ k w, ws[k]? = some w → r.byteAddr k % 4 ≠ 0 → ∀ f j, Carries r k w f j →
    lane w.data j = lane (f.of s) j

section Bytes

variable {r : AesReq (busParams a idw h8)} {ws : List (AesWBeat (busParams a idw h8))}

theorem NarrowIncr.carries_unique (hr : NarrowIncr r ws) {k k' : ℕ}
    {w w' : AesWBeat (busParams a idw h8)} {f : AesField} {j : ℕ} (hw : ws[k]? = some w)
    (hw' : ws[k']? = some w') (h : Carries r k w f j) (h' : Carries r k' w' f j) : k = k' := by
  obtain ⟨hlo, hhi⟩ := hr.lanes k w hw j h.1
  obtain ⟨hlo', hhi'⟩ := hr.lanes k' w' hw' j h'.1
  have hword := h.2.trans h'.2.symm
  have hle : r.byteAddr k < r.byteAddr k' + 2 ^ r.size.toNat := by omega
  have hle' : r.byteAddr k' < r.byteAddr k + 2 ^ r.size.toNat := by omega
  unfold AesReq.byteAddr at hle hle'
  rw [Nat.add_assoc, ← Nat.succ_mul] at hle hle'
  have h1 := Nat.lt_of_mul_lt_mul_right (Nat.lt_of_add_lt_add_left hle)
  have h2 := Nat.lt_of_mul_lt_mul_right (Nat.lt_of_add_lt_add_left hle')
  omega

theorem NarrowIncr.toNat_beatAddr (hr : NarrowIncr r ws) (ha : 11 ≤ a) {k : ℕ}
    (hk : k ≤ r.len.toNat) : (r.beatAddr k).toNat = r.byteAddr k := by
  have hlen := r.len.isLt
  have hstart := hr.start.2
  have hsize : 2 ^ r.size.toNat ≤ 2 ^ 2 := Nat.pow_le_pow_right (by omega) hr.size
  have hoff : k * 2 ^ r.size.toNat ≤ 255 * 2 ^ 2 := Nat.mul_le_mul (by omega) hsize
  have hpow : 2 ^ 11 ≤ 2 ^ a := Nat.pow_le_pow_right (by omega) ha
  rw [AesReq.beatAddr_incr hr.burst, BitVec.toNat_ofNat, AesReq.byteAddr]
  refine Nat.mod_eq_of_lt ?_
  show _ < 2 ^ a
  omega

theorem mem_writes_iff (hlen : ws.length = r.len.toNat + 1) {x : RegWrite a} :
    x ∈ List.zipWith AesSlot.regWrite r.slots ws ↔
      ∃ k w, ws[k]? = some w ∧ x = ⟨r.beatAddr k, w.data, w.strb⟩ := by
  rw [List.mem_iff_getElem?]
  refine exists_congr fun k => ?_
  rw [List.getElem?_zipWith]
  cases hw : ws[k]? with
  | none => simp
  | some w =>
    have hk : k < r.len.toNat + 1 := hlen ▸ (List.getElem?_eq_some_iff.mp hw).1
    simp only [AesReq.slots, List.getElem?_map, List.getElem?_range hk, Option.map_some,
      Option.some.injEq, exists_eq_left']
    exact eq_comm

theorem lane_merge (f : AesField) (v : BitVec 32) {x : RegWrite a} (hx : x.addr.toNat ≠ 0x00) {j : ℕ}
    (hj : j < 4) : lane (f.merge v x) j =
      if x.addr.toNat = f.addr ∧ x.strb.getLsbD j = true then lane x.data j else lane v j := by
  have hsoft : x.softReset = false := AesRegisterSet.control_of_ne hx 2
  rw [AesField.merge, hsoft, if_neg Bool.false_ne_true]
  by_cases haddr : x.addr.toNat = f.addr
  · simp only [haddr, if_true, true_and, lane_strobed _ _ _ hj]
  · simp only [haddr, if_false, false_and]

variable {s : AesRegisterSet}

/-- The registers behind the register writes of a burst. -/
def After (r : AesReq (busParams a idw h8)) (ws : List (AesWBeat (busParams a idw h8)))
    (s s' : AesRegisterSet) : Prop :=
  ∀ f : AesField, f.of s' = (List.zipWith AesSlot.regWrite r.slots ws).foldl f.merge (f.of s)

variable {s' : AesRegisterSet} {f : AesField} {j : ℕ}

theorem NarrowIncr.lane_foldl (hr : NarrowIncr r ws) (ha : 11 ≤ a)
    (hlen : ws.length = r.len.toNat + 1) (f : AesField) (hj : j < 4) (v : BitVec 32) :
    ∀ x ∈ List.zipWith AesSlot.regWrite r.slots ws, lane (f.merge v x) j =
      if x.addr.toNat = f.addr ∧ x.strb.getLsbD j = true then lane x.data j else lane v j := by
  intro x hx
  obtain ⟨k, w, hw, rfl⟩ := (mem_writes_iff hlen).mp hx
  have hk : k < ws.length := (List.getElem?_eq_some_iff.mp hw).1
  refine lane_merge f v ?_ hj
  show (r.beatAddr k).toNat ≠ 0
  have hstart := hr.start.1
  rw [hr.toNat_beatAddr ha (by omega), AesReq.byteAddr]
  omega

theorem NarrowIncr.carries_of_hit (hr : NarrowIncr r ws) (ha : 11 ≤ a)
    (hlen : ws.length = r.len.toNat + 1) {x : RegWrite a}
    (hx : x ∈ List.zipWith AesSlot.regWrite r.slots ws)
    (hhit : x.addr.toNat = f.addr ∧ x.strb.getLsbD j = true) :
    ∃ k w, ws[k]? = some w ∧ Carries r k w f j ∧ r.byteAddr k % 4 = 0 ∧ x.data = w.data := by
  obtain ⟨k, w, hw, rfl⟩ := (mem_writes_iff hlen).mp hx
  have hk : k < ws.length := (List.getElem?_eq_some_iff.mp hw).1
  have haddr : r.byteAddr k = f.addr := (hr.toNat_beatAddr ha (by omega)).symm.trans hhit.1
  have hfour := f.addr_mod_four
  exact ⟨k, w, hw, ⟨hhit.2, by omega⟩, by omega, rfl⟩

/-- **A byte of a beat that starts a word** is stored. -/
theorem NarrowIncr.lane_of_aligned (hr : NarrowIncr r ws) (ha : 11 ≤ a)
    (hlen : ws.length = r.len.toNat + 1) (hafter : After r ws s s') {k : ℕ}
    {w : AesWBeat (busParams a idw h8)} (hw : ws[k]? = some w) (hc : Carries r k w f j)
    (hk : r.byteAddr k % 4 = 0) : lane (f.of s') j = lane w.data j := by
  have hlt : k < ws.length := (List.getElem?_eq_some_iff.mp hw).1
  have hword := hc.2
  have haddr : (r.beatAddr k).toNat = f.addr := by
    rw [hr.toNat_beatAddr ha (by omega)]
    omega
  have hmem : (⟨r.beatAddr k, w.data, w.strb⟩ : RegWrite a) ∈
      List.zipWith AesSlot.regWrite r.slots ws := (mem_writes_iff hlen).mpr ⟨k, w, hw, rfl⟩
  rw [hafter f]
  refine part_foldl_of_mem (fun v => lane v j)
    (fun v => hr.lane_foldl ha hlen f (BitVec.lt_of_getLsbD hc.1) v) hmem ⟨haddr, hc.1⟩ ?_ _
  intro x hx hhit
  obtain ⟨k', w', hw', hc', -, hdata⟩ := hr.carries_of_hit ha hlen hx hhit
  obtain rfl : k' = k := hr.carries_unique hw' hw hc' hc
  obtain rfl : w' = w := Option.some.inj (hw'.symm.trans hw)
  show lane x.data j = _
  rw [hdata]

/-- **A byte that no beat at the start of a word strobes** stays. -/
theorem NarrowIncr.lane_of_forall_not (hr : NarrowIncr r ws) (ha : 11 ≤ a)
    (hlen : ws.length = r.len.toNat + 1) (hafter : After r ws s s') (hj : j < 4)
    (h : ∀ k w, ws[k]? = some w → Carries r k w f j → r.byteAddr k % 4 ≠ 0) :
    lane (f.of s') j = lane (f.of s) j := by
  rw [hafter f]
  refine part_foldl_of_forall_not (fun v => lane v j)
    (fun v => hr.lane_foldl ha hlen f hj v) ?_ _
  intro x hx hhit
  obtain ⟨k, w, hw, hc, hk, -⟩ := hr.carries_of_hit ha hlen hx hhit
  exact h k w hw hc hk

theorem NarrowIncr.stored_iff (hr : NarrowIncr r ws) (ha : 11 ≤ a)
    (hlen : ws.length = r.len.toNat + 1) (hafter : After r ws s s') :
    Stored r ws s s' ↔ Kept r ws s := by
  -- a byte of a beat off the word addresses is strobed by no other beat
  have hlost {k : ℕ} {w : AesWBeat (busParams a idw h8)} {f : AesField} {j : ℕ}
      (hw : ws[k]? = some w) (hk : r.byteAddr k % 4 ≠ 0) (hc : Carries r k w f j) :
      lane (f.of s') j = lane (f.of s) j := by
    refine hr.lane_of_forall_not ha hlen hafter (BitVec.lt_of_getLsbD hc.1) ?_
    intro k' w' hw' hc'
    rwa [hr.carries_unique hw' hw hc' hc]
  constructor
  · intro h k w hw hk f j hc
    rw [← h.strobed k w hw f j hc, hlost hw hk hc]
  · intro h
    refine ⟨fun k w hw f j hc => ?_, fun f j hj hno => ?_⟩
    · by_cases hk : r.byteAddr k % 4 = 0
      · exact hr.lane_of_aligned ha hlen hafter hw hc hk
      · rw [hlost hw hk hc, h k w hw hk f j hc]
    · exact hr.lane_of_forall_not ha hlen hafter hj fun k w hw hc => absurd hc (hno k w hw)

end Bytes

theorem eight_lt : 8 < 32 := by decide

/-- A request of one beat at `addr`. -/
def narrowReq (addr : BitVec 32) (size : BitVec 3) : AesReq (busParams 32 8 eight_lt) :=
  ⟨5, addr, 0, size, 0b01⟩

/-- The run of one beat. -/
def narrowRun (addr : BitVec 32) (size : BitVec 3) (data : BitVec 32) (strb : BitVec 4) :
    List (AesSlaveIn (busParams 32 8 eight_lt)) :=
  [{ idle with awvalid := true, aw := narrowReq addr size },
    { idle with wvalid := true, w := ⟨data, strb, true⟩ },
    idle]

/-- The state after reset. -/
abbrev start : AesUnit 8 eight_lt aesPath := reset _ _ CipherData.zero

theorem ws_narrowRun (addr : BitVec 32) (size : BitVec 3) (data : BitVec 32) (strb : BitVec 4) :
    ws start (narrowRun addr size data strb) = [⟨data, strb, true⟩] := rfl

theorem narrowIncr_of_single {r : AesReq (busParams a idw h8)} {w : AesWBeat (busParams a idw h8)}
    (burst : r.burst = 0b01) (size : r.size.toNat ≤ 2) (aligned : 2 ^ r.size.toNat ∣ r.addr.toNat)
    (start : 0x10 ≤ r.addr.toNat ∧ r.addr.toNat < 0x30)
    (lanes : ∀ j < 4, w.strb.getLsbD j = true →
      r.addr.toNat % 4 ≤ j ∧ j < r.addr.toNat % 4 + 2 ^ r.size.toNat) : NarrowIncr r [w] := by
  refine ⟨burst, size, aligned, start, fun k x hx j hj => ?_⟩
  obtain ⟨rfl, rfl⟩ : k = 0 ∧ x = w := by
    cases k with
    | zero => exact ⟨rfl, (Option.some.inj hx).symm⟩
    | succ k => simp at hx
  rw [AesReq.byteAddr, Nat.zero_mul, Nat.add_zero]
  exact lanes j (BitVec.lt_of_getLsbD hj) hj

/-- A request of two halves at `KEY1`, the upper one of which brings the zeros that are there. -/
def halvesReq : AesReq (busParams 32 8 eight_lt) := ⟨5, 0x14, 1, 1, 0b01⟩

/-- The run of the two halves. -/
def halvesRun : List (AesSlaveIn (busParams 32 8 eight_lt)) :=
  [{ idle with awvalid := true, aw := halvesReq },
    { idle with wvalid := true, w := ⟨0xFFFFBEEF, 0b0011, false⟩ },
    { idle with wvalid := true, w := ⟨0x0000FFFF, 0b1100, true⟩ },
    idle]

theorem ws_halvesRun :
    ws start halvesRun = [⟨0xFFFFBEEF, 0b0011, false⟩, ⟨0x0000FFFF, 0b1100, true⟩] := rfl

end AesUnit

end PacketBuffering
