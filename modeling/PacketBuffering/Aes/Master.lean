import PacketBuffering.Aes.Bursts

/-!
# The burst master of the AES unit

`axi_master` of the bench of the AES unit, its write direction: a command, and then a beat of the user
for each beat on the bus. The master offers a beat on the bus in every cycle of its data phase, whether
or not the user has one.

* `AesMaster`, `AesMaster.clock`: the registers and a cycle; `AesMaster.Cycle`: what a cycle can be.
* `AesMaster.Serves`: the cycles in which a command is carried out, with a slave that responds behind
  the last beat; `MasterInv`: how far the command is.
* `AesMaster.CommandLaw`, **`AesMaster.command_law_iff`**: what is promised of a command, and when it is
  kept.

The sideband outputs, which are constant, are left out, and so is the read direction, which shares no
register with this one.
-/

namespace PacketBuffering

variable {R : AesParams}

/-- `wr_state`. -/
inductive AesMasterState
  | idle
  | addr
  | data
  | resp
deriving DecidableEq

variable (R) in
/-- The inputs of one cycle: the command and the beat of the user, and the slave. -/
structure AesMasterIn where
  cmdValid : Bool
  cmd : AesReq R
  dataValid : Bool
  data : AesWBeat R
  awready : Bool
  wready : Bool
  bvalid : Bool
  bresp : BitVec 2

variable (R) in
/-- The registers of the write direction; `req` holds `wr_id_reg`, `wr_start_addr_reg`, `wr_len_reg`,
`wr_size_reg` and `wr_burst_reg`. -/
structure AesMaster where
  wrState : AesMasterState
  req : AesReq R
  wrAddr : BitVec R.addrWidth
  wrBeat : BitVec 8
  wrError : Bool
  wrDone : Bool
  wrResp : BitVec 2

namespace AesMaster

variable (R) in
/-- The values under `rst`. -/
def reset : AesMaster R where
  wrState := .idle
  req := ⟨0, 0, 0, 0, 0b01⟩
  wrAddr := 0
  wrBeat := 0
  wrError := false
  wrDone := false
  wrResp := axiRespOkay

variable (s : AesMaster R) (i : AesMasterIn R)

/-- A command of the user is taken. -/
def wrCmdReady : Bool := s.wrState == .idle

/-- A beat of the user is taken, unless a response is on the bus. -/
def wrDataReady : Bool := s.wrState == .data && i.wready && !i.bvalid

/-- The response of the slave is taken. -/
def bready : Bool := s.wrState == .resp

/-- The request is on the bus. -/
def awvalid : Bool := s.wrState == .addr

/-- The request on the bus. -/
def aw : AesReq R := { s.req with addr := s.wrAddr }

/-- A beat is on the bus. -/
def wvalid : Bool := s.wrState == .data

/-- The beat on the bus: its data are those of the user, its mark is that of the beat count. -/
def w : AesWBeat R :=
  if s.wrState = .data then { i.data with last := s.wrBeat == s.req.len } else ⟨0, 0, false⟩

/-- A command is handed over. -/
def cmdFire : Bool := i.cmdValid && s.wrCmdReady

/-- A beat of the user is handed over. -/
def dataFire : Bool := i.dataValid && s.wrDataReady i

/-- The slave accepts the request. -/
def awFire : Bool := s.awvalid && i.awready

/-- The slave accepts a beat. -/
def wFire : Bool := s.wvalid && i.wready

/-- The response is accepted. -/
def bFire : Bool := i.bvalid && s.bready

/-- The beat of the user is the last one of the burst. -/
def lastBeat : Bool := s.wrBeat == s.req.len

/-- **A rising `clk`.** -/
def clock : AesMaster R :=
  let t := { s with wrDone := false }
  match s.wrState with
  | .idle =>
    if s.cmdFire i then
      { t with
        req := i.cmd, wrAddr := i.cmd.addr, wrBeat := 0, wrError := i.cmd.error, wrState := .addr }
    else t
  | .addr => if s.awFire i then { t with wrState := .data } else t
  | .data =>
    if s.dataFire i then
      let t := if i.data.last != s.lastBeat then { t with wrError := true } else t
      if s.lastBeat then { t with wrState := .resp }
      else { t with wrBeat := s.wrBeat + 1, wrAddr := s.req.next s.wrAddr }
    else t
  | .resp =>
    if s.bFire i then
      { t with
        wrResp := if s.wrError then axiRespSlverr else i.bresp, wrDone := true, wrState := .idle }
    else t

/-- The requests that the slave accepts in a cycle. -/
def aws : List (AesReq R) := if s.awFire i then [s.aw] else []

/-- The beats that the slave accepts in a cycle. -/
def ws : List (AesWBeat R) := if s.wFire i then [s.w i] else []

/-- The beats that the user hands over in a cycle. -/
def taken : List (AesWBeat R) := if s.dataFire i then [i.data] else []

/-- The responses to the user, a cycle before they are seen. -/
def dones : List (BitVec 2) := if (s.clock i).wrDone then [(s.clock i).wrResp] else []

/-! ## Cycles -/

variable {s i}

/-- **What a cycle can be** while a command is under way. -/
inductive Cycle (s : AesMaster R) (i : AesMasterIn R) : Prop
  | addr (hs : s.wrState = .addr) (hw : s.ws i = []) (ht : s.taken i = [])
      (hclock : s.clock i = { s with
        wrDone := false, wrState := if i.awready then .data else .addr })
  | stall (hs : s.wrState = .data) (ht : s.taken i = [])
      (hclock : s.clock i = { s with wrDone := false })
  | beat (hs : s.wrState = .data) (hfire : s.dataFire i = true) (hne : s.wrBeat ≠ s.req.len)
      (hclock : s.clock i = { s with
        wrDone := false, wrError := s.wrError || i.data.last != s.lastBeat, wrBeat := s.wrBeat + 1,
        wrAddr := s.req.next s.wrAddr })
  | last (hs : s.wrState = .data) (hfire : s.dataFire i = true) (heq : s.wrBeat = s.req.len)
      (hclock : s.clock i = { s with
        wrDone := false, wrError := s.wrError || i.data.last != s.lastBeat, wrState := .resp })
  | wait (hs : s.wrState = .resp) (hw : s.ws i = []) (ht : s.taken i = [])
      (hclock : s.clock i = { s with wrDone := false })
  | finish (hs : s.wrState = .resp) (hw : s.ws i = []) (ht : s.taken i = [])
      (hclock : s.clock i = { s with
        wrDone := true, wrResp := if s.wrError then axiRespSlverr else i.bresp, wrState := .idle })

theorem ws_of_ne_data (h : s.wrState ≠ .data) : s.ws i = [] := by
  simp [ws, wFire, wvalid, h]

theorem taken_of_ne_data (h : s.wrState ≠ .data) : s.taken i = [] := by
  simp [taken, dataFire, wrDataReady, h]

theorem cycle_of_busy (h : s.wrState ≠ .idle) : Cycle s i := by
  cases hs : s.wrState with
  | idle => exact absurd hs h
  | addr =>
    refine .addr hs (ws_of_ne_data (by simp [hs])) (taken_of_ne_data (by simp [hs])) ?_
    cases haw : i.awready <;> simp [clock, hs, awFire, awvalid, haw]
  | data =>
    cases hfire : s.dataFire i with
    | false => exact .stall hs (by simp [taken, hfire]) (by simp [clock, hs, hfire])
    | true =>
      by_cases heq : s.wrBeat = s.req.len
      · have hlast : s.lastBeat = true := by simp [lastBeat, heq]
        refine .last hs hfire heq ?_
        cases hl : i.data.last <;> simp [clock, hs, hfire, hlast, hl]
      · have hlast : s.lastBeat = false := by simp [lastBeat, heq]
        refine .beat hs hfire heq ?_
        cases hl : i.data.last <;> simp [clock, hs, hfire, hlast, hl]
  | resp =>
    cases hb : s.bFire i with
    | false =>
      exact .wait hs (ws_of_ne_data (by simp [hs])) (taken_of_ne_data (by simp [hs]))
        (by simp [clock, hs, hb])
    | true =>
      exact .finish hs (ws_of_ne_data (by simp [hs])) (taken_of_ne_data (by simp [hs]))
        (by simp [clock, hs, hb])

/-! ## Commands -/

/-- How far a command is: `n` beats of the user have been taken. -/
structure Progress (c : AesReq R) (s : AesMaster R) (n : ℕ) : Prop where
  req : s.req = c
  done : s.wrDone = true ↔ s.wrState = .idle
  addr : s.wrState = .addr → n = 0 ∧ s.wrBeat = 0
  data : s.wrState = .data → s.wrBeat.toNat = n ∧ n ≤ c.len.toNat
  resp : s.wrState = .resp ∨ s.wrState = .idle → n = c.len.toNat + 1

theorem Progress.start (h : s.cmdFire i = true) : Progress i.cmd (s.clock i) 0 := by
  have hs : s.wrState = .idle := by
    simp only [cmdFire, wrCmdReady, Bool.and_eq_true, beq_iff_eq] at h
    exact h.2
  have hclock : s.clock i = { s with
      wrDone := false, req := i.cmd, wrAddr := i.cmd.addr, wrBeat := 0, wrError := i.cmd.error,
      wrState := .addr } := by
    simp [clock, hs, h]
  rw [hclock]
  exact ⟨rfl, by simp, fun _ => ⟨rfl, rfl⟩, by simp, by simp⟩

/-- **A cycle of a command.** -/
theorem Progress.step {c : AesReq R} {n : ℕ} (h : Progress c s n) (hs : s.wrState ≠ .idle) :
    Progress c (s.clock i) (n + (s.taken i).length) := by
  have hreq := h.req
  cases cycle_of_busy (i := i) hs with
  | addr hst hw ht hclock =>
    obtain ⟨hn, hbeat⟩ := h.addr hst
    rw [hclock, ht, hn]
    cases i.awready <;> exact ⟨hreq, by simp, by simp [hbeat], by simp [hbeat], by simp⟩
  | stall hst ht hclock =>
    rw [hclock, ht]
    exact ⟨hreq, by simp [hst], by simp [hst], fun _ => h.data hst, by simp [hst]⟩
  | beat hst hfire hne hclock =>
    obtain ⟨hbeat, hle⟩ := h.data hst
    obtain ⟨hsucc, hlt⟩ := toNat_succ_le (by omega) (hreq ▸ hne)
    have ht : (s.taken i).length = 1 := by simp [taken, hfire]
    rw [hclock, ht, ← hbeat]
    exact ⟨hreq, by simp [hst], by simp [hst], fun _ => ⟨hsucc, hlt⟩, by simp [hst]⟩
  | last hst hfire heq hclock =>
    obtain ⟨hbeat, hle⟩ := h.data hst
    have ht : (s.taken i).length = 1 := by simp [taken, hfire]
    have hn : n = c.len.toNat := by rw [← hbeat, heq, hreq]
    rw [hclock, ht, hn]
    exact ⟨hreq, by simp, by simp, by simp, fun _ => rfl⟩
  | wait hst hw ht hclock =>
    rw [hclock, ht]
    exact ⟨hreq, by simp [hst], by simp [hst], by simp [hst], fun _ => h.resp (.inl hst)⟩
  | finish hst hw ht hclock =>
    rw [hclock, ht]
    exact ⟨hreq, by simp, by simp, by simp, fun _ => h.resp (.inl hst)⟩

theorem Progress.le {c : AesReq R} {n : ℕ} (h : Progress c s n) : n ≤ c.len.toNat + 1 := by
  cases hs : s.wrState with
  | addr =>
    have hn := (h.addr hs).1
    omega
  | data => exact (h.data hs).2.trans (Nat.le_succ _)
  | resp => exact (h.resp (.inl hs)).le
  | idle => exact (h.resp (.inr hs)).le

/-- Without a response of the slave the bus takes what the user gives, if he has something to give. -/
theorem ws_eq_taken (hb : s.wrState = .data → i.bvalid = false)
    (hv : s.wFire i = true → i.dataValid = true) :
    s.ws i = (s.taken i).map fun b => { b with last := s.wrBeat == s.req.len } := by
  by_cases hs : s.wrState = .data
  · have hfire : s.dataFire i = s.wFire i := by
      cases hw : s.wFire i with
      | false =>
        have hr : i.wready = false := by simpa [wFire, wvalid, hs] using hw
        simp [dataFire, wrDataReady, hr]
      | true =>
        have hr : i.wready = true := by simpa [wFire, wvalid, hs] using hw
        simp [dataFire, wrDataReady, hs, hr, hb hs, hv hw]
    cases hw : s.wFire i <;> simp [ws, taken, w, hfire, hw, hs]
  · rw [ws_of_ne_data hs, taken_of_ne_data hs]
    rfl

theorem length_taken_le (s : AesMaster R) (i : AesMasterIn R) :
    (s.taken i).length ≤ (s.ws i).length := by
  cases hf : s.dataFire i with
  | false => simp [taken, hf]
  | true =>
    have hw : s.wFire i = true := by
      simp only [dataFire, wrDataReady, Bool.and_eq_true] at hf
      simp [wFire, wvalid, hf.2.1.1, hf.2.1.2]
    simp [taken, ws, hf, hw]

section Command

variable (s₀ : AesMaster R) (e₀ : AesMasterIn R) (es : List (AesMasterIn R))

/-- The beats that the slave accepts behind the cycle that accepts the command. -/
def wLog : List (AesWBeat R) := log clock ws (s₀.clock e₀) es

/-- The beats that the user hands over in these cycles. -/
def takenLog : List (AesWBeat R) := log clock taken (s₀.clock e₀) es

/-- The responses to the user in these cycles. -/
def doneLog : List (BitVec 2) := log clock dones (s₀.clock e₀) es

/-- **A command is carried out**: it is accepted in the cycle `e₀` and under way in the cycles `es`, and
the slave responds only behind a beat with `WLAST`. -/
structure Serves : Prop where
  accepted : s₀.cmdFire e₀ = true
  busy : Along clock (fun s _ => s.wrState ≠ .idle) (s₀.clock e₀) es
  slave : ∀ es₁ e, es₁ ++ [e] <+: es → e.bvalid = true → ∃ b ∈ wLog s₀ e₀ es₁, b.last = true

/-- **What is promised of a command**: the beats on the bus are those of the user, in order and with
`WLAST` on the last one of the burst, and behind all of them the user is told once. -/
structure CommandLaw : Prop where
  beats : wLog s₀ e₀ es =
    (takenLog s₀ e₀ es).mapIdx fun k b => { b with last := k == e₀.cmd.len.toNat }
  length_le : (wLog s₀ e₀ es).length ≤ e₀.cmd.len.toNat + 1
  complete : doneLog s₀ e₀ es ≠ [] → (wLog s₀ e₀ es).length = e₀.cmd.len.toNat + 1
  done : (doneLog s₀ e₀ es).length =
    if (run clock (s₀.clock e₀) es).wrState = .idle then 1 else 0

variable {s₀ e₀ es}

theorem Serves.of_isPrefix {es' : List (AesMasterIn R)} (h : Serves s₀ e₀ es) (hes : es' <+: es) :
    Serves s₀ e₀ es' :=
  ⟨h.accepted, h.busy.of_isPrefix hes, fun es₁ e hpre => h.slave es₁ e (hpre.trans hes)⟩

theorem serves_snoc {e : AesMasterIn R} (accepted : s₀.cmdFire e₀ = true)
    (busy : Along clock (fun s _ => s.wrState ≠ .idle) (s₀.clock e₀) (es ++ [e]))
    (hnone : ∀ e ∈ es, e.bvalid = false) (hlast : ∃ b ∈ wLog s₀ e₀ es, b.last = true) :
    Serves s₀ e₀ (es ++ [e]) := by
  refine ⟨accepted, busy, fun es₁ e' hpre hb => ?_⟩
  rcases List.prefix_concat_iff.mp hpre with heq | hpre
  · rwa [(List.append_inj' heq rfl).1]
  · have hmem : e' ∈ es := hpre.subset (List.mem_append_right _ List.mem_cons_self)
    exact absurd ((hnone e' hmem).symm.trans hb) Bool.false_ne_true

/-- **Progress, cycle by cycle.** -/
theorem Serves.progress (h : Serves s₀ e₀ es) :
    Progress e₀.cmd (run clock (s₀.clock e₀) es) (takenLog s₀ e₀ es).length := by
  refine Along.snocInduction (P := fun es => Progress e₀.cmd (run clock (s₀.clock e₀) es)
    (takenLog s₀ e₀ es).length) (Progress.start h.accepted) ?_ es h.busy
  intro es e _ ih hbusy
  rw [run_snoc, takenLog, log_snoc, List.length_append]
  exact ih.step hbusy

theorem Serves.length_doneLog (h : Serves s₀ e₀ es) : (doneLog s₀ e₀ es).length =
    if (run clock (s₀.clock e₀) es).wrState = .idle then 1 else 0 := by
  induction es using List.reverseRecOn with
  | nil =>
    have hstart := (Progress.start h.accepted).resp
    rw [run_nil, if_neg fun hidle => absurd (hstart (.inr hidle)) (by omega)]
    rfl
  | append_singleton es e ih =>
    have hpre : es <+: es ++ [e] := List.prefix_append _ _
    have hbusy := ((along_append _ es [e]).mp h.busy).2.1
    have hprev := ih (h.of_isPrefix hpre)
    rw [if_neg hbusy] at hprev
    have hdone := h.progress.done
    rw [run_snoc] at hdone ⊢
    rw [doneLog, log_snoc, List.length_append, ← doneLog, hprev, Nat.zero_add, dones]
    by_cases hd : ((run clock (s₀.clock e₀) es).clock e).wrDone = true
    · rw [if_pos hd, if_pos (hdone.mp hd)]
      rfl
    · rw [if_neg hd, if_neg fun hidle => hd (hdone.mpr hidle)]
      rfl

theorem Serves.bvalid_of_data {e : AesMasterIn R} (h : Serves s₀ e₀ (es ++ [e]))
    (hbeats : wLog s₀ e₀ es =
      (takenLog s₀ e₀ es).mapIdx fun k b => { b with last := k == e₀.cmd.len.toNat })
    (hs : (run clock (s₀.clock e₀) es).wrState = .data) : e.bvalid = false := by
  have hprog := (h.of_isPrefix (List.prefix_append _ _)).progress
  by_contra hbv
  obtain ⟨b, hb, hlast⟩ := h.slave es e (List.prefix_refl _) (by simpa using hbv)
  rw [hbeats] at hb
  obtain ⟨k, hk, rfl⟩ := List.mem_mapIdx.mp hb
  have hle := (hprog.data hs).2
  have heq : k = e₀.cmd.len.toNat := by simpa using hlast
  omega

/-- **Beats with data**: what the bus takes is what the user gives. -/
theorem Serves.beats (h : Serves s₀ e₀ es)
    (hv : Along clock (fun s e => s.wFire e = true → e.dataValid = true) (s₀.clock e₀) es) :
    wLog s₀ e₀ es =
      (takenLog s₀ e₀ es).mapIdx fun k b => { b with last := k == e₀.cmd.len.toNat } := by
  induction es using List.reverseRecOn with
  | nil => rfl
  | append_singleton es e ih =>
    have hpre : es <+: es ++ [e] := List.prefix_append _ _
    obtain ⟨hvs, hve, -⟩ := (along_append _ es [e]).mp hv
    have hprev := ih (h.of_isPrefix hpre) hvs
    have hprog := (h.of_isPrefix hpre).progress
    have hb := h.bvalid_of_data hprev
    rw [wLog, takenLog, log_snoc, log_snoc, ws_eq_taken hb hve, ← wLog, ← takenLog, hprev]
    cases hf : (run clock (s₀.clock e₀) es).dataFire e with
    | false =>
      have ht : (run clock (s₀.clock e₀) es).taken e = [] := by simp [taken, hf]
      rw [ht, List.map_nil, List.append_nil, List.append_nil]
    | true =>
      have ht : (run clock (s₀.clock e₀) es).taken e = [e.data] := by simp [taken, hf]
      have hs : (run clock (s₀.clock e₀) es).wrState = .data := by
        simp only [dataFire, wrDataReady, Bool.and_eq_true, beq_iff_eq] at hf
        exact hf.2.1.1
      have hmark : ((run clock (s₀.clock e₀) es).wrBeat == (run clock (s₀.clock e₀) es).req.len) =
          ((takenLog s₀ e₀ es).length == e₀.cmd.len.toNat) := by
        rw [← (hprog.data hs).1, hprog.req, Bool.eq_iff_iff, beq_iff_eq, beq_iff_eq,
          BitVec.toNat_eq]
      rw [ht, List.map_singleton, List.mapIdx_concat, hmark]

/-- **The commands of the burst master**: what is promised of a command is kept iff in every cycle in
which the slave takes a beat the user has one to give. -/
theorem command_law_iff (s₀ : AesMaster R) (e₀ : AesMasterIn R) (es : List (AesMasterIn R))
    (h : Serves s₀ e₀ es) :
    CommandLaw s₀ e₀ es ↔
      Along clock (fun s e => s.wFire e = true → e.dataValid = true) (s₀.clock e₀) es := by
  constructor
  · intro hlaw
    have hlen : (takenLog s₀ e₀ es).length = (wLog s₀ e₀ es).length := by
      rw [hlaw.beats, List.length_mapIdx]
    refine (along_length_eq length_taken_le hlen).mono fun s e heq hw => ?_
    have ht : (s.taken e).length = 1 := by rw [heq, ws, if_pos hw]; rfl
    by_contra hv
    simp [taken, dataFire, hv] at ht
  · intro hv
    have hbeats := h.beats hv
    have hprog := h.progress
    have hlen : (wLog s₀ e₀ es).length = (takenLog s₀ e₀ es).length := by
      rw [hbeats, List.length_mapIdx]
    refine ⟨hbeats, ?_, fun hdone => ?_, h.length_doneLog⟩
    · rw [hlen]
      exact hprog.le
    · rw [hlen]
      refine hprog.resp (.inr ?_)
      by_contra hs
      have hzero := h.length_doneLog
      rw [if_neg hs] at hzero
      exact hdone (List.eq_nil_of_length_eq_zero hzero)

end Command

/-- No command, no data, and nothing from the slave. -/
def idle : AesMasterIn .default :=
  ⟨false, ⟨0, 0, 0, 2, 0b01⟩, false, ⟨0, 0, false⟩, false, false, false, 0b00⟩

/-- A command for `len + 1` words at `KEY0`. -/
def wordCmd (len : BitVec 8) : AesMasterIn .default :=
  { idle with cmdValid := true, cmd := ⟨5, 0x10, len, 2, 0b01⟩ }

/-- Two beats; the slave is slow with the first, the user with the second. -/
def gapRun : List (AesMasterIn .default) :=
  [{ idle with awready := true },
    { idle with dataValid := true, data := ⟨0x11, 0b1111, false⟩ },
    { idle with dataValid := true, data := ⟨0x11, 0b1111, false⟩, wready := true },
    idle,
    { idle with dataValid := true, data := ⟨0x22, 0b0011, true⟩, wready := true }] ++
  [{ idle with bvalid := true }]

theorem command_law_gap :
    (wLog (reset _) (wordCmd 1) gapRun).map (fun b => (b.data, b.strb, b.last)) =
        [(0x11, 0b1111, false), (0x22, 0b0011, true)] ∧
      CommandLaw (reset _) (wordCmd 1) gapRun :=
  ⟨by decide, (command_law_iff _ _ _
    (serves_snoc rfl (by decide) (by decide) (by decide))).mpr (by decide)⟩

/-- One beat; the slave takes a beat before the user gives his. -/
def phantomRun : List (AesMasterIn .default) :=
  [{ idle with awready := true },
    { idle with wready := true },
    { idle with dataValid := true, data := ⟨0x11, 0b1111, true⟩, wready := true }] ++
  [{ idle with bvalid := true }]

/-- It takes two beats for a burst of one, both marked as the last. -/
theorem phantom_beat :
    Serves (reset _) (wordCmd 0) phantomRun ∧
      (wLog (reset _) (wordCmd 0) phantomRun).map (fun b => (b.data, b.strb, b.last)) =
        [(0, 0, true), (0x11, 0b1111, true)] ∧
      (takenLog (reset _) (wordCmd 0) phantomRun).length = 1 ∧
      ¬ CommandLaw (reset _) (wordCmd 0) phantomRun := by
  refine ⟨serves_snoc rfl (by decide) (by decide) (by decide), by decide, by decide, fun h => ?_⟩
  have hle := h.length_le
  revert hle
  decide

end AesMaster

end PacketBuffering
