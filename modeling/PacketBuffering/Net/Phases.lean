import PacketBuffering.Net.Transaction

/-!
# The phases of a transaction

* `pending`: what the registers hold back of the open transaction, channel by channel.
* `arb_hold`, `arb_release`: the grant stays until the transaction is acknowledged, and the next one goes
  to a port that asks.
* `ReadIdle`, `WriteIdle`, `Writing`, `Reading`: what the registers of one half look like;
  **`NetPhase`**: the states of the interconnect, with the transaction under way.
* `NetInv`: the invariant; `NetInv.served_b`, `NetInv.served_r`: when a slave can answer.
-/

namespace PacketBuffering

variable {N : NetParams}

namespace Interconnect

variable (s : Interconnect N) (i : NetIn N)

/-- **What is still to come** of what the open transaction has put into the registers. -/
def pending : Wire → List (NetBeat N)
  | .sB n => if s.sBvalid n then [.b s.sB] else []
  | .sR n => (s.rOut.held n).map fun x => .r (sROf x)
  | .mAw m =>
    if s.mAwvalid m || (s.addrValid && s.state == .write && m == s.mSelect) then [.fwdAw s.mAw] else []
  | .mW m => (s.wOut.held m).map fun x => .w (mWOf x)
  | .mAr m =>
    if s.mArvalid m || (s.addrValid && s.state == .read && m == s.mSelect) then [.fwdAr s.mAr] else []
  | _ => []

/-! ## The grant -/

/-- The granted transaction is acknowledged. -/
def acked : Bool :=
  if s.isRead then s.rOut.valid s.sSelect && i.sRready s.sSelect && s.rOut.out.last
  else s.sBvalid s.sSelect && i.sBready s.sSelect

variable {s i}

theorem isRead_eq : s.isRead = !decide (s.arb.grantEncoded % 2 = 0) := by
  rw [isRead, Nat.testBit_zero]
  rcases Nat.mod_two_eq_zero_or_one s.arb.grantEncoded with h | h <;> rw [h] <;> rfl

theorem sSelect_eq : s.sSelect = s.arb.grantEncoded / 2 := by
  rw [sSelect, Nat.shiftRight_eq_div_pow, pow_one]

theorem acknowledge_granted (h : ArbiterInv N.arbiter s.arb) (hg : s.arb.grantValid = true) :
    s.acknowledge i s.arb.grantEncoded = s.acked i := by
  have hgrant : s.arb.grant s.arb.grantEncoded = true := (h.grant _).mpr ⟨hg, rfl⟩
  rw [acknowledge, acked, isRead_eq, sSelect_eq, hgrant]
  by_cases hp : s.arb.grantEncoded % 2 = 0 <;> simp [hp]

theorem anyBit_acknowledge (h : ArbiterInv N.arbiter s.arb) (hg : s.arb.grantValid = true) :
    anyBit (N.sCount * 2) (s.acknowledge i) = s.acked i := by
  rw [Bool.eq_iff_iff, anyBit_iff, ← acknowledge_granted h hg]
  constructor
  · rintro ⟨k, -, hk⟩
    have hgrant : s.arb.grant k = true := by
      unfold acknowledge at hk
      split_ifs at hk <;> simp_all
    rw [← ((h.grant k).mp hgrant).2]
    exact hk
  · exact fun hk => ⟨_, h.lt hg, hk⟩

theorem clock_arb : (s.clock i).arb = s.arb.clock N.arbiter (s.arbIn i) := rfl

theorem arb_hold (h : ArbiterInv N.arbiter s.arb) (hrst : i.rst = false)
    (hg : s.arb.grantValid = true) (hack : s.acked i = false) : (s.clock i).arb = s.arb := by
  have hhold : s.arb.holds N.arbiter (s.arbIn i) = true := by
    rw [Arbiter.holds_of_blockAck h rfl rfl hg]
    show (!s.acknowledge i s.arb.grantEncoded) = true
    rw [acknowledge_granted h hg, hack]
    rfl
  rw [clock_arb, Arbiter.clock, show (s.arbIn i).rst = i.rst from rfl, hrst, hhold]
  rfl

theorem holds_of_free (h : ArbiterInv N.arbiter s.arb)
    (hfree : s.arb.grantValid = true → s.acked i = true) :
    s.arb.holds N.arbiter (s.arbIn i) = false := by
  cases hv : s.arb.grantValid with
  | false => simp [Arbiter.holds, hv, NetParams.arbiter]
  | true =>
    rw [Arbiter.holds_of_blockAck h rfl rfl hv]
    show (!s.acknowledge i s.arb.grantEncoded) = false
    rw [acknowledge_granted h hv, hfree hv]
    rfl

theorem arb_release (h : ArbiterInv N.arbiter s.arb) (hrst : i.rst = false)
    (hfree : s.arb.grantValid = true → s.acked i = true) (hg : (s.clock i).arb.grantValid = true) :
    if (s.clock i).isRead then i.sArvalid (s.clock i).sSelect = true
    else i.sAwvalid (s.clock i).sSelect = true := by
  have hnot := holds_of_free h hfree
  rw [isRead_eq, sSelect_eq]
  rw [clock_arb] at hg ⊢
  cases Arbiter.cycle (A := N.arbiter) (s := s.arb) (i := s.arbIn i) hrst with
  | hold hold _ _ => rw [hnot] at hold; cases hold
  | drop _ _ hclock => rw [hclock] at hg; cases hg
  | grant _ _ hreq _ hclock =>
    rw [hclock]
    have hreq' : request i (s.arb.choice N.arbiter (s.arbIn i)) = true := hreq
    unfold request at hreq'
    by_cases hp : s.arb.choice N.arbiter (s.arbIn i) % 2 = 0
    · rw [if_pos hp] at hreq'
      simpa [hp] using hreq'
    · rw [if_neg hp] at hreq'
      simpa [hp] using hreq'

/-! ## The two halves -/

/-- No request is being taken. -/
structure NoAddr (s : Interconnect N) : Prop where
  sAwready : ∀ n, s.sAwready n = false
  sArready : ∀ n, s.sArready n = false

/-- The channels to the slaves for writes are at rest. -/
structure WriteRest (s : Interconnect N) : Prop where
  mAwvalid : ∀ m, s.mAwvalid m = false
  mBready : ∀ m, s.mBready m = false
  wOut : s.wOut.Empty

/-- The write half is at rest. -/
structure WriteIdle (s : Interconnect N) : Prop extends WriteRest s where
  sWready : ∀ n, s.sWready n = false
  sBvalid : ∀ n, s.sBvalid n = false

/-- The read half is at rest. -/
structure ReadIdle (s : Interconnect N) : Prop where
  mArvalid : ∀ m, s.mArvalid m = false
  rOut : s.rOut.Empty

/-- A write to region `j` of slave `m` is under way. -/
structure Writing (s : Interconnect N) (req : NetReq N N.awuserWidth) (m j : ℕ) : Prop where
  grant : s.arb.grantValid = true
  read : s.isRead = false
  readIdle : ReadIdle s
  noAddr : NoAddr s
  axi : s.axi = req.withUser _
  dest : N.decode false s.sSelect req.prot req.addr = some (m, j)
  select : s.mSelect = m
  region : s.region = BitVec.ofNat 4 j
  sBvalid : ∀ n, s.sBvalid n = false
  mAwvalid : ∀ k, k ≠ m → s.mAwvalid k = false
  skid : SkidInv s.wOut m

/-- A read from region `j` of slave `m` is under way. -/
structure Reading (s : Interconnect N) (req : NetReq N N.aruserWidth) (m j : ℕ) : Prop where
  grant : s.arb.grantValid = true
  read : s.isRead = true
  writeIdle : WriteIdle s
  noAddr : NoAddr s
  axi : s.axi = req.withUser _
  dest : N.decode true s.sSelect req.prot req.addr = some (m, j)
  select : s.mSelect = m
  region : s.region = BitVec.ofNat 4 j
  mArvalid : ∀ k, k ≠ m → s.mArvalid k = false
  skid : SkidInv s.rOut s.sSelect

end Interconnect

open Interconnect

/-- **The phases**: the state of the interconnect and the transaction under way. -/
inductive NetPhase (t : NetTrace N) : Option (NetTxn N) → Prop
  | idle (hst : t.net.state = .idle) (hw : WriteIdle t.net) (hr : ReadIdle t.net)
      (ha : NoAddr t.net)
      (howed : t.net.arb.grantValid = true → if t.net.isRead then (t.owesAr t.net.sSelect).isSome
        else (t.owesAw t.net.sSelect).isSome) : NetPhase t none
  | decodeWrite (req : NetReq N N.awuserWidth) (hst : t.net.state = .decode)
      (hg : t.net.arb.grantValid = true) (hread : t.net.isRead = false) (hw : WriteIdle t.net)
      (hr : ReadIdle t.net) (har : ∀ n, t.net.sArready n = false)
      (haw : ∀ n, t.net.sAwready n = (n == t.net.sSelect))
      (howed : t.owesAw t.net.sSelect = some req) (haxi : t.net.axi = req.withUser _)
      (hav : t.net.addrValid = true) : NetPhase t none
  | decodeRead (req : NetReq N N.aruserWidth) (hst : t.net.state = .decode)
      (hg : t.net.arb.grantValid = true) (hread : t.net.isRead = true) (hw : WriteIdle t.net)
      (hr : ReadIdle t.net) (haw : ∀ n, t.net.sAwready n = false)
      (har : ∀ n, t.net.sArready n = (n == t.net.sSelect))
      (howed : t.owesAr t.net.sSelect = some req) (haxi : t.net.axi = req.withUser _)
      (hav : t.net.addrValid = true) : NetPhase t none
  | write (req : NetReq N N.awuserWidth) (beats : List (NetW N)) (m j : ℕ)
      (hst : t.net.state = .write) (h : Writing t.net req m j)
      (hwr : ∀ n, n ≠ t.net.sSelect → t.net.sWready n = false)
      (hready : t.net.sWready t.net.sSelect = true → t.net.wOut.ready = true)
      (hmb : ∀ k, t.net.mBready k = false)
      (hav : t.net.addrValid = true → t.net.mAwvalid m = false)
      (hopen : ∀ x ∈ beats, x.last = false) :
      NetPhase t (some (.write t.net.sSelect req beats []))
  | writeResp (req : NetReq N N.awuserWidth) (beats : List (NetW N)) (m j : ℕ)
      (hst : t.net.state = .writeResp) (h : Writing t.net req m j)
      (hwr : ∀ n, t.net.sWready n = false) (hmb : ∀ k, k ≠ m → t.net.mBready k = false)
      (hwhole : Whole NetW.last beats) : NetPhase t (some (.write t.net.sSelect req beats []))
  | writeDrop (req : NetReq N N.awuserWidth) (beats : List (NetW N))
      (hst : t.net.state = .writeDrop) (hg : t.net.arb.grantValid = true)
      (hread : t.net.isRead = false) (hw : WriteRest t.net) (hr : ReadIdle t.net) (ha : NoAddr t.net)
      (hsb : ∀ n, t.net.sBvalid n = false) (haxi : t.net.axi = req.withUser _)
      (hdest : N.decode false t.net.sSelect req.prot req.addr = none)
      (hresp : t.net.bresp = axiRespDecerr) (hwr : ∀ n, n ≠ t.net.sSelect → t.net.sWready n = false)
      (hopen : ∀ x ∈ beats, x.last = false) :
      NetPhase t (some (.write t.net.sSelect req beats []))
  | waitWrite (req : NetReq N N.awuserWidth) (beats : List (NetW N)) (b : NetB N)
      (hst : t.net.state = .waitIdle) (hg : t.net.arb.grantValid = true)
      (hread : t.net.isRead = false) (hw : WriteRest t.net) (hr : ReadIdle t.net) (ha : NoAddr t.net)
      (hsb : ∀ n, t.net.sBvalid n = (n == t.net.sSelect)) (hwr : ∀ n, t.net.sWready n = false)
      (hid : t.net.axi.id = req.id) (hresp : t.net.bresp = b.resp)
      (hdone : (NetTxn.write t.net.sSelect req beats [b]).Complete) :
      NetPhase t (some (.write t.net.sSelect req beats [b]))
  | read (req : NetReq N N.aruserWidth) (beats : List (NetR N)) (m j : ℕ)
      (hst : t.net.state = .read) (h : Reading t.net req m j)
      (hready : t.net.mRready m = true → t.net.rOut.ready = true)
      (hav : t.net.addrValid = true → t.net.mArvalid m = false)
      (hopen : ∀ x ∈ beats, x.last = false) (hheld : ∀ x ∈ t.net.rOut.held t.net.sSelect, x.last = false) :
      NetPhase t (some (.read t.net.sSelect req beats))
  | readDrop (req : NetReq N N.aruserWidth) (k : ℕ)
      (hst : t.net.state = .readDrop) (hg : t.net.arb.grantValid = true)
      (hread : t.net.isRead = true) (hw : WriteIdle t.net) (ha : NoAddr t.net)
      (hmar : ∀ m, t.net.mArvalid m = false) (hskid : SkidInv t.net.rOut t.net.sSelect)
      (hid : t.net.axi.id = req.id) (hlen : t.net.axi.len.toNat + k = req.len.toNat)
      (hdest : N.decode true t.net.sSelect req.prot req.addr = none)
      (hheld : ∀ x ∈ t.net.rOut.held t.net.sSelect, x.last = false) :
      NetPhase t (some (.read t.net.sSelect req (req.errorBeats.take k)))
  | waitRead (req : NetReq N N.aruserWidth) (beats : List (NetR N))
      (hst : t.net.state = .waitIdle) (hg : t.net.arb.grantValid = true)
      (hread : t.net.isRead = true) (hw : WriteIdle t.net) (ha : NoAddr t.net)
      (hmar : ∀ m, t.net.mArvalid m = false) (hskid : SkidInv t.net.rOut t.net.sSelect)
      (hdone : (NetTxn.read t.net.sSelect req beats).Complete)
      (hheld : Whole NetR.last (t.net.rOut.held t.net.sSelect)) :
      NetPhase t (some (.read t.net.sSelect req beats))

/-- **The invariant**, with the complete transactions, the one under way, and what of it has been handed
over. -/
structure NetInv (t : NetTrace N) (ts : List (NetTxn N)) (cur : Option (NetTxn N))
    (done : Wire → List (NetBeat N)) : Prop where
  arb : ArbiterInv N.arbiter t.net.arb
  buser : t.net.buser = 0
  complete : ∀ x ∈ ts, x.Complete
  log : ∀ w, t.log w = (ts.flatMap fun x => x.events w) ++ done w
  split : ∀ w, done w ++ t.net.pending w = cur.elim [] fun x => x.events w
  phase : NetPhase t cur

namespace NetInv

variable {t : NetTrace N} {ts : List (NetTxn N)} {cur : Option (NetTxn N)}
  {done : Wire → List (NetBeat N)} {i : NetIn N}

/-! ## When a slave can answer -/

theorem done_b (h : NetInv t ts cur done) (hok : t.Served i) {m : ℕ} (hv : i.mBvalid m = true) :
    (done (.mB m)).length < (done (.mAw m)).length ∧
      (done (.mB m)).length < (done (.mW m)).countP NetBeat.isLast := by
  obtain ⟨h₁, h₂⟩ := hok.b m hv
  rw [h.log, h.log, List.length_append, List.length_append, length_flatMap_b h.complete] at h₁
  rw [h.log, h.log, List.length_append, List.countP_append, countP_flatMap_w h.complete] at h₂
  exact ⟨by omega, by omega⟩

theorem done_r (h : NetInv t ts cur done) (hok : t.Served i) {m : ℕ} (hv : i.mRvalid m = true) :
    (done (.mR m)).countP NetBeat.isLast < (done (.mAr m)).length := by
  have h₁ := hok.r m hv
  rw [h.log, h.log, List.countP_append, List.length_append, countP_flatMap_r h.complete] at h₁
  omega

theorem done_append {x : NetTxn N} (h : NetInv t ts (some x) done) (w : Wire) :
    done w ++ t.net.pending w = x.events w := h.split w

theorem done_of_none (h : NetInv t ts none done) (w : Wire) : done w = [] :=
  (List.append_eq_nil_iff.mp (h.split w)).1

end NetInv

theorem Whole.eq_nil_of_countP {α : Type*} {last : α → Bool} {a b : List α} (h : Whole last (a ++ b))
    (ha : 0 < a.countP last) : b = [] := by
  obtain ⟨init, w, heq, hinit, -⟩ := h
  induction b using List.reverseRecOn with
  | nil => rfl
  | append_singleton b v _ =>
    rw [← List.append_assoc] at heq
    have hab := (List.append_inj' heq rfl).1
    have hnone : a.countP last = 0 := by
      rw [List.countP_eq_zero]
      intro x hx
      simp [hinit x (hab ▸ List.mem_append_left b hx)]
    omega

namespace NetInv

variable {t : NetTrace N} {ts : List (NetTxn N)} {cur : Option (NetTxn N)}
  {done : Wire → List (NetBeat N)} {i : NetIn N}

/-- **A slave answers a write** when it has the request and all its data. -/
theorem served_b {p : ℕ} {req : NetReq N N.awuserWidth} {beats : List (NetW N)} {m j : ℕ}
    (h : NetInv t ts (some (.write p req beats [])) done) (hok : t.Served i)
    (hv : i.mBvalid m = true) (hdest : N.decode false p req.prot req.addr = some (m, j))
    (hwhole : Whole NetW.last beats) :
    t.net.pending (.mAw m) = [] ∧ t.net.pending (.mW m) = [] := by
  obtain ⟨haw, hw⟩ := h.done_b hok hv
  have hsaw := h.done_append (.mAw m)
  have hsw := h.done_append (.mW m)
  simp only [NetTxn.events, NetTxn.atSlave, NetTxn.dest, hdest, if_true] at hsaw hsw
  constructor
  · have hlen := congrArg List.length hsaw
    rw [List.length_append, List.length_singleton] at hlen
    exact List.eq_nil_of_length_eq_zero (by omega)
  · have hall : Whole NetBeat.isLast (done (.mW m) ++ t.net.pending (.mW m)) := by
      obtain ⟨init, x, rfl, hinit, hx⟩ := hwhole
      rw [hsw, List.map_append]
      refine ⟨_, _, rfl, fun v hv => ?_, hx⟩
      obtain ⟨y, hy, rfl⟩ := List.mem_map.mp hv
      exact hinit y hy
    exact hall.eq_nil_of_countP (by omega)

/-- **A slave sends read data** only while its read is under way. -/
theorem served_r (h : NetInv t ts cur done) (hok : t.Served i) {m : ℕ} (hv : i.mRvalid m = true) :
    ∃ p req beats j, cur = some (.read p req beats) ∧
      N.decode true p req.prot req.addr = some (m, j) ∧ beats.countP NetR.last = 0 ∧
      t.net.pending (.mAr m) = [] := by
  have hr := h.done_r hok hv
  have hnil (hnone : done (.mAr m) = []) : False := by
    rw [hnone] at hr
    exact Nat.not_lt_zero _ hr
  rcases cur with - | x
  · exact (hnil (h.done_of_none _)).elim
  have hsplit := h.done_append (.mAr m)
  cases x with
  | write p req beats resps => exact (hnil (List.append_eq_nil_iff.mp hsplit).1).elim
  | read p req beats =>
    have hsr := h.done_append (.mR m)
    simp only [NetTxn.events, NetTxn.atSlave, NetTxn.dest] at hsplit hsr
    rcases hdest : N.decode true p req.prot req.addr with - | ⟨m', j⟩
    · rw [hdest] at hsplit
      exact (hnil (List.append_eq_nil_iff.mp hsplit).1).elim
    · rw [hdest] at hsplit hsr
      by_cases hm : m = m'
      · subst hm
        simp only [if_true] at hsplit hsr
        have hlen := congrArg List.length hsplit
        rw [List.length_append, List.length_singleton] at hlen
        have hpend : t.net.pending (.mR m) = [] := rfl
        rw [hpend, List.append_nil] at hsr
        rw [hsr, countP_isLast_r] at hr
        exact ⟨p, req, beats, j, rfl, hdest, by omega, List.eq_nil_of_length_eq_zero (by omega)⟩
      · simp only [hm, if_false] at hsplit
        exact (hnil (List.append_eq_nil_iff.mp hsplit).1).elim

theorem out_mem_held {s : Skid (NetR N)} {k : ℕ} (hv : s.valid k = true) : s.out ∈ s.held k := by
  simp [Skid.held, hv]

theorem acked_eq_false (h : NetInv t ts cur done) (hst : t.net.state ≠ .waitIdle) :
    t.net.acked i = false := by
  have hread (hunmarked : ∀ x ∈ t.net.rOut.held t.net.sSelect, x.last = false) :
      (t.net.rOut.valid t.net.sSelect && i.sRready t.net.sSelect && t.net.rOut.out.last) = false := by
    cases hv : t.net.rOut.valid t.net.sSelect with
    | false => rfl
    | true => rw [hunmarked _ (out_mem_held hv), Bool.and_false]
  unfold acked
  have hphase := h.phase
  cases hphase with
  | idle _ hw hr | decodeWrite _ _ _ _ hw hr | decodeRead _ _ _ _ hw hr =>
    rw [hw.sBvalid, hr.rOut.valid]
    exact ite_self _
  | write _ _ _ _ _ hwr | writeResp _ _ _ _ _ hwr =>
    rw [hwr.sBvalid, hwr.read]
    rfl
  | writeDrop _ _ _ _ hrd _ _ _ hsb =>
    rw [hsb, hrd]
    rfl
  | read _ _ _ _ _ hrd _ _ _ hheld =>
    rw [hrd.read, if_pos rfl]
    exact hread hheld
  | readDrop _ _ _ _ hrd _ _ _ _ _ _ _ hheld =>
    rw [hrd, if_pos rfl]
    exact hread hheld
  | waitWrite _ _ _ hst' | waitRead _ _ hst' => exact absurd hst' hst

theorem grantValid_of_not_idle (h : NetInv t ts cur done) (hst : t.net.state ≠ .idle) :
    t.net.arb.grantValid = true := by
  have hphase := h.phase
  cases hphase with
  | idle hst' => exact absurd hst' hst
  | decodeWrite _ _ hg | decodeRead _ _ hg => exact hg
  | write _ _ _ _ _ hwr | writeResp _ _ _ _ _ hwr => exact hwr.grant
  | read _ _ _ _ _ hrd => exact hrd.grant
  | writeDrop _ _ _ hg | waitWrite _ _ _ _ hg | waitRead _ _ _ hg | readDrop _ _ _ hg => exact hg

theorem noAddr_of_not_decode (h : NetInv t ts cur done) (hst : t.net.state ≠ .decode) :
    NoAddr t.net := by
  have hphase := h.phase
  cases hphase with
  | idle _ _ _ ha => exact ha
  | decodeWrite _ hst' | decodeRead _ hst' => exact absurd hst' hst
  | write _ _ _ _ _ hwr | writeResp _ _ _ _ _ hwr => exact hwr.noAddr
  | read _ _ _ _ _ hrd => exact hrd.noAddr
  | writeDrop _ _ _ _ _ _ _ ha | readDrop _ _ _ _ _ _ ha | waitRead _ _ _ _ _ _ ha => exact ha
  | waitWrite _ _ _ _ _ _ _ _ ha => exact ha

end NetInv

end PacketBuffering
