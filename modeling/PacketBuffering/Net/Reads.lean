import PacketBuffering.Net.Writes

/-!
# Reads through the interconnect

* `NetInv.step_decodeRead`, `NetInv.step_read`, `NetInv.step_readDrop`, `NetInv.step_waitRead`: the steps
  of a read, each with what it adds to the transaction.
* `errorBeats_whole`, `errorBeats_take_succ`: the answer to a read that no slave is responsible for.
-/

namespace PacketBuffering

open Interconnect

variable {N : NetParams} {t : NetTrace N} {ts : List (NetTxn N)} {cur cur' : Option (NetTxn N)}
  {done : Wire → List (NetBeat N)} {i : NetIn N}

namespace NetInv

/-- **Decoding a read.** -/
theorem step_decodeRead {req : NetReq N N.aruserWidth} (h : NetInv t ts none done) (hok : t.Served i)
    (hst : t.net.state = .decode) (hg : t.net.arb.grantValid = true) (hread : t.net.isRead = true)
    (hw : WriteIdle t.net) (hr : ReadIdle t.net) (haw : ∀ n, t.net.sAwready n = false)
    (har : ∀ n, t.net.sArready n = (n == t.net.sSelect))
    (howed : t.owesAr t.net.sSelect = some req) (haxi : t.net.axi = req.withUser _)
    (hav : t.net.addrValid = true) :
    NetInv (t.step i) ts (some (.read t.net.sSelect req [])) fun w => done w ++ t.net.events i w := by
  have hack := h.acked_eq_false (i := i) (by rw [hst]; decide)
  obtain ⟨hgrant, hsel, hread'⟩ := h.keep_grant hok hg hack
  have hno := h.no_r hok (by simp)
  have hkeep := hok.ar t.net.sSelect
  rw [howed, keeps_some] at hkeep
  have hw' := hw.clock hok.rst (.inr (.inl ⟨hst, hread⟩))
  have ha' := noAddr_clock (i := i) hok.rst (s := t.net) (by rw [hst]; decide)
  have haxi' := clock_axi (i := i) hok.rst (s := t.net) (by rw [hst]; decide) (by rw [hst]; decide)
  have hout : (t.net.clock i).rOut.Empty := by
    rw [clock_eq hok.rst]
    exact hr.rOut.next (by show t.net.rIntValid i = false; rw [rIntValid, hst])
  have hmar' (k : ℕ) : (t.net.clock i).mArvalid k = false :=
    (hr.clock hok.rst (by rw [hst]; decide) (by rw [hst]; decide)).mArvalid k
  have hprot : t.net.axi.prot = req.prot := by rw [haxi]; rfl
  have haddr : t.net.axi.addr = req.addr := by rw [haxi]; rfl
  have hstart (n : ℕ) : t.net.events i (.sAr n) = if n = t.net.sSelect then [.ar req] else [] := by
    rw [Interconnect.events, har]
    by_cases hn : n = t.net.sSelect
    · subst hn
      simp [hkeep.1, hkeep.2]
    · simp [hn]
  have hrest (w : Wire) (hsAr : ∀ n, w ≠ .sAr n) : t.net.events i w = [] := by
    cases w with
    | sAr n => exact absurd rfl (hsAr n)
    | sW n => exact hw.events.1 n
    | sB n => exact hw.events.2.1 n
    | sAw n => simp [Interconnect.events, haw]
    | sR n => exact hr.events.1 n
    | mAw m => exact hw.events.2.2.1 m
    | mW m => exact hw.events.2.2.2.1 m
    | mB m => exact hw.events.2.2.2.2 m
    | mAr m => exact hr.events.2 m
    | mR m => exact events_mR_of_not (hno m)
  have hpend := pending_rest hw hr (by rw [hst]; decide) (by rw [hst]; decide)
  rcases hdest : N.decode true t.net.sSelect req.prot req.addr with - | ⟨m, j⟩
  · -- no slave is responsible
    have hclk : t.net.next i = { t.net.defaults i with state := .readDrop } := by
      rw [Interconnect.next, hst]
      simp [clockDecode, hread, hprot, haddr, hdest]
    have hstate : (t.net.clock i).state = .readDrop := by rw [clock_eq hok.rst, hclk]
    have hphase := NetPhase.readDrop (t := t.step i) req 0 hstate hgrant (hread'.trans hread) hw' ha' hmar'
      (.of_empty hout _) (by rw [step_net, haxi', haxi]; rfl) (by rw [step_net, haxi', haxi]; rfl)
      (by rw [step_net, hsel]; exact hdest) (by rw [step_net, hout.held]; simp)
    rw [step_net, hsel, List.take_zero] at hphase
    refine h.extend hok _ hphase (fun w => ?_) fun w => rfl
    rw [hpend w]
    cases w with
    | sAr n =>
      rw [hstart]
      simp [Interconnect.pending]
    | mAr k =>
      rw [hrest _ (by simp)]
      simp [Interconnect.pending, NetTxn.atSlave, NetTxn.dest, hdest, hmar', hstate]
    | sR n =>
      rw [hrest _ (by simp)]
      simp [Interconnect.pending, hout.held]
    | mR k =>
      rw [hrest _ (by simp)]
      simp [Interconnect.pending, NetTxn.atSlave, NetTxn.dest, hdest]
    | sAw n | sW n | mB m =>
      rw [hrest _ (by simp)]
      rfl
    | sB n => rw [hrest _ (by simp), (hw'.pending (by rw [hstate]; decide)).1]
    | mAw m => rw [hrest _ (by simp), (hw'.pending (by rw [hstate]; decide)).2.1]
    | mW m => rw [hrest _ (by simp), (hw'.pending (by rw [hstate]; decide)).2.2]
  · -- the slave `m` is responsible
    have hclk : t.net.next i = { t.net.defaults i with
        mSelect := m
        region := BitVec.ofNat 4 j
        mRready := Function.update (t.net.defaults i).mRready t.net.mSelect
          (t.net.rOut.early (t.net.rIn i))
        state := .read } := by
      rw [Interconnect.next, hst]
      simp [clockDecode, hread, hprot, haddr, hdest]
    have hstate : (t.net.clock i).state = .read := by rw [clock_eq hok.rst, hclk]
    have hregion' : (t.net.clock i).region = BitVec.ofNat 4 j := by rw [clock_eq hok.rst, hclk]
    have hselect' : (t.net.clock i).mSelect = m := by rw [clock_eq hok.rst, hclk]
    have hav' : (t.net.clock i).addrValid = true := by
      rw [clock_eq hok.rst, hclk]
      exact hav
    have hreading : Reading (t.net.clock i) req m j :=
      ⟨hgrant, hread'.trans hread, hw', ha', haxi'.trans haxi, by rw [hsel]; exact hdest, hselect', hregion',
        fun k _ => hmar' k, .of_empty hout _⟩
    have hphase := NetPhase.read (t := t.step i) req [] m j hstate hreading
      (fun _ => by
        rw [step_net, clock_eq hok.rst]
        exact hr.rOut.early)
      (fun _ => hmar' m) (by simp) (by rw [step_net, hout.held]; simp)
    rw [step_net, hsel] at hphase
    refine h.extend hok _ hphase (fun w => ?_) fun w => rfl
    rw [hpend w]
    cases w with
    | sAr n =>
      rw [hstart]
      simp [Interconnect.pending]
    | mAr k =>
      rw [hrest _ (by simp)]
      by_cases hk : k = m
      · simp [Interconnect.pending, NetTxn.atSlave, NetTxn.dest, hdest, hstate, hav',
          hselect', hk, mAr_eq (haxi'.trans haxi) hregion']
      · simp [Interconnect.pending, NetTxn.atSlave, NetTxn.dest, hdest, hmar', hselect', hk]
    | sR n =>
      rw [hrest _ (by simp)]
      simp [Interconnect.pending, hout.held]
    | mR k =>
      rw [hrest _ (by simp)]
      simp [Interconnect.pending, NetTxn.atSlave, NetTxn.dest, hdest]
    | sAw n | sW n | mB m =>
      rw [hrest _ (by simp)]
      rfl
    | sB n => rw [hrest _ (by simp), (hw'.pending (by rw [hstate]; decide)).1]
    | mAw m => rw [hrest _ (by simp), (hw'.pending (by rw [hstate]; decide)).2.1]
    | mW m => rw [hrest _ (by simp), (hw'.pending (by rw [hstate]; decide)).2.2]

/-! ## Reading -/

/-- The word of read data that is taken. -/
def fetched (s : Interconnect N) (i : NetIn N) : List (NetR N) :=
  if s.mRready s.mSelect && i.mRvalid s.mSelect then [i.mR s.mSelect] else []

/-- What the words `xs` add to a read from the slave `m`. -/
def newRead (p m : ℕ) (id : BitVec N.idWidth) (xs : List (NetR N)) : Wire → List (NetBeat N)
  | .sR n => if n = p then xs.map fun x => .r (sROf (x.withId id)) else []
  | .mR k => if k = m then xs.map .r else []
  | _ => []

theorem events_append_read {p m j : ℕ} {req : NetReq N N.aruserWidth} {beats xs : List (NetR N)}
    (hdest : N.decode true p req.prot req.addr = some (m, j)) (w : Wire) :
    (NetTxn.read p req (beats ++ xs)).events w =
      (NetTxn.read p req beats).events w ++ newRead p m req.id xs w := by
  cases w with
  | sR n => by_cases hn : n = p <;> simp [NetTxn.events, newRead, hn]
  | mR k => by_cases hk : k = m <;> simp [NetTxn.events, NetTxn.atSlave, NetTxn.dest, newRead, hdest, hk]
  | sAw n | sW n | sB n | sAr n | mAw m | mW m | mB m | mAr m =>
    simp [NetTxn.events, NetTxn.atSlave, NetTxn.dest, newRead]

theorem whole_held {s : Skid (NetR N)} {i : SkidIn (NetR N)} {x : NetR N} (h : SkidInv s i.select)
    (hheld : ∀ y ∈ s.held i.select, y.last = false) (hacc : s.accepted i = [x]) (hx : x.last = true) :
    Whole NetR.last ((s.next i).held i.select) := by
  obtain ⟨rest, hrest, hnext⟩ := h.exists_held_next
  rw [hnext, hacc]
  exact ⟨rest, x, rfl, fun y hy => hheld y (hrest ▸ List.mem_append_right _ hy), hx⟩

theorem unmarked_held {s : Skid (NetR N)} {i : SkidIn (NetR N)} (h : SkidInv s i.select)
    (hheld : ∀ y ∈ s.held i.select, y.last = false) (hacc : ∀ y ∈ s.accepted i, y.last = false) :
    ∀ y ∈ (s.next i).held i.select, y.last = false := by
  obtain ⟨rest, hrest, hnext⟩ := h.exists_held_next
  intro y hy
  rw [hnext] at hy
  rcases List.mem_append.mp hy with hy | hy
  · exact hheld y (hrest ▸ List.mem_append_right _ hy)
  · exact hacc y hy

/-- **A step of the read state.** -/
theorem step_read {req : NetReq N N.aruserWidth} {beats : List (NetR N)} {m j : ℕ}
    (h : NetInv t ts (some (.read t.net.sSelect req beats)) done) (hok : t.Served i)
    (hst : t.net.state = .read) (hrd : Reading t.net req m j)
    (hready : t.net.mRready m = true → t.net.rOut.ready = true)
    (hav : t.net.addrValid = true → t.net.mArvalid m = false) (hopen : ∀ x ∈ beats, x.last = false)
    (hheld : ∀ x ∈ t.net.rOut.held t.net.sSelect, x.last = false) :
    NetInv (t.step i) ts (some (.read t.net.sSelect req (beats ++ fetched t.net i)))
      fun w => done w ++ t.net.events i w := by
  have hack := h.acked_eq_false (i := i) (by rw [hst]; decide)
  obtain ⟨hgrant, hsel, hread⟩ := h.keep_grant hok hrd.grant hack
  have hnw : t.net.state ≠ .write := by rw [hst]; decide
  have hw' := hrd.writeIdle.clock hok.rst (.inr (.inr (.inl hst)))
  have ha' := noAddr_clock (i := i) hok.rst (s := t.net) (by rw [hst]; decide)
  have haxi' := clock_axi (i := i) hok.rst (s := t.net) (by rw [hst]; decide) (by rw [hst]; decide)
  obtain ⟨hregion', hselect'⟩ := clock_region (i := i) hok.rst (s := t.net) (by rw [hst]; decide)
  have hnext : t.net.next i = t.net.clockRead i := by rw [Interconnect.next, hst]
  have hout' : (t.net.clock i).rOut = t.net.rOut.next (t.net.rIn i) := by rw [clock_eq hok.rst]
  have hskid' : SkidInv (t.net.clock i).rOut t.net.sSelect := by
    rw [hout']
    exact SkidInv.next (i := t.net.rIn i) hrd.skid
  have hav' : (t.net.clock i).addrValid = false := by
    rw [clock_eq hok.rst, hnext]
    unfold clockRead
    dsimp only
    split_ifs <;> rfl
  have hmar' (k : ℕ) : (t.net.clock i).mArvalid k =
      if k = m ∧ t.net.addrValid = true then true else t.net.mArvalid k && !i.mArready k := by
    rw [clock_eq hok.rst, hnext]
    unfold clockRead
    dsimp only
    by_cases hk : k = m <;> split_ifs <;> simp_all [defaults, hrd.select]
  -- a slave that sends data has taken the request
  have hasked (k : ℕ) (hv : i.mRvalid k = true) : k = m ∧ t.net.mArvalid m = false ∧
      t.net.addrValid = false := by
    obtain ⟨p, req', beats', j', heq, hdest, -, hpend⟩ := h.served_r hok hv
    obtain ⟨rfl, rfl, rfl⟩ : t.net.sSelect = p ∧ req = req' ∧ beats = beats' := by simpa using heq
    rw [hrd.dest, Option.some.injEq, Prod.mk.injEq] at hdest
    obtain ⟨rfl, rfl⟩ := hdest
    refine ⟨rfl, ?_, ?_⟩
    · by_contra hv
      simp [Interconnect.pending, Bool.eq_true_of_not_eq_false hv] at hpend
    · by_contra hv
      simp [Interconnect.pending, Bool.eq_true_of_not_eq_false hv, hst, hrd.select] at hpend
  have hreading : Reading (t.net.clock i) req m j :=
    ⟨hgrant, hread.trans hrd.read, hw', ha', haxi'.trans hrd.axi, by rw [hsel]; exact hrd.dest,
      hselect'.trans hrd.select, hregion'.trans hrd.region,
      fun k hk => by simp [hmar', hk, hrd.mArvalid k hk], by rw [hsel]; exact hskid'⟩
  have hint : t.net.rIntValid i = (t.net.mRready m && i.mRvalid m) := by
    rw [rIntValid, hst, hrd.select]
  have hid : t.net.axi.id = req.id := by rw [hrd.axi]; rfl
  have haccept : t.net.rOut.accepted (t.net.rIn i) = (fetched t.net i).map fun x => x.withId req.id := by
    show (if t.net.rOut.ready && t.net.rIntValid i then [t.net.rInt i] else []) = _
    rw [hint, fetched, hrd.select]
    cases hv : t.net.mRready m && i.mRvalid m with
    | false => simp
    | true =>
      rw [Bool.and_eq_true] at hv
      simp [hready hv.1, rInt, hst, hid, hrd.select, NetR.withId]
  have hphase : NetPhase (t.step i) (some (.read t.net.sSelect req (beats ++ fetched t.net i))) := by
    rw [← hsel, ← step_net]
    by_cases hlast : (t.net.rIntValid i && (i.mR t.net.mSelect).last) = true
    · -- the last word
      have hclk : t.net.next i = { t.net.clockRead i with state := .waitIdle } := by
        rw [hnext]
        unfold clockRead
        dsimp only
        rw [if_pos hlast]
      rw [Bool.and_eq_true, hint, Bool.and_eq_true, hrd.select] at hlast
      obtain ⟨-, hmar, hav₀⟩ := hasked m hlast.1.2
      have hfetch : fetched t.net i = [i.mR m] := by
        rw [fetched, hrd.select, hlast.1.1, hlast.1.2]
        rfl
      refine .waitRead req _ ?_ hgrant (hread.trans hrd.read) hw' ha' (fun k => ?_) ?_ ⟨?_, fun hd => ?_⟩ ?_
      · rw [step_net, clock_eq hok.rst, hclk]
      · rw [step_net, hmar']
        by_cases hk : k = m
        · simp [hk, hmar, hav₀]
        · simp [hk, hrd.mArvalid k hk]
      · rw [step_net, hsel]
        exact hskid'
      · exact ⟨beats, _, by rw [hfetch], hopen, hlast.2⟩
      · rw [NetTxn.dest, step_net, hsel, hrd.dest] at hd
        cases hd
      · rw [step_net, hsel, hout']
        refine whole_held (i := t.net.rIn i) (x := (i.mR m).withId req.id) hrd.skid hheld ?_ hlast.2
        rw [haccept, hfetch]
        rfl
    · have hclk : t.net.next i = { t.net.clockRead i with
          mRready := Function.update allOff t.net.mSelect (t.net.rOut.early (t.net.rIn i))
          state := .read } := by
        rw [hnext]
        unfold clockRead
        dsimp only
        rw [if_neg hlast]
        split_ifs <;> rfl
      have hunmarked : ∀ x ∈ fetched t.net i, x.last = false := by
        intro x hx
        unfold fetched at hx
        split_ifs at hx with hv
        · rw [List.mem_singleton.mp hx]
          rw [hrd.select] at hv
          simpa [hint, hv] using hlast
        · cases hx
      refine .read req _ m j ?_ hreading (fun hrdy => ?_) (fun hv => ?_) (fun x hx => ?_) ?_
      · rw [step_net, clock_eq hok.rst, hclk]
      · rw [step_net, clock_eq hok.rst, hclk] at hrdy
        rw [step_net, hout']
        simpa [Skid.next, hrd.select] using hrdy
      · rw [step_net, hav'] at hv
        cases hv
      · rcases List.mem_append.mp hx with hx | hx
        · exact hopen x hx
        · exact hunmarked x hx
      · rw [step_net, hsel, hout']
        refine unmarked_held (i := t.net.rIn i) hrd.skid hheld fun y hy => ?_
        rw [haccept] at hy
        obtain ⟨x, hx, rfl⟩ := List.mem_map.mp hy
        exact hunmarked x hx
  refine h.extend hok _ hphase (fun w => ?_) fun w => events_append_read hrd.dest w
  have hst' : (t.net.clock i).state ≠ .write := by
    rw [clock_eq hok.rst, hnext]
    unfold clockRead
    dsimp only
    split_ifs <;> simp
  have hmAr := mAr_eq hrd.axi hrd.region
  have hmAr' := mAr_eq hreading.axi hreading.region
  obtain ⟨hesW, hesB, hemAw, hemW, hemB⟩ := hrd.writeIdle.events (i := i)
  obtain ⟨hpsB, hpmAw, hpmW⟩ := hrd.writeIdle.pending hnw
  obtain ⟨hpsB', hpmAw', hpmW'⟩ := hw'.pending hst'
  cases w with
  | sAw n => rw [hrd.noAddr.events.1]; rfl
  | sAr n => rw [hrd.noAddr.events.2]; rfl
  | sW n => rw [hesW]; rfl
  | sB n => rw [hesB, hpsB, hpsB']; rfl
  | sR n =>
    rw [flow_sR hok.rst hrd.skid, haccept]
    simp only [newRead, List.map_map]
    rfl
  | mAw k => rw [hemAw, hpmAw, hpmAw']; rfl
  | mW k => rw [hemW, hpmW, hpmW']; rfl
  | mB k => rw [hemB]; rfl
  | mAr k =>
    by_cases hk : k = m
    · subst hk
      cases hv : t.net.addrValid with
      | true =>
        simp [Interconnect.events, Interconnect.pending, newRead, hav hv, hmar', hv, hst, hrd.select, hmAr,
          hmAr']
      | false =>
        cases hm : t.net.mArvalid k <;> cases hr : i.mArready k <;>
          simp [Interconnect.events, Interconnect.pending, newRead, hm, hr, hmar', hv, hmAr, hmAr', hav']
    · simp [Interconnect.events, Interconnect.pending, newRead, hk, hmar', hrd.mArvalid k hk, hav',
        hrd.select]
  | mR k =>
    by_cases hk : k = m
    · simp only [Interconnect.events, Interconnect.pending, newRead, fetched, hrd.select, hk, if_true]
      cases i.mRvalid m <;> cases t.net.mRready m <;> rfl
    · have hv : i.mRvalid k = false := by
        by_contra hv
        exact hk (hasked k (Bool.eq_true_of_not_eq_false hv)).1
      simp [Interconnect.events, Interconnect.pending, newRead, hv, hk]

/-! ## Answering a read -/

section ErrorBeats

variable {u : ℕ} (req : NetReq N u)

theorem length_errorBeats : req.errorBeats.length = req.len.toNat + 1 := by
  simp [NetReq.errorBeats]

theorem errorBeats_whole : Whole NetR.last req.errorBeats := by
  unfold NetReq.errorBeats
  rw [List.range_succ, List.map_append]
  refine ⟨_, _, rfl, fun x hx => ?_, by simp⟩
  obtain ⟨k, hk, rfl⟩ := List.mem_map.mp hx
  exact beq_eq_false_iff_ne.mpr (List.mem_range.mp hk).ne

variable {req}

theorem errorBeats_take_succ {k : ℕ} (hk : k ≤ req.len.toNat) :
    req.errorBeats.take (k + 1) =
      req.errorBeats.take k ++ [⟨req.id, 0, axiRespDecerr, k == req.len.toNat, 0⟩] := by
  rw [List.take_add_one]
  congr 1
  unfold NetReq.errorBeats
  rw [List.getElem?_map, List.getElem?_range (by omega)]
  rfl

end ErrorBeats

/-- What the words `xs` of the skid buffer add to a read that no slave is responsible for. -/
def newErrors (p : ℕ) (xs : List (NetR N)) : Wire → List (NetBeat N)
  | .sR n => if n = p then xs.map fun x => .r (sROf x) else []
  | _ => []

/-- **A step of the state that answers a read itself.** -/
theorem step_readDrop {req : NetReq N N.aruserWidth} {k : ℕ}
    (h : NetInv t ts (some (.read t.net.sSelect req (req.errorBeats.take k))) done) (hok : t.Served i)
    (hst : t.net.state = .readDrop) (hg : t.net.arb.grantValid = true)
    (hread : t.net.isRead = true) (hw : WriteIdle t.net) (ha : NoAddr t.net)
    (hmar : ∀ m, t.net.mArvalid m = false) (hskid : SkidInv t.net.rOut t.net.sSelect)
    (hid : t.net.axi.id = req.id) (hlen : t.net.axi.len.toNat + k = req.len.toNat)
    (hdest : N.decode true t.net.sSelect req.prot req.addr = none)
    (hheld : ∀ x ∈ t.net.rOut.held t.net.sSelect, x.last = false) :
    NetInv (t.step i) ts (some (.read t.net.sSelect req
      (req.errorBeats.take (if t.net.rOut.ready then k + 1 else k))))
      fun w => done w ++ t.net.events i w := by
  have hack := h.acked_eq_false (i := i) (by rw [hst]; decide)
  obtain ⟨hgrant, hsel, hread'⟩ := h.keep_grant hok hg hack
  have hnw : t.net.state ≠ .write := by rw [hst]; decide
  have hw' := hw.clock hok.rst (.inr (.inr (.inr (.inl hst))))
  have ha' := noAddr_clock (i := i) hok.rst (s := t.net) (by rw [hst]; decide)
  have hnext : t.net.next i = t.net.clockReadDrop i := by rw [Interconnect.next, hst]
  have hout' : (t.net.clock i).rOut = t.net.rOut.next (t.net.rIn i) := by rw [clock_eq hok.rst]
  have hskid' : SkidInv (t.net.clock i).rOut t.net.sSelect := by
    rw [hout']
    exact SkidInv.next (i := t.net.rIn i) hskid
  have hmar' (m : ℕ) : (t.net.clock i).mArvalid m = false := by
    rw [clock_eq hok.rst, hnext]
    unfold clockReadDrop
    dsimp only
    split_ifs <;> simp [defaults, hmar]
  have hid' : (t.net.clock i).axi.id = req.id := by
    rw [clock_eq hok.rst, hnext, ← hid]
    unfold clockReadDrop
    dsimp only
    split_ifs <;> rfl
  -- no slave sends read data
  have hno (m : ℕ) : i.mRvalid m = false := by
    by_contra hv
    obtain ⟨p, req', beats, j, heq, hdest', -⟩ := h.served_r hok (Bool.eq_true_of_not_eq_false hv)
    obtain ⟨rfl, rfl, -⟩ : t.net.sSelect = p ∧ req = req' ∧ req.errorBeats.take k = beats := by
      simpa using heq
    rw [hdest] at hdest'
    cases hdest'
  have hlast : (t.net.axi.len == 0) = (k == req.len.toNat) := by
    rw [Bool.eq_iff_iff, beq_iff_eq, beq_iff_eq, ← BitVec.toNat_inj]
    show t.net.axi.len.toNat = 0 ↔ _
    omega
  have haccept : t.net.rOut.accepted (t.net.rIn i) =
      if t.net.rOut.ready then [⟨req.id, 0, axiRespDecerr, k == req.len.toNat, 0⟩] else [] := by
    show (if t.net.rOut.ready && t.net.rIntValid i then [t.net.rInt i] else []) = _
    simp [rIntValid, rInt, hst, hid, ← hlast]
  have htake : req.errorBeats.take (if t.net.rOut.ready then k + 1 else k) =
      req.errorBeats.take k ++ t.net.rOut.accepted (t.net.rIn i) := by
    rw [haccept]
    split_ifs
    · exact errorBeats_take_succ (by omega)
    · exact (List.append_nil _).symm
  have hphase : NetPhase (t.step i) (some (.read t.net.sSelect req
      (req.errorBeats.take (if t.net.rOut.ready then k + 1 else k)))) := by
    rw [← hsel, ← step_net]
    cases hrdy : t.net.rOut.ready with
    | false =>
      have hclk : t.net.next i = { t.net.defaults i with state := .readDrop } := by
        rw [hnext, clockReadDrop, hrdy]
        rfl
      refine .readDrop req k ?_ hgrant (hread'.trans hread) hw' ha' hmar' (by rw [step_net, hsel]; exact hskid')
        hid' ?_ (by rw [step_net, hsel]; exact hdest) ?_
      · rw [step_net, clock_eq hok.rst, hclk]
      · rw [step_net, clock_eq hok.rst, hclk]
        exact hlen
      · rw [step_net, hsel, hout']
        refine unmarked_held (i := t.net.rIn i) hskid hheld fun y hy => ?_
        rw [haccept, hrdy] at hy
        cases hy
    | true =>
      have hclk : t.net.next i = { t.net.defaults i with
          axi := { t.net.axi with len := t.net.axi.len - 1 }
          state := if t.net.axi.len = 0 then .waitIdle else .readDrop } := by
        rw [hnext, clockReadDrop, hrdy]
        rfl
      by_cases hzero : t.net.axi.len = 0
      · -- the last word enters
        have hk : k = req.len.toNat := by
          rw [hzero] at hlen
          simpa using hlen
        have hall : req.errorBeats.take (k + 1) = req.errorBeats := by
          rw [hk, List.take_of_length_le (length_errorBeats req).le]
        rw [if_pos rfl, hall]
        refine .waitRead req _ ?_ hgrant (hread'.trans hread) hw' ha' hmar' (by rw [step_net, hsel]; exact hskid')
          ⟨errorBeats_whole req, fun _ => rfl⟩ ?_
        · rw [step_net, clock_eq hok.rst, hclk]
          exact if_pos hzero
        · rw [step_net, hsel, hout']
          refine whole_held (i := t.net.rIn i) hskid hheld (by rw [haccept, hrdy]; rfl) ?_
          rw [hk]
          exact beq_self_eq_true _
      · have hpos : t.net.axi.len.toNat ≠ 0 := fun h0 => hzero (BitVec.eq_of_toNat_eq h0)
        have hpred : (t.net.axi.len - 1).toNat + 1 = t.net.axi.len.toNat := by
          rw [BitVec.toNat_sub_of_le (by rw [BitVec.le_def]; show 1 ≤ t.net.axi.len.toNat; omega)]
          show t.net.axi.len.toNat - 1 + 1 = _
          omega
        refine .readDrop req (k + 1) ?_ hgrant (hread'.trans hread) hw' ha' hmar'
          (by rw [step_net, hsel]; exact hskid') hid' ?_ (by rw [step_net, hsel]; exact hdest) ?_
        · rw [step_net, clock_eq hok.rst, hclk]
          exact if_neg hzero
        · rw [step_net, clock_eq hok.rst, hclk]
          show (t.net.axi.len - 1).toNat + (k + 1) = _
          omega
        · rw [step_net, hsel, hout']
          refine unmarked_held (i := t.net.rIn i) hskid hheld fun y hy => ?_
          rw [haccept, hrdy, if_pos rfl] at hy
          rw [List.mem_singleton.mp hy]
          exact beq_eq_false_iff_ne.mpr (by omega)
  rw [htake] at hphase ⊢
  refine h.extend hok (newErrors t.net.sSelect (t.net.rOut.accepted (t.net.rIn i))) hphase
    (fun w => ?_) fun w => ?_
  · have hst' : (t.net.clock i).state ≠ .write ∧ (t.net.clock i).state ≠ .read := by
      rw [clock_eq hok.rst, hnext]
      unfold clockReadDrop
      dsimp only
      split_ifs <;> simp
    obtain ⟨hesW, hesB, hemAw, hemW, hemB⟩ := hw.events (i := i)
    obtain ⟨hpsB, hpmAw, hpmW⟩ := hw.pending hnw
    obtain ⟨hpsB', hpmAw', hpmW'⟩ := hw'.pending hst'.1
    cases w with
    | sAw n => rw [ha.events.1]; rfl
    | sAr n => rw [ha.events.2]; rfl
    | sW n => rw [hesW]; rfl
    | sB n => rw [hesB, hpsB, hpsB']; rfl
    | sR n => exact flow_sR hok.rst hskid n
    | mAw k => rw [hemAw, hpmAw, hpmAw']; rfl
    | mW k => rw [hemW, hpmW, hpmW']; rfl
    | mB k => rw [hemB]; rfl
    | mAr k => simp [Interconnect.events, Interconnect.pending, newErrors, hmar, hmar', hst, hst'.2]
    | mR k => rw [events_mR_of_not (hno k)]; rfl
  · cases w with
    | sR n =>
      have hsame : ∀ x ∈ t.net.rOut.accepted (t.net.rIn i), x.withId req.id = x := by
        intro x hx
        rw [haccept] at hx
        split_ifs at hx
        · rw [List.mem_singleton.mp hx]
          rfl
        · cases hx
      by_cases hn : n = t.net.sSelect
      · simp only [Option.elim_some, NetTxn.events, newErrors, hn, if_true, List.map_append]
        congr 1
        exact List.map_congr_left fun x hx => by rw [hsame x hx]
      · simp [NetTxn.events, newErrors, hn]
    | mR k => simp [NetTxn.events, newErrors, NetTxn.atSlave, NetTxn.dest, hdest]
    | sAw n | sW n | sB n | sAr n | mAw m | mW m | mB m | mAr m =>
      simp [NetTxn.events, newErrors, NetTxn.atSlave, NetTxn.dest]

/-! ## The end of a read -/

/-- **A step of the state that waits for the last word to be taken.** -/
theorem step_waitRead {req : NetReq N N.aruserWidth} {beats : List (NetR N)}
    (h : NetInv t ts (some (.read t.net.sSelect req beats)) done) (hok : t.Served i)
    (hst : t.net.state = .waitIdle) (hg : t.net.arb.grantValid = true)
    (hread : t.net.isRead = true) (hw : WriteIdle t.net) (ha : NoAddr t.net)
    (hmar : ∀ m, t.net.mArvalid m = false) (hskid : SkidInv t.net.rOut t.net.sSelect)
    (hdone : (NetTxn.read t.net.sSelect req beats).Complete)
    (hheld : Whole NetR.last (t.net.rOut.held t.net.sSelect)) :
    ∃ ts' cur' done', NetInv (t.step i) ts' cur' done' := by
  have hw' := hw.clock hok.rst (.inr (.inr (.inr (.inr hst))))
  have ha' := noAddr_clock (i := i) hok.rst (s := t.net) (by rw [hst]; decide)
  -- the read is answered, so no slave sends more
  have hno (m : ℕ) : i.mRvalid m = false := by
    by_contra hv
    obtain ⟨p, req', beats', j, heq, -, hzero, -⟩ := h.served_r hok (Bool.eq_true_of_not_eq_false hv)
    obtain ⟨rfl, rfl, rfl⟩ : t.net.sSelect = p ∧ req = req' ∧ beats = beats' := by simpa using heq
    rw [hdone.1.countP] at hzero
    cases hzero
  have hacked : t.net.acked i =
      (t.net.rOut.valid t.net.sSelect && i.sRready t.net.sSelect && t.net.rOut.out.last) := by
    rw [acked, hread, if_pos rfl]
  have hclk := next_waitIdle (i := i) h.arb hg hst
  have hmar' (m : ℕ) : (t.net.clock i).mArvalid m = false := by
    rw [clock_eq hok.rst, hclk]
    simp [defaults, hmar]
  have hout' : (t.net.clock i).rOut = t.net.rOut.next (t.net.rIn i) := by rw [clock_eq hok.rst]
  have hskid' : SkidInv (t.net.clock i).rOut t.net.sSelect := by
    rw [hout']
    exact SkidInv.next (i := t.net.rIn i) hskid
  have hint : t.net.rIntValid i = false := by rw [rIntValid, hst]
  have haccept : t.net.rOut.accepted (t.net.rIn i) = [] := by
    show (if t.net.rOut.ready && t.net.rIntValid i then [t.net.rInt i] else []) = _
    simp [hint]
  obtain ⟨rest, hrest, hnext⟩ := SkidInv.exists_held_next (i := t.net.rIn i) hskid
  have hselect : (t.net.rIn i).select = t.net.sSelect := rfl
  rw [haccept, List.append_nil] at hnext
  rw [hselect] at hrest hnext
  have htaken : t.net.rOut.taken (t.net.rIn i) =
      if t.net.rOut.valid t.net.sSelect && i.sRready t.net.sSelect then [t.net.rOut.out] else [] := rfl
  obtain ⟨hesW, hesB, hemAw, hemW, hemB⟩ := hw.events (i := i)
  obtain ⟨hpsB, hpmAw, hpmW⟩ := hw.pending (by rw [hst]; decide)
  cases hack : t.net.acked i with
  | false =>
    have hstate : (t.net.clock i).state = .waitIdle := by
      rw [clock_eq hok.rst, hclk, hack]
      rfl
    obtain ⟨hgrant, hsel, hread'⟩ := h.keep_grant hok hg hack
    obtain ⟨hpsB', hpmAw', hpmW'⟩ := hw'.pending (by rw [hstate]; decide)
    -- the last word is still inside
    have hheld' : Whole NetR.last ((t.net.clock i).rOut.held t.net.sSelect) := by
      rw [hout', hnext]
      rw [hrest, htaken] at hheld
      split_ifs at hheld with hv
      · obtain ⟨init, x, heq, hinit, hx⟩ := hheld
        cases init with
        | nil =>
          have hout : t.net.rOut.out = x := (List.cons.inj heq).1
          rw [hacked, hv, hout, hx] at hack
          cases hack
        | cons y init =>
          exact ⟨init, x, (List.cons.inj heq).2, fun z hz => hinit z (List.mem_cons_of_mem _ hz), hx⟩
      · exact hheld
    have hphase := NetPhase.waitRead (t := t.step i) req beats hstate hgrant (hread'.trans hread) hw' ha' hmar'
      (by rw [step_net, hsel]; exact hskid') (by rw [step_net, hsel]; exact hdone)
      (by rw [step_net, hsel]; exact hheld')
    rw [step_net, hsel] at hphase
    refine ⟨_, _, _, h.extend hok (fun _ => []) hphase (fun w => ?_) fun w => (List.append_nil _).symm⟩
    cases w with
    | sAw n => rw [ha.events.1]; rfl
    | sAr n => rw [ha.events.2]; rfl
    | sW n => rw [hesW]; rfl
    | sB n => rw [hesB, hpsB, hpsB']
    | sR n =>
      rw [flow_sR hok.rst hskid, haccept]
      simp
    | mAw k => rw [hemAw, hpmAw, hpmAw']
    | mW k => rw [hemW, hpmW, hpmW']
    | mB k => rw [hemB]; rfl
    | mAr k => simp [Interconnect.events, Interconnect.pending, hmar, hmar', hst, hstate]
    | mR k => rw [events_mR_of_not (hno k)]; rfl
  | true =>
    -- the last word is taken, and nothing is inside any more
    have hstate : (t.net.clock i).state = .idle := by
      rw [clock_eq hok.rst, hclk, hack]
      rfl
    have hlast := hack
    rw [hacked, Bool.and_eq_true] at hlast
    have hnil : rest = [] := by
      rw [hrest, htaken, if_pos hlast.1] at hheld
      exact hheld.eq_nil_of_countP (by simp [hlast.2])
    have hempty : (t.net.clock i).rOut.Empty := by
      have hheld' : (t.net.rOut.next (t.net.rIn i)).held (t.net.rIn i).select = [] := hnext.trans hnil
      rw [hout']
      exact SkidInv.empty_of_held (i := t.net.rIn i) (SkidInv.next (i := t.net.rIn i) hskid) hheld'
    have hr' : ReadIdle (t.net.clock i) := ⟨hmar', hempty⟩
    refine ⟨_, _, _, h.finish hok (.idle hstate hw' hr' ha' fun hg' => ?_) hdone (fun w => ?_)
      (pending_rest hw' hr' (by rw [hstate]; decide) (by rw [hstate]; decide))⟩
    · exact h.owed_of_release hok ha (fun _ => hack) hg'
    · cases w with
      | sAw n => exact ha.events.1 n
      | sAr n => exact ha.events.2 n
      | sW n => exact hesW n
      | sB n => rw [hesB, hpsB]
      | sR n =>
        have hflow := flow_sR hok.rst hskid n
        rw [haccept, (hr'.pending (by rw [hstate]; decide)).1] at hflow
        simpa using hflow
      | mAw k => rw [hemAw, hpmAw]
      | mW k => rw [hemW, hpmW]
      | mB k => exact hemB k
      | mAr k => simp [Interconnect.events, Interconnect.pending, hmar, hst]
      | mR k => exact events_mR_of_not (hno k)

end NetInv

end PacketBuffering
