import PacketBuffering.Net.Halves

/-!
# Writes through the interconnect

* `NetInv.extend`, `NetInv.finish`: how a step carries the invariant on.
* `NetInv.step_idle_free`, `NetInv.step_idle_granted`: waiting for a request, and taking it up.
* `NetInv.step_decodeWrite`, `NetInv.step_write`, `NetInv.step_writeResp`, `NetInv.step_writeDrop`,
  `NetInv.step_waitWrite`: the steps of a write, each with what it adds to the transaction.
-/

namespace PacketBuffering

open Interconnect

variable {N : NetParams} {t : NetTrace N} {ts : List (NetTxn N)} {cur cur' : Option (NetTxn N)}
  {done : Wire → List (NetBeat N)} {i : NetIn N}

namespace NetInv

/-- **A step within a transaction**: what it adds to the transaction is handed over or to come. -/
theorem extend (h : NetInv t ts cur done) (hok : t.Served i) (new : Wire → List (NetBeat N))
    (hphase : NetPhase (t.step i) cur')
    (hflow : ∀ w, t.net.events i w ++ (t.net.clock i).pending w = t.net.pending w ++ new w)
    (hnew : ∀ w, (cur'.elim [] fun x => x.events w) = (cur.elim [] fun x => x.events w) ++ new w) :
    NetInv (t.step i) ts cur' fun w => done w ++ t.net.events i w where
  arb := Arbiter.inv_clock h.arb _
  buser := (buser_clock hok.rst).trans h.buser
  complete := h.complete
  log := fun w => by
    show t.log w ++ _ = _
    rw [h.log, List.append_assoc]
  split := fun w => by
    show (done w ++ t.net.events i w) ++ (t.net.clock i).pending w = _
    rw [List.append_assoc, hflow, ← List.append_assoc, h.split, hnew]
  phase := hphase

/-- **The last step** of a transaction: all that was to come is handed over. -/
theorem finish {x : NetTxn N} (h : NetInv t ts (some x) done) (hok : t.Served i)
    (hphase : NetPhase (t.step i) none) (hx : x.Complete)
    (hflow : ∀ w, t.net.events i w = t.net.pending w) (hpend : ∀ w, (t.net.clock i).pending w = []) :
    NetInv (t.step i) (ts ++ [x]) none fun _ => [] where
  arb := Arbiter.inv_clock h.arb _
  buser := (buser_clock hok.rst).trans h.buser
  complete := fun y hy => by
    rcases List.mem_append.mp hy with hy | hy
    · exact h.complete y hy
    · rwa [List.mem_singleton.mp hy]
  log := fun w => by
    show t.log w ++ _ = _
    rw [h.log, hflow, List.append_assoc, h.done_append, List.flatMap_append, List.flatMap_singleton,
      List.append_nil]
  split := fun w => hpend w
  phase := hphase

theorem no_r (h : NetInv t ts cur done) (hok : t.Served i)
    (hcur : ∀ p req beats, cur ≠ some (.read p req beats)) (m : ℕ) : i.mRvalid m = false := by
  by_contra hv
  obtain ⟨p, req, beats, j, heq, -⟩ := h.served_r hok (Bool.eq_true_of_not_eq_false hv)
  exact hcur p req beats heq

theorem step_net : (t.step i).net = t.net.clock i := rfl

theorem keep_grant (h : NetInv t ts cur done) (hok : t.Served i) (hg : t.net.arb.grantValid = true)
    (hack : t.net.acked i = false) : (t.net.clock i).arb.grantValid = true ∧
      (t.net.clock i).sSelect = t.net.sSelect ∧ (t.net.clock i).isRead = t.net.isRead := by
  have harb := arb_hold h.arb hok.rst hg hack
  exact ⟨harb ▸ hg, by rw [sSelect, harb]; rfl, by rw [isRead, harb]; rfl⟩

theorem owed_next {α : Type*} {valid : Bool} {x : α} (hv : valid = true) :
    (owed valid false x).isSome = true := by
  rw [hv]
  rfl

theorem owed_of_release (h : NetInv t ts cur done) (hok : t.Served i) (ha : NoAddr t.net)
    (hfree : t.net.arb.grantValid = true → t.net.acked i = true)
    (hg : (t.net.clock i).arb.grantValid = true) :
    if (t.net.clock i).isRead then ((t.step i).owesAr (t.net.clock i).sSelect).isSome
    else ((t.step i).owesAw (t.net.clock i).sSelect).isSome := by
  have hreq := arb_release h.arb hok.rst hfree hg
  split_ifs at hreq ⊢ with hr
  · show (owed _ (t.net.sArready _) _).isSome = true
    rw [ha.sArready]
    exact owed_next hreq
  · show (owed _ (t.net.sAwready _) _).isSome = true
    rw [ha.sAwready]
    exact owed_next hreq

/-! ## Idle and decode -/

section Idle

variable (h : NetInv t ts none done) (hok : t.Served i) (hst : t.net.state = .idle)
  (hw : WriteIdle t.net) (hr : ReadIdle t.net) (ha : NoAddr t.net)

include h hok hst hw hr ha

theorem step_idle_free (hg : t.net.arb.grantValid = false) :
    NetInv (t.step i) ts none fun w => done w ++ t.net.events i w := by
  have hw' := hw.clock hok.rst (.inl hst)
  have hr' := hr.clock hok.rst (by rw [hst]; decide) (by rw [hst]; decide)
  have hnext : (t.net.clock i).state = .idle := by
    rw [clock_eq hok.rst]
    simp [Interconnect.next, hst, clockIdle, hg]
  have ha' : NoAddr (t.net.clock i) := by
    rw [clock_eq hok.rst]
    constructor <;> intro n <;> simp [Interconnect.next, hst, clockIdle, hg, defaults, allOff]
  refine h.extend hok (fun _ => []) (.idle hnext hw' hr' ha' fun hg' => ?_) (fun w => ?_)
    fun w => rfl
  · exact h.owed_of_release hok ha (fun hv => absurd hv (by rw [hg]; decide)) hg'
  · rw [events_rest hw hr ha (h.no_r hok (by simp)) w,
      pending_rest hw hr (by rw [hst]; decide) (by rw [hst]; decide) w,
      pending_rest hw' hr' (by rw [hnext]; decide) (by rw [hnext]; decide) w]

theorem step_idle_granted (hg : t.net.arb.grantValid = true)
    (howed : if t.net.isRead then (t.owesAr t.net.sSelect).isSome
      else (t.owesAw t.net.sSelect).isSome) :
    NetInv (t.step i) ts none fun w => done w ++ t.net.events i w := by
  have hw' := hw.clock hok.rst (.inl hst)
  have hr' := hr.clock hok.rst (by rw [hst]; decide) (by rw [hst]; decide)
  have hack := h.acked_eq_false (i := i) (by rw [hst]; decide)
  obtain ⟨hgrant, hsel, hread⟩ := h.keep_grant hok hg hack
  have hnext : (t.net.clock i).state = .decode := by
    rw [clock_eq hok.rst]
    simp only [Interconnect.next, hst, clockIdle, hg, if_true]
    split_ifs <;> rfl
  have hav : (t.net.clock i).addrValid = true := by
    rw [clock_eq hok.rst]
    simp only [Interconnect.next, hst, clockIdle, hg, if_true]
    split_ifs <;> rfl
  refine h.extend hok (fun _ => []) ?_ (fun w => ?_) fun w => rfl
  · cases hrd : t.net.isRead with
    | true =>
      rw [hrd, if_pos rfl] at howed
      obtain ⟨req, hreq⟩ := Option.isSome_iff_exists.mp howed
      have hkeep := hok.ar t.net.sSelect
      rw [hreq, keeps_some] at hkeep
      refine .decodeRead req hnext hgrant (hread.trans hrd) hw' hr' (fun n => ?_) (fun n => ?_)
        ?_ ?_ hav
      · show (t.net.clock i).sAwready n = false
        rw [clock_eq hok.rst]
        simp [Interconnect.next, hst, clockIdle, hg, hrd, defaults, allOff]
      · show (t.net.clock i).sArready n = (n == (t.net.clock i).sSelect)
        rw [hsel, clock_eq hok.rst]
        by_cases hn : n = t.net.sSelect <;>
          simp [Interconnect.next, hst, clockIdle, hg, hrd, defaults, allOff, hn]
      · show owed (i.sArvalid _) (t.net.sArready _) (i.sAr _) = _
        rw [step_net, hsel, ha.sArready, hkeep.1, hkeep.2]
        rfl
      · show (t.net.clock i).axi = _
        rw [clock_eq hok.rst, ← hkeep.2]
        simp [Interconnect.next, hst, clockIdle, hg, hrd]
    | false =>
      rw [hrd, if_neg Bool.false_ne_true] at howed
      obtain ⟨req, hreq⟩ := Option.isSome_iff_exists.mp howed
      have hkeep := hok.aw t.net.sSelect
      rw [hreq, keeps_some] at hkeep
      refine .decodeWrite req hnext hgrant (hread.trans hrd) hw' hr' (fun n => ?_) (fun n => ?_)
        ?_ ?_ hav
      · show (t.net.clock i).sArready n = false
        rw [clock_eq hok.rst]
        simp [Interconnect.next, hst, clockIdle, hg, hrd, defaults, allOff]
      · show (t.net.clock i).sAwready n = (n == (t.net.clock i).sSelect)
        rw [hsel, clock_eq hok.rst]
        by_cases hn : n = t.net.sSelect <;>
          simp [Interconnect.next, hst, clockIdle, hg, hrd, defaults, allOff, hn]
      · show owed (i.sAwvalid _) (t.net.sAwready _) (i.sAw _) = _
        rw [step_net, hsel, ha.sAwready, hkeep.1, hkeep.2]
        rfl
      · show (t.net.clock i).axi = _
        rw [clock_eq hok.rst, ← hkeep.2]
        simp [Interconnect.next, hst, clockIdle, hg, hrd]
  · rw [events_rest hw hr ha (h.no_r hok (by simp)) w,
      pending_rest hw hr (by rw [hst]; decide) (by rw [hst]; decide) w,
      pending_rest hw' hr' (by rw [hnext]; decide) (by rw [hnext]; decide) w]

end Idle

/-- **Decoding a write.** -/
theorem step_decodeWrite {req : NetReq N N.awuserWidth} (h : NetInv t ts none done) (hok : t.Served i)
    (hst : t.net.state = .decode) (hg : t.net.arb.grantValid = true) (hread : t.net.isRead = false)
    (hw : WriteIdle t.net) (hr : ReadIdle t.net) (har : ∀ n, t.net.sArready n = false)
    (haw : ∀ n, t.net.sAwready n = (n == t.net.sSelect))
    (howed : t.owesAw t.net.sSelect = some req) (haxi : t.net.axi = req.withUser _)
    (hav : t.net.addrValid = true) :
    NetInv (t.step i) ts (some (.write t.net.sSelect req [] [])) fun w => done w ++ t.net.events i w := by
  have hack := h.acked_eq_false (i := i) (by rw [hst]; decide)
  obtain ⟨hgrant, hsel, hread'⟩ := h.keep_grant hok hg hack
  have hno := h.no_r hok (by simp)
  have hkeep := hok.aw t.net.sSelect
  rw [howed, keeps_some] at hkeep
  have hr' := hr.clock hok.rst (by rw [hst]; decide) (by rw [hst]; decide)
  have ha' := noAddr_clock (i := i) hok.rst (s := t.net) (by rw [hst]; decide)
  have haxi' := clock_axi (i := i) hok.rst (s := t.net) (by rw [hst]; decide) (by rw [hst]; decide)
  have hint : (t.net.wIn i).intValid = false := by
    show t.net.wIntValid i = false
    rw [wIntValid, hst]
  have hout : (t.net.clock i).wOut.Empty := by
    rw [clock_eq hok.rst]
    exact hw.wOut.next hint
  have hprot : t.net.axi.prot = req.prot := by rw [haxi]; rfl
  have haddr : t.net.axi.addr = req.addr := by rw [haxi]; rfl
  have hstart (n : ℕ) : t.net.events i (.sAw n) = if n = t.net.sSelect then [.aw req] else [] := by
    rw [Interconnect.events, haw]
    by_cases hn : n = t.net.sSelect
    · subst hn
      simp [hkeep.1, hkeep.2]
    · simp [hn]
  have hrest (w : Wire) (hsAw : ∀ n, w ≠ .sAw n) : t.net.events i w = [] := by
    cases w with
    | sAw n => exact absurd rfl (hsAw n)
    | sW n => exact hw.events.1 n
    | sB n => exact hw.events.2.1 n
    | sAr n => simp [Interconnect.events, har]
    | sR n => exact hr.events.1 n
    | mAw m => exact hw.events.2.2.1 m
    | mW m => exact hw.events.2.2.2.1 m
    | mB m => exact hw.events.2.2.2.2 m
    | mAr m => exact hr.events.2 m
    | mR m => exact events_mR_of_not (hno m)
  have hpend := pending_rest hw hr (by rw [hst]; decide) (by rw [hst]; decide)
  rcases hdest : N.decode false t.net.sSelect req.prot req.addr with - | ⟨m, j⟩
  · -- no slave is responsible
    have hclk : t.net.next i = { t.net.defaults i with
        bresp := axiRespDecerr
        sWready := Function.update (t.net.defaults i).sWready t.net.sSelect true
        state := .writeDrop } := by
      rw [Interconnect.next, hst]
      simp [clockDecode, hread, hprot, haddr, hdest]
    have hrest' : WriteRest (t.net.clock i) := by
      rw [clock_eq hok.rst, hclk] at hout ⊢
      exact ⟨fun m => by simp [defaults, hw.mAwvalid], fun m => by simp [defaults, allOff], hout⟩
    have hsb' (n : ℕ) : (t.net.clock i).sBvalid n = false := by
      rw [clock_eq hok.rst, hclk]
      simp [defaults, hw.sBvalid]
    have hstate : (t.net.clock i).state = .writeDrop := by rw [clock_eq hok.rst, hclk]
    have hphase := NetPhase.writeDrop (t := t.step i) req [] hstate hgrant (hread'.trans hread) hrest' hr'
      ha' hsb' (haxi'.trans haxi) (by rw [step_net, hsel]; exact hdest)
      (by rw [step_net, clock_eq hok.rst, hclk])
      (fun n hn => by
        rw [step_net, hsel] at hn
        rw [step_net, clock_eq hok.rst, hclk]
        simp [hn, defaults, allOff])
      (by simp)
    rw [step_net, hsel] at hphase
    refine h.extend hok _ hphase (fun w => ?_) fun w => rfl
    rw [hpend w]
    cases w with
    | sAw n =>
      rw [hstart]
      simp [Interconnect.pending]
    | mAw m =>
      rw [hrest _ (by simp)]
      simp [Interconnect.pending, NetTxn.atSlave, NetTxn.dest, hdest, hrest'.mAwvalid, hstate]
    | mW m =>
      rw [hrest _ (by simp)]
      simp [Interconnect.pending, NetTxn.atSlave, NetTxn.dest, hdest, hout.held]
    | mB m =>
      rw [hrest _ (by simp)]
      simp [Interconnect.pending, NetTxn.atSlave, NetTxn.dest, hdest]
    | sW n | sB n =>
      rw [hrest _ (by simp)]
      simp [Interconnect.pending, hsb']
    | sAr n | mR m =>
      rw [hrest _ (by simp)]
      rfl
    | sR n => rw [hrest _ (by simp), (hr'.pending (by rw [hstate]; decide)).1]
    | mAr m => rw [hrest _ (by simp), (hr'.pending (by rw [hstate]; decide)).2]
  · -- the slave `m` is responsible, and sees the request with the next edge
    have hclk : t.net.next i = { t.net.defaults i with
        mSelect := m
        region := BitVec.ofNat 4 j
        sWready := Function.update (t.net.defaults i).sWready t.net.sSelect
          (t.net.wOut.early (t.net.wIn i))
        state := .write } := by
      rw [Interconnect.next, hst]
      simp [clockDecode, hread, hprot, haddr, hdest]
    have hstate : (t.net.clock i).state = .write := by rw [clock_eq hok.rst, hclk]
    have hsb' (n : ℕ) : (t.net.clock i).sBvalid n = false := by
      rw [clock_eq hok.rst, hclk]
      simp [defaults, hw.sBvalid]
    have hmaw' (k : ℕ) : (t.net.clock i).mAwvalid k = false := by
      rw [clock_eq hok.rst, hclk]
      simp [defaults, hw.mAwvalid]
    have hregion' : (t.net.clock i).region = BitVec.ofNat 4 j := by rw [clock_eq hok.rst, hclk]
    have hselect' : (t.net.clock i).mSelect = m := by rw [clock_eq hok.rst, hclk]
    have hav' : (t.net.clock i).addrValid = true := by
      rw [clock_eq hok.rst, hclk]
      exact hav
    have hwriting : Writing (t.net.clock i) req m j :=
      ⟨hgrant, hread'.trans hread, hr', ha', haxi'.trans haxi, by rw [hsel]; exact hdest, hselect', hregion',
        hsb', fun k _ => hmaw' k, .of_empty hout m⟩
    have hphase := NetPhase.write (t := t.step i) req [] m j hstate hwriting
      (fun n hn => by
        rw [step_net, hsel] at hn
        rw [step_net, clock_eq hok.rst, hclk]
        simp [hn, defaults, allOff])
      (fun _ => by
        rw [step_net, clock_eq hok.rst]
        exact hw.wOut.early)
      (fun k => by rw [step_net, clock_eq hok.rst, hclk]; rfl)
      (fun _ => hmaw' m) (by simp)
    rw [step_net, hsel] at hphase
    refine h.extend hok _ hphase (fun w => ?_) fun w => rfl
    rw [hpend w]
    cases w with
    | sAw n =>
      rw [hstart]
      simp [Interconnect.pending]
    | mAw k =>
      rw [hrest _ (by simp)]
      by_cases hk : k = m
      · simp [Interconnect.pending, NetTxn.atSlave, NetTxn.dest, hdest, hstate, hav',
          hselect', hk, mAw_eq (haxi'.trans haxi) hregion']
      · simp [Interconnect.pending, NetTxn.atSlave, NetTxn.dest, hdest, hmaw', hselect', hk]
    | mW k =>
      rw [hrest _ (by simp)]
      simp [Interconnect.pending, NetTxn.atSlave, NetTxn.dest, hdest, hout.held]
    | mB k =>
      rw [hrest _ (by simp)]
      simp [Interconnect.pending, NetTxn.atSlave, NetTxn.dest, hdest]
    | sW n | sB n =>
      rw [hrest _ (by simp)]
      simp [Interconnect.pending, hsb']
    | sAr n | mR m =>
      rw [hrest _ (by simp)]
      rfl
    | sR n => rw [hrest _ (by simp), (hr'.pending (by rw [hstate]; decide)).1]
    | mAr m => rw [hrest _ (by simp), (hr'.pending (by rw [hstate]; decide)).2]

/-! ## Writing -/

/-- The word of write data that is taken. -/
def written (s : Interconnect N) (i : NetIn N) : List (NetW N) :=
  if s.wIntValid i then [i.sW s.sSelect] else []

/-- What the words `xs` add to a write to the slave `m`. -/
def newWrite (p m : ℕ) (xs : List (NetW N)) : Wire → List (NetBeat N)
  | .sW n => if n = p then xs.map .w else []
  | .mW k => if k = m then xs.map fun x => .w (mWOf x) else []
  | _ => []

theorem events_append_write {p m j : ℕ} {req : NetReq N N.awuserWidth} {beats xs : List (NetW N)}
    (hdest : N.decode false p req.prot req.addr = some (m, j)) (w : Wire) :
    (NetTxn.write p req (beats ++ xs) []).events w =
      (NetTxn.write p req beats []).events w ++ newWrite p m xs w := by
  cases w with
  | sW n => by_cases hn : n = p <;> simp [NetTxn.events, newWrite, hn]
  | mW k => by_cases hk : k = m <;> simp [NetTxn.events, NetTxn.atSlave, NetTxn.dest, newWrite, hdest, hk]
  | sAw n | sB n | sAr n | sR n | mAw m | mB m | mAr m | mR m =>
    simp [NetTxn.events, NetTxn.atSlave, NetTxn.dest, newWrite]

/-- **A step of the write state.** -/
theorem step_write {req : NetReq N N.awuserWidth} {beats : List (NetW N)} {m j : ℕ}
    (h : NetInv t ts (some (.write t.net.sSelect req beats [])) done) (hok : t.Served i)
    (hst : t.net.state = .write) (hwr : Writing t.net req m j)
    (hsw : ∀ n, n ≠ t.net.sSelect → t.net.sWready n = false)
    (hready : t.net.sWready t.net.sSelect = true → t.net.wOut.ready = true)
    (hmb : ∀ k, t.net.mBready k = false)
    (hav : t.net.addrValid = true → t.net.mAwvalid m = false) (hopen : ∀ x ∈ beats, x.last = false) :
    NetInv (t.step i) ts (some (.write t.net.sSelect req (beats ++ written t.net i) []))
      fun w => done w ++ t.net.events i w := by
  have hack := h.acked_eq_false (i := i) (by rw [hst]; decide)
  obtain ⟨hgrant, hsel, hread⟩ := h.keep_grant hok hwr.grant hack
  have hno := h.no_r hok (by simp)
  have hr' := hwr.readIdle.clock hok.rst (by rw [hst]; decide) (by rw [hst]; decide)
  have ha' := noAddr_clock (i := i) hok.rst (s := t.net) (by rw [hst]; decide)
  have haxi' := clock_axi (i := i) hok.rst (s := t.net) (by rw [hst]; decide) (by rw [hst]; decide)
  obtain ⟨hregion', hselect'⟩ := clock_region (i := i) hok.rst (s := t.net) (by rw [hst]; decide)
  have hnext : t.net.next i = t.net.clockWrite i := by rw [Interconnect.next, hst]
  have hskid' : SkidInv (t.net.clock i).wOut m := by
    have hskid := hwr.skid
    rw [← hwr.select] at hskid ⊢
    rw [clock_eq hok.rst]
    exact SkidInv.next (i := t.net.wIn i) hskid
  have hsb' (n : ℕ) : (t.net.clock i).sBvalid n = false := by
    rw [clock_eq hok.rst, hnext]
    unfold clockWrite
    dsimp only
    split_ifs <;> simp [defaults, hwr.sBvalid]
  have hav' : (t.net.clock i).addrValid = false := by
    rw [clock_eq hok.rst, hnext]
    unfold clockWrite
    dsimp only
    split_ifs <;> rfl
  have hmaw' (k : ℕ) : (t.net.clock i).mAwvalid k =
      if k = m ∧ t.net.addrValid = true then true else t.net.mAwvalid k && !i.mAwready k := by
    rw [clock_eq hok.rst, hnext]
    unfold clockWrite
    dsimp only
    by_cases hk : k = m <;> split_ifs <;> simp_all [defaults, hwr.select]
  have hwriting : Writing (t.net.clock i) req m j :=
    ⟨hgrant, hread.trans hwr.read, hr', ha', haxi'.trans hwr.axi, by rw [hsel]; exact hwr.dest,
      hselect'.trans hwr.select, hregion'.trans hwr.region, hsb', fun k hk => by simp [hmaw', hk, hwr.mAwvalid k hk],
      hskid'⟩
  have hphase : NetPhase (t.step i) (some (.write t.net.sSelect req (beats ++ written t.net i) [])) := by
    rw [← hsel, ← step_net]
    by_cases hlast : (t.net.wIntValid i && (i.sW t.net.sSelect).last) = true
    · -- the last word
      have hclk : t.net.next i = { t.net.clockWrite i with
          sWready := Function.update allOff t.net.sSelect false
          mBready := Function.update allOff t.net.mSelect true
          state := .writeResp } := by
        rw [hnext]
        unfold clockWrite
        dsimp only
        rw [if_pos hlast]
        split_ifs <;> rfl
      rw [Bool.and_eq_true] at hlast
      refine .writeResp req _ m j ?_ hwriting (fun n => ?_) (fun k hk => ?_) ?_
      · rw [step_net, clock_eq hok.rst, hclk]
      · rw [step_net, clock_eq hok.rst, hclk]
        by_cases hn : n = t.net.sSelect <;> simp [hn, allOff]
      · rw [step_net, clock_eq hok.rst, hclk]
        simp [hwr.select, hk, allOff]
      · exact ⟨beats, _, by rw [written, if_pos hlast.1], hopen, hlast.2⟩
    · have hclk : t.net.next i = { t.net.clockWrite i with
          sWready := Function.update allOff t.net.sSelect (t.net.wOut.early (t.net.wIn i))
          mBready := allOff
          state := .write } := by
        rw [hnext]
        unfold clockWrite
        dsimp only
        rw [if_neg hlast]
        split_ifs <;> rfl
      refine .write req _ m j ?_ hwriting (fun n hn => ?_) (fun hrdy => ?_) (fun k => ?_) (fun hv => ?_)
        fun x hx => ?_
      · rw [step_net, clock_eq hok.rst, hclk]
      · rw [step_net, hsel] at hn
        rw [step_net, clock_eq hok.rst, hclk]
        simp [hn, allOff]
      · rw [step_net, hsel, clock_eq hok.rst, hclk] at hrdy
        rw [step_net, clock_eq hok.rst]
        simpa [Skid.next] using hrdy
      · rw [step_net, clock_eq hok.rst, hclk]
        rfl
      · rw [step_net, hav'] at hv
        cases hv
      · rcases List.mem_append.mp hx with hx | hx
        · exact hopen x hx
        · unfold written at hx
          split_ifs at hx with hv
          · rw [List.mem_singleton.mp hx]
            simpa [hv] using hlast
          · cases hx
  refine h.extend hok _ hphase (fun w => ?_) fun w => events_append_write hwr.dest w
  have hnr : t.net.state ≠ .read := by rw [hst]; decide
  have hst' : (t.net.clock i).state ≠ .read := by
    rw [clock_eq hok.rst, hnext]
    unfold clockWrite
    dsimp only
    split_ifs <;> simp
  have haccept : t.net.wOut.accepted (t.net.wIn i) = written t.net i := by
    show (if t.net.wOut.ready && t.net.wIntValid i then [i.sW t.net.sSelect] else []) = _
    unfold written
    cases hv : t.net.wIntValid i with
    | false => simp
    | true =>
      rw [wIntValid, hst, Bool.and_eq_true] at hv
      simp [hready hv.1]
  have hmAw := mAw_eq hwr.axi hwr.region
  have hmAw' := mAw_eq hwriting.axi hwriting.region
  cases w with
  | sAw n => rw [hwr.noAddr.events.1]; rfl
  | sAr n => rw [hwr.noAddr.events.2]; rfl
  | sW n =>
    by_cases hn : n = t.net.sSelect
    · subst hn
      simp only [Interconnect.events, Interconnect.pending, newWrite, written, wIntValid, hst, if_true]
      cases i.sWvalid t.net.sSelect <;> cases t.net.sWready t.net.sSelect <;> rfl
    · simp [Interconnect.events, Interconnect.pending, newWrite, hsw n hn, hn]
  | sB n => simp [Interconnect.events, Interconnect.pending, hwr.sBvalid, hsb', newWrite]
  | sR n => rw [hwr.readIdle.events.1, (hr'.pending hst').1, (hwr.readIdle.pending hnr).1]; rfl
  | mAw k =>
    by_cases hk : k = m
    · subst hk
      cases hv : t.net.addrValid with
      | true =>
        simp [Interconnect.events, Interconnect.pending, newWrite, hav hv, hmaw', hv, hst, hwr.select, hmAw,
          hmAw']
      | false =>
        cases hm : t.net.mAwvalid k <;> cases hrd : i.mAwready k <;>
          simp [Interconnect.events, Interconnect.pending, newWrite, hm, hrd, hmaw', hv, hmAw, hmAw', hav']
    · simp [Interconnect.events, Interconnect.pending, newWrite, hk, hmaw', hwr.mAwvalid k hk, hav',
        hwr.select]
  | mW k =>
    rw [flow_mW hok.rst (by rw [hwr.select]; exact hwr.skid), haccept, hwr.select]
    rfl
  | mB k => simp [Interconnect.events, Interconnect.pending, newWrite, hmb]
  | mAr k => rw [hwr.readIdle.events.2, (hr'.pending hst').2, (hwr.readIdle.pending hnr).2]; rfl
  | mR k => rw [events_mR_of_not (hno k)]; rfl

/-- The response that is taken. -/
def answered (s : Interconnect N) (i : NetIn N) : List (NetB N) :=
  if s.mBready s.mSelect && i.mBvalid s.mSelect then [i.mB s.mSelect] else []

/-- What the responses `bs` add to a write to the slave `m`. -/
def newResp (p m : ℕ) (id : BitVec N.idWidth) (bs : List (NetB N)) : Wire → List (NetBeat N)
  | .sB n => if n = p then bs.map fun b => .b ⟨id, b.resp, 0⟩ else []
  | .mB k => if k = m then bs.map .b else []
  | _ => []

theorem events_append_resp {p m j : ℕ} {req : NetReq N N.awuserWidth} {beats : List (NetW N)}
    {bs : List (NetB N)} (hdest : N.decode false p req.prot req.addr = some (m, j)) (w : Wire) :
    (NetTxn.write p req beats bs).events w =
      (NetTxn.write p req beats []).events w ++ newResp p m req.id bs w := by
  cases w with
  | sB n => by_cases hn : n = p <;> simp [NetTxn.events, newResp, hn]
  | mB k => by_cases hk : k = m <;> simp [NetTxn.events, NetTxn.atSlave, NetTxn.dest, newResp, hdest, hk]
  | sAw n | sW n | sAr n | sR n | mAw m | mW m | mAr m | mR m =>
    simp [NetTxn.events, NetTxn.atSlave, NetTxn.dest, newResp]

theorem sB_eq {s : Interconnect N} (hu : s.buser = 0) : s.sB = ⟨s.axi.id, s.bresp, 0⟩ := by
  unfold sB
  rw [hu, ite_self]

/-- **A step of the state that waits for the response.** -/
theorem step_writeResp {req : NetReq N N.awuserWidth} {beats : List (NetW N)} {m j : ℕ}
    (h : NetInv t ts (some (.write t.net.sSelect req beats [])) done) (hok : t.Served i)
    (hst : t.net.state = .writeResp) (hwr : Writing t.net req m j)
    (hsw : ∀ n, t.net.sWready n = false) (hmb : ∀ k, k ≠ m → t.net.mBready k = false)
    (hwhole : Whole NetW.last beats) :
    NetInv (t.step i) ts (some (.write t.net.sSelect req beats (answered t.net i)))
      fun w => done w ++ t.net.events i w := by
  have hack := h.acked_eq_false (i := i) (by rw [hst]; decide)
  obtain ⟨hgrant, hsel, hread⟩ := h.keep_grant hok hwr.grant hack
  have hno := h.no_r hok (by simp)
  have hnr : t.net.state ≠ .read := by rw [hst]; decide
  have hr' := hwr.readIdle.clock hok.rst hnr (by rw [hst]; decide)
  have ha' := noAddr_clock (i := i) hok.rst (s := t.net) (by rw [hst]; decide)
  have haxi' := clock_axi (i := i) hok.rst (s := t.net) (by rw [hst]; decide) (by rw [hst]; decide)
  obtain ⟨hregion', hselect'⟩ := clock_region (i := i) hok.rst (s := t.net) (by rw [hst]; decide)
  have hnext : t.net.next i = t.net.clockWriteResp i := by rw [Interconnect.next, hst]
  have hint : t.net.wIntValid i = false := by rw [wIntValid, hst]
  have hout' : (t.net.clock i).wOut = t.net.wOut.next (t.net.wIn i) := by rw [clock_eq hok.rst]
  have hskid : SkidInv t.net.wOut t.net.mSelect := by rw [hwr.select]; exact hwr.skid
  have hskid' : SkidInv (t.net.clock i).wOut m := by
    rw [hout', ← hwr.select]
    exact SkidInv.next (i := t.net.wIn i) hskid
  have hsw' (n : ℕ) : (t.net.clock i).sWready n = false := by
    rw [clock_eq hok.rst, hnext]
    unfold clockWriteResp
    dsimp only
    split_ifs <;> rfl
  have hmaw' (k : ℕ) : (t.net.clock i).mAwvalid k = (t.net.mAwvalid k && !i.mAwready k) := by
    rw [clock_eq hok.rst, hnext]
    unfold clockWriteResp
    dsimp only
    split_ifs <;> rfl
  have hbuser' : (t.net.clock i).buser = 0 := (buser_clock hok.rst).trans h.buser
  have hphase : NetPhase (t.step i) (some (.write t.net.sSelect req beats (answered t.net i))) ∧
      ∀ n, (t.net.clock i).pending (.sB n) = newResp t.net.sSelect m req.id (answered t.net i) (.sB n) := by
    by_cases hfire : (t.net.mBready t.net.mSelect && i.mBvalid t.net.mSelect) = true
    · -- the slave has the request and all the data, so nothing of them is left
      have hclk : t.net.next i = { t.net.clockWriteResp i with
          mBready := Function.update allOff t.net.mSelect false
          bresp := (i.mB t.net.mSelect).resp
          sBvalid := Function.update (t.net.defaults i).sBvalid t.net.sSelect true
          state := .waitIdle } := by
        rw [hnext]
        unfold clockWriteResp
        dsimp only
        rw [if_pos hfire]
        rfl
      rw [Bool.and_eq_true, hwr.select] at hfire
      obtain ⟨hpaw, hpw⟩ := h.served_b hok hfire.2 hwr.dest hwhole
      have haw : t.net.mAwvalid m = false := by
        by_contra hv
        simp [Interconnect.pending, Bool.eq_true_of_not_eq_false hv] at hpaw
      have hheld : t.net.wOut.held m = [] := List.map_eq_nil_iff.mp hpw
      have hempty : t.net.wOut.Empty := by
        rw [← hwr.select] at hheld
        exact SkidInv.empty_of_held (i := t.net.wIn i) hskid hheld
      have hans : answered t.net i = [i.mB m] := by
        rw [answered, hwr.select, hfire.1, hfire.2]
        rfl
      have hsb' (n : ℕ) : (t.net.clock i).sBvalid n = (n == t.net.sSelect) := by
        rw [clock_eq hok.rst, hclk]
        by_cases hn : n = t.net.sSelect <;> simp [hn, defaults, hwr.sBvalid]
      have hresp' : (t.net.clock i).bresp = (i.mB m).resp := by rw [clock_eq hok.rst, hclk, hwr.select]
      have hid' : (t.net.clock i).axi.id = req.id := by rw [haxi', hwr.axi]; rfl
      rw [hans]
      constructor
      · rw [← hsel, ← step_net]
        refine .waitWrite req beats (i.mB m) ?_ hgrant (hread.trans hwr.read) ⟨fun k => ?_, fun k => ?_, ?_⟩
          hr' ha' (fun n => ?_) hsw' hid' hresp' ⟨hwhole, _, rfl, fun hd => ?_⟩
        · rw [step_net, clock_eq hok.rst, hclk]
        · rw [step_net, hmaw']
          by_cases hk : k = m
          · simp [hk, haw]
          · simp [hwr.mAwvalid k hk]
        · rw [step_net, clock_eq hok.rst, hclk]
          by_cases hk : k = t.net.mSelect <;> simp [hk, allOff]
        · rw [step_net, hout']
          exact hempty.next hint
        · rw [step_net, hsel]
          exact hsb' n
        · rw [NetTxn.dest, step_net, hsel, hwr.dest] at hd
          cases hd
      · intro n
        simp only [Interconnect.pending, hsb', newResp, List.map_singleton, sB_eq hbuser', hid', hresp',
          beq_iff_eq]
    · have hclk : t.net.next i = { t.net.clockWriteResp i with
          mBready := Function.update allOff t.net.mSelect true
          sBvalid := (t.net.defaults i).sBvalid
          state := .writeResp } := by
        rw [hnext]
        unfold clockWriteResp
        dsimp only
        rw [if_neg hfire]
        rfl
      have hans : answered t.net i = [] := if_neg hfire
      have hsb' (n : ℕ) : (t.net.clock i).sBvalid n = false := by
        rw [clock_eq hok.rst, hclk]
        simp [defaults, hwr.sBvalid]
      rw [hans]
      constructor
      · rw [← hsel, ← step_net]
        refine .writeResp req beats m j ?_ ⟨hgrant, hread.trans hwr.read, hr', ha', haxi'.trans hwr.axi, ?_,
          hselect'.trans hwr.select, hregion'.trans hwr.region, hsb', fun k hk => ?_, hskid'⟩ hsw'
          (fun k hk => ?_) hwhole
        · rw [step_net, clock_eq hok.rst, hclk]
        · rw [step_net, hsel]
          exact hwr.dest
        · rw [step_net, hmaw', hwr.mAwvalid k hk]
          rfl
        · rw [step_net, clock_eq hok.rst, hclk]
          simp [hwr.select, hk, allOff]
      · intro n
        simp [Interconnect.pending, hsb', newResp]
  obtain ⟨hphase, hsB⟩ := hphase
  refine h.extend hok _ hphase (fun w => ?_) fun w => events_append_resp hwr.dest w
  have hst' : (t.net.clock i).state ≠ .read ∧ (t.net.clock i).state ≠ .write := by
    rw [clock_eq hok.rst, hnext]
    unfold clockWriteResp
    dsimp only
    split_ifs <;> simp
  have haccept : t.net.wOut.accepted (t.net.wIn i) = [] := by
    show (if t.net.wOut.ready && t.net.wIntValid i then [i.sW t.net.sSelect] else []) = _
    simp [hint]
  have hmAw := mAw_eq hwr.axi hwr.region
  have hmAw' := mAw_eq (haxi'.trans hwr.axi) (hregion'.trans hwr.region)
  cases w with
  | sAw n => rw [hwr.noAddr.events.1]; rfl
  | sAr n => rw [hwr.noAddr.events.2]; rfl
  | sW n => simp [Interconnect.events, Interconnect.pending, hsw, newResp]
  | sB n =>
    rw [hsB]
    simp [Interconnect.events, Interconnect.pending, hwr.sBvalid]
  | sR n => rw [hwr.readIdle.events.1, (hr'.pending hst'.1).1, (hwr.readIdle.pending hnr).1]; rfl
  | mAw k =>
    simp only [Interconnect.events, Interconnect.pending, newResp, hmaw', hmAw, hmAw', hst]
    cases t.net.mAwvalid k <;> cases i.mAwready k <;> simp [hst'.2]
  | mW k =>
    rw [flow_mW hok.rst hskid, haccept]
    simp [newResp]
  | mB k =>
    by_cases hk : k = m
    · simp only [Interconnect.events, Interconnect.pending, newResp, answered, hwr.select, hk, if_true]
      cases i.mBvalid m <;> cases t.net.mBready m <;> rfl
    · simp [Interconnect.events, Interconnect.pending, newResp, hmb k hk, hk]
  | mAr k => rw [hwr.readIdle.events.2, (hr'.pending hst'.1).2, (hwr.readIdle.pending hnr).2]; rfl
  | mR k => rw [events_mR_of_not (hno k)]; rfl

/-! ## Dropping a write -/

/-- The word of write data that is dropped. -/
def dropped (s : Interconnect N) (i : NetIn N) : List (NetW N) :=
  if s.sWready s.sSelect && i.sWvalid s.sSelect then [i.sW s.sSelect] else []

/-- The response made up behind the last of them. -/
def dropResp (id : BitVec N.idWidth) (xs : List (NetW N)) : List (NetB N) :=
  if xs.any NetW.last then [⟨id, axiRespDecerr, 0⟩] else []

/-- What is added to a write that is dropped. -/
def newDrop (p : ℕ) (xs : List (NetW N)) (bs : List (NetB N)) : Wire → List (NetBeat N)
  | .sW n => if n = p then xs.map .w else []
  | .sB n => if n = p then bs.map .b else []
  | _ => []

theorem events_append_drop {p : ℕ} {req : NetReq N N.awuserWidth} {beats xs : List (NetW N)}
    (hdest : N.decode false p req.prot req.addr = none) (w : Wire) :
    (NetTxn.write p req (beats ++ xs) (dropResp req.id xs)).events w =
      (NetTxn.write p req beats []).events w ++ newDrop p xs (dropResp req.id xs) w := by
  cases w with
  | sW n => by_cases hn : n = p <;> simp [NetTxn.events, newDrop, hn]
  | sB n => by_cases hn : n = p <;> simp only [NetTxn.events, newDrop, dropResp, hn] <;> split_ifs <;> rfl
  | sAw n | sAr n | sR n | mAw m | mW m | mB m | mAr m | mR m =>
    simp [NetTxn.events, NetTxn.atSlave, NetTxn.dest, newDrop, hdest]

/-- **A step of the state that drops write data.** -/
theorem step_writeDrop {req : NetReq N N.awuserWidth} {beats : List (NetW N)}
    (h : NetInv t ts (some (.write t.net.sSelect req beats [])) done) (hok : t.Served i)
    (hst : t.net.state = .writeDrop) (hg : t.net.arb.grantValid = true)
    (hread : t.net.isRead = false) (hw : WriteRest t.net) (hr : ReadIdle t.net) (ha : NoAddr t.net)
    (hsb : ∀ n, t.net.sBvalid n = false) (haxi : t.net.axi = req.withUser _)
    (hdest : N.decode false t.net.sSelect req.prot req.addr = none)
    (hresp : t.net.bresp = axiRespDecerr) (hsw : ∀ n, n ≠ t.net.sSelect → t.net.sWready n = false)
    (hopen : ∀ x ∈ beats, x.last = false) :
    NetInv (t.step i) ts (some (.write t.net.sSelect req (beats ++ dropped t.net i)
      (dropResp req.id (dropped t.net i)))) fun w => done w ++ t.net.events i w := by
  have hack := h.acked_eq_false (i := i) (by rw [hst]; decide)
  obtain ⟨hgrant, hsel, hread'⟩ := h.keep_grant hok hg hack
  have hno := h.no_r hok (by simp)
  have hnr : t.net.state ≠ .read := by rw [hst]; decide
  have hr' := hr.clock hok.rst hnr (by rw [hst]; decide)
  have ha' := noAddr_clock (i := i) hok.rst (s := t.net) (by rw [hst]; decide)
  have haxi' := clock_axi (i := i) hok.rst (s := t.net) (by rw [hst]; decide) (by rw [hst]; decide)
  have hnext : t.net.next i = t.net.clockWriteDrop i := by rw [Interconnect.next, hst]
  have hout' : (t.net.clock i).wOut.Empty := by
    rw [clock_eq hok.rst]
    exact hw.wOut.next (by show t.net.wIntValid i = false; rw [wIntValid, hst])
  have hw' : WriteRest (t.net.clock i) := by
    refine ⟨fun m => ?_, fun m => ?_, hout'⟩
    all_goals
      rw [clock_eq hok.rst, hnext]
      unfold clockWriteDrop
      dsimp only
      split_ifs <;> simp [defaults, hw.mAwvalid, allOff]
  have hresp' : (t.net.clock i).bresp = axiRespDecerr := by
    rw [clock_eq hok.rst, hnext, ← hresp]
    unfold clockWriteDrop
    dsimp only
    split_ifs <;> rfl
  have hbuser' : (t.net.clock i).buser = 0 := (buser_clock hok.rst).trans h.buser
  have hid' : (t.net.clock i).axi.id = req.id := by rw [haxi', haxi]; rfl
  have hphase : NetPhase (t.step i) (some (.write t.net.sSelect req (beats ++ dropped t.net i)
      (dropResp req.id (dropped t.net i)))) ∧ ∀ n, (t.net.clock i).pending (.sB n) =
        newDrop t.net.sSelect (dropped t.net i) (dropResp req.id (dropped t.net i)) (.sB n) := by
    by_cases hlast : (t.net.sWready t.net.sSelect && i.sWvalid t.net.sSelect &&
        (i.sW t.net.sSelect).last) = true
    · have hclk : t.net.next i = { t.net.clockWriteDrop i with
          sWready := Function.update allOff t.net.sSelect false
          sBvalid := Function.update (t.net.defaults i).sBvalid t.net.sSelect true
          state := .waitIdle } := by
        rw [hnext]
        unfold clockWriteDrop
        dsimp only
        rw [if_pos hlast]
        rfl
      rw [Bool.and_eq_true] at hlast
      have hdrop : dropped t.net i = [i.sW t.net.sSelect] := if_pos hlast.1
      have hmade : dropResp req.id (dropped t.net i) = [⟨req.id, axiRespDecerr, 0⟩] := by
        rw [hdrop]
        simp [dropResp, hlast.2]
      have hsb' (n : ℕ) : (t.net.clock i).sBvalid n = (n == t.net.sSelect) := by
        rw [clock_eq hok.rst, hclk]
        by_cases hn : n = t.net.sSelect <;> simp [hn, defaults, hsb]
      rw [hmade, hdrop]
      constructor
      · rw [← hsel, ← step_net]
        refine .waitWrite req _ _ ?_ hgrant (hread'.trans hread) hw' hr' ha' (fun n => ?_) (fun n => ?_)
          hid' hresp' ⟨⟨beats, _, by rw [step_net, hsel], hopen, hlast.2⟩, _, rfl, fun _ => rfl⟩
        · rw [step_net, clock_eq hok.rst, hclk]
        · rw [step_net, hsel]
          exact hsb' n
        · rw [step_net, clock_eq hok.rst, hclk]
          by_cases hn : n = t.net.sSelect <;> simp [hn, allOff]
      · intro n
        simp only [Interconnect.pending, hsb', newDrop, List.map_singleton, sB_eq hbuser', hid', hresp',
          beq_iff_eq]
    · have hclk : t.net.next i = { t.net.clockWriteDrop i with
          sWready := Function.update allOff t.net.sSelect true
          sBvalid := (t.net.defaults i).sBvalid
          state := .writeDrop } := by
        rw [hnext]
        unfold clockWriteDrop
        dsimp only
        rw [if_neg hlast]
        rfl
      have hunmarked : ∀ x ∈ dropped t.net i, x.last = false := by
        intro x hx
        unfold dropped at hx
        split_ifs at hx with hv
        · rw [List.mem_singleton.mp hx]
          simpa [hv] using hlast
        · cases hx
      have hmade : dropResp req.id (dropped t.net i) = [] := by
        refine if_neg ?_
        rw [List.any_eq_true]
        rintro ⟨x, hx, hl⟩
        rw [hunmarked x hx] at hl
        cases hl
      have hsb' (n : ℕ) : (t.net.clock i).sBvalid n = false := by
        rw [clock_eq hok.rst, hclk]
        simp [defaults, hsb]
      rw [hmade]
      constructor
      · rw [← hsel, ← step_net]
        refine .writeDrop req _ ?_ hgrant (hread'.trans hread) hw' hr' ha' hsb' (haxi'.trans haxi) ?_
          hresp' (fun n hn => ?_) fun x hx => ?_
        · rw [step_net, clock_eq hok.rst, hclk]
        · rw [step_net, hsel]
          exact hdest
        · rw [step_net, hsel] at hn
          rw [step_net, clock_eq hok.rst, hclk]
          simp [hn, allOff]
        · rcases List.mem_append.mp hx with hx | hx
          · exact hopen x hx
          · exact hunmarked x hx
      · intro n
        simp [Interconnect.pending, hsb', newDrop]
  obtain ⟨hphase, hsB⟩ := hphase
  refine h.extend hok _ hphase (fun w => ?_) fun w => events_append_drop hdest w
  have hst' : (t.net.clock i).state ≠ .read ∧ (t.net.clock i).state ≠ .write := by
    rw [clock_eq hok.rst, hnext]
    unfold clockWriteDrop
    dsimp only
    split_ifs <;> simp
  cases w with
  | sAw n => rw [ha.events.1]; rfl
  | sAr n => rw [ha.events.2]; rfl
  | sW n =>
    by_cases hn : n = t.net.sSelect
    · subst hn
      simp only [Interconnect.events, Interconnect.pending, newDrop, dropped, if_true]
      cases i.sWvalid t.net.sSelect <;> cases t.net.sWready t.net.sSelect <;> rfl
    · simp [Interconnect.events, Interconnect.pending, newDrop, hsw n hn, hn]
  | sB n =>
    rw [hsB]
    simp [Interconnect.events, Interconnect.pending, hsb]
  | sR n => rw [hr.events.1, (hr'.pending hst'.1).1, (hr.pending hnr).1]; rfl
  | mAw k => simp [Interconnect.events, Interconnect.pending, newDrop, hw.mAwvalid, hw'.mAwvalid, hst, hst'.2]
  | mW k => simp [Interconnect.events, Interconnect.pending, newDrop, hw.wOut.valid, hw.wOut.held, hout'.held]
  | mB k => simp [Interconnect.events, Interconnect.pending, newDrop, hw.mBready]
  | mAr k => rw [hr.events.2, (hr'.pending hst'.1).2, (hr.pending hnr).2]; rfl
  | mR k => rw [events_mR_of_not (hno k)]; rfl

/-! ## The end of a write -/

/-- **A step of the state that waits for the response to be taken.** -/
theorem step_waitWrite {req : NetReq N N.awuserWidth} {beats : List (NetW N)} {b : NetB N}
    (h : NetInv t ts (some (.write t.net.sSelect req beats [b])) done) (hok : t.Served i)
    (hst : t.net.state = .waitIdle) (hg : t.net.arb.grantValid = true)
    (hread : t.net.isRead = false) (hw : WriteRest t.net) (hr : ReadIdle t.net) (ha : NoAddr t.net)
    (hsb : ∀ n, t.net.sBvalid n = (n == t.net.sSelect)) (hsw : ∀ n, t.net.sWready n = false)
    (hid : t.net.axi.id = req.id) (hresp : t.net.bresp = b.resp)
    (hdone : (NetTxn.write t.net.sSelect req beats [b]).Complete) :
    ∃ ts' cur' done', NetInv (t.step i) ts' cur' done' := by
  have hno := h.no_r hok (by simp)
  have hnr : t.net.state ≠ .read := by rw [hst]; decide
  have hr' := hr.clock hok.rst hnr (by rw [hst]; decide)
  have ha' := noAddr_clock (i := i) hok.rst (s := t.net) (by rw [hst]; decide)
  have haxi' := clock_axi (i := i) hok.rst (s := t.net) (by rw [hst]; decide) (by rw [hst]; decide)
  have hacked : t.net.acked i = i.sBready t.net.sSelect := by simp [acked, hread, hsb]
  have hclk := next_waitIdle (i := i) h.arb hg hst
  have hout' : (t.net.clock i).wOut.Empty := by
    rw [clock_eq hok.rst]
    exact hw.wOut.next (by show t.net.wIntValid i = false; rw [wIntValid, hst])
  have hw' : WriteRest (t.net.clock i) := by
    refine ⟨fun m => ?_, fun m => ?_, hout'⟩
    all_goals
      rw [clock_eq hok.rst, hclk]
      simp [defaults, hw.mAwvalid, allOff]
  have hsw' (n : ℕ) : (t.net.clock i).sWready n = false := by rw [clock_eq hok.rst, hclk]; rfl
  have hsb' (n : ℕ) : (t.net.clock i).sBvalid n =
      ((n == t.net.sSelect) && !i.sBready t.net.sSelect) := by
    rw [clock_eq hok.rst, hclk]
    by_cases hn : n = t.net.sSelect
    · simp [defaults, hsb, hn]
    · simp [defaults, hsb, beq_eq_false_iff_ne.mpr hn]
  have hbresp' : (t.net.clock i).bresp = t.net.bresp := by rw [clock_eq hok.rst, hclk]; rfl
  have hbuser' : (t.net.clock i).buser = 0 := (buser_clock hok.rst).trans h.buser
  cases hack : i.sBready t.net.sSelect with
  | false =>
    -- the response stays
    have hstate : (t.net.clock i).state = .waitIdle := by
      rw [clock_eq hok.rst, hclk, hacked, hack]
      rfl
    obtain ⟨hgrant, hsel, hread'⟩ := h.keep_grant hok hg (hacked.trans hack)
    have hsB' : (t.net.clock i).sB = t.net.sB := by
      rw [sB_eq hbuser', sB_eq h.buser, haxi', hbresp']
    have hphase := NetPhase.waitWrite (t := t.step i) req beats b hstate hgrant (hread'.trans hread) hw' hr' ha'
      (fun n => by rw [step_net, hsel, hsb', hack]; simp) hsw' (by rw [step_net, haxi']; exact hid)
      (hbresp'.trans hresp) (by rw [step_net, hsel]; exact hdone)
    rw [step_net, hsel] at hphase
    refine ⟨_, _, _, h.extend hok (fun _ => []) hphase (fun w => ?_) fun w => (List.append_nil _).symm⟩
    rw [List.append_nil]
    cases w with
    | sAw n => rw [ha.events.1]; rfl
    | sAr n => rw [ha.events.2]; rfl
    | sW n => simp [Interconnect.events, Interconnect.pending, hsw]
    | sB n => by_cases hn : n = t.net.sSelect <;>
        simp [Interconnect.events, Interconnect.pending, hsb, hsb', hn, hack, hsB']
    | sR n => rw [hr.events.1, (hr'.pending (by rw [hstate]; decide)).1, (hr.pending hnr).1]; rfl
    | mAw k => simp [Interconnect.events, Interconnect.pending, hw.mAwvalid, hw'.mAwvalid, hst, hstate]
    | mW k => simp [Interconnect.events, Interconnect.pending, hw.wOut.valid, hw.wOut.held, hout'.held]
    | mB k => simp [Interconnect.events, Interconnect.pending, hw.mBready]
    | mAr k => rw [hr.events.2, (hr'.pending (by rw [hstate]; decide)).2, (hr.pending hnr).2]; rfl
    | mR k => rw [events_mR_of_not (hno k)]; rfl
  | true =>
    -- the response is taken, and the transaction is complete
    have hstate : (t.net.clock i).state = .idle := by
      rw [clock_eq hok.rst, hclk, hacked, hack]
      rfl
    have hidle : WriteIdle (t.net.clock i) := ⟨hw', hsw', fun n => by rw [hsb', hack]; simp⟩
    refine ⟨_, _, _, h.finish hok (.idle hstate hidle hr' ha' fun hg' => ?_) hdone (fun w => ?_)
      (pending_rest hidle hr' (by rw [hstate]; decide) (by rw [hstate]; decide))⟩
    · exact h.owed_of_release hok ha (fun _ => hacked.trans hack) hg'
    · cases w with
      | sAw n => exact ha.events.1 n
      | sAr n => exact ha.events.2 n
      | sW n => simp [Interconnect.events, Interconnect.pending, hsw]
      | sB n => by_cases hn : n = t.net.sSelect <;>
          simp [Interconnect.events, Interconnect.pending, hsb, hn, hack]
      | sR n => rw [hr.events.1, (hr.pending hnr).1]
      | mAw k => simp [Interconnect.events, Interconnect.pending, hw.mAwvalid, hst]
      | mW k => simp [Interconnect.events, Interconnect.pending, hw.wOut.valid, hw.wOut.held]
      | mB k => simp [Interconnect.events, Interconnect.pending, hw.mBready]
      | mAr k => rw [hr.events.2, (hr.pending hnr).2]
      | mR k => rw [events_mR_of_not (hno k)]; rfl

end NetInv

end PacketBuffering
