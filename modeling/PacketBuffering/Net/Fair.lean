import PacketBuffering.Net.Serial

/-!
# Fairness and offers of the interconnect

* `accepts`: the requests taken in a cycle; `next_grant`: the one that will be taken next;
  `NetInv.accepts_append`: requests are taken in the order of the grants.
* **`interconnect_fair`**: while a request waits, at most `2 * S_COUNT` others are taken.
* `Offered`: what the interconnect offers; **`interconnect_keeps`**: it stays until it is taken.
-/

namespace PacketBuffering

open Interconnect

variable {N : NetParams}

/-- The ports of the arbiter whose request is taken in a cycle. -/
def accepts (s : Interconnect N) (i : NetIn N) : List ℕ :=
  (List.range (N.sCount * 2)).filter fun k =>
    if k % 2 = 0 then i.sAwvalid (k / 2) && s.sAwready (k / 2)
    else i.sArvalid (k / 2) && s.sArready (k / 2)

/-- The port granted, as long as its request is not taken. -/
def nextGrant (s : Interconnect N) : List ℕ :=
  match s.state with
  | .idle | .decode => if s.arb.grantValid then [s.arb.grantEncoded] else []
  | _ => []

/-- The port granted anew. -/
def grants (s : Interconnect N) (i : NetIn N) : List ℕ := s.arb.decisions N.arbiter (s.arbIn i)

namespace NetInv

variable {t : NetTrace N} {ts : List (NetTxn N)} {cur : Option (NetTxn N)}
  {done : Wire → List (NetBeat N)} {i : NetIn N}

theorem accepts_of_noAddr {s : Interconnect N} (ha : NoAddr s) : accepts s i = [] := by
  unfold accepts
  rw [List.filter_eq_nil_iff]
  intro k _
  split_ifs <;> simp [ha.sAwready, ha.sArready]

theorem filter_range_eq {n k : ℕ} {p : ℕ → Bool} (hk : k < n) (hp : ∀ j, p j = (j == k)) :
    (List.range n).filter p = [k] := by
  have hp' : p = (· == k) := funext hp
  rw [hp', List.filter_beq, List.count_eq_one_of_mem List.nodup_range (List.mem_range.mpr hk)]
  rfl

theorem accepts_of_decode (h : NetInv t ts cur done) (hok : t.Served i) (hst : t.net.state = .decode) :
    accepts t.net i = [t.net.arb.grantEncoded] := by
  have hphase := h.phase
  cases hphase with
  | decodeWrite req _ hg hread _ _ har haw howed _ _ =>
    have hkeep := hok.aw t.net.sSelect
    rw [howed, keeps_some] at hkeep
    refine filter_range_eq (h.arb.lt hg) fun k => ?_
    rw [isRead_eq, Bool.not_eq_false', decide_eq_true_iff] at hread
    rw [sSelect_eq] at hkeep
    rw [haw, har, sSelect_eq, Bool.and_false]
    split_ifs with hk
    · by_cases heq : k = t.net.arb.grantEncoded
      · subst heq
        simp [hkeep.1]
      · have : k / 2 ≠ t.net.arb.grantEncoded / 2 := by omega
        rw [beq_eq_false_iff_ne.mpr this, beq_eq_false_iff_ne.mpr heq, Bool.and_false]
    · exact (beq_eq_false_iff_ne.mpr (by rintro rfl; exact hk hread)).symm
  | decodeRead req _ hg hread _ _ haw har howed _ _ =>
    have hkeep := hok.ar t.net.sSelect
    rw [howed, keeps_some] at hkeep
    refine filter_range_eq (h.arb.lt hg) fun k => ?_
    rw [isRead_eq, Bool.not_eq_true', decide_eq_false_iff_not] at hread
    rw [sSelect_eq] at hkeep
    rw [haw, har, sSelect_eq, Bool.and_false]
    split_ifs with hk
    · exact (beq_eq_false_iff_ne.mpr (by rintro rfl; exact hread hk)).symm
    · by_cases heq : k = t.net.arb.grantEncoded
      · subst heq
        simp [hkeep.1]
      · have : k / 2 ≠ t.net.arb.grantEncoded / 2 := by omega
        rw [beq_eq_false_iff_ne.mpr this, beq_eq_false_iff_ne.mpr heq, Bool.and_false]
  | idle hst' => rw [hst] at hst'; cases hst'
  | write _ _ _ _ hst' | writeResp _ _ _ _ hst' | read _ _ _ _ hst' => rw [hst] at hst'; cases hst'
  | writeDrop _ _ hst' | waitRead _ _ hst' | readDrop _ _ hst' => rw [hst] at hst'; cases hst'
  | waitWrite _ _ _ hst' => rw [hst] at hst'; cases hst'

theorem grants_of_hold (h : NetInv t ts cur done) (hg : t.net.arb.grantValid = true)
    (hack : t.net.acked i = false) : grants t.net i = [] := by
  have hhold : t.net.arb.holds N.arbiter (t.net.arbIn i) = true := by
    rw [Arbiter.holds_of_blockAck h.arb rfl rfl hg]
    show (!t.net.acknowledge i t.net.arb.grantEncoded) = true
    rw [acknowledge_granted h.arb hg, hack]
    rfl
  simp [grants, Arbiter.decisions, hhold]

theorem grants_eq (h : NetInv t ts cur done) (hok : t.Served i)
    (hfree : t.net.arb.grantValid = true → t.net.acked i = true) :
    (if (t.net.clock i).arb.grantValid then [(t.net.clock i).arb.grantEncoded] else []) =
      grants t.net i := by
  have hnot : t.net.arb.holds N.arbiter (t.net.arbIn i) = false := holds_of_free h.arb hfree
  rw [clock_arb, grants]
  cases Arbiter.cycle (A := N.arbiter) (s := t.net.arb) (i := t.net.arbIn i) hok.rst with
  | hold hold _ _ => rw [hnot] at hold; cases hold
  | drop _ hdec hclock => rw [hdec, hclock]; rfl
  | grant _ _ _ hdec hclock => rw [hdec, hclock]; rfl

theorem nextGrant_of_idle {s : Interconnect N} (hst : s.state = .idle) :
    nextGrant s = if s.arb.grantValid then [s.arb.grantEncoded] else [] := by
  rw [nextGrant, hst]

/-- **Requests are taken in the order of the grants**, one for each of them. -/
theorem accepts_append (h : NetInv t ts cur done) (hok : t.Served i) :
    accepts t.net i ++ nextGrant (t.net.clock i) = nextGrant t.net ++ grants t.net i := by
  by_cases hidle : t.net.state = .idle
  · rw [accepts_of_noAddr (h.noAddr_of_not_decode (by rw [hidle]; decide)), nextGrant_of_idle hidle]
    have hnext := clock_state_idle (i := i) hok.rst hidle
    cases hg : t.net.arb.grantValid with
    | true =>
      have hack := h.acked_eq_false (i := i) (by rw [hidle]; decide)
      rw [hg, if_pos rfl] at hnext
      rw [h.grants_of_hold hg hack, nextGrant, hnext, arb_hold h.arb hok.rst hg hack, hg]
      rfl
    | false =>
      rw [hg, if_neg Bool.false_ne_true] at hnext
      rw [nextGrant_of_idle hnext, h.grants_eq hok fun hv => by rw [hg] at hv; cases hv]
      rfl
  have hg := h.grantValid_of_not_idle hidle
  by_cases hwait : t.net.state = .waitIdle
  · have hnext := clock_state_waitIdle (i := i) hok.rst h.arb hg hwait
    rw [accepts_of_noAddr (h.noAddr_of_not_decode (by rw [hwait]; decide))]
    cases hack : t.net.acked i with
    | true =>
      rw [hack, if_pos rfl] at hnext
      rw [nextGrant_of_idle hnext, h.grants_eq hok fun _ => hack]
      simp [nextGrant, hwait]
    | false =>
      rw [hack, if_neg Bool.false_ne_true] at hnext
      rw [h.grants_of_hold hg hack]
      simp [nextGrant, hwait, hnext]
  · -- a transaction on its way holds the grant
    have hack := h.acked_eq_false (i := i) hwait
    have hnext : nextGrant (t.net.clock i) = [] := by
      obtain ⟨h₁, h₂⟩ := clock_state_busy (i := i) hok.rst hidle hwait
      unfold nextGrant
      split <;> simp_all
    rw [hnext, h.grants_of_hold hg hack, List.append_nil, List.append_nil]
    by_cases hdec : t.net.state = .decode
    · rw [h.accepts_of_decode hok hdec, nextGrant, hdec, hg]
      rfl
    · rw [accepts_of_noAddr (h.noAddr_of_not_decode hdec)]
      unfold nextGrant
      split <;> simp_all

end NetInv

/-! ## Waiting -/

/-- The request of the arbiter's port `k` has been offered and not been taken. -/
def NetTrace.Waits (t : NetTrace N) (k : ℕ) : Prop :=
  if k % 2 = 0 then (t.owesAw (k / 2)).isSome else (t.owesAr (k / 2)).isSome

instance (t : NetTrace N) (k : ℕ) : Decidable (t.Waits k) := by
  unfold NetTrace.Waits
  infer_instance

section Waits

variable {t : NetTrace N} {i : NetIn N} {k : ℕ}

theorem NetTrace.Waits.request (h : t.Waits k) (hok : t.Served i) : Interconnect.request i k = true := by
  unfold NetTrace.Waits at h
  unfold Interconnect.request
  split_ifs at h ⊢
  · obtain ⟨req, hreq⟩ := Option.isSome_iff_exists.mp h
    have hkeep := hok.aw (k / 2)
    rw [hreq, keeps_some] at hkeep
    exact hkeep.1
  · obtain ⟨req, hreq⟩ := Option.isSome_iff_exists.mp h
    have hkeep := hok.ar (k / 2)
    rw [hreq, keeps_some] at hkeep
    exact hkeep.1

theorem NetTrace.Waits.step (h : t.Waits k) (hok : t.Served i) (hk : k < N.sCount * 2)
    (hnot : k ∉ accepts t.net i) : (t.step i).Waits k := by
  have hreq := h.request hok
  unfold accepts at hnot
  rw [List.mem_filter, List.mem_range, not_and] at hnot
  have hnot := hnot hk
  unfold NetTrace.Waits at h ⊢
  unfold Interconnect.request at hreq
  split_ifs at h hreq hnot ⊢
  · show (owed (i.sAwvalid (k / 2)) (t.net.sAwready (k / 2)) _).isSome = true
    rw [hreq, Bool.true_and, Bool.not_eq_true] at hnot
    rw [hreq, hnot]
    rfl
  · show (owed (i.sArvalid (k / 2)) (t.net.sArready (k / 2)) _).isSome = true
    rw [hreq, Bool.true_and, Bool.not_eq_true] at hnot
    rw [hreq, hnot]
    rfl

theorem along_of_waits {es : List (NetIn N)} (h : t.Waits k) (hk : k < N.sCount * 2)
    (hes : Along NetTrace.step NetTrace.Served t es)
    (hnot : k ∉ log NetTrace.step (fun t i => accepts t.net i) t es) :
    Along NetTrace.step (fun t i => t.Served i ∧ Interconnect.request i k = true) t es := by
  induction es generalizing t with
  | nil => trivial
  | cons e es ih =>
    rw [log_cons, List.mem_append, not_or] at hnot
    exact ⟨⟨hes.1, h.request hes.1⟩, ih (h.step hes.1 hk hnot.1) hes.2 hnot.2⟩

end Waits

theorem length_le_of_append_eq {α : Type*} [DecidableEq α] {a b c d : List α} {x : α}
    (h : a ++ b = c ++ d) (hx : x ∉ a) : a.length ≤ c.length + (d.takeWhile (· != x)).length := by
  have hlen : a.length ≤ ((c ++ d).takeWhile (· != x)).length := by
    rw [← h, List.takeWhile_append_of_pos fun y hy => bne_iff_ne.mpr (by rintro rfl; exact hx hy),
      List.length_append]
    exact Nat.le_add_right _ _
  refine hlen.trans ?_
  rw [List.takeWhile_append]
  split_ifs with hc
  · rw [List.length_append]
  · exact (List.takeWhile_prefix _).length_le.trans (Nat.le_add_right _ _)

theorem length_nextGrant_le (s : Interconnect N) : (nextGrant s).length ≤ 1 := by
  unfold nextGrant
  split <;> (try split_ifs) <;> simp

/-- **Fairness.** However the run goes on: while a request waits, at most `2 * S_COUNT` other requests are
taken, over all ports together. -/
theorem interconnect_fair {es₀ es : List (NetIn N)} {k : ℕ} (hk : k < N.sCount * 2)
    (hes : Along NetTrace.step NetTrace.Served (NetTrace.start N) (es₀ ++ es))
    (hwait : (run NetTrace.step (NetTrace.start N) es₀).Waits k)
    (hnot : k ∉ log NetTrace.step (fun t i => accepts t.net i)
      (run NetTrace.step (NetTrace.start N) es₀) es) :
    (log NetTrace.step (fun t i => accepts t.net i)
      (run NetTrace.step (NetTrace.start N) es₀) es).length ≤ N.sCount * 2 := by
  rw [along_append] at hes
  obtain ⟨hes₀, hes⟩ := hes
  have hinv := exists_netInv hes₀
  -- the mask of the arbiter at the start of the wait
  obtain ⟨m, hm⟩ := hes₀.invariant (fun t => ∃ m, MaskFrom N.arbiter t.net.arb m)
    (fun t i ⟨_, h⟩ hok => ⟨_, Arbiter.maskFrom_clock h rfl hok.rst⟩) ⟨_, Arbiter.maskFrom_reset⟩
  generalize run NetTrace.step (NetTrace.start N) es₀ = t at hinv hm hwait hnot hes ⊢
  have hask := along_of_waits hwait hk hes hnot
  -- the arbiter's own run
  have hgrants : log NetTrace.step (fun t i => grants t.net i) t es =
      log (Arbiter.clock N.arbiter) (Arbiter.decisions N.arbiter) t.net.arb
        (log NetTrace.step (fun t i => [t.net.arbIn i]) t es) :=
    @log_component _ _ _ NetTrace.step _ _ _ (fun t => t.net.arb) (fun t i => t.net.arbIn i)
      (fun _ _ => rfl) (Arbiter.decisions N.arbiter) t es
  have hfeed : ∀ e ∈ log NetTrace.step (fun t i => [t.net.arbIn i]) t es,
      e.rst = false ∧ e.request k = true := by
    refine hask.forall_mem_log fun t i hok e he => ?_
    rw [List.mem_singleton.mp he]
    exact ⟨hok.1.rst, hok.2⟩
  have hrot := Arbiter.decisions_rotation (A := N.arbiter) rfl hk hm hfeed
  rw [← hgrants] at hrot
  have hlt := hrot.length_lt hm.le hk
  have hflow : log NetTrace.step (fun t i => accepts t.net i) t es ++ nextGrant (run NetTrace.step t es).net =
      nextGrant t.net ++ log NetTrace.step (fun t i => grants t.net i) t es := hes.log_buffer
    (fun t => ∃ ts cur done, NetInv t ts cur done) (fun t => nextGrant t.net)
    (fun _ _ ⟨_, _, _, h⟩ hok => h.step hok) (fun _ _ ⟨_, _, _, h⟩ hok => h.accepts_append hok) hinv
  have hle := length_le_of_append_eq hflow hnot
  have hone := length_nextGrant_le t.net
  have hports : N.arbiter.ports = N.sCount * 2 := rfl
  omega

/-- A write of the second of three masters, which waits for the first one. -/
theorem interconnect_fair_uart :
    let es := List.replicate 5 (uartWrite 3 (fun n => n == 0 || n == 1) true false)
    let t := run NetTrace.step (NetTrace.start (wrap 3))
      [uartWrite 3 (fun n => n == 0 || n == 1) true false]
    (log NetTrace.step (fun t i => accepts t.net i) t es).length = 1 ∧
      (log NetTrace.step (fun t i => accepts t.net i) t es).length ≤ 6 :=
  ⟨by decide +kernel, interconnect_fair (k := 2) (by decide)
    (uartWrite_served (List.replicate 6 false) (fun _ => keeps_none _ _) (fun _ => rfl)
      (by decide +kernel)) (by decide +kernel) (by decide +kernel)⟩

/-! ## Offers -/

/-- What the interconnect offers on a channel. -/
def Interconnect.offer (s : Interconnect N) : Wire → Option (NetBeat N)
  | .sB n => if s.sBvalid n then some (.b s.sB) else none
  | .sR n => if s.rOut.valid n then some (.r (sROf s.rOut.out)) else none
  | .mAw m => if s.mAwvalid m then some (.fwdAw s.mAw) else none
  | .mW m => if s.wOut.valid m then some (.w (mWOf s.wOut.out)) else none
  | .mAr m => if s.mArvalid m then some (.fwdAr s.mAr) else none
  | _ => none

theorem offer_valid (s : Interconnect N) (i : NetIn N) (hrst : i.rst = false) :
    (∀ n, s.sBvalid n = true → i.sBready n = false → (s.clock i).sBvalid n = true) ∧
      (∀ m, s.mAwvalid m = true → i.mAwready m = false → (s.clock i).mAwvalid m = true) ∧
      ∀ m, s.mArvalid m = true → i.mArready m = false → (s.clock i).mArvalid m = true := by
  rw [clock_eq hrst]
  refine ⟨fun n hv hr => ?_, fun m hv hr => ?_, fun m hv hr => ?_⟩
  all_goals
    dsimp only
    unfold Interconnect.next
    cases s.state with
    | idle => unfold clockIdle; dsimp only; split_ifs <;> simp [defaults, hv, hr]
    | decode => unfold clockDecode; dsimp only; split <;> split_ifs <;> simp [defaults, hv, hr]
    | write => unfold clockWrite; dsimp only; split_ifs <;> simp [defaults, hv, hr, Function.update_apply]
    | writeResp =>
      unfold clockWriteResp
      dsimp only
      split_ifs <;> simp [defaults, hv, hr, Function.update_apply]
    | writeDrop =>
      unfold clockWriteDrop
      dsimp only
      split_ifs <;> simp [defaults, hv, hr, Function.update_apply]
    | read => unfold clockRead; dsimp only; split_ifs <;> simp [defaults, hv, hr, Function.update_apply]
    | readDrop => unfold clockReadDrop; dsimp only; split_ifs <;> simp [defaults, hv, hr]
    | waitIdle => unfold clockWaitIdle; dsimp only; split_ifs <;> simp [defaults, hv, hr]

namespace NetInv

variable {t : NetTrace N} {ts : List (NetTxn N)} {cur : Option (NetTxn N)}
  {done : Wire → List (NetBeat N)} {i : NetIn N}

theorem state_of_offer (h : NetInv t ts cur done) :
    (∀ n, t.net.sBvalid n = true → t.net.state = .waitIdle) ∧
      (∀ m, t.net.mAwvalid m = true → t.net.state = .write ∨ t.net.state = .writeResp) ∧
      (∀ m, t.net.mArvalid m = true → t.net.state = .read) ∧
      (∀ m, t.net.wOut.valid m = true → m = t.net.mSelect) ∧
      ∀ n, t.net.rOut.valid n = true → n = t.net.sSelect := by
  have hoff {v : ℕ → Bool} {p : ℕ → Prop} (hv : ∀ n, v n = false) (n : ℕ) (hn : v n = true) : p n := by
    rw [hv n] at hn
    cases hn
  have honly {v : ℕ → Bool} {k : ℕ} (hv : ∀ n, n ≠ k → v n = false) (n : ℕ) (hn : v n = true) : n = k := by
    by_contra hk
    rw [hv n hk] at hn
    cases hn
  have hphase := h.phase
  cases hphase with
  | idle _ hw hr | decodeWrite _ _ _ _ hw hr | decodeRead _ _ _ _ hw hr =>
    exact ⟨hoff hw.sBvalid, hoff hw.mAwvalid, hoff hr.mArvalid, hoff hw.wOut.valid, hoff hr.rOut.valid⟩
  | write _ _ _ _ hst hwr =>
    exact ⟨hoff hwr.sBvalid, fun _ _ => .inl hst, hoff hwr.readIdle.mArvalid,
      hwr.select ▸ honly hwr.skid.only, hoff hwr.readIdle.rOut.valid⟩
  | writeResp _ _ _ _ hst hwr =>
    exact ⟨hoff hwr.sBvalid, fun _ _ => .inr hst, hoff hwr.readIdle.mArvalid,
      hwr.select ▸ honly hwr.skid.only, hoff hwr.readIdle.rOut.valid⟩
  | writeDrop _ _ _ _ _ hw hr _ hsb =>
    exact ⟨hoff hsb, hoff hw.mAwvalid, hoff hr.mArvalid, hoff hw.wOut.valid, hoff hr.rOut.valid⟩
  | waitWrite _ _ _ hst _ _ hw hr =>
    exact ⟨fun _ _ => hst, hoff hw.mAwvalid, hoff hr.mArvalid, hoff hw.wOut.valid, hoff hr.rOut.valid⟩
  | read _ _ _ _ hst hrd =>
    exact ⟨hoff hrd.writeIdle.sBvalid, hoff hrd.writeIdle.mAwvalid, fun _ _ => hst,
      hoff hrd.writeIdle.wOut.valid, honly hrd.skid.only⟩
  | readDrop _ _ _ _ _ hw _ hmar hskid | waitRead _ _ _ _ _ hw _ hmar hskid =>
    exact ⟨hoff hw.sBvalid, hoff hw.mAwvalid, hoff hmar, hoff hw.wOut.valid, honly hskid.only⟩

/-- **A step keeps every offer** that is not taken. -/
theorem keeps_offer (h : NetInv t ts cur done) (hok : t.Served i) {w : Wire} {x : NetBeat N}
    (hx : t.net.offer w = some x) (hnot : t.net.events i w = []) :
    (t.net.clock i).offer w = some x := by
  obtain ⟨hvb, hvaw, hvar⟩ := offer_valid t.net i hok.rst
  obtain ⟨hsb, hsaw, hsar, hsw, hsr⟩ := h.state_of_offer
  cases w with
  | sAw n | sW n | sAr n | mB m | mR m => cases hx
  | sB n =>
    cases hv : t.net.sBvalid n with
    | false => simp [Interconnect.offer, hv] at hx
    | true =>
      have hst := hsb n hv
      have hr : i.sBready n = false := by
        by_contra hr
        simp [Interconnect.events, hv, Bool.eq_true_of_not_eq_false hr] at hnot
      have hclk := next_waitIdle (i := i) h.arb (h.grantValid_of_not_idle (by rw [hst]; decide)) hst
      have haxi := clock_axi (i := i) hok.rst (s := t.net) (by rw [hst]; decide) (by rw [hst]; decide)
      have hresp : (t.net.clock i).bresp = t.net.bresp := by rw [clock_eq hok.rst, hclk]; rfl
      have hb : (t.net.clock i).sB = t.net.sB := by
        unfold sB
        rw [haxi, hresp, buser_clock hok.rst]
      rw [← hx]
      simp [Interconnect.offer, hv, hvb n hv hr, hb]
  | mAw m =>
    cases hv : t.net.mAwvalid m with
    | false => simp [Interconnect.offer, hv] at hx
    | true =>
      have hst := hsaw m hv
      have hr : i.mAwready m = false := by
        by_contra hr
        simp [Interconnect.events, hv, Bool.eq_true_of_not_eq_false hr] at hnot
      have haxi := clock_axi (i := i) hok.rst (s := t.net) (by rcases hst with h | h <;> rw [h] <;> decide)
        (by rcases hst with h | h <;> rw [h] <;> decide)
      have hregion := (clock_region (i := i) hok.rst (s := t.net)
        (by rcases hst with h | h <;> rw [h] <;> decide)).1
      have hb : (t.net.clock i).mAw = t.net.mAw := by
        unfold mAw forward
        rw [haxi, hregion]
      rw [← hx]
      simp [Interconnect.offer, hv, hvaw m hv hr, hb]
  | mAr m =>
    cases hv : t.net.mArvalid m with
    | false => simp [Interconnect.offer, hv] at hx
    | true =>
      have hst := hsar m hv
      have hr : i.mArready m = false := by
        by_contra hr
        simp [Interconnect.events, hv, Bool.eq_true_of_not_eq_false hr] at hnot
      have haxi := clock_axi (i := i) hok.rst (s := t.net) (by rw [hst]; decide) (by rw [hst]; decide)
      have hregion := (clock_region (i := i) hok.rst (s := t.net) (by rw [hst]; decide)).1
      have hb : (t.net.clock i).mAr = t.net.mAr := by
        unfold mAr forward
        rw [haxi, hregion]
      rw [← hx]
      simp [Interconnect.offer, hv, hvar m hv hr, hb]
  | sR n =>
    cases hv : t.net.rOut.valid n with
    | false => simp [Interconnect.offer, hv] at hx
    | true =>
      obtain rfl := hsr n hv
      have hr : i.sRready t.net.sSelect = false := by
        by_contra hr
        simp [Interconnect.events, hv, Bool.eq_true_of_not_eq_false hr] at hnot
      have hout : (t.net.clock i).rOut = t.net.rOut.next (t.net.rIn i) := by rw [clock_eq hok.rst]
      have hkeep := SkidInv.keeps t.net.rOut (t.net.rIn i)
      rw [show (t.net.rIn i).select = t.net.sSelect from rfl,
        show (t.net.rIn i).sinkReady = i.sRready t.net.sSelect from rfl, hv, hr, owed_of_not_ready,
        keeps_some] at hkeep
      rw [← hx]
      simp [Interconnect.offer, hv, hout, hkeep.1, hkeep.2]
  | mW m =>
    cases hv : t.net.wOut.valid m with
    | false => simp [Interconnect.offer, hv] at hx
    | true =>
      obtain rfl := hsw m hv
      have hr : i.mWready t.net.mSelect = false := by
        by_contra hr
        simp [Interconnect.events, hv, Bool.eq_true_of_not_eq_false hr] at hnot
      have hout : (t.net.clock i).wOut = t.net.wOut.next (t.net.wIn i) := by rw [clock_eq hok.rst]
      have hkeep := SkidInv.keeps t.net.wOut (t.net.wIn i)
      rw [show (t.net.wIn i).select = t.net.mSelect from rfl,
        show (t.net.wIn i).sinkReady = i.mWready t.net.mSelect from rfl, hv, hr, owed_of_not_ready,
        keeps_some] at hkeep
      rw [← hx]
      simp [Interconnect.offer, hv, hout, hkeep.1, hkeep.2]

end NetInv

/-- **The interconnect keeps to the protocol itself**: in every run, what it offers a master or a slave
stays, unchanged, until it is taken. -/
theorem interconnect_keeps {es : List (NetIn N)} {i : NetIn N}
    (hes : Along NetTrace.step NetTrace.Served (NetTrace.start N) (es ++ [i])) {w : Wire} {x : NetBeat N}
    (hx : (run NetTrace.step (NetTrace.start N) es).net.offer w = some x)
    (hnot : (run NetTrace.step (NetTrace.start N) es).net.events i w = []) :
    (run NetTrace.step (NetTrace.start N) (es ++ [i])).net.offer w = some x := by
  rw [along_append] at hes
  obtain ⟨ts, cur, done, h⟩ := exists_netInv hes.1
  rw [run_snoc]
  exact h.keeps_offer hes.2.1 hx hnot

/-- The error response to the second master, which does not take it. -/
theorem interconnect_keeps_decerr :
    (run NetTrace.step (NetTrace.start (wrap 3))
      ([false, false, false, false, false, false].map (uartWrite 3 (· == 1) false))).net.offer (.sB 1) =
        some (.b ⟨5, 3, 0⟩) :=
  @interconnect_keeps (wrap 3) ([false, false, false, false, false].map (uartWrite 3 (· == 1) false))
    (uartWrite 3 (· == 1) false false)
    (uartWrite_served [false, false, false, false, false, false] (fun _ => keeps_none _ _)
      (fun _ => rfl) (by decide +kernel)) _ _ (by decide +kernel) (by decide +kernel)

end PacketBuffering
