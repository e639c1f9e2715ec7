import PacketBuffering.Net.Reads
import PacketBuffering.Net.Wrap

/-!
# The interconnect is serial

* `NetInv.start`, **`NetInv.step`**: the invariant holds after configuration, and every step keeps it.
* `NetInv.exists_complete`, `NetInv.serial`: what it says about the channels.
* **`interconnect_serial`**: in every run with masters and slaves that keep to the protocol, all that is
  handed over is one transaction after the other.
* **`wrap3x8_decerr`**: two of the three masters of the wrapper for three get nothing but `DECERR`.
-/

namespace PacketBuffering

open Interconnect

variable {N : NetParams}

namespace NetInv

variable {t : NetTrace N} {ts : List (NetTxn N)} {cur : Option (NetTxn N)}
  {done : Wire → List (NetBeat N)} {i : NetIn N}

theorem start : NetInv (NetTrace.start N) [] none fun _ => [] where
  arb := Arbiter.inv_reset
  buser := rfl
  complete := nofun
  log := fun _ => rfl
  split := fun w => by cases w <;> rfl
  phase := .idle rfl
    { mAwvalid := fun _ => rfl, mBready := fun _ => rfl, wOut := ⟨fun _ => rfl, rfl⟩
      sWready := fun _ => rfl, sBvalid := fun _ => rfl }
    ⟨fun _ => rfl, fun _ => rfl, rfl⟩ ⟨fun _ => rfl, fun _ => rfl⟩ (fun h => by cases h)

/-- **Every step keeps the invariant.** -/
theorem step (h : NetInv t ts cur done) (hok : t.Served i) :
    ∃ ts' cur' done', NetInv (t.step i) ts' cur' done' := by
  cases h.phase with
  | idle hst hw hr ha howed =>
    cases hg : t.net.arb.grantValid with
    | false => exact ⟨_, _, _, h.step_idle_free hok hst hw hr ha hg⟩
    | true => exact ⟨_, _, _, h.step_idle_granted hok hst hw hr ha hg (howed hg)⟩
  | decodeWrite req hst hg hread hw hr har haw howed haxi hav =>
    exact ⟨_, _, _, h.step_decodeWrite hok hst hg hread hw hr har haw howed haxi hav⟩
  | decodeRead req hst hg hread hw hr haw har howed haxi hav =>
    exact ⟨_, _, _, h.step_decodeRead hok hst hg hread hw hr haw har howed haxi hav⟩
  | write req beats m j hst hwr hsw hready hmb hav hopen =>
    exact ⟨_, _, _, h.step_write hok hst hwr hsw hready hmb hav hopen⟩
  | writeResp req beats m j hst hwr hsw hmb hwhole =>
    exact ⟨_, _, _, h.step_writeResp hok hst hwr hsw hmb hwhole⟩
  | writeDrop req beats hst hg hread hw hr ha hsb haxi hdest hresp hsw hopen =>
    exact ⟨_, _, _, h.step_writeDrop hok hst hg hread hw hr ha hsb haxi hdest hresp hsw hopen⟩
  | waitWrite req beats b hst hg hread hw hr ha hsb hsw hid hresp hdone =>
    exact h.step_waitWrite hok hst hg hread hw hr ha hsb hsw hid hresp hdone
  | read req beats m j hst hrd hready hav hopen hheld =>
    exact ⟨_, _, _, h.step_read hok hst hrd hready hav hopen hheld⟩
  | readDrop req k hst hg hread hw ha hmar hskid hid hlen hdest hheld =>
    exact ⟨_, _, _, h.step_readDrop hok hst hg hread hw ha hmar hskid hid hlen hdest hheld⟩
  | waitRead req beats hst hg hread hw ha hmar hskid hdone hheld =>
    exact h.step_waitRead hok hst hg hread hw ha hmar hskid hdone hheld

/-- A word of write data that is marked as last. -/
def lastW (N : NetParams) : NetW N := ⟨0, 0, true, 0⟩

/-- A word of read data that is marked as last. -/
def lastR (N : NetParams) : NetR N := ⟨0, 0, 0, true, 0⟩

/-- A response. -/
def anyB (N : NetParams) : NetB N := ⟨0, axiRespDecerr, 0⟩

theorem events_prefix_write {p : ℕ} {req : NetReq N N.awuserWidth} {beats beats' : List (NetW N)}
    {bs bs' : List (NetB N)} (h : beats <+: beats') (hb : bs <+: bs') (w : Wire) :
    (NetTxn.write p req beats bs).events w <+: (NetTxn.write p req beats' bs').events w := by
  have hslave {f g : ℕ → List (NetBeat N)} (hfg : ∀ j, f j <+: g j) (d : Option (ℕ × ℕ)) (m : ℕ) :
      NetTxn.atSlave d m f <+: NetTxn.atSlave d m g := by
    unfold NetTxn.atSlave
    split
    · split_ifs
      · exact hfg _
      · exact List.prefix_refl _
    · exact List.prefix_refl _
  cases w with
  | sW n =>
    by_cases hn : n = p
    · simpa [NetTxn.events, hn] using h.map _
    · simp [NetTxn.events, hn]
  | sB n =>
    by_cases hn : n = p
    · simpa [NetTxn.events, hn] using hb.map _
    · simp [NetTxn.events, hn]
  | mW m => exact hslave (fun _ => h.map _) _ m
  | mB m => exact hslave (fun _ => hb.map _) _ m
  | sAw n | sAr n | sR n | mAw m | mAr m | mR m => exact List.prefix_refl _

theorem events_prefix_read {p : ℕ} {req : NetReq N N.aruserWidth} {beats beats' : List (NetR N)}
    (h : beats <+: beats') (w : Wire) :
    (NetTxn.read p req beats).events w <+: (NetTxn.read p req beats').events w := by
  cases w with
  | sR n =>
    by_cases hn : n = p
    · simpa [NetTxn.events, hn] using h.map _
    · simp [NetTxn.events, hn]
  | mR m =>
    simp only [NetTxn.events, NetTxn.atSlave, NetTxn.dest]
    split
    · split_ifs
      · exact h.map _
      · exact List.prefix_refl _
    · exact List.prefix_refl _
  | sAw n | sW n | sB n | sAr n | mAw m | mW m | mB m | mAr m => exact List.prefix_refl _

/-- **What is under way can be completed.** -/
theorem exists_complete {x : NetTxn N} (h : NetInv t ts (some x) done) :
    ∃ y : NetTxn N, y.Complete ∧ ∀ w, x.events w <+: y.events w := by
  have hphase := h.phase
  cases hphase with
  | write req beats m j hst hwr _ _ _ _ hopen =>
    exact ⟨.write _ req (beats ++ [lastW N]) [anyB N], ⟨⟨beats, _, rfl, hopen, rfl⟩, _, rfl, fun _ => rfl⟩,
      fun w => events_prefix_write (List.prefix_append _ _) List.nil_prefix w⟩
  | writeResp req beats m j hst hwr _ _ hwhole =>
    exact ⟨.write _ req beats [anyB N], ⟨hwhole, _, rfl, fun _ => rfl⟩,
      fun w => events_prefix_write (List.prefix_refl _) List.nil_prefix w⟩
  | writeDrop req beats hst _ _ _ _ _ _ _ _ _ _ hopen =>
    exact ⟨.write _ req (beats ++ [lastW N]) [anyB N], ⟨⟨beats, _, rfl, hopen, rfl⟩, _, rfl, fun _ => rfl⟩,
      fun w => events_prefix_write (List.prefix_append _ _) List.nil_prefix w⟩
  | waitWrite req beats b hst _ _ _ _ _ _ _ _ _ hdone => exact ⟨_, hdone, fun _ => List.prefix_refl _⟩
  | read req beats m j hst hrd _ _ hopen _ =>
    refine ⟨.read _ req (beats ++ [lastR N]), ⟨⟨beats, _, rfl, hopen, rfl⟩, fun hd => ?_⟩,
      fun w => events_prefix_read (List.prefix_append _ _) w⟩
    rw [NetTxn.dest, hrd.dest] at hd
    cases hd
  | readDrop req k hst =>
    exact ⟨.read _ req req.errorBeats, ⟨errorBeats_whole req, fun _ => rfl⟩,
      fun w => events_prefix_read (List.take_prefix _ _) w⟩
  | waitRead req beats hst _ _ _ _ _ _ hdone => exact ⟨_, hdone, fun _ => List.prefix_refl _⟩

theorem serial (h : NetInv t ts cur done) : ∃ next, Serial t.log ts next := by
  have hdone (w : Wire) : done w <+: cur.elim [] fun x => x.events w := ⟨_, h.split w⟩
  cases cur with
  | none =>
    refine ⟨none, by simpa using h.complete, fun w => ?_⟩
    rw [h.log, List.prefix_nil.mp (hdone w)]
    simp
  | some x =>
    obtain ⟨y, hy, hxy⟩ := h.exists_complete
    refine ⟨some y, fun z hz => ?_, fun w => ?_⟩
    · rcases List.mem_append.mp hz with hz | hz
      · exact h.complete z hz
      · rwa [List.mem_singleton.mp hz]
    · rw [h.log, List.flatMap_append]
      refine ⟨List.prefix_append _ _, (List.prefix_append_right_inj _).mpr ?_⟩
      simpa using (hdone w).trans (hxy w)

end NetInv

theorem exists_netInv {es : List (NetIn N)}
    (hes : Along NetTrace.step NetTrace.Served (NetTrace.start N) es) :
    ∃ ts cur done, NetInv (run NetTrace.step (NetTrace.start N) es) ts cur done :=
  hes.invariant (fun t => ∃ ts cur done, NetInv t ts cur done)
    (fun _ _ ⟨_, _, _, h⟩ hok => h.step hok) ⟨_, _, _, .start⟩

/-- **The interconnect is serial.** Whatever the masters ask for at the same time, and however long the
slaves take, what has been handed over on every channel of every port is that of transactions carried out
one after the other, each with the slave its address names; only the last of them may be under way. -/
theorem interconnect_serial {es : List (NetIn N)}
    (hes : Along NetTrace.step NetTrace.Served (NetTrace.start N) es) :
    ∃ ts next, Serial (run NetTrace.step (NetTrace.start N) es).log ts next := by
  obtain ⟨ts, cur, done, h⟩ := exists_netInv hes
  exact ⟨ts, h.serial⟩

/-- A write to the UART that it answers. -/
theorem interconnect_serial_uart :
    let es := [false, false, false, false, false, true, false].map (uartWrite 1 (· == 0) true)
    let log := (run NetTrace.step (NetTrace.start (wrap 1)) es).log
    log (.sB 0) = [.b ⟨5, 0, 0⟩] ∧ log (.mW 2) = [.w ⟨0x41, 0xF, true, 0⟩] ∧
      ∃ ts next, Serial log ts next :=
  ⟨by decide +kernel, by decide +kernel,
    interconnect_serial (uartWrite_served _ (fun _ => keeps_none _ _) (fun _ => rfl) (by decide +kernel))⟩

/-! ## Masters that are not connected -/

/-- A word or a response that says `DECERR`. -/
def NetBeat.IsError {N : NetParams} : NetBeat N → Prop
  | .b x => x.resp = axiRespDecerr
  | .r x => x.resp = axiRespDecerr ∧ x.data = 0
  | _ => True

theorem events_of_unconnected {x : NetTxn (wrap 3)} (hx : x.Complete) {n : ℕ} (hn : n = 1 ∨ n = 2) :
    (∀ y ∈ x.events (.sB n), y.IsError) ∧ ∀ y ∈ x.events (.sR n), y.IsError := by
  cases x with
  | write p req beats bs =>
    obtain ⟨-, b, rfl, hb⟩ := hx
    refine ⟨fun y hy => ?_, by simp [NetTxn.events]⟩
    simp only [NetTxn.events] at hy
    split_ifs at hy with hp
    · subst hp
      rw [List.mem_singleton.mp hy]
      exact hb (wrap3x8_decode hn false req.prot req.addr)
    · cases hy
  | read p req beats =>
    obtain ⟨-, hb⟩ := hx
    refine ⟨by simp [NetTxn.events], fun y hy => ?_⟩
    simp only [NetTxn.events] at hy
    split_ifs at hy with hp
    · subst hp
      rw [hb (wrap3x8_decode hn true req.prot req.addr)] at hy
      obtain ⟨z, hz, rfl⟩ := List.mem_map.mp hy
      obtain ⟨k, -, rfl⟩ := List.mem_map.mp hz
      exact ⟨rfl, rfl⟩
    · cases hy

/-- **The second and the third master of the wrapper for three get nothing but `DECERR`**, in every run
in which masters and slaves keep to the protocol: `1'b1` is widened to `3'b001`, which connects the first
master only. -/
theorem wrap3x8_decerr {es : List (NetIn (wrap 3))}
    (hes : Along NetTrace.step NetTrace.Served (NetTrace.start (wrap 3)) es) {n : ℕ}
    (hn : n = 1 ∨ n = 2) :
    (∀ y ∈ (run NetTrace.step (NetTrace.start (wrap 3)) es).log (.sB n), y.IsError) ∧
      ∀ y ∈ (run NetTrace.step (NetTrace.start (wrap 3)) es).log (.sR n), y.IsError := by
  obtain ⟨ts, cur, done, h⟩ := exists_netInv hes
  obtain ⟨next, hcomplete, hlog⟩ := h.serial
  constructor
  · intro y hy
    obtain ⟨x, hx, hy⟩ := List.mem_flatMap.mp ((hlog (.sB n)).2.subset hy)
    exact (events_of_unconnected (hcomplete x hx) hn).1 y hy
  · intro y hy
    obtain ⟨x, hx, hy⟩ := List.mem_flatMap.mp ((hlog (.sR n)).2.subset hy)
    exact (events_of_unconnected (hcomplete x hx) hn).2 y hy

/-- The second master writes to the UART, and is told `DECERR`. -/
theorem wrap3x8_decerr_uart :
    let es := List.replicate 7 (uartWrite 3 (· == 1) true false)
    let log := (run NetTrace.step (NetTrace.start (wrap 3)) es).log
    log (.sB 1) = [.b ⟨5, 3, 0⟩] ∧ ∀ y ∈ log (.sB 1), y.IsError :=
  ⟨by decide +kernel, (wrap3x8_decerr (uartWrite_served (List.replicate 7 false)
    (fun _ => keeps_none _ _) (fun _ => rfl) (by decide +kernel)) (.inl rfl)).1⟩

end PacketBuffering
