import PacketBuffering.Lsu.System

/-!
# Reads through the LSU adapter

* `ReadInv`, **`ReadInv.step`**: the invariant of the read path, from the address taken to the data
  presented.
* `ReadReturns`: every requested byte is the memory's; `LsuRead`: the reads of the load/store unit.
* **`lsu_read_returns_iff`**: a read returns every byte iff it is not a doubleword, or the upper half
  of the doubleword is zero.
* `lsu_read_upper_zero`: a doubleword read returns zeros for the upper half.
-/

namespace PacketBuffering

variable {L : LsuParams}

open LsuWrapper (forward)

/-! ## The invariant of the read path -/

/-- **The invariant of the read path**, for a read of `ar` that has been performed on the memory
contents `ms`. -/
inductive ReadInv (ar : AddrReq L.lsuBusTag) (s : LsuSystem L) :
    List (BitVec 32 → BitVec 8) → Prop
  | idle (hs : s.wrapper.rdState = .idle) (har : s.slave.ar = none) (hr : s.slave.r = none) :
      ReadInv ar s []
  | cmd (hs : s.wrapper.rdState = .cmd) (hl : s.wrapper.rdAr = ar) (har : s.slave.ar = none)
      (hr : s.slave.r = none) : ReadInv ar s []
  | waiting (hs : s.wrapper.rdState = .data) (hl : s.wrapper.rdAr = ar)
      (har : s.slave.ar = some (forward ar)) (hr : s.slave.r = none) : ReadInv ar s []
  | fetched (hs : s.wrapper.rdState = .data) (hl : s.wrapper.rdAr = ar) (har : s.slave.ar = none)
      (m : BitVec 32 → BitVec 8) (resp : BitVec 2)
      (hr : s.slave.r = some (loadWord m (alignDown 2 ar.addr), resp)) : ReadInv ar s [m]

section Step

variable {s : LsuSystem L} {e : LsuEvent L} {ar : AddrReq L.lsuBusTag}
  {ms : List (BitVec 32 → BitVec 8)}

theorem arTake_eq : s.wrapper.arTake (s.input e) = (e.sArvalid && s.wrapper.rdState == .idle) := rfl

theorem rdState_step : (s.step e).wrapper.rdState = s.wrapper.rdStateNext (s.input e) := rfl

theorem rdAr_step_of_not_idle (h : s.wrapper.rdState ≠ .idle) :
    (s.step e).wrapper.rdAr = s.wrapper.rdAr := by
  have : s.wrapper.arTake (s.input e) = false := by simp [arTake_eq, h]
  simp [LsuSystem.step, LsuWrapper.clock, this]

theorem fetches_of_none (h : s.slave.ar = none) : s.fetched e = none ∧ s.fetches e = [] := by
  simp [LsuSystem.fetches, LsuSystem.fetched, h]

theorem slave_step_of_not_fetched (hf : s.fetched e = none) (hr : s.rFire e = false) :
    (s.step e).slave.ar = (if s.arFire e then some s.wrapper.mAxiAr else s.slave.ar) ∧
      (s.step e).slave.r = s.slave.r := by
  simp [LsuSystem.step, LsuSystem.slaveNext, hf, hr]

theorem arFire_of_ne_cmd (h : s.wrapper.rdState ≠ .cmd) : s.arFire e = false := by
  simp [LsuSystem.arFire, LsuWrapper.mAxiArvalid, h]

theorem readInv_step_idle (hs : s.wrapper.rdState = .idle) (har : s.slave.ar = none)
    (hrd : s.slave.r = none) (ht : s.wrapper.arTake (s.input e) = true → e.sAr = ar)
    (hr : s.rFire e = false) : ReadInv ar (s.step e) (s.fetches e) := by
  obtain ⟨hf, hfs⟩ := fetches_of_none (e := e) har
  obtain ⟨hsar, hsr⟩ := slave_step_of_not_fetched hf hr
  rw [arFire_of_ne_cmd (by rw [hs]; decide), har] at hsar
  rw [hrd] at hsr
  have hst := rdState_step (s := s) (e := e)
  rw [LsuWrapper.rdStateNext, hs] at hst
  rw [hfs]
  cases htake : s.wrapper.arTake (s.input e) with
  | false =>
    simp only [htake, Bool.false_eq_true, if_false] at hst
    exact .idle hst hsar hsr
  | true =>
    simp only [htake, if_true] at hst
    refine .cmd hst ?_ hsar hsr
    simp only [LsuSystem.step, LsuWrapper.clock, htake, if_true]
    exact ht htake

theorem readInv_step_cmd (hs : s.wrapper.rdState = .cmd) (hl : s.wrapper.rdAr = ar)
    (har : s.slave.ar = none) (hrd : s.slave.r = none) (hr : s.rFire e = false) :
    ReadInv ar (s.step e) (s.fetches e) := by
  obtain ⟨hf, hfs⟩ := fetches_of_none (e := e) har
  obtain ⟨hsar, hsr⟩ := slave_step_of_not_fetched hf hr
  have hl' := (rdAr_step_of_not_idle (e := e) (by rw [hs]; decide)).trans hl
  have harf : s.arFire e = e.arready := by simp [LsuSystem.arFire, LsuWrapper.mAxiArvalid, hs]
  have hst : (s.step e).wrapper.rdState = if e.arready then .data else .cmd := by
    rw [rdState_step, LsuWrapper.rdStateNext, hs]
    simp [LsuWrapper.mAxiArvalid, hs, LsuSystem.input]
  rw [harf, LsuWrapper.mAxiAr, hl, har] at hsar
  rw [hrd] at hsr
  rw [hfs]
  cases hready : e.arready with
  | false =>
    rw [hready] at hst hsar
    exact .cmd hst hl' hsar hsr
  | true =>
    rw [hready] at hst hsar
    exact .waiting hst hl' hsar hsr

theorem readInv_step_waiting (hs : s.wrapper.rdState = .data) (hl : s.wrapper.rdAr = ar)
    (har : s.slave.ar = some (forward ar)) (hrd : s.slave.r = none) (hr : s.rFire e = false) :
    ReadInv ar (s.step e) (s.fetches e) := by
  have hl' := (rdAr_step_of_not_idle (e := e) (by rw [hs]; decide)).trans hl
  have harf : s.arFire e = false := arFire_of_ne_cmd (by rw [hs]; decide)
  have hst : (s.step e).wrapper.rdState = .data := by
    rw [rdState_step, LsuWrapper.rdStateNext, hs]
    simp [LsuSystem.input, hrd]
  cases hc : e.fetch with
  | none =>
    have hf : s.fetched e = none := by simp [LsuSystem.fetched, hc]
    obtain ⟨hsar, hsr⟩ := slave_step_of_not_fetched hf hr
    rw [harf, har] at hsar
    rw [show s.fetches e = [] by simp [LsuSystem.fetches, hf]]
    exact .waiting hst hl' hsar (hsr.trans hrd)
  | some resp =>
    have hf : s.fetched e = some (forward ar, resp) := by simp [LsuSystem.fetched, hc, har]
    rw [show s.fetches e = [s.slave.mem] by simp [LsuSystem.fetches, hf]]
    refine .fetched hst hl' ?_ s.slave.mem resp ?_
    · simp [LsuSystem.step, LsuSystem.slaveNext, harf, hf]
    · simp [LsuSystem.step, LsuSystem.slaveNext, hf, forward]

/-- **One cycle before the data is accepted.** -/
theorem ReadInv.step (h : ReadInv ar s ms)
    (ht : s.wrapper.arTake (s.input e) = true → e.sAr = ar) (hr : s.rFire e = false) :
    ReadInv ar (s.step e) (ms ++ s.fetches e) := by
  cases h with
  | idle hs har hrd => exact readInv_step_idle hs har hrd ht hr
  | cmd hs hl har hrd => exact readInv_step_cmd hs hl har hrd hr
  | waiting hs hl har hrd => exact readInv_step_waiting hs hl har hrd hr
  | fetched hs hl har m resp hrd =>
    obtain ⟨hf, hfs⟩ := fetches_of_none (e := e) har
    obtain ⟨hsar, hsr⟩ := slave_step_of_not_fetched hf hr
    rw [arFire_of_ne_cmd (by rw [hs]; decide), har] at hsar
    have hl' := (rdAr_step_of_not_idle (e := e) (by rw [hs]; decide)).trans hl
    have hst : (s.step e).wrapper.rdState = .data := by
      have hno : ((s.input e).mRvalid && s.wrapper.mAxiRready (s.input e)) = false := by
        simpa [LsuSystem.rFire, LsuWrapper.sAxiRvalid, LsuWrapper.mAxiRready, hs,
          LsuSystem.input] using hr
      rw [rdState_step, LsuWrapper.rdStateNext, hs]
      simp [hno]
    rw [hfs, List.append_nil]
    exact .fetched hst hl' hsar m resp (hsr.trans hrd)

theorem ReadInv.rFire (h : ReadInv ar s ms) (hr : s.rFire e = true) :
    s.wrapper.rdState = .data ∧ s.wrapper.rdAr = ar ∧ s.slave.ar = none ∧
      ∃ m resp, ms = [m] ∧ s.slave.r = some (loadWord m (alignDown 2 ar.addr), resp) := by
  simp only [LsuSystem.rFire, LsuWrapper.sAxiRvalid, LsuSystem.input, Bool.and_eq_true,
    beq_iff_eq] at hr
  obtain ⟨⟨hdata, -, hsome⟩, -⟩ := hr
  cases h with
  | idle hs har hrd => rw [hs] at hdata; cases hdata
  | cmd hs hl har hrd => rw [hs] at hdata; cases hdata
  | waiting hs hl har hrd => rw [hrd] at hsome; cases hsome
  | fetched hs hl har m resp hrd => exact ⟨hs, hl, har, m, resp, rfl, hrd⟩

theorem ReadInv.exists_step (h : ReadInv ar s ms) (e : LsuEvent L) :
    ∃ ar' ms', ReadInv ar' (s.step e) ms' := by
  cases hr : s.rFire e with
  | true =>
    obtain ⟨hs, hl, har, m, resp, -, hrd⟩ := h.rFire hr
    obtain ⟨hf, -⟩ := fetches_of_none (e := e) har
    refine ⟨ar, [], .idle ?_ ?_ ?_⟩
    · have hgo : ((s.input e).mRvalid && s.wrapper.mAxiRready (s.input e)) = true := by
        simpa [LsuSystem.rFire, LsuWrapper.sAxiRvalid, LsuWrapper.mAxiRready, hs,
          LsuSystem.input] using hr
      rw [rdState_step, LsuWrapper.rdStateNext, hs]
      simp [hgo]
    · simp [LsuSystem.step, LsuSystem.slaveNext, hf, har,
        arFire_of_ne_cmd (s := s) (e := e) (by rw [hs]; decide)]
    · simp [LsuSystem.step, LsuSystem.slaveNext, hf, hr]
  | false =>
    cases h with
    | idle hs har hrd => exact ⟨e.sAr, _, readInv_step_idle hs har hrd (fun _ => rfl) hr⟩
    | cmd hs hl har hrd => exact ⟨ar, _, readInv_step_cmd hs hl har hrd hr⟩
    | waiting hs hl har hrd => exact ⟨ar, _, readInv_step_waiting hs hl har hrd hr⟩
    | fetched hs hl har m resp hrd =>
      refine ⟨ar, _, (ReadInv.fetched hs hl har m resp hrd).step (fun ht => ?_) hr⟩
      rw [arTake_eq, hs] at ht
      simp at ht

theorem ReadInv.of_idle (h : ReadInv ar s ms) (hs : s.wrapper.rdState = .idle)
    (ar' : AddrReq L.lsuBusTag) : ReadInv ar' s [] := by
  cases h with
  | idle _ har hrd => exact .idle hs har hrd
  | cmd hc hl har hrd => rw [hc] at hs; cases hs
  | waiting hc hl har hrd => rw [hc] at hs; cases hs
  | fetched hc hl har m resp hrd => rw [hc] at hs; cases hs

end Step

theorem ReadInv.of_run (mem : BitVec 32 → BitVec 8) (es : List (LsuEvent L)) :
    ∃ ar ms, ReadInv ar (run LsuSystem.step (LsuSystem.reset L mem) es) ms := by
  induction es using List.reverseRecOn with
  | nil => exact ⟨.zero _, [], .idle rfl rfl rfl⟩
  | append_singleton es e ih =>
    obtain ⟨ar, ms, h⟩ := ih
    rw [run_snoc]
    exact h.exists_step e

/-- The read of `ar` is under way: nothing else is taken, and no data is accepted. -/
def ReadUnderway (ar : AddrReq L.lsuBusTag) (s : LsuSystem L) (e : LsuEvent L) : Prop :=
  (s.wrapper.arTake (s.input e) = true → e.sAr = ar) ∧ s.rFire e = false

theorem ReadInv.run_underway {s : LsuSystem L} {ar : AddrReq L.lsuBusTag} (h : ReadInv ar s []) :
    ∀ es, Along LsuSystem.step (ReadUnderway ar) s es →
      ReadInv ar (run LsuSystem.step s es) (log LsuSystem.step LsuSystem.fetches s es) := by
  refine Along.snocInduction h ?_
  intro es e _ ih he
  simp only [run_snoc, log_snoc]
  exact ih.step he.1 he.2

/-! ## The bytes returned -/

/-- Byte `i` of the doubleword is in the requested range `[araddr, araddr + 2 ^ arsize)`. -/
def InRange (ar : AddrReq L.lsuBusTag) (i : ℕ) : Prop :=
  ar.addr.toNat % 8 ≤ i ∧ i < ar.addr.toNat % 8 + 2 ^ ar.size.toNat

instance (ar : AddrReq L.lsuBusTag) (i : ℕ) : Decidable (InRange ar i) :=
  inferInstanceAs (Decidable (_ ∧ _))

/-- Every requested byte of the returned doubleword `d` is the one of the memory `m`. -/
def ReadReturns (ar : AddrReq L.lsuBusTag) (m : BitVec 32 → BitVec 8) (d : BitVec 64) : Prop :=
  ∀ i < 8, InRange ar i → lane d i = m (alignDown 3 ar.addr + BitVec.ofNat 32 i)

section Returns

variable {ar : AddrReq L.lsuBusTag} {m : BitVec 32 → BitVec 8}

/-- The doubleword the adapter returns. -/
def returned (ar : AddrReq L.lsuBusTag) (m : BitVec 32 → BitVec 8) : BitVec 64 :=
  let word := loadWord m (alignDown 2 ar.addr)
  if ar.addr.getLsbD 2 then word ++ 0#32 else 0#32 ++ word

theorem lane_returned {i : ℕ} (hi : i < 8) : lane (returned ar m) i =
    if halfOffset ar ≤ i ∧ i < halfOffset ar + 4 then
      m (alignDown 3 ar.addr + BitVec.ofNat 32 i) else 0 := by
  have hword : ∀ j < 4, lane (loadWord m (alignDown 2 ar.addr)) j =
      m (alignDown 3 ar.addr + BitVec.ofNat 32 (halfOffset ar + j)) := fun j hj => by
    rw [lane_loadWord m _ hj, base_add]
  unfold returned
  cases hbit : ar.addr.getLsbD 2 with
  | true =>
    have hoff : halfOffset ar = 4 := by rw [halfOffset, hbit, if_pos rfl]
    rw [if_pos rfl, lane_append _ _ hi, hoff]
    split_ifs with h h' h'
    · omega
    · exact lane_zero i
    · rw [hword _ (by omega), hoff, show 4 + (i - 4) = i by omega]
    · omega
  | false =>
    have hoff : halfOffset ar = 0 := by rw [halfOffset, hbit, if_neg Bool.false_ne_true]
    rw [if_neg Bool.false_ne_true, lane_append _ _ hi, hoff]
    split_ifs with h h' h'
    · rw [hword _ h, hoff, Nat.zero_add]
    · omega
    · omega
    · exact lane_zero _

end Returns

/-! ## The reads of the load/store unit -/

/-- A read the load/store unit issues: from side-effect memory with the actual address, a size of at
most a word and aligned to it (a misaligned one is refused as a fault); or from other memory with the
address of the doubleword and size `3`. -/
inductive LsuRead (ar : AddrReq L.lsuBusTag) : Prop
  | sideEffect (hsize : ar.size.toNat ≤ 2) (halign : 2 ^ ar.size.toNat ∣ ar.addr.toNat)
  | cacheable (hsize : ar.size = 3) (haddr : alignDown 3 ar.addr = ar.addr)

theorem LsuRead.returns_iff {ar : AddrReq L.lsuBusTag} (h : LsuRead ar)
    (m : BitVec 32 → BitVec 8) : ReadReturns ar m (returned ar m) ↔
      (ar.size = 3 → ∀ i, 4 ≤ i → i < 8 → m (alignDown 3 ar.addr + BitVec.ofNat 32 i) = 0) := by
  have hbit : ar.addr.getLsbD 2 = true ↔ ar.addr.toNat / 4 % 2 = 1 := by
    rw [BitVec.getLsbD, Nat.testBit_eq_decide_div_mod_eq, decide_eq_true_iff]
  cases h with
  | sideEffect hsize halign =>
    refine ⟨fun _ h3 => absurd hsize (by rw [h3]; decide), fun _ i hi hr => ?_⟩
    rw [lane_returned hi, if_pos]
    obtain ⟨hlo, hhi⟩ := hr
    unfold halfOffset
    obtain h0 | h1 | h2 : ar.size.toNat = 0 ∨ ar.size.toNat = 1 ∨ ar.size.toNat = 2 := by omega
    · rw [h0] at hhi
      split_ifs with hb <;> rw [hbit] at hb <;> omega
    · rw [h1] at hhi halign
      split_ifs with hb <;> rw [hbit] at hb <;> omega
    · rw [h2] at hhi halign
      split_ifs with hb <;> rw [hbit] at hb <;> omega
  | cacheable hsize haddr =>
    have hmod : ar.addr.toNat % 8 = 0 := by
      have := toNat_alignDown 3 ar.addr
      rw [haddr] at this
      omega
    have hoff : halfOffset ar = 0 := by
      rw [halfOffset, if_neg]
      rw [hbit]
      omega
    have hrange : ∀ i, InRange ar i ↔ i < 8 := fun i => by
      rw [InRange, hmod, hsize]
      exact ⟨fun h => h.2, fun h => ⟨Nat.zero_le _, h⟩⟩
    refine ⟨fun h _ i h4 h8 => ?_, fun h i hi _ => ?_⟩
    · rw [← h i h8 ((hrange i).mpr h8), lane_returned h8, hoff, if_neg (by omega)]
    · rw [lane_returned hi, hoff]
      split_ifs with hlt
      · rfl
      · exact (h hsize i (by omega) hi).symm

/-- **When a read returns every byte.** After any traffic `es₀` that leaves the read path in
`RS_IDLE`, the load/store unit issues the read of `ar`; `es` are the cycles up to the one, `e`, in which
it accepts the data `d`. Whatever the delays of the memory, the read is performed once, on the
contents `m`, and every requested byte of `d` is the one of `m`, iff the read is not a doubleword or
the upper half of the doubleword is zero. -/
theorem lsu_read_returns_iff (mem : BitVec 32 → BitVec 8) (es₀ es : List (LsuEvent L))
    (e : LsuEvent L) (ar : AddrReq L.lsuBusTag) (d : BitVec 64) (har : LsuRead ar)
    (hidle : (run LsuSystem.step (LsuSystem.reset L mem) es₀).wrapper.rdState = .idle)
    (hes : Along LsuSystem.step (ReadUnderway ar)
      (run LsuSystem.step (LsuSystem.reset L mem) es₀) es)
    (hr : (run LsuSystem.step (run LsuSystem.step (LsuSystem.reset L mem) es₀) es).rWords e =
      [d]) :
    let s := run LsuSystem.step (LsuSystem.reset L mem) es₀
    ∃ m, log LsuSystem.step LsuSystem.fetches s es = [m] ∧
      (ReadReturns ar m d ↔
        (ar.size = 3 → ∀ i, 4 ≤ i → i < 8 →
          m (alignDown 3 ar.addr + BitVec.ofNat 32 i) = 0)) := by
  intro s
  obtain ⟨ar₀, ms₀, hinv₀⟩ := ReadInv.of_run (L := L) mem es₀
  have hinv := (hinv₀.of_idle hidle ar).run_underway es hes
  unfold LsuSystem.rWords at hr
  split_ifs at hr with hfire
  obtain ⟨-, hl, -, m, resp, hms, hrd⟩ := hinv.rFire hfire
  refine ⟨m, hms, ?_⟩
  have hd : d = returned ar m := by
    rw [List.singleton_inj] at hr
    rw [← hr, LsuWrapper.sAxiRdata, hl, LsuSystem.input, hrd]
    rfl
  rw [hd, har.returns_iff]

/-- A read taken at once, performed and answered `OKAY`. -/
def LsuEvent.readCycles (ar : AddrReq L.lsuBusTag) : List (LsuEvent L) :=
  let idle := LsuEvent.idle ar ⟨0, 0⟩ ar
  [{ idle with sArvalid := true }, { idle with arready := true },
    { idle with fetch := some respOkay }]

/-- A word read of side-effect memory in the upper half of a doubleword returns its bytes. -/
theorem lsu_read_returns_word :
    let ar : AddrReq LsuParams.default.lsuBusTag := ⟨0, 0x104, 2, 1, false, 0, 1, 0⟩
    let e : LsuEvent LsuParams.default := { LsuEvent.idle ar ⟨0, 0⟩ ar with rvalid := true }
    let mem : BitVec 32 → BitVec 8 := fun x => x.setWidth 8
    (run LsuSystem.step (LsuSystem.reset LsuParams.default mem) (LsuEvent.readCycles ar)).rWords e =
        [0x0706050400000000] ∧
      ∃ m, log LsuSystem.step LsuSystem.fetches (LsuSystem.reset LsuParams.default mem)
        (LsuEvent.readCycles ar) = [m] ∧ ReadReturns ar m 0x0706050400000000 := by
  intro ar e mem
  have hr : (run LsuSystem.step (LsuSystem.reset LsuParams.default mem)
      (LsuEvent.readCycles ar)).rWords e = [0x0706050400000000] := by decide
  obtain ⟨m, hm, hiff⟩ := lsu_read_returns_iff (L := LsuParams.default) mem [] (LsuEvent.readCycles ar)
    e ar 0x0706050400000000 (.sideEffect (by decide) (by decide)) rfl
    ⟨⟨fun _ => rfl, rfl⟩, ⟨fun _ => rfl, rfl⟩, ⟨fun _ => rfl, rfl⟩, trivial⟩ hr
  exact ⟨hr, m, hm, hiff.mpr fun h3 => absurd h3 (by decide)⟩

/-- **A doubleword read returns zeros for the upper half.** The memory holds `0xFF` everywhere; byte
`4` of the doubleword is returned as `0`. -/
theorem lsu_read_upper_zero :
    let ar : AddrReq LsuParams.default.lsuBusTag := .doubleword 0x100
    let e : LsuEvent LsuParams.default := { LsuEvent.idle ar ⟨0, 0⟩ ar with rvalid := true }
    let s : LsuSystem LsuParams.default := .reset _ fun _ => 0xFF
    LsuRead ar ∧ s.wrapper.rdState = .idle ∧
      Along LsuSystem.step (ReadUnderway ar) s (LsuEvent.readCycles ar) ∧
      (run LsuSystem.step s (LsuEvent.readCycles ar)).rWords e = [0x00000000FFFFFFFF] ∧
      log LsuSystem.step LsuSystem.fetches s (LsuEvent.readCycles ar) = [fun _ => 0xFF] ∧
      ¬ ReadReturns ar (fun _ => 0xFF) 0x00000000FFFFFFFF := by
  intro ar e s
  refine ⟨.cacheable rfl (by decide), rfl, ?_, by decide, rfl, fun h => ?_⟩
  · exact ⟨⟨fun _ => rfl, rfl⟩, ⟨fun _ => rfl, rfl⟩, ⟨fun _ => rfl, rfl⟩, trivial⟩
  · exact absurd (h 4 (by decide) (by decide)) (by decide)

end PacketBuffering
