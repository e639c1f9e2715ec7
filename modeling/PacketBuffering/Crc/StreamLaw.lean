import PacketBuffering.Crc.Checker
import Mathlib.Data.List.Forall2

/-!
# The stream law of the CRC checker

In register mode with `auto_clear`, without soft reset and manual data, the verdicts follow the
packets of the stream.

* `Regular`, `Judging`: the mode of use of one cycle, and the part of it the invariant needs.
* `Judged`: a verdict is right about a packet; `Holds`: the registers stand for a packet.
* `CheckerInv`, **`CheckerInv.step`**: the invariant of the state machine, kept by every such cycle,
  also when polynomial and seed change.
* **`checker_stream_law`**: one pulse for each packet, with its CRC, its byte count and its verdict.
-/

namespace PacketBuffering

open CrcChecker Beat

/-- Register mode with `auto_clear`, no soft reset and no manual data. -/
structure Regular (i : CheckerIn) : Prop where
  softReset : i.softReset = false
  manual : i.manualDataValid = false
  autoClear : i.autoClear = true
  mode : i.modeConfig = crcModeRegister

instance (i : CheckerIn) : Decidable (Regular i) :=
  decidable_of_iff (_ ∧ _ ∧ _ ∧ _)
    ⟨fun h => ⟨h.1, h.2.1, h.2.2.1, h.2.2.2⟩, fun h => ⟨h.1, h.2, h.3, h.4⟩⟩

/-- `auto_clear` in a mode that compares, no soft reset and no manual data. -/
structure Judging (i : CheckerIn) : Prop where
  softReset : i.softReset = false
  manual : i.manualDataValid = false
  autoClear : i.autoClear = true
  mode : i.modeConfig ≠ crcModeComputeOnly

theorem Regular.judging {i : CheckerIn} (hi : Regular i) : Judging i :=
  ⟨hi.softReset, hi.manual, hi.autoClear, by rw [hi.mode]; decide⟩

/-! ## One packet -/

theorem packetReg_snoc {p : List Beat} (hp : p ≠ []) (b : Beat) :
    packetReg (p ++ [b]) = feed (packetReg p) b := by
  cases p with
  | nil => exact absurd rfl hp
  | cons a p => simp [packetReg]

theorem byteLength_snoc (p : List Beat) (b : Beat) :
    byteLength (p ++ [b]) = byteLength p + b.bytes.length := by
  simp [byteLength]

theorem packetCrc_eq_crcOf {poly seed : BitVec 32} {p : List Beat} (hp : p ≠ [])
    (h : ∀ b ∈ p, b.poly = poly ∧ b.seed = seed) :
    packetCrc p = crcOf poly seed (p.flatMap bytes) := by
  have hfold : ∀ (q : List Beat) (c : BitVec 32), (∀ b ∈ q, b.poly = poly ∧ b.seed = seed) →
      q.foldl feed c = (q.flatMap bytes).foldl (fun c d => updateByte c d poly) c := by
    intro q
    induction q with
    | nil => exact fun _ _ => rfl
    | cons b q ih =>
      intro c hq
      rw [List.foldl_cons, ih _ fun b' hb' => hq b' (List.mem_cons_of_mem _ hb'), feed,
        (hq b List.mem_cons_self).1, List.flatMap_cons, List.foldl_append]
  cases p with
  | nil => exact absurd rfl hp
  | cons b p => rw [packetCrc, packetReg, hfold _ _ h, (h b List.mem_cons_self).2, crcOf]

/-- The verdict reports the CRC `crc` and `n` bytes, is either a pass or an error, and is a pass iff
`crc` is the expected one. -/
structure Verdict.On (v : Verdict) (crc : BitVec 32) (n : ℕ) : Prop where
  calcCrc : v.calcCrc = crc
  byteCount : v.byteCount = BitVec.ofNat 32 n
  one : (v.pass ^^ v.error) = true
  pass : v.pass = true ↔ crc = v.expHold

/-- What a verification cycle reports on the CRC `crc` and `n` bytes. -/
def Verdict.report (mode : BitVec 2) (crc n hold : BitVec 32) : Verdict where
  calcCrc := crc
  byteCount := n
  pass := decide (mode ≠ crcModeComputeOnly ∧ crc = hold)
  error := decide (mode ≠ crcModeComputeOnly ∧ crc ≠ hold)
  expHold := hold

/-- The verdict is the one for the packet `p`. -/
def Judged (p : List Beat) (v : Verdict) : Prop := v.On (packetCrc p) (byteLength p)

/-- The engine's register and the byte count stand for the packet `p`. -/
structure Holds (s : CrcChecker) (p : List Beat) : Prop where
  crcReg : s.engine.crcReg = packetReg p
  byteCount : s.byteCount = BitVec.ofNat 32 (byteLength p)

/-! ## One cycle -/

/-- The bytes on offer on the manual port. -/
def CheckerIn.manualBytes (i : CheckerIn) : List (BitVec 8) :=
  if i.manualDataValid then enabledBytes i.manualDataIn i.manualDataBe else []

section Cycle

variable {s : CrcChecker} {i : CheckerIn}

/-- **What a cycle does** that is neither a verification nor a soft reset: apart from the state of the
packet it only makes the default assignments. -/
theorem clock_of_ne_verify (hreset : i.softReset = false) (hs : s.state ≠ .verify) :
    ∃ st a d n, s.clock i =
      { s.clockDefaults i with state := st, packetActive := a, statusDone := d, byteCount := n } := by
  unfold clock
  rw [hreset, if_neg Bool.false_ne_true]
  cases h : s.state with
  | idle =>
    simp only [clockIdle]
    split_ifs <;> exact ⟨_, _, _, _, rfl⟩
  | stream =>
    simp only [clockStream]
    split_ifs <;> exact ⟨_, _, _, _, rfl⟩
  | verify => exact absurd h hs

theorem clock_of_verify_state (hreset : i.softReset = false) (hs : s.state = .verify) :
    s.clock i = s.clockVerify i := by
  simp [clock, hreset, hs]

/-- The verification cycle leads to `STATE_IDLE`, also with a soft reset, and takes no word. -/
theorem state_clock_of_verify (hs : s.state = .verify) : (s.clock i).state = .idle := by
  simp only [clock, hs, clockSoftReset, clockVerify]
  split_ifs <;> rfl

theorem streamFire_of_verify (hs : s.state = .verify) : s.streamFire i = false := by
  simp [streamFire, sAxisTready, hs]

theorem clock_datapath : (s.clock i).engine = (s.clockDatapath i).engine ∧
    (s.clock i).expCrcHold = (s.clockDatapath i).expCrcHold := by
  cases hreset : i.softReset with
  | true =>
    rw [clock, hreset, if_pos rfl]
    exact ⟨rfl, rfl⟩
  | false =>
    by_cases hs : s.state = .verify
    · rw [clock_of_verify_state hreset hs]
      simp only [clockVerify]
      split_ifs <;> exact ⟨rfl, rfl⟩
    · obtain ⟨st, a, d, n, hclock⟩ := clock_of_ne_verify hreset hs
      rw [hclock]
      exact ⟨rfl, rfl⟩

theorem clock_engine : (s.clock i).engine = s.engine.clock (s.engineIn i) := clock_datapath.1

theorem clock_expCrcHold : (s.clock i).expCrcHold =
    if i.expCrcWe then i.expCrcReg else s.expCrcHold := clock_datapath.2

/-- **The report of any cycle**: only the verification cycle reports, on the engine's output and the
held CRC. -/
theorem pulses_eq : s.pulses i =
    if s.state = .verify ∧ i.softReset = false then
      [.report i.modeConfig s.engine.crcOut s.byteCount s.expCrcHold]
    else [] := by
  unfold Verdict.report pulses
  cases hreset : i.softReset with
  | true => simp [clock, hreset, clockSoftReset]
  | false =>
    by_cases hs : s.state = .verify
    · rw [clock_of_verify_state hreset hs]
      by_cases hmode : i.modeConfig = crcModeComputeOnly <;>
        by_cases heq : s.engine.crcOut = s.expCrcHold <;>
          simp [clockVerify, hs, hmode, heq, clockDefaults, clockDatapath]
    · obtain ⟨st, a, d, n, hclock⟩ := clock_of_ne_verify hreset hs
      simp [hclock, hs, clockDefaults]

/-- The beat of a cycle in which the stream fires. -/
def CheckerIn.beat (i : CheckerIn) : Beat :=
  ⟨i.sAxis, effectivePoly i.polyRev, effectiveInit i.initVal⟩

theorem beats_of_fire (h : s.streamFire i = true) : s.beats i = [i.beat] := by
  simp [beats, h, CheckerIn.beat]

theorem beats_of_not_fire (h : s.streamFire i = false) : s.beats i = [] := by
  simp [beats, h]

theorem enable_of_fire (h : s.streamFire i = true) : i.enable = true := by
  simp only [streamFire, sAxisTready, Bool.and_eq_true] at h
  exact h.2.1

theorem crcReg_of_fire (hreset : i.softReset = false) (hclear : i.autoClear = true)
    (h : s.streamFire i = true) : (s.clock i).engine.crcReg =
      feed (if s.state = .idle then i.beat.seed else s.engine.crcReg) i.beat := by
  rw [clock_engine, Crc32Engine.clock_crcReg]
  simp [engineIn, EngineIn.bytes, Crc32Engine.crcCurrent, startOfNewPacket, h, hreset, hclear, feed,
    CheckerIn.beat, Beat.bytes, Payload.bytes]

theorem crcReg_of_not_fire (hreset : i.softReset = false) (h : s.streamFire i = false) :
    (s.clock i).engine.crcReg = i.manualBytes.foldl
      (fun c b => updateByte c b (effectivePoly i.polyRev)) s.engine.crcReg := by
  rw [clock_engine, Crc32Engine.clock_crcReg]
  cases hv : i.manualDataValid <;>
    simp [engineIn, EngineIn.bytes, Crc32Engine.crcCurrent, startOfNewPacket, h, hreset, hv,
      CheckerIn.manualBytes]

theorem clock_of_not_fire (hreset : i.softReset = false) (hman : i.manualDataValid = false)
    (h : s.streamFire i = false) (hs : s.state ≠ .verify) :
    (s.clock i).state = s.state ∧ (s.clock i).byteCount = s.byteCount ∧
      (s.clock i).engine.crcReg = s.engine.crcReg ∧ s.pulses i = [] := by
  have hclock : s.clock i = s.clockDefaults i := by
    unfold clock
    rw [hreset, if_neg Bool.false_ne_true]
    cases hst : s.state with
    | idle => simp [clockIdle, h, hman]
    | stream => simp [clockStream, h]
    | verify => exact absurd hst hs
  refine ⟨by rw [hclock]; rfl, by rw [hclock]; rfl, ?_, by simp [pulses, hclock, clockDefaults]⟩
  rw [crcReg_of_not_fire hreset h]
  simp [CheckerIn.manualBytes, hman]

theorem clock_of_fire (hreset : i.softReset = false) (h : s.streamFire i = true) :
    (s.clock i).state = (if i.beat.last then .verify else .stream) ∧
      (s.clock i).byteCount =
        (if s.state = .idle then 0 else s.byteCount) + BitVec.ofNat 32 i.beat.bytes.length ∧
      s.pulses i = [] := by
  have hlen : (countBytes i.sAxis.tkeep).setWidth 32 = BitVec.ofNat 32 i.beat.bytes.length :=
    countBytes_eq _ _
  have hlast : i.beat.last = i.sAxis.tlast := rfl
  unfold pulses clock
  rw [hreset, if_neg Bool.false_ne_true, hlast]
  cases hst : s.state with
  | idle => simp [clockIdle, h, enable_of_fire h, clockDefaults, hlen]
  | stream => simp [clockStream, h, clockDefaults, hlen]
  | verify => simp [streamFire, sAxisTready, hst] at h

/-- **The verification cycle** reports the packet the registers stand for. -/
theorem clock_of_verify (hi : Judging i) (hs : s.state = .verify) {p : List Beat}
    (hp : Holds s p) :
    s.streamFire i = false ∧ (s.clock i).state = .idle ∧ ∃ v, s.pulses i = [v] ∧ Judged p v := by
  have hcrc : s.engine.crcOut = packetCrc p := by rw [Crc32Engine.crcOut, hp.crcReg, packetCrc]
  refine ⟨streamFire_of_verify hs, state_clock_of_verify hs, ?_⟩
  unfold pulses
  rw [clock_of_verify_state hi.softReset hs, clockVerify, if_neg hi.mode]
  split_ifs with heq
  · exact ⟨_, rfl, hcrc, hp.byteCount, rfl, by simp [← hcrc, heq]⟩
  · exact ⟨_, rfl, hcrc, hp.byteCount, rfl, by simp [← hcrc, heq, clockDefaults]⟩

end Cycle

/-! ## The invariant -/

/-- **The invariant** after the beats `bs` and the verdicts `vs`. -/
def CheckerInv (s : CrcChecker) (bs : List Beat) (vs : List Verdict) : Prop :=
  match s.state with
  | .idle => openPacket Beat.last bs = [] ∧ List.Forall₂ Judged (packets Beat.last bs) vs
  | .stream => openPacket Beat.last bs ≠ [] ∧ Holds s (openPacket Beat.last bs) ∧
      List.Forall₂ Judged (packets Beat.last bs) vs
  | .verify => openPacket Beat.last bs = [] ∧ ∃ ps p, packets Beat.last bs = ps ++ [p] ∧
      Holds s p ∧ List.Forall₂ Judged ps vs

namespace CheckerInv

variable {s : CrcChecker} {i : CheckerIn} {bs : List Beat} {vs : List Verdict}

theorem of_idle (hs : s.state = .idle) : CheckerInv s [] [] := by
  unfold CheckerInv
  rw [hs]
  exact ⟨rfl, .nil⟩

theorem step_of_fire (hi : Judging i) (hfire : s.streamFire i = true)
    (hvs : List.Forall₂ Judged (packets Beat.last bs) vs)
    (hnext : Holds (s.clock i) (openPacket Beat.last bs ++ [i.beat])) :
    CheckerInv (s.clock i) (bs ++ s.beats i) (vs ++ s.pulses i) := by
  obtain ⟨hstate, -, hpulse⟩ := clock_of_fire hi.softReset hfire
  rw [beats_of_fire hfire, hpulse, List.append_nil]
  unfold CheckerInv
  rw [hstate]
  cases hlast : i.beat.last with
  | false =>
    simp only [Bool.false_eq_true, if_false]
    rw [openPacket_snoc_of_not_last _ hlast, packets_snoc_of_not_last _ hlast]
    exact ⟨by simp, hnext, hvs⟩
  | true =>
    simp only [if_true]
    rw [openPacket_snoc_of_last _ hlast, packets_snoc_of_last _ hlast]
    exact ⟨rfl, _, _, rfl, hnext, hvs⟩

theorem step_of_not_fire (h : CheckerInv s bs vs) (hi : Judging i) (hfire : s.streamFire i = false)
    (hs : s.state ≠ .verify) : CheckerInv (s.clock i) (bs ++ s.beats i) (vs ++ s.pulses i) := by
  obtain ⟨hstate, hcount, hreg, hpulse⟩ := clock_of_not_fire hi.softReset hi.manual hfire hs
  rw [beats_of_not_fire hfire, hpulse, List.append_nil, List.append_nil]
  unfold CheckerInv at h ⊢
  rw [hstate]
  cases hst : s.state with
  | idle => simpa only [hst] using h
  | stream =>
    simp only [hst] at h ⊢
    obtain ⟨hopen, hholds, hvs⟩ := h
    exact ⟨hopen, ⟨hreg.trans hholds.crcReg, hcount.trans hholds.byteCount⟩, hvs⟩
  | verify => exact absurd hst hs

/-- **Every cycle that judges keeps the invariant.** -/
theorem step (h : CheckerInv s bs vs) (hi : Judging i) :
    CheckerInv (s.clock i) (bs ++ s.beats i) (vs ++ s.pulses i) := by
  have h' := h
  unfold CheckerInv at h'
  cases hs : s.state with
  | idle =>
    simp only [hs] at h'
    obtain ⟨hopen, hvs⟩ := h'
    cases hfire : s.streamFire i with
    | false => exact h.step_of_not_fire hi hfire (by rw [hs]; decide)
    | true =>
      obtain ⟨-, hcount, -⟩ := clock_of_fire hi.softReset hfire
      refine step_of_fire hi hfire hvs ⟨?_, ?_⟩
      · rw [crcReg_of_fire hi.softReset hi.autoClear hfire, if_pos hs, hopen]
        rfl
      · rw [hcount, if_pos hs, hopen]
        simp [byteLength]
  | stream =>
    simp only [hs] at h'
    obtain ⟨hopen, hholds, hvs⟩ := h'
    have hne : s.state ≠ .idle := by rw [hs]; decide
    cases hfire : s.streamFire i with
    | false => exact h.step_of_not_fire hi hfire (by rw [hs]; decide)
    | true =>
      obtain ⟨-, hcount, -⟩ := clock_of_fire hi.softReset hfire
      refine step_of_fire hi hfire hvs ⟨?_, ?_⟩
      · rw [crcReg_of_fire hi.softReset hi.autoClear hfire, if_neg hne, hholds.crcReg,
          packetReg_snoc hopen]
      · rw [hcount, if_neg hne, hholds.byteCount, byteLength_snoc, BitVec.ofNat_add]
  | verify =>
    simp only [hs] at h'
    obtain ⟨hopen, ps, p, hps, hholds, hvs⟩ := h'
    obtain ⟨hfire, hstate, v, hpulse, hv⟩ := clock_of_verify hi hs hholds
    rw [beats_of_not_fire hfire, hpulse, List.append_nil]
    unfold CheckerInv
    rw [hstate, hps]
    exact ⟨hopen, List.rel_append hvs (.cons hv .nil)⟩

theorem of_run (hs : s.state = .idle) :
    ∀ is : List CheckerIn, Along clock (fun _ i => Judging i) s is →
      CheckerInv (run clock s is) (log clock beats s is) (log clock pulses s is) := by
  refine Along.snocInduction (of_idle hs) ?_
  intro is i _ ih hi
  simp only [run_snoc, log_snoc]
  exact ih.step hi

theorem forall₂ (h : CheckerInv s bs vs) :
    List.Forall₂ Judged ((packets Beat.last bs).take vs.length) vs ∧
      vs.length + (if s.state = .verify then 1 else 0) = (packets Beat.last bs).length := by
  unfold CheckerInv at h
  cases hs : s.state <;> simp only [hs] at h
  · obtain ⟨-, hvs⟩ := h
    rw [← hvs.length_eq, List.take_length]
    exact ⟨hvs, by simp⟩
  · obtain ⟨-, -, hvs⟩ := h
    rw [← hvs.length_eq, List.take_length]
    exact ⟨hvs, by simp⟩
  · obtain ⟨-, ps, p, hps, -, hvs⟩ := h
    rw [hps, ← hvs.length_eq, List.take_left]
    exact ⟨hvs, by simp⟩

theorem judged (h : CheckerInv s bs vs) {k : ℕ} {v : Verdict} (hk : vs[k]? = some v) :
    ∃ p, (packets Beat.last bs)[k]? = some p ∧ Judged p v := by
  obtain ⟨hlt, hv⟩ := List.getElem?_eq_some_iff.mp hk
  have hf := h.forall₂.1
  have hlen := hf.length_eq
  refine ⟨_, List.getElem?_eq_getElem (by rw [List.length_take] at hlen; omega), ?_⟩
  have := hf.get (i := k) (by omega) hlt
  simpa [hv] using this

end CheckerInv

/-! ## The law -/

theorem beats_map_word (s : CrcChecker) (i : CheckerIn) :
    (s.beats i).map Beat.word = s.streamWords i := by
  unfold beats streamWords
  split_ifs <;> rfl

theorem log_streamWords (s : CrcChecker) (is : List CheckerIn) :
    log clock streamWords s is = (log clock beats s is).map Beat.word :=
  log_eq_map _ (fun s i => (beats_map_word s i).symm) s is

theorem packets_map_word (bs : List Beat) : packets Payload.tlast (bs.map Beat.word) =
    (packets Beat.last bs).map (List.map Beat.word) :=
  (packets_map bs fun _ => rfl).1

theorem packets_streamWords (s : CrcChecker) (is : List CheckerIn) :
    packets Payload.tlast (log clock streamWords s is) =
      (packets Beat.last (log clock beats s is)).map (List.map Beat.word) := by
  rw [← packets_map_word, ← log_streamWords]

theorem length_pulses {s : CrcChecker} {is : List CheckerIn} (hs : s.state = .idle)
    (his : ∀ i ∈ is, Judging i) :
    (log clock pulses s is).length + (if (run clock s is).state = .verify then 1 else 0) =
      ((log clock streamWords s is).filter Payload.tlast).length := by
  rw [← length_packets, packets_streamWords, List.length_map]
  exact (CheckerInv.of_run hs is (along_of_forall _ his)).forall₂.2

section Constant

variable {poly seed : BitVec 32} {s : CrcChecker} {is : List CheckerIn}

theorem verdict_on (hs : s.state = .idle)
    (his : ∀ i ∈ is, Judging i ∧ effectivePoly i.polyRev = poly ∧ effectiveInit i.initVal = seed)
    {k : ℕ} {v : Verdict} (hk : (log clock pulses s is)[k]? = some v) :
    ∃ p : List Payload, (packets Payload.tlast (log clock streamWords s is))[k]? = some p ∧
      v.On (crcOf poly seed (p.flatMap Payload.bytes)) (p.flatMap Payload.bytes).length := by
  have hparam : ∀ b ∈ log clock beats s is, b.poly = poly ∧ b.seed = seed := by
    refine Along.forall_mem_log ?_ (along_of_forall _ his)
    rintro t i ⟨-, hpoly, hseed⟩ b hb
    unfold beats at hb
    split_ifs at hb with hfire
    · rw [List.mem_singleton] at hb
      rw [hb]
      exact ⟨hpoly, hseed⟩
    · simp at hb
  obtain ⟨p, hp, hv⟩ :=
    (CheckerInv.of_run hs is (along_of_forall _ fun i hi => (his i hi).1)).judged hk
  have hmem : p ∈ packets Beat.last (log clock beats s is) := List.mem_of_getElem? hp
  have hcrc := packetCrc_eq_crcOf (ne_nil_of_mem_packets hmem)
    fun b hb => hparam b (mem_of_mem_packets hmem b hb)
  have hbytes : (p.map Beat.word).flatMap Payload.bytes = p.flatMap bytes := List.flatMap_map ..
  refine ⟨p.map Beat.word, by rw [packets_streamWords, List.getElem?_map, hp]; rfl, ?_⟩
  rw [hbytes, ← hcrc]
  exact hv

end Constant

/-- **The stream law of the checker.** In every run from reset in register mode with `auto_clear`,
under one polynomial and one seed, without soft reset and manual data, there is one pulse of
`crc_done_o` for each word with `tlast` taken from the stream, except for a packet in its
verification cycle, whose pulse is the next cycle's; and the `k`-th pulse reports the CRC and the
number of the enabled bytes of the `k`-th packet, and passes it iff that CRC is the one held in the
verification cycle. -/
theorem checker_stream_law (poly seed : BitVec 32) (is : List CheckerIn)
    (his : ∀ i ∈ is, Regular i ∧ i.polyRev = poly ∧ i.initVal = seed) :
    let s := run clock .reset is
    let ws := log clock streamWords .reset is
    let vs := log clock pulses .reset is
    vs.length + (if s.state = .verify then 1 else 0) = (ws.filter Payload.tlast).length ∧
      (∀ i, Regular i → s.state = .verify → (s.clock i).crcDone = true) ∧
      ∀ (k : ℕ) (v : Verdict), vs[k]? = some v →
        ∃ p : List Payload, (packets Payload.tlast ws)[k]? = some p ∧
          v.On (crcOf (effectivePoly poly) (effectiveInit seed) (p.flatMap Payload.bytes))
            (p.flatMap Payload.bytes).length := by
  intro s ws vs
  have hjudging : ∀ i ∈ is, Judging i := fun i hi => (his i hi).1.judging
  refine ⟨?_, ?_, ?_⟩
  · exact length_pulses rfl hjudging
  · intro i hi hs
    have hmode := hi.judging.mode
    simp only [clock, hi.softReset, Bool.false_eq_true, if_false, hs, clockVerify, hmode]
    split_ifs <;> rfl
  · intro k v hk
    refine verdict_on rfl (fun i hi => ⟨hjudging i hi, ?_, ?_⟩) hk
    · rw [(his i hi).2.1]
    · rw [(his i hi).2.2]

/-- An enabled cycle in register mode with `auto_clear` and nothing on the stream. -/
def CheckerIn.quiet : CheckerIn :=
  ⟨true, false, crcModeRegister, true, 0, 0, 0, false, false, false, 0, 0, false, false, .zero⟩

/-- Two packets, the first of one word; the checker is disabled for a cycle inside the second. -/
theorem checker_stream_law_two_packets :
    let word (w : Payload) : CheckerIn := { CheckerIn.quiet with sAxisTvalid := true, sAxis := w }
    let is : List CheckerIn :=
      [{ CheckerIn.quiet with expCrcWe := true, expCrcReg := 0x9BE3E0A3 },
        word ⟨true, 0b1111, 0x34333231⟩, CheckerIn.quiet, word ⟨false, 0b1111, 0x34333231⟩,
        { word ⟨true, 0b0001, 0x35⟩ with enable := false }, word ⟨true, 0b0001, 0x35⟩,
        CheckerIn.quiet]
    log clock pulses .reset is =
        [⟨0x9BE3E0A3, 4, true, false, 0x9BE3E0A3⟩, ⟨0xCBF53A1C, 5, false, true, 0x9BE3E0A3⟩] ∧
      ∃ p, (packets Payload.tlast (log clock streamWords .reset is))[1]? = some p ∧
        (⟨0xCBF53A1C, 5, false, true, 0x9BE3E0A3⟩ : Verdict).On
          (crcOf (effectivePoly 0) (effectiveInit 0) (p.flatMap Payload.bytes))
          (p.flatMap Payload.bytes).length := by
  intro word is
  have hpulses : log clock pulses .reset is =
      [⟨0x9BE3E0A3, 4, true, false, 0x9BE3E0A3⟩, ⟨0xCBF53A1C, 5, false, true, 0x9BE3E0A3⟩] := by
    decide +kernel
  exact ⟨hpulses, (checker_stream_law 0 0 is (by decide)).2.2 1 _ (by rw [hpulses]; rfl)⟩

end PacketBuffering
