import PacketBuffering.Aes.Bursts

/-!
# The burst law of the AES slave

Runs out of reset, for any timing of the five channels.

* `awLog`, `wLog`, `bLog`, `arLog`, `rLog`: the handshakes; `pulseLog`: the writes on the register
  bus; `busWrites`: the writes that bursts ask for.
* `writeMachine`: the write direction as a machine that takes the beats of its requests.
* `AesBurstLaw`, **`aes_burst_law`**: what is written, what is read and what is answered, and that
  neither direction depends on the other.
-/

namespace PacketBuffering

variable {R : AesParams}

/-- The bus write of a beat; a burst that is not supported writes nothing. -/
def AesSlot.place (l : AesSlot R) (w : AesWBeat R) : List (BusWrite R) :=
  if l.ok then [⟨l.addr, w.data, w.strb⟩] else []

/-- The bus writes of bursts, beat by beat. -/
def busWrites (rs : List (AesReq R)) (ws : List (AesWBeat R)) : List (BusWrite R) :=
  (List.zipWith AesSlot.place (rs.flatMap AesReq.slots) ws).flatten

/-- What a read beat tells of its burst. -/
def AesRBeat.kind (r : AesRBeat R) : BitVec R.idWidth × BitVec 2 × Bool := (r.id, r.resp, r.last)

/-- What a beat of a burst asks for. -/
def AesSlot.kind (l : AesSlot R) : BitVec R.idWidth × BitVec 2 × Bool := (l.id, respOf l.ok, l.last)

/-- The inputs of a cycle that belong to the write direction. -/
def AesSlaveIn.writeSide (i : AesSlaveIn R) : Bool × AesReq R × Bool × AesWBeat R × Bool :=
  (i.awvalid, i.aw, i.wvalid, i.w, i.bready)

/-- The inputs of a cycle that belong to the read direction. -/
def AesSlaveIn.readSide (i : AesSlaveIn R) : Bool × AesReq R × Bool × BitVec R.dataWidth :=
  (i.arvalid, i.ar, i.rready, i.regRdData)

theorem AesWriter.clock_congr (s : AesWriter R) {i i' : AesSlaveIn R}
    (h : i.writeSide = i'.writeSide) : s.clock i = s.clock i' := by
  cases i
  cases i'
  simp only [AesSlaveIn.writeSide, Prod.mk.injEq] at h
  obtain ⟨rfl, rfl, rfl, rfl, rfl⟩ := h
  rfl

theorem AesReader.clock_congr (s : AesReader R) {i i' : AesSlaveIn R}
    (h : i.readSide = i'.readSide) : s.clock i = s.clock i' := by
  cases i
  cases i'
  simp only [AesSlaveIn.readSide, Prod.mk.injEq] at h
  obtain ⟨rfl, rfl, rfl, rfl⟩ := h
  rfl

theorem AesWriter.WriterInv.pulse_eq {s : AesWriter R} {i : AesSlaveIn R} (h : s.WriterInv) :
    (s.clock i).pulse = (List.zipWith AesSlot.place (s.taken i) (s.ws i)).flatten := by
  rw [h.pulse_clock]
  cases hw : s.wFire i <;> simp [AesWriter.taken, AesWriter.ws, hw, AesSlot.place]

namespace AxiAesSlave

section Logs

variable (es : List (AesSlaveIn R))

/-- The write requests accepted in a run. -/
def awLog : List (AesReq R) := log clock (fun s => s.wr.aws) (reset R) es

/-- The write data accepted in a run. -/
def wLog : List (AesWBeat R) := log clock (fun s => s.wr.ws) (reset R) es

/-- The responses handed over in a run. -/
def bLog : List (AesBResp R) := log clock (fun s => s.wr.bs) (reset R) es

/-- The read requests accepted in a run. -/
def arLog : List (AesReq R) := log clock (fun s => s.rd.ars) (reset R) es

/-- The read data handed over in a run. -/
def rLog : List (AesRBeat R) := log clock (fun s => s.rd.rs) (reset R) es

/-- The writes on the register bus, cycle by cycle. -/
def pulseLog : List (BusWrite R) := log clock (fun s _ => s.wr.pulse) (reset R) es

/-- The reads on the register bus, each for a beat of a burst. -/
def loadLog : List (AesSlot R) := log clock (fun s _ => s.rd.loads) (reset R) es

end Logs

/-- The write beats are marked as the bursts of a master ask for. -/
def Framed (es : List (AesSlaveIn R)) : Prop :=
  FramedBy AesReq.slots AesSlot.last AesWBeat.last (awLog es) (wLog es)

theorem Framed.of_isPrefix {es es' : List (AesSlaveIn R)} (h : Framed es) (hes : es' <+: es) :
    Framed es' :=
  FramedBy.of_isPrefix h (log_isPrefix clock _ _ hes) (log_isPrefix clock _ _ hes)

/-- The invariant of the slave. -/
def Inv (s : AxiAesSlave R) : Prop := s.wr.WriterInv ∧ s.rd.ReaderInv

theorem Inv.reset : Inv (reset R) := ⟨.reset, .reset⟩

theorem Inv.clock {s : AxiAesSlave R} (h : Inv s) (i : AesSlaveIn R) : Inv (s.clock i) :=
  ⟨h.1.clock, h.2.clock⟩

variable (R) in
/-- **The write direction takes the beats of its requests.** -/
def writeMachine : BurstMachine (clock (R := R)) (AesReq.slots (R := R)) (AesSlot.last (R := R))
    (AesWBeat.last (R := R)) where
  Inv := Inv
  reqs := fun s => s.wr.aws
  beats := fun s => s.wr.ws
  taken := fun s => s.wr.taken
  due := fun s => s.wr.due
  keep := fun _ i h => h.clock i
  length_taken := fun _ _ => AesWriter.length_taken
  taken_isPrefix := fun _ _ h => h.1.taken_isPrefix
  pass := fun _ _ h hi => h.1.taken_append hi

section Runs

variable {es : List (AesSlaveIn R)}

theorem inv_of_run (es : List (AesSlaveIn R)) : Inv (run clock (reset R) es) :=
  BurstMachine.inv_run (M := writeMachine R) Inv.reset es

theorem marked_of_framed (h : Framed es) : Along clock (writeMachine R).Marked (reset R) es :=
  BurstMachine.along_marked Inv.reset rfl h

theorem length_takenLog (es : List (AesSlaveIn R)) :
    (log clock (fun s => s.wr.taken) (reset R) es).length = (wLog es).length :=
  length_log_eq clock (fun _ _ => AesWriter.length_taken) (reset R) es

theorem takenLog_append (h : Along clock (writeMachine R).Marked (reset R) es) :
    log clock (fun s => s.wr.taken) (reset R) es ++ (run clock (reset R) es).wr.due =
      (awLog es).flatMap AesReq.slots :=
  BurstMachine.taken_append (M := writeMachine R) Inv.reset rfl h

theorem bLog_append (h : Along clock (writeMachine R).Marked (reset R) es) :
    bLog es ++ (run clock (reset R) es).wr.response =
      (awLog es).map fun r => ⟨r.id, respOf (!r.error)⟩ := by
  have hbuf := h.log_buffer Inv (fun s => s.wr.response) (fun _ i h _ => h.clock i)
    (fun _ _ h hi => h.1.bs_append hi) Inv.reset
  rw [log_map] at hbuf
  exact hbuf

theorem pulseLog_append (es : List (AesSlaveIn R)) :
    pulseLog es ++ (run clock (reset R) es).wr.pulse =
      (List.zipWith AesSlot.place (log clock (fun s => s.wr.taken) (reset R) es)
        (wLog es)).flatten := by
  have hbuf := (along_true clock (reset R) es).log_buffer Inv (fun s => s.wr.pulse)
    (fun _ i h _ => h.clock i)
    (fun s i h _ => congrArg (s.wr.pulse ++ ·) (h.1.pulse_eq (i := i))) Inv.reset
  rw [log_hom clock (fun s i => List.zipWith AesSlot.place (s.wr.taken i) (s.wr.ws i))
    List.flatten_nil fun _ _ => List.flatten_append,
    log_zipWith clock fun s i => AesWriter.length_taken (s := s.wr) (i := i)] at hbuf
  exact hbuf

theorem pulseLog_eq (h : Along clock (writeMachine R).Marked (reset R) es) :
    pulseLog es ++ (run clock (reset R) es).wr.pulse = busWrites (awLog es) (wLog es) := by
  rw [pulseLog_append, busWrites, ← takenLog_append h, ← List.append_nil (wLog es),
    List.zipWith_append (length_takenLog es), List.zipWith_nil_right, List.append_nil, List.append_nil]

theorem loadLog_append (es : List (AesSlaveIn R)) :
    loadLog es ++ (run clock (reset R) es).rd.due = (arLog es).flatMap AesReq.slots := by
  have hbuf := (along_true clock (reset R) es).log_buffer Inv (fun s => s.rd.due)
    (fun _ i h _ => h.clock i) (fun s i h _ => h.2.loads_append (i := i)) Inv.reset
  rw [log_hom clock (fun s => s.rd.ars) List.flatMap_nil fun _ _ => List.flatMap_append] at hbuf
  exact hbuf

theorem rLog_append (es : List (AesSlaveIn R)) :
    (rLog es).map AesRBeat.kind ++ (run clock (reset R) es).rd.offered.map AesRBeat.kind =
      (loadLog es).map AesSlot.kind := by
  have hbuf := (along_true clock (reset R) es).log_buffer Inv (fun s => s.rd.offered)
    (fun _ i h _ => h.clock i) (fun s i h _ => h.2.rs_append (i := i)) Inv.reset
  have hloads : (loadLog es).map AesSlot.kind = (log clock
      (fun s i => s.rd.loads.map (AesReader.beatOf i.regRdData)) (reset R) es).map
        AesRBeat.kind := by
    rw [loadLog, ← log_map, ← log_map]
    simp only [List.map_map]
    rfl
  rw [hloads, rLog, ← List.map_append, hbuf]
  rfl

/-- When a response is accepted, every beat has been taken and is on the bus at the latest now. -/
theorem settled_of_bs {i : AesSlaveIn R}
    (h : Along clock (writeMachine R).Marked (reset R) (es ++ [i]))
    (hb : (run clock (reset R) es).wr.bs i ≠ []) :
    (wLog es).length = ((awLog es).flatMap AesReq.slots).length ∧
      pulseLog (es ++ [i]) = busWrites (awLog es) (wLog es) := by
  have hes := ((along_append _ es [i]).mp h).1
  have hfire : (run clock (reset R) es).wr.bFire i = true := by
    by_contra hno
    exact hb (by simp [AesWriter.bs, hno])
  have htaken := takenLog_append hes
  have hpulse := pulseLog_eq h
  cases (inv_of_run es).1.cycle i with
  | finish hs hv haw hw _ hclock =>
    have hdue : (run clock (reset R) es).wr.due = [] := by simp [AesWriter.due, hs]
    have hnone : (run clock (reset R) (es ++ [i])).wr.pulse = [] := by
      rw [run_snoc, clock, hclock]
      rfl
    have haws : awLog (es ++ [i]) = awLog es := by simp [awLog, AesWriter.aws, haw]
    have hws : wLog (es ++ [i]) = wLog es := by simp [wLog, AesWriter.ws, hw]
    rw [hnone, List.append_nil, haws, hws] at hpulse
    rw [hdue, List.append_nil] at htaken
    exact ⟨by rw [← htaken, length_takenLog], hpulse⟩
  | wait _ _ hb' _ | start _ _ _ _ hb' _ | beat _ _ _ _ hb' _ _ _ | close _ _ _ _ hb' _ _ =>
    exact absurd (hb'.symm.trans hfire) Bool.false_ne_true

end Runs

/-! ## The law -/

/-- **The burst accounting of the slave**, after the cycles `es`, and in the next one, with the inputs
`i`. -/
structure AesBurstLaw (es : List (AesSlaveIn R)) (i : AesSlaveIn R) : Prop where
  /-- The beats of supported bursts are written on the bus, one cycle each and in order. -/
  writes : pulseLog es ++ (run clock (reset R) es).wr.pulse = busWrites (awLog es) (wLog es)
  beats : (wLog es).length + (run clock (reset R) es).wr.due.length =
    ((awLog es).flatMap AesReq.slots).length
  /-- Each write burst is answered once, under its identifier, behind its last bus write. -/
  responses : bLog es ++ (run clock (reset R) es).wr.response =
    (awLog es).map fun r => ⟨r.id, respOf (!r.error)⟩
  settled : ∀ es₁ e, es₁ ++ [e] <+: es → (run clock (reset R) es₁).wr.bs e ≠ [] →
    (wLog es₁).length = ((awLog es₁).flatMap AesReq.slots).length ∧
      pulseLog (es₁ ++ [e]) = busWrites (awLog es₁) (wLog es₁)
  /-- The beats of a read burst are read on the bus in order, and given as read. -/
  loads : loadLog es ++ (run clock (reset R) es).rd.due = (arLog es).flatMap AesReq.slots
  reads : (rLog es).map AesRBeat.kind ++ (run clock (reset R) es).rd.offered.map AesRBeat.kind =
    (loadLog es).map AesSlot.kind
  /-- Offers stay until they are accepted. -/
  keepsB : Keeps (owed (run clock (reset R) es).wr.bvalid i.bready (run clock (reset R) es).wr.b)
    (run clock (reset R) (es ++ [i])).wr.bvalid (run clock (reset R) (es ++ [i])).wr.b
  keepsR : Keeps (owed (run clock (reset R) es).rd.rvalid i.rready (run clock (reset R) es).rd.r)
    (run clock (reset R) (es ++ [i])).rd.rvalid (run clock (reset R) (es ++ [i])).rd.r
  /-- The slave waits for its master only. -/
  ready : (run clock (reset R) es).wr.Ready ∧ (run clock (reset R) es).rd.Ready
  /-- Neither direction depends on the other. -/
  writer : ∀ es' : List (AesSlaveIn R),
    es'.map AesSlaveIn.writeSide = es.map AesSlaveIn.writeSide →
      (run clock (reset R) es').wr = (run clock (reset R) es).wr
  reader : ∀ es' : List (AesSlaveIn R),
    es'.map AesSlaveIn.readSide = es.map AesSlaveIn.readSide →
      (run clock (reset R) es').rd = (run clock (reset R) es).rd

/-- **The burst law of the AES slave**: for any widths, any timing and any overlap of write and read
bursts, if the beats of the write bursts are marked as they ask for. -/
theorem aes_burst_law (es : List (AesSlaveIn R)) (i : AesSlaveIn R) (h : Framed es) :
    AesBurstLaw es i := by
  have hrun := marked_of_framed h
  have hinv := inv_of_run es
  refine ⟨pulseLog_eq hrun, ?_, bLog_append hrun, ?_, loadLog_append es, rLog_append es, ?_, ?_,
    ⟨hinv.1.ready, hinv.2.ready⟩, ?_, ?_⟩
  · rw [← length_takenLog, ← takenLog_append hrun, List.length_append]
  · exact fun es₁ e hes hb => settled_of_bs (hrun.of_isPrefix hes) hb
  · rw [run_append]
    exact hinv.1.keeps
  · rw [run_append]
    exact hinv.2.keeps
  · refine fun es' hes => run_part_congr (fun s s' e e' hs he => ?_) rfl hes
    show s.wr.clock e = s'.wr.clock e'
    rw [hs, s'.wr.clock_congr he]
  · refine fun es' hes => run_part_congr (fun s s' e e' hs he => ?_) rfl hes
    show s.rd.clock e = s'.rd.clock e'
    rw [hs, s'.rd.clock_congr he]

/-- No request, responses accepted. -/
def idle : AesSlaveIn .default where
  awvalid := false
  aw := ⟨0, 0, 0, 0, 0⟩
  wvalid := false
  w := ⟨0, 0, false⟩
  bready := true
  arvalid := false
  ar := ⟨0, 0, 0, 0, 0⟩
  rready := true
  regRdData := 0

/-- An incrementing write burst of two beats at `KEY3`, while a read burst of two beats with an
unsupported size is under way, and then a write with the reserved burst type. -/
def burstRun : List (AesSlaveIn .default) :=
  [{ idle with
      awvalid := true, aw := ⟨5, 0x1C, 1, 2, 0b01⟩, arvalid := true, ar := ⟨9, 0x10, 1, 3, 0b00⟩ },
    { idle with wvalid := true, w := ⟨0x01020304, 0b1111, false⟩ },
    { idle with wvalid := true, w := ⟨0x05060708, 0b0011, true⟩ },
    idle,
    { idle with awvalid := true, aw := ⟨6, 0x10, 0, 2, 0b11⟩ },
    { idle with wvalid := true, w := ⟨0x0A0B0C0D, 0b1111, true⟩ },
    idle]

theorem aes_burst_law_overlap :
    (pulseLog burstRun).map (fun w => (w.addr, w.data, w.strb)) =
        [(0x1C, 0x01020304, 0b1111), (0x20, 0x05060708, 0b0011)] ∧
      (bLog burstRun).map (fun b => (b.id, b.resp)) = [(5, 0b00), (6, 0b10)] ∧
      (rLog burstRun).map AesRBeat.kind = [(9, 0b10, false), (9, 0b10, true)] ∧
      AesBurstLaw burstRun idle := by
  refine ⟨by decide, by decide, by decide, aes_burst_law burstRun _ ?_⟩
  exact ⟨[⟨5, 0x1C, 1, 2, 0b01⟩, ⟨6, 0x10, 0, 2, 0b11⟩], List.prefix_refl _, by decide⟩

end AxiAesSlave

end PacketBuffering
