import PacketBuffering.Lib.Burst
import PacketBuffering.Ram.Bursts

/-!
# The AXI memory is a byte memory

Runs out of reset, over any contents and for any timing of the two request channels and the three
data channels.

* `Framed`: the write beats are marked as the bursts ask for; `markedRun_of_framed`: every burst then
  ends with its count.
* `awLog`, `wLog`, `bLog`, `arLog`, `rLog`: the handshakes; `loadLog`: the beats loaded, each with
  the stores before it.
* `RamLaw`, **`ram_law`**: what is stored, what is loaded, and what is answered.
-/

namespace PacketBuffering

variable {R : RamParams}

/-- The beats are marked as the bursts of a master ask for, of which the requests are the first. -/
def Framed (rs : List (BurstReq R)) (ws : List WBeat) : Prop :=
  ∃ plan, rs <+: plan ∧ ws.map WBeat.last <+: (plan.flatMap BurstReq.slots).map Slot.last

/-- The store of a write beat at its place. -/
def Slot.place (l : Slot R) (w : WBeat) : Store R.wordBits := ⟨l.addr, w.data, w.strb⟩

/-- The stores of bursts, beat by beat. -/
def storesOf (rs : List (BurstReq R)) (ws : List WBeat) : List (Store R.wordBits) :=
  List.zipWith Slot.place (rs.flatMap BurstReq.slots) ws

namespace AxiRam

section Logs

variable (m : LaneMem R.wordBits) (es : List (RamIn R))

/-- The write requests accepted in a run. -/
def awLog : List (BurstReq R) := log step (fun s => s.wr.aws) (reset m) es

/-- The write data accepted in a run. -/
def wLog : List WBeat := log step (fun s => s.wr.ws) (reset m) es

/-- The responses handed over in a run. -/
def bLog : List (BResp R) := log step (fun s => s.wr.bs) (reset m) es

/-- The read requests accepted in a run. -/
def arLog : List (BurstReq R) := log step (fun s => s.rd.ars) (reset m) es

/-- The read data handed over in a run. -/
def rLog : List (RBeat R) := log step (fun s => s.rd.rs) (reset m) es

/-- The stores of a run. -/
def storeLog : List (Store R.wordBits) := log step (fun s => s.wr.stores) (reset m) es

/-- The beats loaded in a run, each with the stores before it. -/
def loadLog : List (Slot R × List (Store R.wordBits)) :=
  log (Traced.next step fun s => s.wr.stores)
    (fun p i => (p.state.rd.loads i).map fun l => (l, p.past)) ⟨reset m, []⟩ es

end Logs

/-! ## Runs -/

/-- The invariant of the memory. -/
def Inv (s : AxiRam R) : Prop := s.wr.WriterInv ∧ s.rd.ReaderInv

theorem Inv.reset (m : LaneMem R.wordBits) : Inv (reset m) := ⟨.reset, .reset⟩

theorem Inv.step {s : AxiRam R} (h : Inv s) (i : RamIn R) : Inv (s.step i) := ⟨h.1.clock, h.2.clock⟩

section Runs

variable (m : LaneMem R.wordBits) (es : List (RamIn R))

theorem inv_of_run : Inv (run step (reset m) es) :=
  (along_true _ (reset m) es).invariant Inv (fun _ i h _ => h.step i) (Inv.reset m)

/-- The beats taken in a run. -/
def takenLog : List (Slot R) := log step (fun s => s.wr.taken) (reset m) es

theorem storeLog_eq : storeLog m es = List.zipWith Slot.place (takenLog m es) (wLog m es) := by
  rw [takenLog, wLog, ← log_zipWith step fun s i => s.wr.length_taken i]
  refine (along_true step (reset m) es).log_congr Inv (fun _ i h _ => h.step i) ?_ (Inv.reset m)
  intro s i h _
  cases hw : s.wr.wFire i with
  | false => simp [RamWriter.stores, RamWriter.taken, hw]
  | true =>
    simp [RamWriter.stores, RamWriter.taken, RamWriter.ws, hw, h.1.wrState_of_wFire hw, Slot.place]

theorem length_takenLog : (takenLog m es).length = (wLog m es).length :=
  length_log_eq step (fun s i => s.wr.length_taken i) (reset m) es

theorem mem_eq : (run step (reset m) es).mem = m.after (storeLog m es) := by
  have hstep : ∀ (s : AxiRam R) i, (s.step i).mem = (s.wr.stores i).foldl Store.into s.mem :=
    fun _ _ => rfl
  exact run_eq_foldl_log step (fun s => s.wr.stores) hstep (reset m) es

theorem bLog_append : bLog m es ++ (run step (reset m) es).wr.response =
    (awLog m es).map fun r => ⟨r.id, axiRespOkay⟩ := by
  have h := (along_true step (reset m) es).log_buffer Inv (fun s => s.wr.response) (fun _ i h _ => h.step i)
    (fun s i h _ => h.1.bs_append (i := i)) (Inv.reset m)
  rw [log_map] at h
  exact h

theorem loadLog_append : (loadLog m es).map Prod.fst ++ (run step (reset m) es).rd.due =
    (arLog m es).flatMap BurstReq.slots := by
  have hfst : (loadLog m es).map Prod.fst = log step (fun s => s.rd.loads) (reset m) es := by
    rw [loadLog, ← log_map]
    simp only [List.map_map, Function.comp_def, List.map_id']
    exact log_traced (fun s : AxiRam R => s.wr.stores) (fun s => s.rd.loads) ⟨reset m, []⟩ es
  have h := (along_true step (reset m) es).log_buffer Inv (fun s => s.rd.due) (fun _ i h _ => h.step i)
    (fun s i h _ => h.2.loads_append (i := i) (m := s.mem)) (Inv.reset m)
  rw [log_hom step (fun s => s.rd.ars) List.flatMap_nil fun _ _ => List.flatMap_append] at h
  rw [hfst]
  exact h

theorem rLog_append : rLog m es ++ (run step (reset m) es).rd.offered =
    (loadLog m es).map fun l => RamReader.beatOf (m.after l.2) l.1 := by
  let next := Traced.next step fun s : AxiRam R => s.wr.stores
  let ok : Traced (AxiRam R) (Store R.wordBits) → Prop :=
    fun p => Inv p.state ∧ p.state.mem = m.after p.past
  have hkeep : ∀ p i, ok p → True → ok (next p i) := by
    rintro p i ⟨hinv, hmem⟩ -
    refine ⟨hinv.step i, ?_⟩
    show (p.state.step i).mem = m.after (p.past ++ p.state.wr.stores i)
    rw [AxiRam.step, hmem, LaneMem.after, LaneMem.after, LaneMem.after, List.foldl_append]
  have hpass : ∀ p i, ok p → True → p.state.rd.rs i ++ (next p i).state.rd.offered =
      p.state.rd.offered ++ (p.state.rd.loads i).map (RamReader.beatOf (m.after p.past)) := by
    rintro p i ⟨hinv, hmem⟩ -
    rw [← hmem]
    exact hinv.2.rs_append
  have h := (along_true next ⟨reset m, []⟩ es).log_buffer ok (fun p => p.state.rd.offered) hkeep
    hpass ⟨Inv.reset m, rfl⟩
  rw [run_traced, log_traced (fun s : AxiRam R => s.wr.stores) (fun s => s.rd.rs)] at h
  rw [loadLog, ← log_map]
  simp only [List.map_map, Function.comp_def]
  exact h

theorem storeLog_isPrefix {es₁ : List (RamIn R)} (hes : es₁ <+: es) :
    ∀ l ∈ (loadLog m es).drop ((arLog m es₁).flatMap BurstReq.slots).length,
      storeLog m es₁ <+: l.2 := by
  obtain ⟨es₂, rfl⟩ := hes
  intro l hl
  have hle : (loadLog m es₁).length ≤ ((arLog m es₁).flatMap BurstReq.slots).length := by
    rw [← loadLog_append, List.length_append, List.length_map]
    exact Nat.le_add_right _ _
  have hsplit : loadLog m (es₁ ++ es₂) = loadLog m es₁ ++ _ := log_append _ _ _ es₁ es₂
  rw [hsplit, List.drop_append, List.drop_eq_nil_of_le hle, List.nil_append] at hl
  have hpast := past_isPrefix_of_mem_log (fun s : AxiRam R => s.wr.stores) (fun s => s.rd.loads) _
    es₂ l (List.mem_of_mem_drop hl)
  rw [run_traced] at hpast
  exact hpast

end Runs

/-! ## Marked beats -/

section Marked

variable {m : LaneMem R.wordBits} {es : List (RamIn R)}

/-- Every beat is marked as the count says. -/
abbrev MarkedRun (m : LaneMem R.wordBits) (es : List (RamIn R)) : Prop :=
  Along step (fun s i => s.wr.Marked i) (reset m) es

theorem map_last_iff {s : AxiRam R} {i : RamIn R} :
    (s.wr.taken i).map Slot.last = (s.wr.ws i).map WBeat.last ↔ s.wr.Marked i := by
  cases hw : s.wr.wFire i with
  | false => simp [RamWriter.taken, RamWriter.ws, RamWriter.Marked, hw]
  | true => simp [RamWriter.taken, RamWriter.ws, RamWriter.Marked, hw, eq_comm]

variable (R) in
/-- **The write direction takes the beats of its requests.** -/
def writeMachine : BurstMachine (step (R := R)) (BurstReq.slots (R := R)) (Slot.last (R := R))
    WBeat.last where
  Inv := Inv
  reqs := fun s => s.wr.aws
  beats := fun s => s.wr.ws
  taken := fun s => s.wr.taken
  due := fun s => s.wr.due
  keep := fun _ i h => h.step i
  length_taken := fun s i => s.wr.length_taken i
  taken_isPrefix := fun s i h => by
    cases hw : s.wr.wFire i with
    | false => simp [RamWriter.taken, hw]
    | true =>
      rw [RamWriter.taken, if_pos hw, RamWriter.due_of_data (h.1.wrState_of_wFire hw)]
      exact ⟨_, rfl⟩
  pass := fun _ _ h hi => h.1.taken_append (map_last_iff.mp hi)

theorem markedRun_iff : MarkedRun m es ↔ Along step (writeMachine R).Marked (reset m) es :=
  ⟨fun h => h.mono fun _ _ => map_last_iff.mpr, fun h => h.mono fun _ _ => map_last_iff.mp⟩

theorem takenLog_append (h : MarkedRun m es) :
    takenLog m es ++ (run step (reset m) es).wr.due = (awLog m es).flatMap BurstReq.slots :=
  BurstMachine.taken_append (M := writeMachine R) (Inv.reset m) rfl (markedRun_iff.mp h)

/-- **Framed beats are marked as the count says.** -/
theorem markedRun_of_framed (h : Framed (awLog m es) (wLog m es)) : MarkedRun m es :=
  markedRun_iff.mpr (BurstMachine.along_marked (M := writeMachine R) (Inv.reset m) rfl h)

theorem length_answered_le (h : MarkedRun m es) :
    (((awLog m es).take (bLog m es).length).flatMap BurstReq.slots).length ≤
      (wLog m es).length := by
  refine BurstMachine.length_answered_le (M := writeMachine R) (Inv.reset m) rfl ?_ ?_
    (markedRun_iff.mp h)
  · intro es' _
    have hlen := congrArg List.length (bLog_append m es')
    simp only [List.length_append, List.length_map] at hlen
    exact Nat.le.intro hlen
  · intro s i hs hb
    cases hf : s.wr.bFire i with
    | false => exact absurd (by simp [RamWriter.bs, hf]) hb
    | true => exact hs.1.due_of_bFire hf

end Marked

/-! ## The law -/

/-- **A byte memory behind AXI**, after the cycles `es`, and in the next one, with the inputs `i`. -/
structure RamLaw (m : LaneMem R.wordBits) (es : List (RamIn R)) (i : RamIn R) : Prop where
  /-- Beats are stored one by one where their bursts ask for. -/
  mem : (run step (reset m) es).mem = m.after (storesOf (awLog m es) (wLog m es))
  beats : (wLog m es).length + (run step (reset m) es).wr.due.length =
    ((awLog m es).flatMap BurstReq.slots).length
  /-- Each write burst is answered once, under its identifier, behind its last beat. -/
  responses : bLog m es ++ (run step (reset m) es).wr.response =
    (awLog m es).map fun r => ⟨r.id, axiRespOkay⟩
  complete : ∀ es₁, es₁ <+: es →
    (((awLog m es₁).take (bLog m es₁).length).flatMap BurstReq.slots).length ≤ (wLog m es₁).length
  /-- The beats of a read burst are loaded in order, and given with the contents at their load. -/
  loads : (loadLog m es).map Prod.fst ++ (run step (reset m) es).rd.due =
    (arLog m es).flatMap BurstReq.slots
  reads : rLog m es ++ (run step (reset m) es).rd.offered =
    (loadLog m es).map fun l => RamReader.beatOf (m.after l.2) l.1
  /-- A read requested after the response of a write sees it. -/
  visible : ∀ es₁, es₁ <+: es →
    ∀ l ∈ (loadLog m es).drop ((arLog m es₁).flatMap BurstReq.slots).length,
      storesOf ((awLog m es₁).take (bLog m es₁).length) (wLog m es₁) <+: l.2
  /-- Offers stay until they are accepted. -/
  keepsB : Keeps (owed (run step (reset m) es).wr.bvalid i.bready (run step (reset m) es).wr.b)
    (run step (reset m) (es ++ [i])).wr.bvalid (run step (reset m) (es ++ [i])).wr.b
  keepsR : Keeps (owed (run step (reset m) es).rd.rvalid i.rready (run step (reset m) es).rd.r)
    (run step (reset m) (es ++ [i])).rd.rvalid (run step (reset m) (es ++ [i])).rd.r
  /-- The memory waits for its master only. -/
  ready : (run step (reset m) es).wr.Ready ∧ (run step (reset m) es).rd.Ready

/-- **The AXI memory is a byte memory**: for any timing and any interleaving of write and read bursts,
if the beats of the write bursts are marked as they ask for. -/
theorem ram_law (m : LaneMem R.wordBits) (es : List (RamIn R)) (i : RamIn R)
    (h : Framed (awLog m es) (wLog m es)) : RamLaw m es i := by
  have hrun := markedRun_of_framed h
  have hinv := inv_of_run m es
  have htaken := takenLog_append hrun
  have hstores : ∀ es₁, MarkedRun m es₁ → storeLog m es₁ = storesOf (awLog m es₁) (wLog m es₁) := by
    intro es₁ h₁
    rw [storeLog_eq, storesOf, ← takenLog_append h₁, ← List.append_nil (wLog m es₁),
      List.zipWith_append (length_takenLog m es₁), List.zipWith_nil_right, List.append_nil,
      List.append_nil]
  refine ⟨?_, ?_, bLog_append m es, ?_, loadLog_append m es, rLog_append m es, ?_, ?_, ?_,
    hinv.1.ready, hinv.2.ready⟩
  · rw [mem_eq, hstores es hrun]
  · rw [← length_takenLog, ← htaken, List.length_append]
  · exact fun es₁ hes => length_answered_le (hrun.of_isPrefix hes)
  · intro es₁ hes l hl
    refine List.IsPrefix.trans ?_ (storeLog_isPrefix m es hes l hl)
    rw [hstores es₁ (hrun.of_isPrefix hes), storesOf, storesOf]
    obtain ⟨rest, hrest⟩ := (List.take_prefix (bLog m es₁).length (awLog m es₁)).flatMap
      BurstReq.slots
    rw [← hrest]
    exact zipWith_isPrefix _ _ _ _
  · rw [run_append]
    exact hinv.1.keeps
  · rw [run_append]
    exact hinv.2.keeps

/-- No request, responses accepted. -/
def idle : RamIn .default :=
  ⟨false, ⟨0, 0, 0⟩, false, ⟨0, 0, false⟩, true, false, ⟨0, 0, 0⟩, true⟩

/-- A write burst of two beats at the last word, then a read burst over the same words. -/
def wrapRun : List (RamIn .default) :=
  [{ idle with awvalid := true, aw := ⟨5, 0xFFFC, 1⟩ },
    { idle with wvalid := true, w := ⟨0x44434241, 0b1111, false⟩ },
    { idle with wvalid := true, w := ⟨0x48474645, 0b0011, true⟩ },
    idle,
    { idle with arvalid := true, ar := ⟨9, 0xFFFC, 1⟩ },
    idle,
    idle]

theorem ram_law_wrap :
    (rLog (fun _ _ => 0) wrapRun).map (fun r => (r.id, r.data, r.last)) =
        [(9, 0x44434241, false), (9, 0x00004645, true)] ∧
      RamLaw (fun _ _ => 0) wrapRun idle := by
  refine ⟨by decide, ram_law _ wrapRun _ ⟨[⟨5, 0xFFFC, 1⟩], ?_, by decide⟩⟩
  exact List.prefix_refl _

end AxiRam

end PacketBuffering
