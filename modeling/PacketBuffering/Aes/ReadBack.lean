import PacketBuffering.Aes.SlaveLaw
import PacketBuffering.Aes.Registers

/-!
# Reading back what was written

`axi_aes_slave` in front of `aes_register_set`. A beat is on the register bus a cycle after it is
accepted, together with the response of its burst at the earliest.

* `AesField.merge`: what a bus write makes of a word of the key or of the input text;
  `AesField.of_write`: the registers follow it.
* `AesUnit`: the slave, the registers and the core; `fed`: the inputs of the slave in a run.
* `field_eq`: the registers hold the fold of the bus writes.
* **`aes_read_back`**: a read requested when every write is answered returns it.
-/

namespace PacketBuffering

variable {a idw : ℕ}

/-! ## One word -/

namespace AesField

/-- The word in the registers. -/
def of (s : AesRegisterSet) : AesField → BitVec 32
  | .key k => s.keyReg.extractLsb' (96 - 32 * k) 32
  | .textIn k => s.textInReg.extractLsb' (96 - 32 * k) 32

/-- **What a write makes of the word**: a soft reset clears it, a write to its address merges the
strobed bytes, and every other write leaves it. -/
def merge (f : AesField) (v : BitVec 32) (w : RegWrite a) : BitVec 32 :=
  if w.softReset then 0
  else if w.addr.toNat = f.addr then strobed w.strb w.data v
  else v

/-- The word after writes out of reset, oldest first. -/
def after (f : AesField) (ws : List (RegWrite a)) : BitVec 32 := ws.foldl f.merge 0

theorem addr_injective : Function.Injective addr := by
  rintro (k | k) (l | l) h <;> simp only [addr] at h
  · exact congrArg _ (Fin.ext (by omega))
  · omega
  · omega
  · exact congrArg _ (Fin.ext (by omega))

theorem disjoint_words (k l : Fin 4) : 96 - 32 * (k : ℕ) = 96 - 32 * (l : ℕ) ∨
    96 - 32 * (k : ℕ) + 32 ≤ 96 - 32 * (l : ℕ) ∨ 96 - 32 * (l : ℕ) + 32 ≤ 96 - 32 * (k : ℕ) := by
  omega

theorem merge_of_addr {f g : AesField} {w : RegWrite a} (v : BitVec 32)
    (h : w.addr.toNat = g.addr) :
    f.merge v w = if g = f then strobed w.strb w.data v else v := by
  have hsoft : w.softReset = false := AesRegisterSet.control_of_field h 2
  rw [merge, hsoft, if_neg Bool.false_ne_true, h]
  simp only [addr_injective.eq_iff]

/-- **The registers follow the fold.** -/
theorem of_write (f : AesField) (s : AesRegisterSet) (w : RegWrite a) :
    f.of (s.write w) = f.merge (f.of s) w := by
  rcases s.write_cases w with ⟨haddr, hw⟩ | ⟨k, haddr, hw⟩ | ⟨k, haddr, hw⟩ | ⟨haddr, hne, hw⟩
  · have hsoft : w.softReset = (w.strb.getLsbD 0 && w.data.getLsbD 2) :=
      AesRegisterSet.control_of_eq haddr 2
    have hother : w.addr.toNat ≠ f.addr := haddr ▸ f.addr_ne_control.symm
    rw [hw, merge, hsoft, if_neg hother, AesRegisterSet.writeControl]
    cases f <;> simp only [of] <;> split_ifs <;> simp
  · rw [hw, merge_of_addr _ haddr, AesRegisterSet.writeKey]
    cases f with
    | key l =>
      have hword : 96 - 32 * (k : ℕ) = 96 - 32 * (l : ℕ) ↔ AesField.key k = AesField.key l := by
        rw [AesField.key.injEq, Fin.ext_iff]
        omega
      simp only [of, extractLsb'_writeWord _ w (by omega) (disjoint_words k l), hword]
    | textIn l => simp [of]
  · rw [hw, merge_of_addr _ haddr, AesRegisterSet.writeTextIn]
    cases f with
    | key l => simp [of]
    | textIn l =>
      have hword : 96 - 32 * (k : ℕ) = 96 - 32 * (l : ℕ) ↔
          AesField.textIn k = AesField.textIn l := by
        rw [AesField.textIn.injEq, Fin.ext_iff]
        omega
      simp only [of, extractLsb'_writeWord _ w (by omega) (disjoint_words k l), hword]
  · have hsoft : w.softReset = false := AesRegisterSet.control_of_ne haddr 2
    rw [hw, merge, hsoft, if_neg Bool.false_ne_true, if_neg (hne f)]

theorem of_capture (f : AesField) (s : AesRegisterSet) (aesDone : Bool) (t : BitVec 128) :
    f.of (s.capture aesDone t) = f.of s := by
  cases f <;> cases aesDone <;> rfl

theorem of_clock (f : AesField) (s : AesRegisterSet) (w : Option (RegWrite a)) (aesDone : Bool)
    (t : BitVec 128) : f.of (s.clock w aesDone t) = w.toList.foldl f.merge (f.of s) := by
  cases w with
  | none => exact of_capture f s aesDone t
  | some w => rw [AesRegisterSet.clock, of_write, of_capture]; rfl

theorem regRdData_eq (f : AesField) (s : AesRegisterSet) (x : BitVec a) (h : x.toNat = f.addr) :
    s.regRdData true x = f.of s := by
  rw [AesRegisterSet.regRdData, if_pos rfl, h]
  cases f with
  | key k => match k with | 0 | 1 | 2 | 3 => rfl
  | textIn k => match k with | 0 | 1 | 2 | 3 => rfl

end AesField

theorem append_words (v : BitVec 128) :
    v.extractLsb' 96 32 ++ v.extractLsb' 64 32 ++ v.extractLsb' 32 32 ++ v.extractLsb' 0 32 = v := by
  refine BitVec.eq_of_getLsbD_eq fun k hk => ?_
  simp only [BitVec.getLsbD_append, BitVec.getLsbD_extractLsb']
  split_ifs with h0 h1 h2
  · simp [h0]
  · simp [h1, show 32 + (k - 32) = k by omega]
  · simp [h2, show 64 + (k - 32 - 32) = k by omega]
  · simp [show k - 32 - 32 - 32 < 32 by omega, show 96 + (k - 32 - 32 - 32) = k by omega]

/-! ## The unit -/

/-- The slave in front of the registers has a data bus of 32 bits. -/
abbrev busParams (a idw : ℕ) (h : 8 < a) : AesParams := ⟨32, a, 4, idw, h⟩

variable {h8 : 8 < a} {P : CipherPath}

/-- A write of the slave as a write of the registers. -/
def BusWrite.toReg (w : BusWrite (busParams a idw h8)) : RegWrite a := ⟨w.addr, w.data, w.strb⟩

variable (h8 idw P) in
/-- `axi_aes_slave`, `aes_register_set` and `aes_cipher_top`. -/
structure AesUnit where
  slave : AxiAesSlave (busParams a idw h8)
  sys : AesSystem P

namespace AesUnit

variable (h8 idw) in
/-- After reset. -/
def reset (d : P.State) : AesUnit idw h8 P := ⟨.reset _, .reset d⟩

variable (u : AesUnit idw h8 P) (i : AesSlaveIn (busParams a idw h8))

/-- The write on the register bus. -/
def busWrite : Option (RegWrite a) :=
  if u.slave.wr.regWrEn then some u.slave.wr.regWr.toReg else none

/-- The inputs of the slave, with the data of the register bus. -/
def feed : AesSlaveIn (busParams a idw h8) :=
  { i with regRdData := u.sys.regs.regRdData u.slave.rd.regRdEn u.slave.rd.regRdAddr }

/-- A rising `clk`. -/
def clock : AesUnit idw h8 P := ⟨u.slave.clock (u.feed i), u.sys.clock u.busWrite⟩

/-- The bus writes of a cycle. -/
def busWrites : List (RegWrite a) := u.slave.wr.pulse.map BusWrite.toReg

theorem busWrite_toList : u.busWrite.toList = u.busWrites := by
  unfold busWrite busWrites AesWriter.pulse
  split_ifs <;> rfl

variable (d : P.State) (es : List (AesSlaveIn (busParams a idw h8)))

/-- The inputs of the slave in a run. -/
def fed : List (AesSlaveIn (busParams a idw h8)) :=
  log clock (fun u i => [u.feed i]) (reset idw h8 d) es

theorem fed_isPrefix {es₁ : List (AesSlaveIn (busParams a idw h8))} (h : es₁ <+: es) :
    fed d es₁ <+: fed d es := log_isPrefix clock _ _ h

theorem run_slave : (run clock (reset idw h8 d) es).slave = run AxiAesSlave.clock (.reset _) (fed d es) :=
  run_component clock (fun _ _ => rfl) (reset idw h8 d) es

theorem log_slave {ο : Type*} (obs : AxiAesSlave (busParams a idw h8) →
      AesSlaveIn (busParams a idw h8) → List ο) :
    log clock (fun u i => obs u.slave (u.feed i)) (reset idw h8 d) es =
      log AxiAesSlave.clock obs (.reset _) (fed d es) :=
  log_component clock (fun _ _ => rfl) obs (reset idw h8 d) es

/-- The bus writes of a run. -/
def writeLog : List (RegWrite a) := (AxiAesSlave.pulseLog (fed d es)).map BusWrite.toReg

theorem writeLog_eq : writeLog d es = log clock (fun u _ => u.busWrites) (reset idw h8 d) es := by
  rw [writeLog, AxiAesSlave.pulseLog, ← log_slave d es fun s _ => s.wr.pulse]
  exact (log_map clock (fun u _ => u.slave.wr.pulse) BusWrite.toReg (reset idw h8 d) es).symm

theorem field_run (u : AesUnit idw h8 P) (f : AesField) : f.of (run clock u es).sys.regs =
    (log clock (fun u _ => u.busWrites) u es).foldl f.merge (f.of u.sys.regs) := by
  let part : AesUnit idw h8 P → BitVec 32 := fun u => f.of u.sys.regs
  have hstep : ∀ (u : AesUnit idw h8 P) i, part (u.clock i) = u.busWrites.foldl f.merge (part u) := by
    intro u i
    rw [← busWrite_toList]
    exact f.of_clock u.sys.regs u.busWrite _ _
  exact run_eq_foldl_log clock (fun u _ => u.busWrites) hstep u es

/-- **The registers hold the fold of the bus writes.** -/
theorem field_eq (f : AesField) :
    f.of (run clock (reset idw h8 d) es).sys.regs = f.after (writeLog d es) := by
  have hzero : f.of (reset idw h8 d).sys.regs = 0 := by
    cases f <;> simp [AesField.of, reset, AesSystem.reset, AesRegisterSet.reset]
  rw [field_run, hzero, writeLog_eq, AesField.after]

/-! ## Reads -/

/-- The beats read on the bus in a run, each with the bus writes before it. -/
def loadPast : List (AesSlot (busParams a idw h8) × List (RegWrite a)) :=
  log (Traced.next clock fun u _ => u.busWrites)
    (fun p _ => p.state.slave.rd.loads.map fun l => (l, p.past)) ⟨reset idw h8 d, []⟩ es

/-- A read beat returns, for a word of the key or of the input text, the fold of the bus writes. -/
def Returns (r : AesRBeat (busParams a idw h8))
    (x : AesSlot (busParams a idw h8) × List (RegWrite a)) : Prop :=
  r.kind = x.1.kind ∧ ∀ f : AesField, x.1.addr.toNat = f.addr → r.data = f.after x.2

/-- The bus writes that the bursts of a run ask for. -/
def askedWrites : List (RegWrite a) :=
  (PacketBuffering.busWrites (AxiAesSlave.awLog (fed d es)) (AxiAesSlave.wLog (fed d es))).map
    BusWrite.toReg

/-- Every write burst accepted in the run has its response accepted in it. -/
def Answered : Prop :=
  (AxiAesSlave.bLog (fed d es)).length = (AxiAesSlave.awLog (fed d es)).length

theorem inv_slave : (run clock (reset idw h8 d) es).slave.Inv := by
  rw [run_slave]
  exact AxiAesSlave.inv_of_run _

theorem loadPast_fst : (loadPast d es).map Prod.fst = AxiAesSlave.loadLog (fed d es) := by
  rw [loadPast, ← log_map, AxiAesSlave.loadLog, ← log_slave d es fun s _ => s.rd.loads]
  simp only [List.map_map, Function.comp_def, List.map_id']
  exact log_traced (fun u _ => u.busWrites) (fun u _ => u.slave.rd.loads) ⟨reset idw h8 d, []⟩ es

/-- **What the read beats return.** -/
theorem reads : List.Forall₂ Returns
    (AxiAesSlave.rLog (fed d es) ++ (run clock (reset idw h8 d) es).slave.rd.offered)
    (loadPast d es) := by
  let next := Traced.next clock fun (u : AesUnit idw h8 P) (_ : AesSlaveIn (busParams a idw h8)) =>
    u.busWrites
  let ok : Traced (AesUnit idw h8 P) (RegWrite a) → Prop := fun p =>
    p.state.slave.Inv ∧ ∀ f : AesField, f.of p.state.sys.regs = f.after p.past
  have hkeep : ∀ p i, ok p → True → ok (next p i) := by
    rintro p i ⟨hinv, hf⟩ -
    refine ⟨hinv.clock _, fun f => ?_⟩
    show f.of (p.state.clock i).sys.regs = f.after (p.past ++ p.state.busWrites)
    rw [AesField.after, List.foldl_append, ← AesField.after, ← hf f, ← busWrite_toList]
    exact f.of_clock _ _ _ _
  have hstart : ok ⟨reset idw h8 d, []⟩ := ⟨.reset, fun f => field_eq d [] f⟩
  have hbuf := (along_true next ⟨reset idw h8 d, []⟩ es).log_buffer ok
    (fun p => p.state.slave.rd.offered) hkeep
    (fun p i h _ => h.1.2.rs_append (i := p.state.feed i)) hstart
  rw [run_traced, log_traced (fun u _ => u.busWrites)
    (fun (u : AesUnit idw h8 P) i => u.slave.rd.rs (u.feed i)),
    log_slave d es fun s => s.rd.rs] at hbuf
  rw [AxiAesSlave.rLog, hbuf]
  refine (along_true next ⟨reset idw h8 d, []⟩ es).forall₂_log ok hkeep ?_ hstart
  rintro p i ⟨-, hf⟩ -
  -- a load happens while the read request is up, so the bus shows the addressed word
  show List.Forall₂ Returns (p.state.slave.rd.loads.map _) (p.state.slave.rd.loads.map _)
  unfold AesReader.loads
  split_ifs with hen
  · refine .cons ⟨rfl, fun f haddr => ?_⟩ .nil
    rw [← hf f, ← f.regRdData_eq p.state.sys.regs _ haddr]
    exact congrArg (fun b => p.state.sys.regs.regRdData b _) hen
  · exact .nil

theorem answered_quiet {d : P.State} {es : List (AesSlaveIn (busParams a idw h8))}
    (h : AxiAesSlave.Framed (fed d es)) (hans : Answered d es) :
    writeLog d es = askedWrites d es ∧ (run clock (reset idw h8 d) es).slave.wr.due = [] := by
  have hrun := AxiAesSlave.marked_of_framed h
  have hresp : (run AxiAesSlave.clock (.reset _) (fed d es)).wr.response = [] := by
    have hlen := congrArg List.length (AxiAesSlave.bLog_append hrun)
    rw [List.length_append, List.length_map, hans] at hlen
    exact List.length_eq_zero_iff.mp (by omega)
  obtain ⟨hpulse, hdue⟩ := (AxiAesSlave.inv_of_run (fed d es)).1.quiet_of_response hresp
  have hwrites := AxiAesSlave.pulseLog_eq hrun
  rw [hpulse, List.append_nil] at hwrites
  exact ⟨by rw [writeLog, askedWrites, hwrites], by rw [run_slave]; exact hdue⟩

section Visible

variable {d : P.State} {es es₁ : List (AesSlaveIn (busParams a idw h8))}
  {e : AesSlaveIn (busParams a idw h8)}

theorem length_loadPast_le : (loadPast d (es₁ ++ [e])).length ≤
    ((AxiAesSlave.arLog (fed d es₁)).flatMap AesReq.slots).length := by
  have hloads : AxiAesSlave.loadLog (fed d (es₁ ++ [e])) =
      AxiAesSlave.loadLog (fed d es₁) ++ (run clock (reset idw h8 d) es₁).slave.rd.loads := by
    rw [AxiAesSlave.loadLog, ← log_slave d _ fun s _ => s.rd.loads, log_append,
      log_slave d _ fun s _ => s.rd.loads]
    simp [AxiAesSlave.loadLog]
  have hle := ((inv_slave d es₁).2.loads_isPrefix).length_le
  have hdue := congrArg List.length (AxiAesSlave.loadLog_append (fed d es₁))
  rw [← run_slave, List.length_append] at hdue
  rw [← List.length_map (f := Prod.fst), loadPast_fst, hloads, List.length_append]
  omega

/-- A beat requested from the cycle `e` on is read on the bus behind the bus writes up to it. -/
theorem writeLog_isPrefix (hpre : es₁ ++ [e] <+: es) :
    ∀ x ∈ (loadPast d es).drop ((AxiAesSlave.arLog (fed d es₁)).flatMap AesReq.slots).length,
      writeLog d (es₁ ++ [e]) <+: x.2 := by
  obtain ⟨es₂, rfl⟩ := hpre
  intro x hx
  have hsplit : loadPast d (es₁ ++ [e] ++ es₂) = loadPast d (es₁ ++ [e]) ++ _ :=
    log_append _ _ _ (es₁ ++ [e]) es₂
  rw [hsplit, List.drop_append, List.drop_eq_nil_of_le length_loadPast_le, List.nil_append] at hx
  have hpast := past_isPrefix_of_mem_log (fun (u : AesUnit idw h8 P) _ => u.busWrites)
    (fun u _ => u.slave.rd.loads) _ es₂ x (List.mem_of_mem_drop hx)
  rw [run_traced] at hpast
  rw [writeLog_eq]
  exact hpast

theorem isPrefix_askedWrites (h : AxiAesSlave.Framed (fed d es)) (hpre : es₁ ++ [e] <+: es)
    (hans : Answered d (es₁ ++ [e]))
    (hlast : AxiAesSlave.awLog (fed d es) = AxiAesSlave.awLog (fed d (es₁ ++ [e]))) :
    writeLog d es <+: askedWrites d (es₁ ++ [e]) := by
  have hfed := fed_isPrefix d es hpre
  have hrun := AxiAesSlave.marked_of_framed h
  have hbeats := (AxiAesSlave.aes_burst_law _ e h).beats
  have hbeats₁ := (AxiAesSlave.aes_burst_law _ e (h.of_isPrefix hfed)).beats
  rw [← run_slave, (answered_quiet (h.of_isPrefix hfed) hans).2, ← hlast] at hbeats₁
  have hws : AxiAesSlave.wLog (fed d (es₁ ++ [e])) = AxiAesSlave.wLog (fed d es) := by
    have hw : AxiAesSlave.wLog (fed d (es₁ ++ [e])) <+: AxiAesSlave.wLog (fed d es) :=
      log_isPrefix AxiAesSlave.clock _ _ hfed
    refine hw.eq_of_length (le_antisymm hw.length_le ?_)
    simp only [List.length_nil] at hbeats₁
    omega
  rw [askedWrites, hws, ← hlast, ← AxiAesSlave.pulseLog_eq hrun, List.map_append]
  exact List.prefix_append _ _

end Visible

/-! ## The law -/

/-- **Reading back.** -/
structure AesReadBack (d : P.State) (es : List (AesSlaveIn (busParams a idw h8))) : Prop where
  /-- The key and the text are their words, folded over the bus writes, word 0 highest. -/
  key : (run clock (reset idw h8 d) es).sys.regs.keyReg =
    (AesField.key 0).after (writeLog d es) ++ (AesField.key 1).after (writeLog d es) ++
      (AesField.key 2).after (writeLog d es) ++ (AesField.key 3).after (writeLog d es)
  textIn : (run clock (reset idw h8 d) es).sys.regs.textInReg =
    (AesField.textIn 0).after (writeLog d es) ++ (AesField.textIn 1).after (writeLog d es) ++
      (AesField.textIn 2).after (writeLog d es) ++ (AesField.textIn 3).after (writeLog d es)
  /-- The beats of read bursts are given in order, with the fold of the bus writes before them. -/
  loads : (loadPast d es).map Prod.fst ++ (run clock (reset idw h8 d) es).slave.rd.due =
    (AxiAesSlave.arLog (fed d es)).flatMap AesReq.slots
  reads : List.Forall₂ Returns
    (AxiAesSlave.rLog (fed d es) ++ (run clock (reset idw h8 d) es).slave.rd.offered)
    (loadPast d es)
  /-- A burst requested when every write is answered, in the cycle of the last response at the
  earliest, sees all of them, and only them unless a further write is accepted. -/
  visible : ∀ es₁ e, es₁ ++ [e] <+: es → Answered d (es₁ ++ [e]) →
    ∀ x ∈ (loadPast d es).drop ((AxiAesSlave.arLog (fed d es₁)).flatMap AesReq.slots).length,
      askedWrites d (es₁ ++ [e]) <+: x.2 ∧
        (AxiAesSlave.awLog (fed d es) = AxiAesSlave.awLog (fed d (es₁ ++ [e])) →
          x.2 = askedWrites d (es₁ ++ [e]))

/-- **Read-after-write through AXI.** For every core and every run of bursts of any kind, with any
strobes, any stalls and reads overlapping writes, whose write beats are marked as the bursts ask
for. -/
theorem aes_read_back (d : P.State) (es : List (AesSlaveIn (busParams a idw h8)))
    (h : AxiAesSlave.Framed (fed d es)) : AesReadBack d es := by
  refine ⟨?_, ?_, ?_, reads d es, ?_⟩
  · simp only [← field_eq]
    exact (append_words _).symm
  · simp only [← field_eq]
    exact (append_words _).symm
  · rw [loadPast_fst, run_slave]
    exact AxiAesSlave.loadLog_append _
  · intro es₁ e hpre hans x hx
    have hasked := (answered_quiet (h.of_isPrefix (fed_isPrefix d es hpre)) hans).1
    have hpast : askedWrites d (es₁ ++ [e]) <+: x.2 := hasked ▸ writeLog_isPrefix hpre x hx
    refine ⟨hpast, fun hlast => ?_⟩
    have hlater : x.2 <+: writeLog d es := by
      have := isPrefix_past_of_mem_log (fun (u : AesUnit idw h8 P) _ => u.busWrites)
        (fun u _ => u.slave.rd.loads) ⟨reset idw h8 d, []⟩ es x (List.mem_of_mem_drop hx)
      rw [writeLog_eq]
      exact this
    have hback := hlater.trans (isPrefix_askedWrites h hpre hans hlast)
    exact hback.eq_of_length_le hpast.length_le

/-- No request, responses accepted. -/
def idle : AesSlaveIn (busParams 32 8 AesParams.default.eight_lt_addrWidth) where
  awvalid := false
  aw := ⟨0, 0, 0, 2, 0b01⟩
  wvalid := false
  w := ⟨0, 0, false⟩
  bready := true
  arvalid := false
  ar := ⟨0, 0, 0, 2, 0b01⟩
  rready := true
  regRdData := 0

/-- `KEY3` and `TEXT_IN0` in one burst, the second under two strobes, and read back in one burst that
is requested in the cycle of the response. -/
def backRun : List (AesSlaveIn (busParams 32 8 AesParams.default.eight_lt_addrWidth)) :=
  [{ idle with awvalid := true, aw := ⟨5, 0x1C, 1, 2, 0b01⟩ },
    { idle with wvalid := true, w := ⟨0x01020304, 0b1111, false⟩ },
    { idle with wvalid := true, w := ⟨0x05060708, 0b0101, true⟩ },
    { idle with arvalid := true, ar := ⟨9, 0x1C, 1, 2, 0b01⟩ },
    idle, idle, idle, idle]

theorem aes_read_back_burst :
    (AxiAesSlave.rLog (fed (P := aesPath) CipherData.zero backRun)).map
        (fun r => (r.id, r.data, r.last)) =
        [(9, 0x01020304, false), (9, 0x00060008, true)] ∧
      AesReadBack (P := aesPath) CipherData.zero backRun := by
  refine ⟨by decide +kernel, aes_read_back _ backRun ?_⟩
  exact ⟨[⟨5, 0x1C, 1, 2, 0b01⟩], List.prefix_refl _, by decide +kernel⟩

end AesUnit

end PacketBuffering
