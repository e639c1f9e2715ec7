import PacketBuffering.Master.Master
import PacketBuffering.Ram.Memory

/-!
# Master and memory are a sequential memory

* `SeqMem`: a memory that executes one command after the other, and what it shows.
* `Phase`, `Good`: the invariant of the master on the memory.
* `Good.follows`: a cycle refines what `SeqMem` does with the command accepted in it, if any.
* `rank`, `Good.done_within`: a busy master is done within three cycles.
* `Sequential`, **`master_ram_sequential`**: the refinement along a run.
-/

namespace PacketBuffering

variable {R : RamParams}

/-! ## A sequential memory -/

namespace MasterCmd

/-- The word of a command: its address modulo the size of the memory. -/
def wordAddr (c : MasterCmd R) : BitVec R.wordBits := BitVec.ofNat _ (c.addr.toNat / 4)

/-- What a command stores. -/
def stores (c : MasterCmd R) : List (Store R.wordBits) :=
  if c.write then [⟨c.wordAddr, c.wdata, c.wstrb⟩] else []

end MasterCmd

/-- What is shown with a pulse of `done`. -/
@[ext] structure MasterDone where
  error : Bool
  resp : BitVec 2
  readData : BitVec 32
deriving DecidableEq

variable (R) in
/-- A memory that executes commands; it keeps showing the last word that was read. -/
structure SeqMem where
  mem : LaneMem R.wordBits
  readData : BitVec 32

namespace SeqMem

/-- Execute a command. -/
def step (s : SeqMem R) (c : MasterCmd R) : SeqMem R where
  mem := s.mem.after c.stores
  readData := if c.write then s.readData else s.mem.word c.wordAddr

/-- The command and its completion, without an error. -/
def events (s : SeqMem R) (c : MasterCmd R) : List (MasterCmd R ⊕ MasterDone) :=
  [.inl c, .inr ⟨false, axiRespOkay, (s.step c).readData⟩]

theorem length_dones (s : SeqMem R) (cs : List (MasterCmd R)) :
    ((log step events s cs).filterMap Sum.getRight?).length = cs.length := by
  induction cs generalizing s with
  | nil => rfl
  | cons c cs ih => simp [events, List.filterMap_cons, ih]

end SeqMem

/-! ## The system -/

namespace MasterRam

variable {idValue : BitVec R.idWidth} {s : MasterRam R} {i : Bool × MasterCmd R}

/-- The command accepted in a cycle. -/
def accepts (s : MasterRam R) (i : Bool × MasterCmd R) : List (MasterCmd R) :=
  if i.1 && s.master.cmdReady then [i.2] else []

/-- The pulse of `done` in a cycle. -/
def dones (s : MasterRam R) : List MasterDone :=
  if s.master.done then [⟨s.master.error, s.master.resp, s.master.readData⟩] else []

/-- The events of a cycle: what is done, then what is accepted at its end. -/
def events (s : MasterRam R) (i : Bool × MasterCmd R) : List (MasterCmd R ⊕ MasterDone) :=
  s.dones.map .inr ++ (s.accepts i).map .inl

/-- The word the command in progress is about. -/
def target (s : MasterRam R) : BitVec R.wordBits := BitVec.ofNat _ (s.master.addrReg.toNat / 4)

/-- The memory and the word read, with the command in progress executed. -/
def abs (s : MasterRam R) : SeqMem R :=
  match s.master.state with
  | .wAw | .wW =>
    ⟨s.ram.mem.after [⟨s.target, s.master.wdataReg, s.master.wstrbReg⟩], s.master.readData⟩
  | .rAr | .rR => ⟨s.ram.mem, s.ram.mem.word s.target⟩
  | .idle | .wB => ⟨s.ram.mem, s.master.readData⟩

/-- The completion still to be shown. -/
def held (s : MasterRam R) : List MasterDone :=
  if s.master.state = .idle then s.dones else [⟨false, axiRespOkay, s.abs.readData⟩]

/-- **The phases of master and memory.** -/
inductive Phase (s : MasterRam R) : Prop
  | idle (hm : s.master.state = .idle) (hw : s.ram.wr.wrState = .idle) (hr : s.ram.rd.rdState = .idle)
  | wAw (hm : s.master.state = .wAw) (hdone : s.master.done = false) (hw : s.ram.wr.wrState = .idle)
      (hr : s.ram.rd.rdState = .idle)
  | wW (hm : s.master.state = .wW) (hdone : s.master.done = false) (hw : s.ram.wr.wrState = .data)
      (hid : s.ram.wr.wrIdReg = s.master.idReg) (haddr : s.ram.wr.wrWordAddr = s.target)
      (hr : s.ram.rd.rdState = .idle)
  | wB (hm : s.master.state = .wB) (hdone : s.master.done = false) (hw : s.ram.wr.wrState = .resp)
      (hb : s.ram.wr.b = ⟨s.master.idReg, axiRespOkay⟩) (hr : s.ram.rd.rdState = .idle)
  | rAr (hm : s.master.state = .rAr) (hdone : s.master.done = false) (hw : s.ram.wr.wrState = .idle)
      (hr : s.ram.rd.rdState = .idle)
  | rR (hm : s.master.state = .rR) (hdone : s.master.done = false) (hw : s.ram.wr.wrState = .idle)
      (hr : s.ram.rd.rdState = .data)
      (hbeat : s.ram.rd.r = ⟨s.master.idReg, s.ram.mem.word s.target, axiRespOkay, true⟩)

/-- **The invariant of master and memory.** -/
structure Good (s : MasterRam R) : Prop where
  inv : s.ram.Inv
  error : s.master.error = false
  phase : Phase s

theorem Good.reset (idValue : BitVec R.idWidth) (m : LaneMem R.wordBits) :
    Good (reset idValue m) := ⟨AxiRam.Inv.reset m, rfl, .idle rfl rfl rfl⟩

/-! ## Cycles -/

/-- The cycles until the command in progress is done. -/
def rank (s : MasterRam R) : ℕ :=
  match s.master.state with
  | .idle => 0
  | .wAw => 3
  | .wW | .rAr => 2
  | .wB | .rR => 1

/-- What a cycle must do: keep the invariant, follow the sequential memory, and make progress. -/
structure Follows (idValue : BitVec R.idWidth) (s : MasterRam R) (i : Bool × MasterCmd R) : Prop where
  good : Good (step idValue s i)
  sim : (step idValue s i).abs = run SeqMem.step s.abs (s.accepts i)
  pass : s.events i ++ (step idValue s i).held.map .inr =
    s.held.map .inr ++ log SeqMem.step SeqMem.events s.abs (s.accepts i)
  progress : s.master.state ≠ .idle → (step idValue s i).rank + 1 = s.rank

theorem wordAddr_request : s.master.request.wordAddr = s.target := BurstReq.wordAddr_eq _

theorem rd_of_not_read (h : s.ram.Inv) (har : s.master.state ≠ .rAr) (hr : s.master.state ≠ .rR) :
    s.ram.rd.clock s.ram.mem s.ramIn = s.ram.rd := by
  apply h.2.clock_of_quiet
  · simp [RamReader.arFire, ramIn, AxiMaster.arvalid, har]
  · simp [RamReader.rFire, ramIn, AxiMaster.rready, hr]

theorem wr_of_not_write (h : s.ram.Inv) (haw : s.master.state ≠ .wAw) (hw : s.master.state ≠ .wW)
    (hb : s.master.state ≠ .wB) : s.ram.wr.clock s.ramIn = s.ram.wr := by
  apply h.1.clock_of_quiet
  · simp [RamWriter.awFire, ramIn, AxiMaster.awvalid, haw]
  · simp [RamWriter.wFire, ramIn, AxiMaster.wvalid, hw]
  · simp [RamWriter.bFire, ramIn, AxiMaster.bready, hb]

theorem Good.ram_of_idle (h : Good s) (hm : s.master.state = .idle)
    (hw : s.ram.wr.wrState = .idle) : s.ram.step s.ramIn = s.ram := by
  have hstores : s.ram.wr.stores s.ramIn = [] := by simp [RamWriter.stores, hw]
  rw [AxiRam.step, wr_of_not_write h.inv (by simp [hm]) (by simp [hm]) (by simp [hm]),
    rd_of_not_read h.inv (by simp [hm]) (by simp [hm]), hstores]
  rfl

theorem Good.step_accept (h : Good s) (hm : s.master.state = .idle) (hw : s.ram.wr.wrState = .idle)
    (hr : s.ram.rd.rdState = .idle) (cmd : MasterCmd R) : Follows idValue s (true, cmd) := by
  have hstep : step idValue s (true, cmd) =
      ⟨{ s.master with
          state := if cmd.write then .wAw else .rAr, idReg := idValue, addrReg := cmd.addr,
          wdataReg := cmd.wdata, wstrbReg := cmd.wstrb, done := false, error := false },
        s.ram⟩ := by
    rw [step, h.ram_of_idle hm hw, AxiMaster.clock, hm]
    rfl
  cases hwrite : cmd.write with
  | true =>
    rw [hwrite] at hstep
    refine ⟨?_, ?_, ?_, fun hbusy => absurd hm hbusy⟩
    · rw [hstep]
      exact ⟨h.inv, rfl, .wAw rfl rfl hw hr⟩
    · simp [hstep, abs, accepts, AxiMaster.cmdReady, hm, SeqMem.step, MasterCmd.stores, hwrite,
        target, MasterCmd.wordAddr]
    · simp [hstep, held, accepts, events, dones, AxiMaster.cmdReady, hm, SeqMem.events,
        SeqMem.step, hwrite, abs]
  | false =>
    rw [hwrite] at hstep
    refine ⟨?_, ?_, ?_, fun hbusy => absurd hm hbusy⟩
    · rw [hstep]
      exact ⟨h.inv, rfl, .rAr rfl rfl hw hr⟩
    · simp [hstep, abs, accepts, AxiMaster.cmdReady, hm, SeqMem.step, MasterCmd.stores, hwrite,
        target, MasterCmd.wordAddr, LaneMem.after]
    · simp [hstep, held, accepts, events, dones, AxiMaster.cmdReady, hm, SeqMem.events,
        SeqMem.step, hwrite, abs, target, MasterCmd.wordAddr]

theorem Good.step_idle (h : Good s) (hm : s.master.state = .idle) (hw : s.ram.wr.wrState = .idle)
    (hr : s.ram.rd.rdState = .idle) : Follows idValue s i := by
  obtain ⟨valid, cmd⟩ := i
  cases valid with
  | true => exact h.step_accept hm hw hr cmd
  | false =>
    have hstep : step idValue s (false, cmd) =
        ⟨{ s.master with done := false, error := false }, s.ram⟩ := by
      simp [step, h.ram_of_idle hm hw, AxiMaster.clock, hm, masterIn]
    refine ⟨?_, ?_, ?_, fun hbusy => absurd hm hbusy⟩
    · rw [hstep]
      exact ⟨h.inv, rfl, .idle hm hw hr⟩
    · simp [hstep, abs, accepts, hm]
    · simp [hstep, held, accepts, events, dones, hm]

theorem follows_of_busy (hm : s.master.state ≠ .idle) (hdone : s.master.done = false)
    (hgood : Good (step idValue s i)) (hsim : (step idValue s i).abs = s.abs)
    (hheld : (step idValue s i).held = [⟨false, axiRespOkay, s.abs.readData⟩])
    (hrank : (step idValue s i).rank + 1 = s.rank) : Follows idValue s i := by
  have haccepts : s.accepts i = [] := by simp [accepts, AxiMaster.cmdReady, hm]
  have hopen : s.held = [⟨false, axiRespOkay, s.abs.readData⟩] := by rw [held, if_neg hm]
  refine ⟨hgood, ?_, ?_, fun _ => hrank⟩
  · rw [haccepts, hsim, run_nil]
  · simp [haccepts, events, dones, hdone, hopen, hheld]

theorem Good.step_wAw (h : Good s) (hm : s.master.state = .wAw) (hdone : s.master.done = false)
    (hw : s.ram.wr.wrState = .idle) (hr : s.ram.rd.rdState = .idle) : Follows idValue s i := by
  have haw : s.ram.wr.awready = true := by rw [h.inv.1.awready, hw]; rfl
  have hwr : s.ram.wr.clock s.ramIn = { s.ram.wr with
      wrState := .data, awready := false, wready := true, wrIdReg := s.master.idReg,
      wrWordAddr := s.target, wrLenCnt := 0 } := by
    rw [← wordAddr_request]
    simp [RamWriter.clock, hw, RamWriter.clockIdle, RamWriter.awFire, haw, ramIn,
      AxiMaster.awvalid, hm, AxiMaster.request]
  have hrd := rd_of_not_read h.inv (by simp [hm]) (by simp [hm])
  have hstep : step idValue s i =
      ⟨{ s.master with state := .wW, done := false, error := false },
        ⟨s.ram.mem, s.ram.wr.clock s.ramIn, s.ram.rd⟩⟩ := by
    simp [step, AxiRam.step, hrd, AxiMaster.clock, hm, AxiMaster.awvalid, masterIn, haw,
      RamWriter.stores, hw, LaneMem.after]
  have hgood : Good (step idValue s i) := by
    have hinv := h.inv.step s.ramIn
    rw [AxiRam.step, hrd] at hinv
    rw [hstep]
    exact ⟨hinv, rfl, .wW rfl rfl (by rw [hwr]) (by rw [hwr]) (by rw [hwr]; rfl) hr⟩
  refine follows_of_busy (by simp [hm]) hdone hgood ?_ ?_ ?_ <;>
    simp [hstep, abs, held, rank, hm, target]

theorem Good.step_wW (h : Good s) (hm : s.master.state = .wW) (hdone : s.master.done = false)
    (hw : s.ram.wr.wrState = .data) (hid : s.ram.wr.wrIdReg = s.master.idReg)
    (haddr : s.ram.wr.wrWordAddr = s.target) (hr : s.ram.rd.rdState = .idle) :
    Follows idValue s i := by
  have hwready : s.ram.wr.wready = true := by rw [h.inv.1.wready, hw]; rfl
  have hwr : s.ram.wr.clock s.ramIn = { s.ram.wr with
      wrState := .resp, awready := false, wready := false, bvalid := true,
      b := ⟨s.master.idReg, axiRespOkay⟩, wrWordAddr := s.target + 1 } := by
    simp [RamWriter.clock, hw, RamWriter.clockData, RamWriter.wFire, hwready, ramIn,
      AxiMaster.wvalid, hm, AxiMaster.w, RamWriter.ends, hid, haddr]
  have hrd := rd_of_not_read h.inv (by simp [hm]) (by simp [hm])
  have hstores : s.ram.wr.stores s.ramIn =
      [⟨s.target, s.master.wdataReg, s.master.wstrbReg⟩] := by
    simp [RamWriter.stores, hw, RamWriter.wFire, hwready, ramIn, AxiMaster.wvalid, hm, haddr,
      AxiMaster.w]
  have hstep : step idValue s i =
      ⟨{ s.master with state := .wB, done := false, error := false },
        ⟨s.ram.mem.after [⟨s.target, s.master.wdataReg, s.master.wstrbReg⟩],
          s.ram.wr.clock s.ramIn, s.ram.rd⟩⟩ := by
    simp [step, AxiRam.step, hrd, hstores, AxiMaster.clock, hm, AxiMaster.wvalid, masterIn, hwready]
  have hgood : Good (step idValue s i) := by
    have hinv := h.inv.step s.ramIn
    rw [AxiRam.step, hrd] at hinv
    rw [hstep]
    exact ⟨hinv, rfl, .wB rfl rfl (by rw [hwr]) (by rw [hwr]) hr⟩
  refine follows_of_busy (by simp [hm]) hdone hgood ?_ ?_ ?_ <;>
    simp [hstep, abs, held, rank, hm]

theorem Good.step_wB (h : Good s) (hm : s.master.state = .wB) (hdone : s.master.done = false)
    (hw : s.ram.wr.wrState = .resp) (hb : s.ram.wr.b = ⟨s.master.idReg, axiRespOkay⟩)
    (hr : s.ram.rd.rdState = .idle) : Follows idValue s i := by
  have hbvalid : s.ram.wr.bvalid = true := by rw [h.inv.1.bvalid, hw]; rfl
  have hwr : s.ram.wr.clock s.ramIn =
      { s.ram.wr with wrState := .idle, awready := true, bvalid := false } := by
    simp [RamWriter.clock, hw, RamWriter.clockResp, RamWriter.bFire, hbvalid, ramIn,
      AxiMaster.bready, hm]
  have hrd := rd_of_not_read h.inv (by simp [hm]) (by simp [hm])
  have hstep : step idValue s i =
      ⟨{ s.master with state := .idle, done := true, error := false, resp := axiRespOkay },
        ⟨s.ram.mem, s.ram.wr.clock s.ramIn, s.ram.rd⟩⟩ := by
    simp [step, AxiRam.step, hrd, AxiMaster.clock, hm, AxiMaster.bready, masterIn, hbvalid, hb,
      RamWriter.stores, hw, LaneMem.after, respOk, axiRespOkay]
  have hgood : Good (step idValue s i) := by
    have hinv := h.inv.step s.ramIn
    rw [AxiRam.step, hrd] at hinv
    rw [hstep]
    exact ⟨hinv, rfl, .idle rfl (by rw [hwr]) hr⟩
  refine follows_of_busy (by simp [hm]) hdone hgood ?_ ?_ ?_ <;>
    simp [hstep, abs, held, dones, rank, hm]

theorem Good.step_rAr (h : Good s) (hm : s.master.state = .rAr) (hdone : s.master.done = false)
    (hw : s.ram.wr.wrState = .idle) (hr : s.ram.rd.rdState = .idle) : Follows idValue s i := by
  have har : s.ram.rd.arready = true := by rw [h.inv.2.arready, hr]; rfl
  have hwr := wr_of_not_write h.inv (by simp [hm]) (by simp [hm]) (by simp [hm])
  have hrd : s.ram.rd.clock s.ram.mem s.ramIn = { s.ram.rd with
      rdState := .data, arready := false, rvalid := true,
      r := ⟨s.master.idReg, s.ram.mem.word s.target, axiRespOkay, true⟩,
      rdIdReg := s.master.idReg, rdWordAddr := s.target + 1, rdLenCnt := 0 } := by
    rw [← wordAddr_request]
    simp [RamReader.clock, hr, RamReader.clockIdle, RamReader.arFire, har, ramIn,
      AxiMaster.arvalid, hm, AxiMaster.request]
  have hstep : step idValue s i =
      ⟨{ s.master with state := .rR, done := false, error := false },
        ⟨s.ram.mem, s.ram.wr, s.ram.rd.clock s.ram.mem s.ramIn⟩⟩ := by
    simp [step, AxiRam.step, hwr, AxiMaster.clock, hm, AxiMaster.arvalid, masterIn, har,
      RamWriter.stores, hw, LaneMem.after]
  have hgood : Good (step idValue s i) := by
    have hinv := h.inv.step s.ramIn
    rw [AxiRam.step, hwr] at hinv
    rw [hstep]
    exact ⟨hinv, rfl, .rR rfl rfl hw (by rw [hrd]) (by rw [hrd]; rfl)⟩
  refine follows_of_busy (by simp [hm]) hdone hgood ?_ ?_ ?_ <;>
    simp [hstep, abs, held, rank, hm, target]

theorem Good.step_rR (h : Good s) (hm : s.master.state = .rR) (hdone : s.master.done = false)
    (hw : s.ram.wr.wrState = .idle) (hr : s.ram.rd.rdState = .data)
    (hbeat : s.ram.rd.r = ⟨s.master.idReg, s.ram.mem.word s.target, axiRespOkay, true⟩) :
    Follows idValue s i := by
  have hrvalid : s.ram.rd.rvalid = true := by rw [h.inv.2.rvalid, hr]; rfl
  have hwr := wr_of_not_write h.inv (by simp [hm]) (by simp [hm]) (by simp [hm])
  have hrd : (s.ram.rd.clock s.ram.mem s.ramIn).rdState = .idle := by
    simp [RamReader.clock, hr, RamReader.clockData, RamReader.rFire, hrvalid, ramIn,
      AxiMaster.rready, hm, hbeat]
  have hstep : step idValue s i =
      ⟨{ s.master with
          state := .idle, done := true, error := false, resp := axiRespOkay,
          readData := s.ram.mem.word s.target },
        ⟨s.ram.mem, s.ram.wr, s.ram.rd.clock s.ram.mem s.ramIn⟩⟩ := by
    simp [step, AxiRam.step, hwr, AxiMaster.clock, hm, AxiMaster.rready, masterIn, hrvalid, hbeat,
      RamWriter.stores, hw, LaneMem.after, respOk, axiRespOkay]
  have hgood : Good (step idValue s i) := by
    have hinv := h.inv.step s.ramIn
    rw [AxiRam.step, hwr] at hinv
    rw [hstep]
    exact ⟨hinv, rfl, .idle rfl hw hrd⟩
  refine follows_of_busy (by simp [hm]) hdone hgood ?_ ?_ ?_ <;>
    simp [hstep, abs, held, dones, rank, hm]

/-- **A cycle follows the sequential memory.** -/
theorem Good.follows (h : Good s) : Follows idValue s i := by
  cases h.phase with
  | idle hm hw hr => exact h.step_idle hm hw hr
  | wAw hm hdone hw hr => exact h.step_wAw hm hdone hw hr
  | wW hm hdone hw hid haddr hr => exact h.step_wW hm hdone hw hid haddr hr
  | wB hm hdone hw hb hr => exact h.step_wB hm hdone hw hb hr
  | rAr hm hdone hw hr => exact h.step_rAr hm hdone hw hr
  | rR hm hdone hw hr hbeat => exact h.step_rR hm hdone hw hr hbeat

theorem Good.done_within (idValue : BitVec R.idWidth) {fs : List (Bool × MasterCmd R)} (h : Good s)
    (hlen : s.rank < fs.length) :
    s.held.length ≤ (log (step idValue) (fun s _ => s.dones) s fs).length := by
  induction fs generalizing s with
  | nil => exact absurd hlen (Nat.not_lt_zero _)
  | cons i fs ih =>
    rw [log_cons, List.length_append]
    by_cases hm : s.master.state = .idle
    · rw [held, if_pos hm]
      exact Nat.le_add_right _ _
    · have hfollows : Follows idValue s i := h.follows
      have hrank := hfollows.progress hm
      have haccepts : s.accepts i = [] := by simp [accepts, AxiMaster.cmdReady, hm]
      have hcount : s.dones.length + (step idValue s i).held.length = s.held.length := by
        simpa [events, haccepts] using congrArg List.length hfollows.pass
      have hrest := ih hfollows.good (by rw [List.length_cons] at hlen; omega)
      omega

/-! ## Runs -/

section Logs

variable (idValue : BitVec R.idWidth) (m : LaneMem R.wordBits) (es : List (Bool × MasterCmd R))

/-- The commands accepted in a run. -/
def cmdLog : List (MasterCmd R) := log (step idValue) accepts (reset idValue m) es

/-- The pulses of `done` in a run. -/
def doneLog : List MasterDone := log (step idValue) (fun s _ => s.dones) (reset idValue m) es

/-- The commands and the pulses of `done` of a run, in order. -/
def eventLog : List (MasterCmd R ⊕ MasterDone) := log (step idValue) events (reset idValue m) es

end Logs

theorem doneLog_eq (idValue : BitVec R.idWidth) (m : LaneMem R.wordBits)
    (es : List (Bool × MasterCmd R)) :
    doneLog idValue m es = (eventLog idValue m es).filterMap Sum.getRight? := by
  rw [eventLog, ← log_hom _ _ List.filterMap_nil fun _ _ => List.filterMap_append]
  simp [doneLog, events, List.filterMap_map, Function.comp_def]

theorem rank_lt (s : MasterRam R) : s.rank < 4 := by
  unfold rank
  split <;> decide

/-- **A sequential memory**, after the cycles `es`. -/
structure Sequential (idValue : BitVec R.idWidth) (m : LaneMem R.wordBits)
    (es : List (Bool × MasterCmd R)) : Prop where
  /-- Commands and completions alternate; each completion is that of the command before it, executed
  behind all earlier ones. At most the last completion is still held. -/
  events : eventLog idValue m es ++ (run (step idValue) (reset idValue m) es).held.map .inr =
    log SeqMem.step SeqMem.events ⟨m, 0⟩ (cmdLog idValue m es)
  /-- Every command is done within four cycles. -/
  answered : ∀ fs, 4 ≤ fs.length →
    (cmdLog idValue m es).length ≤ (doneLog idValue m (es ++ fs)).length
  error : (run (step idValue) (reset idValue m) es).master.error = false

/-- **Master and memory are a sequential memory**: for all commands, offered with any timing. -/
theorem master_ram_sequential (idValue : BitVec R.idWidth) (m : LaneMem R.wordBits)
    (es : List (Bool × MasterCmd R)) : Sequential idValue m es := by
  have hall := along_true (step idValue) (reset idValue m) es
  have hgood : Good (run (step idValue) (reset idValue m) es) :=
    hall.invariant Good (fun _ _ h _ => h.follows.good) (Good.reset idValue m)
  have hevents : eventLog idValue m es ++
      (run (step idValue) (reset idValue m) es).held.map Sum.inr =
        log SeqMem.step SeqMem.events ⟨m, 0⟩ (cmdLog idValue m es) :=
    (hall.log_refines Good abs (fun s => s.held.map Sum.inr) (fun _ _ h _ => h.follows.good)
      (fun _ _ h _ => h.follows.sim) (fun _ _ h _ => h.follows.pass) (Good.reset idValue m)).2
  refine ⟨hevents, fun fs hfs => ?_, hgood.error⟩
  -- Every command is done already, or its completion is held.
  have hcount : (doneLog idValue m es).length +
      (run (step idValue) (reset idValue m) es).held.length = (cmdLog idValue m es).length := by
    rw [doneLog_eq, ← SeqMem.length_dones ⟨m, 0⟩ (cmdLog idValue m es), ← hevents,
      List.filterMap_append, List.length_append, List.filterMap_map]
    simp [Function.comp_def]
  have hwithin := hgood.done_within idValue (lt_of_lt_of_le (rank_lt _) hfs)
  have hsplit : doneLog idValue m (es ++ fs) = doneLog idValue m es ++ _ := log_append _ _ _ es fs
  rw [hsplit, List.length_append]
  omega

-- A write of two bytes, then a read of the word; both commands are offered all the time.
example :
    doneLog (R := .default) 3 (fun _ _ => 0x11)
      (List.replicate 4 (true, ⟨true, 0x10, 0x44434241, 0b0101⟩) ++
        List.replicate 4 (true, ⟨false, 0x10, 0, 0⟩)) =
      [⟨false, axiRespOkay, 0⟩, ⟨false, axiRespOkay, 0x11431141⟩] := by decide

end MasterRam

end PacketBuffering
