import PacketBuffering.Lib.Handshake

/-!
# The AXI channels of the small peripherals

`gpio_top` and `timer_top` have the same write and read channel in front of their registers. Address
and data of a write are captured independently; a write executes in the cycle behind the one that
captures its second half, with one data beat whatever its length. `awsize`, `awburst`, `wlast`, the
sideband inputs and the hold registers of the read channel are not used.

* `WriteChannel`, `ReadChannel`: the registers of the channels, and their cycles.
* `Periph`: a peripheral with these channels; `Periph.awLog` to `Periph.readLog`: what passes through
  them in a run.
* `Periph.Accounts`, **`Periph.accounts`**: each pair of address and data is executed once and answered
  once, and so is each read.
-/

namespace PacketBuffering

variable {n : ℕ}

/-! ## Requests -/

variable (n) in
/-- A request. -/
@[ext] structure PeriphReq where
  id : BitVec n
  addr : BitVec 32
  len : BitVec 8
deriving DecidableEq

/-- A data beat. -/
@[ext] structure PeriphData where
  data : BitVec 32
  strb : BitVec 4
deriving DecidableEq

variable (n) in
/-- A write, as it is executed. -/
@[ext] structure PeriphWrite where
  req : PeriphReq n
  w : PeriphData
deriving DecidableEq

/-- The request is one for a single beat at a word address; every other one is refused. -/
def PeriphReq.plain (r : PeriphReq n) : Bool := r.len == 0 && r.addr.extractLsb' 0 2 == 0

/-- The register offset of a request. -/
def PeriphReq.offset (r : PeriphReq n) : BitVec 8 := r.addr.extractLsb' 0 8

variable (n) in
/-- The inputs of one cycle. -/
structure PeriphIn where
  awvalid : Bool
  aw : PeriphReq n
  wvalid : Bool
  w : PeriphData
  bready : Bool
  arvalid : Bool
  ar : PeriphReq n
  rready : Bool

/-- No request, responses accepted. -/
def PeriphIn.idle : PeriphIn n := ⟨false, ⟨0, 0, 0⟩, false, ⟨0, 0⟩, true, false, ⟨0, 0, 0⟩, true⟩

/-- The response to a write or a read. -/
def periphResp (ok : Bool) : BitVec 2 := if ok then axiRespOkay else axiRespSlverr

/-! ## Writes -/

variable (n) in
/-- The registers of the write channel. -/
structure WriteChannel where
  awCaptured : Bool
  awHold : PeriphReq n
  wCaptured : Bool
  wHold : PeriphData
  bvalid : Bool
  bid : BitVec n
  bresp : BitVec 2

namespace WriteChannel

variable (n) in
/-- The values under reset. -/
def reset : WriteChannel n := ⟨false, ⟨0, 0, 0⟩, false, ⟨0, 0⟩, false, 0, axiRespOkay⟩

variable (s : WriteChannel n) (i : PeriphIn n)

/-- An address is captured while none and no response is held. -/
def awready : Bool := !s.awCaptured && !s.bvalid

/-- Data are captured while none and no response is held. -/
def wready : Bool := !s.wCaptured && !s.bvalid

/-- A write address is captured. -/
def awFire : Bool := i.awvalid && s.awready

/-- Write data are captured. -/
def wFire : Bool := i.wvalid && s.wready

/-- A write response is handed over. -/
def bFire : Bool := s.bvalid && i.bready

/-- `write_fire`: both halves of a write are held, and no response. -/
def writeFire : Bool := s.awCaptured && s.wCaptured && !s.bvalid

/-- The write of the cycle: `eff_awaddr`, `eff_wdata` and `eff_wstrb`, with the identifier and the
length held. -/
def eff : PeriphWrite n where
  req := ⟨s.awHold.id, if s.awCaptured then s.awHold.addr else i.aw.addr, s.awHold.len⟩
  w := if s.wCaptured then s.wHold else i.w

/-- **A rising clock** of the write channel, for a register map that knows the writes with `ok`. -/
def clock (ok : PeriphWrite n → Bool) : WriteChannel n where
  awCaptured := if s.writeFire then false else if s.awFire i then true else s.awCaptured
  awHold := if s.awFire i then i.aw else s.awHold
  wCaptured := if s.writeFire then false else if s.wFire i then true else s.wCaptured
  wHold := if s.wFire i then i.w else s.wHold
  bvalid := if s.writeFire then true else if s.bFire i then false else s.bvalid
  bid := if s.writeFire then s.awHold.id else s.bid
  bresp := if s.writeFire then periphResp (ok (s.eff i)) else s.bresp

/-- The write addresses accepted in a cycle. -/
def aws : List (PeriphReq n) := if s.awFire i then [i.aw] else []

/-- The write data accepted in a cycle. -/
def ws : List PeriphData := if s.wFire i then [i.w] else []

/-- The write responses handed over in a cycle. -/
def bs : List (BitVec n × BitVec 2) := if s.bFire i then [(s.bid, s.bresp)] else []

/-- The write that a cycle executes. -/
def writes : List (PeriphWrite n) := if s.writeFire then [s.eff i] else []

/-- The write address held. -/
def heldAw : List (PeriphReq n) := if s.awCaptured then [s.awHold] else []

/-- The write data held. -/
def heldW : List PeriphData := if s.wCaptured then [s.wHold] else []

/-- The write response that waits. -/
def heldB : List (BitVec n × BitVec 2) := if s.bvalid then [(s.bid, s.bresp)] else []

/-- **The invariant.** Nothing is captured while a response is open. -/
def Inv : Prop := s.bvalid = true → s.awCaptured = false ∧ s.wCaptured = false

theorem Inv.reset : Inv (reset n) := nofun

variable {s i} {ok : PeriphWrite n → Bool}

theorem captured_of_writeFire (h : s.writeFire = true) :
    s.awCaptured = true ∧ s.wCaptured = true ∧ s.bvalid = false := by
  simpa [writeFire, and_assoc] using h

theorem Inv.writeFire_eq (h : Inv s) : s.writeFire = (s.awCaptured && s.wCaptured) := by
  cases hb : s.bvalid with
  | false => simp [writeFire, hb]
  | true => simp [writeFire, (h hb).1]

theorem eff_of_writeFire (h : s.writeFire = true) : s.eff i = ⟨s.awHold, s.wHold⟩ := by
  obtain ⟨haw, hw, -⟩ := captured_of_writeFire h
  simp [eff, haw, hw]

theorem Inv.clock (h : Inv s) : Inv (s.clock i ok) := by
  cases hf : s.writeFire with
  | true => simp [Inv, WriteChannel.clock, hf]
  | false =>
    cases hb : s.bvalid with
    | false => simp [Inv, WriteChannel.clock, bFire, hf, hb]
    | true => simp [Inv, WriteChannel.clock, awFire, wFire, awready, wready, hf, hb, h hb]

theorem aws_append : (s.writes i).map PeriphWrite.req ++ (s.clock i ok).heldAw =
    s.heldAw ++ s.aws i := by
  cases hf : s.writeFire with
  | true =>
    have haw := (captured_of_writeFire hf).1
    have hno : s.awFire i = false := by simp [awFire, awready, haw]
    simp [writes, aws, heldAw, WriteChannel.clock, hf, hno, haw, eff_of_writeFire hf]
  | false =>
    cases hfire : s.awFire i with
    | false => simp [writes, aws, heldAw, WriteChannel.clock, hf, hfire]
    | true =>
      have haw : s.awCaptured = false := by
        simp only [awFire, awready, Bool.and_eq_true, Bool.not_eq_true'] at hfire
        exact hfire.2.1
      simp [writes, aws, heldAw, WriteChannel.clock, hf, hfire, haw]

theorem ws_append :
    (s.writes i).map PeriphWrite.w ++ (s.clock i ok).heldW = s.heldW ++ s.ws i := by
  cases hf : s.writeFire with
  | true =>
    have hw := (captured_of_writeFire hf).2.1
    have hno : s.wFire i = false := by simp [wFire, wready, hw]
    simp [writes, ws, heldW, WriteChannel.clock, hf, hno, hw, eff_of_writeFire hf]
  | false =>
    cases hfire : s.wFire i with
    | false => simp [writes, ws, heldW, WriteChannel.clock, hf, hfire]
    | true =>
      have hw : s.wCaptured = false := by
        simp only [wFire, wready, Bool.and_eq_true, Bool.not_eq_true'] at hfire
        exact hfire.2.1
      simp [writes, ws, heldW, WriteChannel.clock, hf, hfire, hw]

theorem bs_append : s.bs i ++ (s.clock i ok).heldB =
    s.heldB ++ (s.writes i).map fun x => (x.req.id, periphResp (ok x)) := by
  cases hf : s.writeFire with
  | true =>
    have hb := (captured_of_writeFire hf).2.2
    simp [bs, heldB, writes, WriteChannel.clock, bFire, hf, hb, eff]
  | false =>
    cases hb : s.bvalid with
    | false => simp [bs, heldB, writes, WriteChannel.clock, bFire, hf, hb]
    | true =>
      cases hr : i.bready <;> simp [bs, heldB, writes, WriteChannel.clock, bFire, hf, hb, hr]

theorem length_bs_le : (s.bs i).length ≤ s.heldB.length := by
  cases hb : s.bvalid <;> cases hr : i.bready <;> simp [bs, heldB, bFire, hb, hr]

theorem keeps_b : Keeps (owed s.bvalid i.bready (s.bid, s.bresp)) (s.clock i ok).bvalid
    ((s.clock i ok).bid, (s.clock i ok).bresp) := by
  cases hb : s.bvalid with
  | false => simp
  | true =>
    have hf : s.writeFire = false := by simp [writeFire, hb]
    cases hr : i.bready <;> simp [WriteChannel.clock, bFire, hf, hb, hr]

end WriteChannel

/-! ## Reads -/

variable (n) in
/-- The registers of the read channel. -/
structure ReadChannel where
  rvalid : Bool
  rlast : Bool
  rid : BitVec n
  rdata : BitVec 32
  rresp : BitVec 2

variable (n) in
/-- A read beat. -/
@[ext] structure PeriphRBeat where
  id : BitVec n
  data : BitVec 32
  resp : BitVec 2
  last : Bool
deriving DecidableEq

namespace ReadChannel

variable (n) in
/-- The values under reset. -/
def reset : ReadChannel n := ⟨false, false, 0, 0, axiRespOkay⟩

variable (s : ReadChannel n) (i : PeriphIn n)

/-- A read address is accepted while no answer is held. -/
def arready : Bool := !s.rvalid

/-- A read address is accepted. -/
def arFire : Bool := i.arvalid && s.arready

/-- A read answer is handed over. -/
def rFire : Bool := s.rvalid && i.rready

/-- The answer on the bus. -/
def r : PeriphRBeat n := ⟨s.rid, s.rdata, s.rresp, s.rlast⟩

/-- **A rising clock** of the read channel, for a register map that gives the word and the response of
a read. -/
def clock (answer : PeriphReq n → BitVec 32 × BitVec 2) : ReadChannel n where
  rvalid := if s.arFire i then true else if s.rFire i then false else s.rvalid
  rlast := if s.arFire i then true else if s.rFire i then false else s.rlast
  rid := if s.arFire i then i.ar.id else s.rid
  rdata := if s.arFire i then (answer i.ar).1 else s.rdata
  rresp := if s.arFire i then (answer i.ar).2 else s.rresp

/-- The reads accepted in a cycle. -/
def ars : List (PeriphReq n) := if s.arFire i then [i.ar] else []

/-- The read answers handed over in a cycle. -/
def rs : List (PeriphRBeat n) := if s.rFire i then [s.r] else []

/-- The read answer that waits. -/
def heldR : List (PeriphRBeat n) := if s.rvalid then [s.r] else []

variable {s i} {answer : PeriphReq n → BitVec 32 × BitVec 2}

theorem rs_append : s.rs i ++ (s.clock i answer).heldR = s.heldR ++ (s.ars i).map fun r =>
    ⟨r.id, (answer r).1, (answer r).2, true⟩ := by
  cases hv : s.rvalid with
  | true =>
    have hno : s.arFire i = false := by simp [arFire, arready, hv]
    cases hr : i.rready <;> simp [rs, heldR, ars, ReadChannel.clock, r, rFire, hv, hno, hr]
  | false =>
    cases hf : s.arFire i <;> simp [rs, heldR, ars, ReadChannel.clock, r, rFire, hv, hf]

theorem keeps_r :
    Keeps (owed s.rvalid i.rready s.r) (s.clock i answer).rvalid (s.clock i answer).r := by
  cases hv : s.rvalid with
  | false => simp
  | true =>
    have hno : s.arFire i = false := by simp [arFire, arready, hv]
    cases hr : i.rready <;> simp [ReadChannel.clock, r, rFire, hv, hno, hr]

end ReadChannel

/-! ## Peripherals -/

/-- **A peripheral** with these channels, in front of registers of its own. -/
structure Periph (n : ℕ) (σ ι : Type*) where
  step : σ → ι → σ
  start : σ
  axi : ι → PeriphIn n
  wr : σ → WriteChannel n
  rd : σ → ReadChannel n
  ok : PeriphWrite n → Bool
  answer : σ → PeriphReq n → BitVec 32 × BitVec 2
  wr_start : wr start = .reset n
  rd_start : rd start = .reset n
  wr_step : ∀ s e, wr (step s e) = (wr s).clock (axi e) ok
  rd_step : ∀ s e, rd (step s e) = (rd s).clock (axi e) (answer s)

namespace Periph

variable {σ ι : Type*} (P : Periph n σ ι) (es : List ι)

/-- The state after a run. -/
def after : σ := run P.step P.start es

/-- The write addresses accepted in a run. -/
def awLog : List (PeriphReq n) := log P.step (fun s e => (P.wr s).aws (P.axi e)) P.start es

/-- The write data accepted in a run. -/
def wLog : List PeriphData := log P.step (fun s e => (P.wr s).ws (P.axi e)) P.start es

/-- The write responses of a run. -/
def bLog : List (BitVec n × BitVec 2) := log P.step (fun s e => (P.wr s).bs (P.axi e)) P.start es

/-- The read answers of a run. -/
def rLog : List (PeriphRBeat n) := log P.step (fun s e => (P.rd s).rs (P.axi e)) P.start es

/-- The writes executed in a run. -/
def writeLog : List (PeriphWrite n) :=
  log P.step (fun s e => (P.wr s).writes (P.axi e)) P.start es

/-- The reads of a run, with their answers. -/
def readLog : List (PeriphReq n × BitVec 32 × BitVec 2) :=
  log P.step (fun s e => ((P.rd s).ars (P.axi e)).map fun r => (r, P.answer s r)) P.start es

@[simp] theorem after_append (e : ι) : P.after (es ++ [e]) = P.step (P.after es) e := by
  rw [after, run_snoc, after]

theorem inv_after : (P.wr (P.after es)).Inv := by
  refine (along_true P.step P.start es).invariant (fun s => (P.wr s).Inv) (fun s e h _ => ?_) ?_
  · rw [P.wr_step]
    exact h.clock
  · rw [P.wr_start]
    exact WriteChannel.Inv.reset

theorem log_held {ο : Type*} (held : σ → List ο) {out inp : σ → ι → List ο}
    (pass : ∀ s e, out s e ++ held (P.step s e) = held s ++ inp s e) (h₀ : held P.start = []) :
    log P.step out P.start es ++ held (P.after es) = log P.step inp P.start es := by
  have hbuf := (along_true P.step P.start es).log_buffer (fun _ => True) held
    (fun _ _ _ _ => trivial) (fun s e _ _ => pass s e) trivial
  rwa [h₀, List.nil_append] at hbuf

theorem log_held_wr {ο : Type*} (held : WriteChannel n → List ο)
    {out inp : WriteChannel n → PeriphIn n → List ο}
    (pass : ∀ s i, out s i ++ held (s.clock i P.ok) = held s ++ inp s i)
    (h₀ : held (.reset n) = []) :
    log P.step (fun s e => out (P.wr s) (P.axi e)) P.start es ++ held (P.wr (P.after es)) =
      log P.step (fun s e => inp (P.wr s) (P.axi e)) P.start es := by
  refine P.log_held es (fun s => held (P.wr s)) (fun s e => ?_) (by rw [P.wr_start, h₀])
  rw [P.wr_step]
  exact pass _ _

/-- **The accounts of a peripheral**, after the cycles `es`, and in the next one, `e`. -/
structure Accounts (es : List ι) (e : ι) : Prop where
  /-- Addresses and data are executed in pairs, in order, and without delay. -/
  addresses : (P.writeLog es).map PeriphWrite.req ++ (P.wr (P.after es)).heldAw = P.awLog es
  data : (P.writeLog es).map PeriphWrite.w ++ (P.wr (P.after es)).heldW = P.wLog es
  executes : ∀ r ∈ (P.wr (P.after es)).heldAw, ∀ w ∈ (P.wr (P.after es)).heldW,
    P.writeLog (es ++ [e]) = P.writeLog es ++ [⟨r, w⟩]
  /-- Each pair has one response, and each read one answer; both stay until they are accepted. -/
  responses : P.bLog es ++ (P.wr (P.after es)).heldB =
    (P.writeLog es).map fun x => (x.req.id, periphResp (P.ok x))
  reads : P.rLog es ++ (P.rd (P.after es)).heldR =
    (P.readLog es).map fun x => ⟨x.1.id, x.2.1, x.2.2, true⟩
  keepsB : Keeps (owed (P.wr (P.after es)).bvalid (P.axi e).bready
      ((P.wr (P.after es)).bid, (P.wr (P.after es)).bresp))
    (P.wr (P.after (es ++ [e]))).bvalid
    ((P.wr (P.after (es ++ [e]))).bid, (P.wr (P.after (es ++ [e]))).bresp)
  keepsR : Keeps (owed (P.rd (P.after es)).rvalid (P.axi e).rready (P.rd (P.after es)).r)
    (P.rd (P.after (es ++ [e]))).rvalid (P.rd (P.after (es ++ [e]))).r

theorem addresses_eq :
    (P.writeLog es).map PeriphWrite.req ++ (P.wr (P.after es)).heldAw = P.awLog es := by
  rw [writeLog, ← log_map]
  exact P.log_held_wr es WriteChannel.heldAw (fun _ _ => WriteChannel.aws_append) rfl

theorem data_eq : (P.writeLog es).map PeriphWrite.w ++ (P.wr (P.after es)).heldW = P.wLog es := by
  rw [writeLog, ← log_map]
  exact P.log_held_wr es WriteChannel.heldW (fun _ _ => WriteChannel.ws_append) rfl

theorem responses_eq : P.bLog es ++ (P.wr (P.after es)).heldB =
    (P.writeLog es).map fun x => (x.req.id, periphResp (P.ok x)) := by
  rw [writeLog, ← log_map]
  exact P.log_held_wr es WriteChannel.heldB (fun _ _ => WriteChannel.bs_append) rfl

theorem length_bLog_le (e : ι) : (P.bLog (es ++ [e])).length ≤ (P.writeLog es).length := by
  have hb := congrArg List.length (P.responses_eq es)
  have hlog : P.bLog (es ++ [e]) = P.bLog es ++ _ := log_append _ _ _ es [e]
  rw [List.length_append, List.length_map] at hb
  rw [hlog, log_cons, log_nil, List.append_nil, List.length_append, ← hb]
  exact Nat.add_le_add_left WriteChannel.length_bs_le _

theorem reads_eq : P.rLog es ++ (P.rd (P.after es)).heldR =
    (P.readLog es).map fun x => ⟨x.1.id, x.2.1, x.2.2, true⟩ := by
  rw [readLog, ← log_map]
  refine P.log_held es (fun s => (P.rd s).heldR) (fun s e => ?_) (by rw [P.rd_start]; rfl)
  rw [P.rd_step, List.map_map]
  exact ReadChannel.rs_append

/-- **Every peripheral keeps these accounts.** -/
theorem accounts (e : ι) : P.Accounts es e := by
  refine ⟨P.addresses_eq es, P.data_eq es, ?_, P.responses_eq es, P.reads_eq es, ?_, ?_⟩
  · intro r hr x hx
    have hinv := P.inv_after es
    have hfire : (P.wr (P.after es)).writeFire = true := by
      rw [hinv.writeFire_eq]
      simp only [WriteChannel.heldAw, WriteChannel.heldW] at hr hx
      split_ifs at hr hx with haw hw <;> simp_all
    obtain ⟨haw, hw, -⟩ := WriteChannel.captured_of_writeFire hfire
    simp only [WriteChannel.heldAw, WriteChannel.heldW, haw, hw, if_true, List.mem_singleton] at hr hx
    have hlog : P.writeLog (es ++ [e]) = P.writeLog es ++ _ := log_append _ _ _ es [e]
    rw [hlog, log_cons, log_nil, List.append_nil]
    subst hr hx
    rw [← WriteChannel.eff_of_writeFire (i := P.axi e) hfire]
    exact congrArg _ (if_pos hfire)
  · rw [after_append, P.wr_step]
    exact WriteChannel.keeps_b
  · rw [after_append, P.rd_step]
    exact ReadChannel.keeps_r

end Periph

end PacketBuffering
