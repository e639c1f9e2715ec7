import PacketBuffering.Uart.Adapter

/-!
# A cycle of the UART adapter

* `Inv`: the flags; `Inv.clock`: they stay consistent. A write and a read are never passed on together.
* `Inv.aws_append` to `Inv.rs_append`: what is held and enters is what leaves and is held.
* `Inv.keeps_uartAw` to `Inv.keeps_r`: requests and responses stay until they are taken.
-/

namespace PacketBuffering

variable {R : UartWidths}

/-- A request of the master, with what the UART sees of it. -/
def UartReq.seen (r : UartReq R) : BitVec R.idWidth × UartCmd R := (r.id, r.cmd)

variable (R) in
/-- A write that is complete at the UART. -/
structure UartWrite where
  req : BitVec R.idWidth × UartCmd R
  w : UartWData R
  resp : BitVec 2

variable (R) in
/-- A read that is complete at the UART. -/
structure UartRead where
  req : BitVec R.idWidth × UartCmd R
  answer : UartRData R

namespace UartAdapter

variable {s : UartAdapter R} {i : UartAdapterIn R}

/-! ## What a cycle shows -/

section Observers

variable (s : UartAdapter R) (i : UartAdapterIn R)

/-- The write requests accepted in a cycle. -/
def aws : List (UartReq R) := if s.awFire i then [i.aw] else []

/-- The write data accepted in a cycle. -/
def ws : List (UartWData R) := if s.wFire i then [i.w] else []

/-- The write responses handed over in a cycle. -/
def bs : List (BitVec R.idWidth × BitVec 2) := if s.bFire i then [s.b] else []

/-- The read requests accepted in a cycle. -/
def ars : List (UartReq R) := if s.arFire i then [i.ar] else []

/-- The read answers handed over in a cycle. -/
def rs : List (BitVec R.idWidth × UartRData R) := if s.rFire i then [s.r] else []

/-- The UART hands over a write response. -/
def uartBFire : Bool := i.uartBvalid && s.uartBready

/-- The UART hands over a read answer. -/
def uartRFire : Bool := i.uartRvalid && s.uartRready

/-- The write responses of the UART, each with the request on its ports. -/
def uartWrites : List (UartCmd R × UartWData R × BitVec 2) :=
  if s.uartBFire i then [(s.uartAw, s.wBuf, i.uartBresp)] else []

/-- The read answers of the UART, each with the request on its ports. -/
def uartReads : List (UartCmd R × UartRData R) :=
  if s.uartRFire i then [(s.uartAr, i.uartR)] else []

/-- The write that a cycle completes. -/
def writes : List (UartWrite R) :=
  if s.writeDone i then [⟨s.awBuf.seen, s.wBuf, i.uartBresp⟩] else []

/-- The read that a cycle completes. -/
def reads : List (UartRead R) :=
  if s.readDone i then [⟨(s.readId, s.uartAr), i.uartR⟩] else []

/-- The write request held. -/
def heldAw : List (BitVec R.idWidth × UartCmd R) := if s.awBufValid then [s.awBuf.seen] else []

/-- The write data held. -/
def heldW : List (UartWData R) := if s.wBufValid then [s.wBuf] else []

/-- The write response that waits. -/
def heldB : List (BitVec R.idWidth × BitVec 2) := if s.writeRespValid then [s.b] else []

/-- The read request under way. -/
def heldAr : List (BitVec R.idWidth × UartCmd R) :=
  if s.readActive then [(s.readId, s.uartAr)] else []

/-- The read answer that waits. -/
def heldR : List (BitVec R.idWidth × UartRData R) := if s.readRespValid then [s.r] else []

end Observers

/-! ## The flags -/

/-- **The invariant.** The request valids follow the two active flags. A write that is passed on has both
of its pieces, and no read beside it; its response is open only when both are gone. -/
structure Inv (s : UartAdapter R) : Prop where
  awvalid : s.uartAwvalid = s.writeActive
  wvalid : s.uartWvalid = s.writeActive
  arvalid : s.uartArvalid = s.readActive
  write : s.writeActive = true → s.readActive = false ∧ s.awBufValid = true ∧ s.wBufValid = true
  request : s.writeActive = true → (s.writeId, s.uartAw) = s.awBuf.seen
  response : s.writeRespValid = true → s.awBufValid = false ∧ s.wBufValid = false
  read : s.readActive = true → s.readRespValid = false

theorem Inv.reset : Inv (reset R) := ⟨rfl, rfl, rfl, nofun, nofun, nofun, nofun⟩

theorem Inv.start_eq (h : Inv s) :
    s.start = (s.awBufValid && s.wBufValid && !s.writeActive && !s.readActive) := by
  rw [start, h.awvalid, h.wvalid]
  cases s.writeActive <;> cases s.readActive <;> simp

theorem Inv.writeDone_eq (h : Inv s) : s.writeDone i = (s.writeActive && i.uartBvalid) := by
  rw [writeDone, uartBready, h.awvalid, h.wvalid]
  cases s.writeActive <;> simp

theorem Inv.readDone_eq (h : Inv s) : s.readDone i = (s.readActive && i.uartRvalid) := by
  rw [readDone, uartRready, h.arvalid]
  cases hra : s.readActive with
  | false => rfl
  | true => simp [h.read hra]

theorem Inv.uartBFire_eq (h : Inv s) : s.uartBFire i = s.writeDone i := by
  rw [h.writeDone_eq, uartBFire, uartBready, h.awvalid, h.wvalid, Bool.and_self, Bool.and_comm]

theorem Inv.uartRFire_eq (h : Inv s) : s.uartRFire i = s.readDone i := by
  rw [h.readDone_eq, uartRFire, uartRready, h.arvalid]
  cases hra : s.readActive with
  | false => simp
  | true => simp [h.read hra]

theorem room_of_awFire (h : s.awFire i = true) : s.awBufValid = false ∧ s.writeActive = false ∧
    s.readActive = false ∧ s.writeRespValid = false := by
  simpa [awFire, awready, and_assoc] using (Bool.and_eq_true_iff.mp h).2

theorem room_of_wFire (h : s.wFire i = true) : s.wBufValid = false ∧ s.writeActive = false ∧
    s.readActive = false ∧ s.writeRespValid = false := by
  simpa [wFire, wready, and_assoc] using (Bool.and_eq_true_iff.mp h).2

theorem room_of_arFire (h : s.arFire i = true) : s.readActive = false ∧ s.writeActive = false ∧
    s.readRespValid = false ∧ s.awBufValid = false ∧ s.wBufValid = false ∧
    s.writeRespValid = false := by
  simpa [arFire, arready, and_assoc] using (Bool.and_eq_true_iff.mp h).2

theorem Inv.closed_of_writeActive (h : Inv s) (hwa : s.writeActive = true) :
    s.awFire i = false ∧ s.wFire i = false ∧ s.arFire i = false ∧ s.start = false ∧
      s.writeRespValid = false := by
  obtain ⟨hra, hab, hwb⟩ := h.write hwa
  have hwr : s.writeRespValid = false := by
    by_contra hwr
    rw [Bool.not_eq_false] at hwr
    rw [(h.response hwr).1] at hab
    exact Bool.false_ne_true hab
  simp [awFire, wFire, arFire, awready, wready, arready, start, hwa, hwr]

theorem Inv.writeActive_of_writeDone (h : Inv s) (hd : s.writeDone i = true) :
    s.writeActive = true := by
  rw [h.writeDone_eq, Bool.and_eq_true] at hd
  exact hd.1

theorem Inv.readActive_of_readDone (h : Inv s) (hd : s.readDone i = true) :
    s.readActive = true := by
  rw [h.readDone_eq, Bool.and_eq_true] at hd
  exact hd.1

theorem Inv.clock (h : Inv s) : Inv (s.clock i) where
  awvalid := by simp only [UartAdapter.clock, h.awvalid]
  wvalid := by simp only [UartAdapter.clock, h.wvalid]
  arvalid := by simp only [UartAdapter.clock, h.arvalid]
  write := by
    have hstart := h.start_eq
    have hdone := h.writeDone_eq (i := i)
    have hwrite := h.write
    have har := room_of_arFire (s := s) (i := i)
    simp only [UartAdapter.clock]
    grind
  request := by
    have hstart := h.start_eq
    have hwrite := h.write
    have hrequest := h.request
    have haw := room_of_awFire (s := s) (i := i)
    simp only [UartAdapter.clock, uartAw, UartReq.seen, UartReq.cmd] at *
    grind
  response := by
    have hdone := h.writeDone_eq (i := i)
    have hresponse := h.response
    have haw := room_of_awFire (s := s) (i := i)
    have hw := room_of_wFire (s := s) (i := i)
    simp only [UartAdapter.clock, bFire]
    grind
  read := by
    have hdone := h.readDone_eq (i := i)
    have hread := h.read
    have har := room_of_arFire (s := s) (i := i)
    simp only [UartAdapter.clock, rFire]
    grind

/-! ## One cycle of the accounts -/

theorem Inv.aws_append (h : Inv s) : (s.writes i).map UartWrite.req ++ (s.clock i).heldAw =
    s.heldAw ++ (s.aws i).map UartReq.seen := by
  cases hd : s.writeDone i with
  | true =>
    have hwa := h.writeActive_of_writeDone hd
    simp [writes, aws, heldAw, UartAdapter.clock, hd, (h.closed_of_writeActive hwa).1,
      (h.write hwa).2.1]
  | false =>
    cases hf : s.awFire i with
    | true => simp [writes, aws, heldAw, UartAdapter.clock, hd, hf, (room_of_awFire hf).1]
    | false => simp [writes, aws, heldAw, UartAdapter.clock, hd, hf]

theorem Inv.ws_append (h : Inv s) :
    (s.writes i).map UartWrite.w ++ (s.clock i).heldW = s.heldW ++ s.ws i := by
  cases hd : s.writeDone i with
  | true =>
    have hwa := h.writeActive_of_writeDone hd
    simp [writes, ws, heldW, UartAdapter.clock, hd, (h.closed_of_writeActive (i := i) hwa).2.1,
      (h.write hwa).2.2]
  | false =>
    cases hf : s.wFire i with
    | true => simp [writes, ws, heldW, UartAdapter.clock, hd, hf, (room_of_wFire hf).1]
    | false => simp [writes, ws, heldW, UartAdapter.clock, hd, hf]

theorem Inv.uartWrites_eq (h : Inv s) :
    s.uartWrites i = (s.writes i).map fun d => (d.req.2, d.w, d.resp) := by
  rw [uartWrites, writes, h.uartBFire_eq]
  cases hd : s.writeDone i with
  | false => rfl
  | true => simp [← h.request (h.writeActive_of_writeDone hd)]

theorem Inv.bs_append (h : Inv s) : s.bs i ++ (s.clock i).heldB =
    s.heldB ++ (s.writes i).map fun d => (d.req.1, d.resp) := by
  cases hd : s.writeDone i with
  | true =>
    have hwa := h.writeActive_of_writeDone hd
    obtain ⟨-, -, -, hstart, hwr⟩ := h.closed_of_writeActive (i := i) hwa
    simp [bs, heldB, writes, UartAdapter.clock, b, bFire, hd, hstart, hwr, ← h.request hwa]
  | false =>
    cases hwr : s.writeRespValid with
    | false => simp [bs, heldB, writes, UartAdapter.clock, bFire, hd, hwr]
    | true =>
      have hstart : s.start = false := by simp [h.start_eq, (h.response hwr).1]
      cases hb : i.bready with
      | true => simp [bs, heldB, writes, UartAdapter.clock, b, bFire, hd, hwr, hb]
      | false => simp [bs, heldB, writes, UartAdapter.clock, b, bFire, hd, hwr, hb, hstart]

theorem Inv.ars_append (h : Inv s) : (s.reads i).map UartRead.req ++ (s.clock i).heldAr =
    s.heldAr ++ (s.ars i).map UartReq.seen := by
  cases hd : s.readDone i with
  | true =>
    have hra := h.readActive_of_readDone hd
    have hf : s.arFire i = false := by simp [arFire, arready, hra]
    simp [reads, ars, heldAr, UartAdapter.clock, hd, hf, hra]
  | false =>
    cases hf : s.arFire i with
    | true =>
      simp [reads, ars, heldAr, UartAdapter.clock, uartAr, UartReq.seen, UartReq.cmd, hd, hf,
        (room_of_arFire hf).1]
    | false => simp [reads, ars, heldAr, UartAdapter.clock, uartAr, hd, hf]

theorem Inv.uartReads_eq (h : Inv s) :
    s.uartReads i = (s.reads i).map fun d => (d.req.2, d.answer) := by
  rw [uartReads, reads, h.uartRFire_eq]
  cases s.readDone i <;> rfl

theorem Inv.rs_append (h : Inv s) : s.rs i ++ (s.clock i).heldR =
    s.heldR ++ (s.reads i).map fun d => (d.req.1, d.answer) := by
  cases hd : s.readDone i with
  | true =>
    have hra := h.readActive_of_readDone hd
    have hf : s.arFire i = false := by simp [arFire, arready, hra]
    simp [rs, heldR, reads, UartAdapter.clock, r, rFire, hd, hf, h.read hra]
  | false =>
    cases hrr : s.readRespValid with
    | false => simp [rs, heldR, reads, UartAdapter.clock, rFire, hd, hrr]
    | true =>
      have hf : s.arFire i = false := by simp [arFire, arready, hrr]
      cases hr : i.rready with
      | true => simp [rs, heldR, reads, UartAdapter.clock, r, rFire, hd, hrr, hr]
      | false => simp [rs, heldR, reads, UartAdapter.clock, r, rFire, hd, hrr, hr, hf]

/-! ## Stability -/

theorem Inv.keeps_uartAw (h : Inv s) :
    Keeps (owed s.uartAwvalid (s.uartBFire i) s.uartAw) (s.clock i).uartAwvalid
      (s.clock i).uartAw := by
  cases hwa : s.uartAwvalid with
  | false => simp
  | true =>
    have hstart := (h.closed_of_writeActive (i := i) (h.awvalid.symm.trans hwa)).2.2.2.1
    rw [h.uartBFire_eq]
    cases hd : s.writeDone i <;> simp [UartAdapter.clock, uartAw, hd, hwa, hstart]

theorem Inv.keeps_uartW (h : Inv s) :
    Keeps (owed s.uartWvalid (s.uartBFire i) s.wBuf) (s.clock i).uartWvalid (s.clock i).wBuf := by
  cases hwa : s.uartWvalid with
  | false => simp
  | true =>
    have hw := (h.closed_of_writeActive (i := i) (h.wvalid.symm.trans hwa)).2.1
    rw [h.uartBFire_eq]
    cases hd : s.writeDone i <;> simp [UartAdapter.clock, hd, hwa, hw]

theorem Inv.keeps_uartAr (h : Inv s) :
    Keeps (owed s.uartArvalid (s.uartRFire i) s.uartAr) (s.clock i).uartArvalid
      (s.clock i).uartAr := by
  cases hra : s.uartArvalid with
  | false => simp
  | true =>
    have hf : s.arFire i = false := by simp [arFire, arready, h.arvalid.symm.trans hra]
    rw [h.uartRFire_eq]
    cases hd : s.readDone i <;> simp [UartAdapter.clock, uartAr, hd, hra, hf]

theorem Inv.withdrawn_of_uartBFire (h : Inv s) (hb : s.uartBFire i = true) :
    (s.clock i).uartAwvalid = false ∧ (s.clock i).uartWvalid = false := by
  rw [h.uartBFire_eq] at hb
  simp [UartAdapter.clock, hb]

theorem Inv.withdrawn_of_uartRFire (h : Inv s) (hr : s.uartRFire i = true) :
    (s.clock i).uartArvalid = false := by
  rw [h.uartRFire_eq] at hr
  simp [UartAdapter.clock, hr]

theorem Inv.keeps_b (h : Inv s) :
    Keeps (owed s.writeRespValid i.bready s.b) (s.clock i).writeRespValid (s.clock i).b := by
  cases hwr : s.writeRespValid with
  | false => simp
  | true =>
    have hab := (h.response hwr).1
    have hstart : s.start = false := by simp [h.start_eq, hab]
    have hd : s.writeDone i = false := by
      by_contra hd
      rw [Bool.not_eq_false] at hd
      rw [(h.write (h.writeActive_of_writeDone hd)).2.1] at hab
      exact Bool.false_ne_true hab.symm
    cases hb : i.bready <;> simp [UartAdapter.clock, b, bFire, hd, hwr, hb, hstart]

theorem Inv.keeps_r (h : Inv s) :
    Keeps (owed s.readRespValid i.rready s.r) (s.clock i).readRespValid (s.clock i).r := by
  cases hrr : s.readRespValid with
  | false => simp
  | true =>
    have hf : s.arFire i = false := by simp [arFire, arready, hrr]
    have hd : s.readDone i = false := by
      by_contra hd
      rw [Bool.not_eq_false] at hd
      rw [h.read (h.readActive_of_readDone hd)] at hrr
      exact Bool.false_ne_true hrr
    cases hr : i.rready <;> simp [UartAdapter.clock, r, rFire, hd, hrr, hr, hf]

end UartAdapter

end PacketBuffering
