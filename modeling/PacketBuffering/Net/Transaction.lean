import PacketBuffering.Net.Interconnect

/-!
# Transactions

What the interconnect is for: transactions, each from one master to the slave its address names.

* `NetTxn`, `NetTxn.events`: a transaction, as far as it has come, and what it puts on each channel;
  `NetTxn.Complete`.
* `NetTrace`, `NetTrace.step`: the interconnect with what has been handed over, and with the requests its
  masters must keep; `NetTrace.Served`: the duties of masters and slaves.
* `Serial`: what is recorded on every channel is what a list of transactions, one after the other,
  puts there, with one more of them under way.
* `Complete.length_b`, `Complete.countP_r`: how often a complete transaction uses a slave's channels.
-/

namespace PacketBuffering

variable {N : NetParams}

/-! ## Transactions -/

/-- A transaction: the port of its master, the request, the data and the responses. -/
inductive NetTxn (N : NetParams)
  | write (port : ℕ) (req : NetReq N N.awuserWidth) (beats : List (NetW N)) (resps : List (NetB N))
  | read (port : ℕ) (req : NetReq N N.aruserWidth) (beats : List (NetR N))

/-- A request as the slave of region `j` sees it. -/
def NetReq.toFwd {u : ℕ} (r : NetReq N u) (enable : Bool) (j : ℕ) : NetFwd N u where
  toNetReq := { r with
    id := if N.forwardId then r.id else 0
    user := if enable then r.user else 0 }
  region := BitVec.ofNat 4 j

/-- A word of read data for the request of a master. -/
def NetR.withId (x : NetR N) (id : BitVec N.idWidth) : NetR N := { x with id := id }

/-- The answer to a read that no slave is responsible for. -/
def NetReq.errorBeats {u : ℕ} (r : NetReq N u) : List (NetR N) :=
  (List.range (r.len.toNat + 1)).map fun k => ⟨r.id, 0, axiRespDecerr, k == r.len.toNat, 0⟩

namespace NetTxn

/-- What reaches the slave `m`. -/
def atSlave {β : Type*} (dest : Option (ℕ × ℕ)) (m : ℕ) (f : ℕ → List β) : List β :=
  match dest with
  | some (m', j) => if m = m' then f j else []
  | none => []

/-- The slave and the region a transaction is for. -/
def dest : NetTxn N → Option (ℕ × ℕ)
  | write p req _ _ => N.decode false p req.prot req.addr
  | read p req _ => N.decode true p req.prot req.addr

/-- **What a transaction puts on the channels.** -/
def events : NetTxn N → Wire → List (NetBeat N)
  | write p req _ _, .sAw n => if n = p then [.aw req] else []
  | write p _ beats _, .sW n => if n = p then beats.map .w else []
  | write p req _ resps, .sB n => if n = p then resps.map fun b => .b ⟨req.id, b.resp, 0⟩ else []
  | t@(write _ req _ _), .mAw m => atSlave t.dest m fun j => [.fwdAw (req.toFwd N.awuserEnable j)]
  | t@(write _ _ beats _), .mW m => atSlave t.dest m fun _ => beats.map fun x => .w (Interconnect.mWOf x)
  | t@(write _ _ _ resps), .mB m => atSlave t.dest m fun _ => resps.map .b
  | read p req _, .sAr n => if n = p then [.ar req] else []
  | read p req beats, .sR n =>
    if n = p then beats.map fun x => .r (Interconnect.sROf (x.withId req.id)) else []
  | t@(read _ req _), .mAr m => atSlave t.dest m fun j => [.fwdAr (req.toFwd N.aruserEnable j)]
  | t@(read _ _ beats), .mR m => atSlave t.dest m fun _ => beats.map .r
  | _, _ => []

/-- A transaction that has come to its end: the data goes up to the first word marked as last, there is
one response, and what no slave is responsible for is answered with `DECERR`. -/
def Complete : NetTxn N → Prop
  | t@(write _ _ beats resps) =>
    Whole NetW.last beats ∧ ∃ b, resps = [b] ∧ (t.dest = none → b.resp = axiRespDecerr)
  | t@(read _ req beats) => Whole NetR.last beats ∧ (t.dest = none → beats = req.errorBeats)

end NetTxn

/-! ## The interconnect and its surroundings -/

/-- The interconnect, what has been handed over on its channels, and the requests still open. -/
structure NetTrace (N : NetParams) where
  net : Interconnect N
  log : Wire → List (NetBeat N)
  owesAw : ℕ → Option (NetReq N N.awuserWidth)
  owesAr : ℕ → Option (NetReq N N.aruserWidth)

namespace NetTrace

/-- After configuration. -/
def start (N : NetParams) : NetTrace N := ⟨.reset N, fun _ => [], fun _ => none, fun _ => none⟩

/-- A rising edge. -/
def step (t : NetTrace N) (i : NetIn N) : NetTrace N where
  net := t.net.clock i
  log := fun w => t.log w ++ t.net.events i w
  owesAw := fun n => owed (i.sAwvalid n) (t.net.sAwready n) (i.sAw n)
  owesAr := fun n => owed (i.sArvalid n) (t.net.sArready n) (i.sAr n)

/-- The masters keep their requests until they are taken. A slave answers a write when it has taken the
request and the last word, and sends read data while it has a read to answer. -/
structure Served (t : NetTrace N) (i : NetIn N) : Prop where
  rst : i.rst = false
  aw : ∀ n, Keeps (t.owesAw n) (i.sAwvalid n) (i.sAw n)
  ar : ∀ n, Keeps (t.owesAr n) (i.sArvalid n) (i.sAr n)
  b : ∀ m, i.mBvalid m = true → (t.log (.mB m)).length < (t.log (.mAw m)).length ∧
    (t.log (.mB m)).length < (t.log (.mW m)).countP NetBeat.isLast
  r : ∀ m, i.mRvalid m = true → (t.log (.mR m)).countP NetBeat.isLast < (t.log (.mAr m)).length

end NetTrace

/-- **One transaction at a time.** What has been handed over on a channel is all of the transactions
`ts`, in order, and at most part of one more, `next`. -/
def Serial (log : Wire → List (NetBeat N)) (ts : List (NetTxn N)) (next : Option (NetTxn N)) : Prop :=
  (∀ x ∈ ts ++ next.toList, x.Complete) ∧ ∀ w, (ts.flatMap fun x => x.events w) <+: log w ∧
    log w <+: (ts ++ next.toList).flatMap fun x => x.events w

/-! ## Counting -/

namespace NetTxn

variable {β : Type*} {d : Option (ℕ × ℕ)} {m : ℕ}

theorem length_atSlave {β γ : Type*} (m : ℕ) {f : ℕ → List β} {g : ℕ → List γ}
    (h : ∀ j, (f j).length = (g j).length) : (atSlave d m f).length = (atSlave d m g).length := by
  unfold atSlave
  split
  · split_ifs
    · exact h _
    · rfl
  · rfl

theorem countP_atSlave {γ : Type*} {p : β → Bool} (m : ℕ) {f : ℕ → List β} {g : ℕ → List γ}
    (h : ∀ j, (f j).countP p = (g j).length) : (atSlave d m f).countP p = (atSlave d m g).length := by
  unfold atSlave
  split
  · split_ifs
    · exact h _
    · rfl
  · rfl

end NetTxn

theorem Whole.countP {α : Type*} {last : α → Bool} {l : List α} (h : Whole last l) :
    l.countP last = 1 := by
  obtain ⟨init, w, rfl, hinit, hw⟩ := h
  rw [List.countP_append, List.countP_eq_zero.mpr fun v hv => by simp [hinit v hv], List.countP_singleton,
    if_pos hw]

theorem countP_isLast_w (l : List (NetW N)) :
    (l.map fun x => NetBeat.w (Interconnect.mWOf x)).countP NetBeat.isLast = l.countP NetW.last := by
  rw [List.countP_map]
  rfl

theorem countP_isLast_r (l : List (NetR N)) :
    (l.map NetBeat.r).countP NetBeat.isLast = l.countP NetR.last := by
  rw [List.countP_map]
  rfl

namespace NetTxn.Complete

variable {x : NetTxn N}

theorem length_b (h : x.Complete) (m : ℕ) :
    (x.events (.mB m)).length = (x.events (.mAw m)).length := by
  cases x with
  | read => rfl
  | write p req beats resps =>
    obtain ⟨-, b, rfl, -⟩ := h
    exact length_atSlave m fun _ => rfl

theorem countP_w (h : x.Complete) (m : ℕ) :
    (x.events (.mW m)).countP NetBeat.isLast = (x.events (.mB m)).length := by
  cases x with
  | read => rfl
  | write p req beats resps =>
    obtain ⟨hwhole, b, rfl, -⟩ := h
    exact countP_atSlave m fun _ => by rw [countP_isLast_w, hwhole.countP]; rfl

theorem countP_r (h : x.Complete) (m : ℕ) :
    (x.events (.mR m)).countP NetBeat.isLast = (x.events (.mAr m)).length := by
  cases x with
  | write => rfl
  | read p req beats => exact countP_atSlave m fun _ => by rw [countP_isLast_r, h.1.countP]; rfl

end NetTxn.Complete

theorem length_flatMap_b {ts : List (NetTxn N)} (h : ∀ x ∈ ts, x.Complete) (m : ℕ) :
    (ts.flatMap fun x => x.events (.mB m)).length = (ts.flatMap fun x => x.events (.mAw m)).length := by
  rw [List.length_flatMap, List.length_flatMap]
  congr 1
  exact List.map_congr_left fun x hx => (h x hx).length_b m

theorem countP_flatMap_w {ts : List (NetTxn N)} (h : ∀ x ∈ ts, x.Complete) (m : ℕ) :
    (ts.flatMap fun x => x.events (.mW m)).countP NetBeat.isLast =
      (ts.flatMap fun x => x.events (.mB m)).length := by
  rw [List.countP_flatMap, List.length_flatMap]
  congr 1
  exact List.map_congr_left fun x hx => (h x hx).countP_w m

theorem countP_flatMap_r {ts : List (NetTxn N)} (h : ∀ x ∈ ts, x.Complete) (m : ℕ) :
    (ts.flatMap fun x => x.events (.mR m)).countP NetBeat.isLast =
      (ts.flatMap fun x => x.events (.mAr m)).length := by
  rw [List.countP_flatMap, List.length_flatMap]
  congr 1
  exact List.map_congr_left fun x hx => (h x hx).countP_r m

end PacketBuffering
