import Mathlib.Data.BitVec
import PacketBuffering.Lib.Run

/-!
# Valid/ready channels

A source offers a payload with `valid` and must keep the offer until the sink takes it with `ready`.

* `owed`: the offer still open after a cycle; `Keeps`: the next cycle keeps it. Both the duty of an
  environment and the stability of an output are stated with them.
* `offer_append`, `offer_keeps`: an output register that is raised and then stays until it is taken.
* `Watched`: a machine with what its environment owes, as a history variable that does not influence
  it (`run_watched`, `log_watched`).
* `AxiLiteIn`: the inputs of an AXI4-Lite slave; `AxiLiteOwed`, `AxiLiteIn.Keeps`: the duty of its
  master.
-/

namespace PacketBuffering

/-! ## Offers -/

section Offer

variable {α : Type*}

/-- The offer left open by a cycle. -/
def owed (valid ready : Bool) (x : α) : Option α := if valid && !ready then some x else none

/-- The cycle keeps the open offer. -/
def Keeps (o : Option α) (valid : Bool) (x : α) : Prop := ∀ y ∈ o, valid = true ∧ x = y

instance [DecidableEq α] (o : Option α) (valid : Bool) (x : α) : Decidable (Keeps o valid x) :=
  match o with
  | none => isTrue fun _ h => by cases h
  | some y => decidable_of_iff (valid = true ∧ x = y)
    ⟨fun h _ hz => Option.some.inj hz ▸ h, fun h => h y rfl⟩

@[simp] theorem owed_of_ready (valid : Bool) (x : α) : owed valid true x = none := by
  simp [owed]

@[simp] theorem owed_of_not_ready (x : α) : owed true false x = some x := rfl

@[simp] theorem owed_of_not_valid (ready : Bool) (x : α) : owed false ready x = none := rfl

@[simp] theorem keeps_none (valid : Bool) (x : α) : Keeps none valid x := fun _ h => by cases h

@[simp] theorem keeps_some (y : α) (valid : Bool) (x : α) :
    Keeps (some y) valid x ↔ valid = true ∧ x = y :=
  ⟨fun h => h y rfl, fun h _ hz => Option.some.inj hz ▸ h⟩

section Output

variable {valid ready raise : Bool} {x x' : α}

/-- An output whose offer stays until it is taken: what is taken, followed by the next offer, is the
offer followed by what is raised. -/
theorem offer_append (hraise : valid = true → raise = false)
    (hstay : valid = true → ready = false → x' = x) :
    (if valid && ready then [x] else []) ++ (if (valid && !ready) || raise then [x'] else []) =
      (if valid then [x] else []) ++ if raise then [x'] else [] := by
  cases valid with
  | false => simp
  | true =>
    rw [hraise rfl]
    cases ready with
    | false => simp [hstay rfl rfl]
    | true => simp

theorem offer_keeps (hstay : valid = true → ready = false → x' = x) :
    Keeps (owed valid ready x) ((valid && !ready) || raise) x' := by
  cases valid with
  | false => simp
  | true =>
    cases ready with
    | false => simp [hstay rfl rfl]
    | true => simp

end Output

end Offer

/-! ## History variables -/

/-- A machine with what its environment owes. -/
structure Watched (σ κ : Type*) where
  state : σ
  owes : κ

section Watched

variable {σ κ ι ο : Type*} (next : σ → ι → σ) (owe : σ → ι → κ)

/-- One event, which sets anew what is owed. -/
def Watched.step (p : Watched σ κ) (e : ι) : Watched σ κ := ⟨next p.state e, owe p.state e⟩

theorem run_watched (p : Watched σ κ) (es : List ι) :
    (run (Watched.step next owe) p es).state = run next p.state es := by
  induction es generalizing p with
  | nil => rfl
  | cons e es ih => exact ih _

theorem log_watched (obs : σ → ι → List ο) (p : Watched σ κ) (es : List ι) :
    log (Watched.step next owe) (fun p => obs p.state) p es = log next obs p.state es := by
  induction es generalizing p with
  | nil => rfl
  | cons e es ih => rw [log_cons, log_cons, ih]; rfl

end Watched

/-! ## AXI4-Lite -/

/-- The response `OKAY`. -/
def axiRespOkay : BitVec 2 := 0b00

/-- The response `SLVERR`. -/
def axiRespSlverr : BitVec 2 := 0b10

/-- The inputs of a slave at a rising clock; `awprot` and `arprot` are not used. -/
structure AxiLiteIn where
  awvalid : Bool
  awaddr : BitVec 32
  wvalid : Bool
  wdata : BitVec 32
  wstrb : BitVec 4
  bready : Bool
  arvalid : Bool
  araddr : BitVec 32
  rready : Bool

namespace AxiLiteIn

/-- No request and no response accepted. -/
def idle : AxiLiteIn := ⟨false, 0, false, 0, 0, false, false, 0, false⟩

/-- A write of `d` to offset `a`, offered together with its address and all strobes set. -/
def write (a : BitVec 6) (d : BitVec 32) : AxiLiteIn :=
  { idle with awvalid := true, awaddr := a.setWidth 32, wvalid := true, wdata := d, wstrb := 0b1111 }

/-- A read from offset `a`. -/
def read (a : BitVec 6) : AxiLiteIn := { idle with arvalid := true, araddr := a.setWidth 32 }

end AxiLiteIn

/-- What the master of an AXI4-Lite slave owes: a request it must keep on each channel. -/
structure AxiLiteOwed where
  aw : Option (BitVec 32)
  w : Option (BitVec 32 × BitVec 4)
  ar : Option (BitVec 32)

/-- Nothing is owed. -/
def AxiLiteOwed.none : AxiLiteOwed := ⟨Option.none, Option.none, Option.none⟩

namespace AxiLiteIn

variable (i : AxiLiteIn)

/-- What is owed after a cycle with the given ready outputs. -/
def owes (awready wready arready : Bool) : AxiLiteOwed where
  aw := owed i.awvalid awready i.awaddr
  w := owed i.wvalid wready (i.wdata, i.wstrb)
  ar := owed i.arvalid arready i.araddr

/-- The master keeps its requests. -/
structure Keeps (o : AxiLiteOwed) : Prop where
  aw : PacketBuffering.Keeps o.aw i.awvalid i.awaddr
  w : PacketBuffering.Keeps o.w i.wvalid (i.wdata, i.wstrb)
  ar : PacketBuffering.Keeps o.ar i.arvalid i.araddr

instance (o : AxiLiteOwed) : Decidable (i.Keeps o) :=
  decidable_of_iff (_ ∧ _ ∧ _) ⟨fun ⟨h₁, h₂, h₃⟩ => ⟨h₁, h₂, h₃⟩, fun ⟨h₁, h₂, h₃⟩ => ⟨h₁, h₂, h₃⟩⟩

end AxiLiteIn

end PacketBuffering
