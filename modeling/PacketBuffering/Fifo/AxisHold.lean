import PacketBuffering.Fifo.ModeSwitch

/-!
# Stalls of the packet FIFO's output

`m_axis_tvalid` is `SM_HOLD` gated by `enable` and `stream_en`. A write of `CTRL` that clears one of
them withdraws the word on offer; the word itself stays in the holding register.

* `Refusing`, `HoldsWord`: a cycle in which the word is not taken, and what it leaves unchanged.
* `KeepsOffer`: no write of `CTRL` clears `enable` or `stream_en`.
* **`offer_held`**: a word on offer stays in the holding register until it is taken, and is offered in
  every state in which both bits are set; it stays on offer iff no write clears them.
* `offer_withdrawn`: such a write during a stall.
-/

namespace PacketBuffering

variable {P : FifoParams}

namespace PacketFifo

/-- The word on `m_axis` is not taken: no `aclk` edge, or one without handshake. -/
def Refusing (s : PacketFifo P) (e : FifoEvent P) : Prop := e.aclk = true → s.streamPop e = false

/-- A write to `CTRL` at the event keeps `enable` and `stream_en`. -/
def KeepsOffer (s : PacketFifo P) (e : FifoEvent P) : Prop :=
  e.aclk = true → s.slave.writesTo e.axi FifoReg.ctrl = true →
    e.axi.wdata.getLsbD 0 = true ∧ e.axi.wdata.getLsbD 2 = true

instance (s : PacketFifo P) (e : FifoEvent P) : Decidable (Refusing s e) :=
  inferInstanceAs (Decidable (_ → _))

instance (s : PacketFifo P) (e : FifoEvent P) : Decidable (KeepsOffer s e) :=
  inferInstanceAs (Decidable (_ → _ → _))

/-- The word `w` waits in the holding register, and is offered if the gates are open. -/
structure HoldsWord (w : Payload) (s : PacketFifo P) : Prop where
  hold : s.rdState = .hold
  outReg : s.outReg = w
  softReset : s.ctrlSoftReset = false

variable {s : PacketFifo P} {e : FifoEvent P} {w : Payload}

theorem HoldsWord.mAxisTvalid (h : HoldsWord w s) :
    s.mAxisTvalid = (s.ctrlEnable && s.ctrlStreamEn) := by
  simp [PacketFifo.mAxisTvalid, h.hold]

theorem HoldsWord.step (h : HoldsWord w s) (he : NoSoftReset s e) (href : Refusing s e) :
    HoldsWord w (s.step e) := by
  have hno := he.noReset h.softReset
  refine ⟨?_, ?_, hno.2⟩
  · rw [rdState_step hno]
    split_ifs with hclk
    · simp [rdStateNext, h.hold, href hclk]
    · exact h.hold
  · rw [outReg_step hno, h.hold]
    simp [h.outReg]

theorem gates_step (hgates : (s.ctrlEnable && s.ctrlStreamEn) = true) :
    ((s.step e).ctrlEnable && (s.step e).ctrlStreamEn) = true ↔ KeepsOffer s e := by
  rw [Bool.and_eq_true] at hgates
  rw [ctrlEnable_step, ctrlStreamEn_step, Bool.and_eq_true]
  unfold KeepsOffer
  cases e.aclk with
  | false => simpa using hgates
  | true =>
    cases s.slave.writesTo e.axi FifoReg.ctrl with
    | false => simpa using hgates
    | true => simp

/-- **A word on offer is held.** In every run from reset without a write that sets the soft reset, for
every traffic and timing of the clocks: once `m_axis_tvalid` is 1, in every state up to the handshake
`tdata`, `tkeep` and `tlast` are unchanged and `m_axis_tvalid` is 1 iff `enable` and `stream_en` are;
it is 1 in all these states iff no write of `CTRL` clears one of the two bits. -/
theorem offer_held (mem : BitVec P.addrWidth → Payload) (x : Payload) (es₀ es : List (FifoEvent P))
    (hes : Along step NoSoftReset (PacketFifo.reset mem x) (es₀ ++ es))
    (hvalid : (run step (PacketFifo.reset mem x) es₀).mAxisTvalid = true)
    (hwait : Along step Refusing (run step (PacketFifo.reset mem x) es₀) es) :
    let s := run step (PacketFifo.reset mem x) es₀
    (∀ es', es' <+: es → (run step s es').outReg = s.outReg ∧
        (run step s es').mAxisTvalid =
          ((run step s es').ctrlEnable && (run step s es').ctrlStreamEn)) ∧
      ((∀ es', es' <+: es → (run step s es').mAxisTvalid = true) ↔ Along step KeepsOffer s es) := by
  intro s
  obtain ⟨hbefore, hafter⟩ := (along_append _ _ _).mp hes
  have hreset : s.ctrlSoftReset = false :=
    hbefore.invariant (fun s => s.ctrlSoftReset = false) (fun _ _ hs he => (he.noReset hs).2) rfl
  have hhold : s.rdState = .hold := by
    have h := hvalid
    simp only [PacketFifo.mAxisTvalid, Bool.and_eq_true, beq_iff_eq] at h
    exact h.1.1
  have hkept : ∀ es', es' <+: es → HoldsWord s.outReg (run step s es') := by
    intro es' hp
    exact ((hafter.and hwait).of_isPrefix hp).invariant (HoldsWord s.outReg)
      (fun _ _ hs he => hs.step he.1 he.2) ⟨hhold, rfl, hreset⟩
  refine ⟨fun es' hp => ⟨(hkept es' hp).outReg, (hkept es' hp).mAxisTvalid⟩, ?_, ?_⟩
  · intro hall
    refine along_iff_forall_isPrefix.mpr fun es' e hp => ?_
    have hp' : es' <+: es := (List.prefix_append es' [e]).trans hp
    have hnow := hall es' hp'
    have hnext := hall _ hp
    rw [(hkept es' hp').mAxisTvalid] at hnow
    rw [(hkept _ hp).mAxisTvalid, run_snoc] at hnext
    exact (gates_step hnow).mp hnext
  · intro hkeep es' hp
    rw [(hkept es' hp).mAxisTvalid]
    refine (hkeep.of_isPrefix hp).invariant (fun s => (s.ctrlEnable && s.ctrlStreamEn) = true)
      (fun _ _ hs he => (gates_step hs).mpr he) ?_
    have hstart : s.mAxisTvalid = (s.ctrlEnable && s.ctrlStreamEn) :=
      (hkept [] List.nil_prefix).mAxisTvalid
    rw [← hstart]
    exact hvalid

/-- A word waits in `SM_HOLD` on the smallest FIFO. -/
def stalled (w : Payload) : List (FifoEvent .smallest) :=
  .push w :: List.replicate 5 (.tick false .idle)

/-- A write of `CTRL` on the smallest FIFO. -/
def writeCtrl (d : BitVec 32) : List (FifoEvent .smallest) := FifoEvent.busWrite FifoReg.ctrl d

/-- A word waits over a write of `CTRL` that enables an interrupt. -/
theorem offer_held_interrupt :
    let s₀ : PacketFifo .smallest := PacketFifo.reset (fun _ => .zero) .zero
    let w : Payload := ⟨true, 0b0011, 0xAAAA0001⟩
    (run step s₀ (stalled w ++ writeCtrl 0x0D)).mAxisTvalid = true := by
  intro s₀ w
  have h := (offer_held (fun _ => .zero) .zero (stalled w) (writeCtrl 0x0D) (by decide)
    (by decide) (by decide)).2.mpr (by decide) _ (List.prefix_refl _)
  rwa [run_append]

/-- **An offer is withdrawn.** A word is on offer and stalled when `CTRL` is written with 1: `stream_en`
is cleared and `m_axis_tvalid` falls without a handshake. With `stream_en` set again the same word is
back. -/
theorem offer_withdrawn :
    let s₀ : PacketFifo .smallest := PacketFifo.reset (fun _ => .zero) .zero
    let w : Payload := ⟨true, 0b0011, 0xAAAA0001⟩
    let s := run step s₀ (stalled w)
    Along step NoSoftReset s₀ (stalled w ++ writeCtrl 0x1 ++ writeCtrl 0x5) ∧
      s.mAxisTvalid = true ∧ s.outReg = w ∧
      (∀ e ∈ writeCtrl 0x1, e.mAxisTready = false) ∧
      (run step s (writeCtrl 0x1)).mAxisTvalid = false ∧
      (run step s (writeCtrl 0x1 ++ writeCtrl 0x5)).mAxisTvalid = true ∧
      (run step s (writeCtrl 0x1 ++ writeCtrl 0x5)).outReg = w := by
  decide

end PacketFifo

end PacketBuffering
