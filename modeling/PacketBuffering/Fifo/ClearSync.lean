import PacketBuffering.Fifo.ModeSwitch

/-!
# The clear of the write diagnostics on its way to `wr_clk`

A clear request is a cycle of `aclk` and crosses to `wr_clk` as the change of a toggle. The toggle
carries the parity of the requests only: two of them between two edges of `wr_clk` cancel.

* `Sampled`: a request comes only when the last change of the toggle has been sampled.
* `Crossing n`: the change seen last shows as a clear pulse at the `n`-th edge of `wr_clk` from here;
  `Crossing.step`, `crossing_of_request`.
* **`clear_arrives`**: in runs that meet `Sampled` each request is followed by its pulse.
* `clears_cancel`: two writes of `DIAG_STATUS` and no pulse.
-/

namespace PacketBuffering

variable {P : FifoParams}

namespace PacketFifo

/-! ## Requests and pulses -/

/-- The number of `wr_clk` edges among the events. -/
def wrEdges (es : List (FifoEvent P)) : ℕ := es.countP FifoEvent.wrClk

/-- A clear request: a cycle of `aclk` with `wr_clr_req = 1`. -/
def ClearRequested (s : PacketFifo P) (e : FifoEvent P) : Prop := e.aclk = true ∧ s.wrClrReq = true

/-- A request comes only when the toggle's last change has been sampled by `wr_clk`. -/
def Sampled (s : PacketFifo P) (e : FifoEvent P) : Prop :=
  ClearRequested s e → s.wrClrTog = s.wrClrSync.getLsbD 0

/-- A cycle of `wr_clk` with `wr_diag_clear_sync = 1`. -/
def Pulses (s : PacketFifo P) (e : FifoEvent P) : Prop := e.wrClk = true ∧ s.wrDiagClearSync = true

instance (s : PacketFifo P) (e : FifoEvent P) : Decidable (ClearRequested s e) :=
  inferInstanceAs (Decidable (_ ∧ _))

instance (s : PacketFifo P) (e : FifoEvent P) : Decidable (Sampled s e) :=
  inferInstanceAs (Decidable (_ → _))

instance (s : PacketFifo P) (e : FifoEvent P) : Decidable (Pulses s e) :=
  inferInstanceAs (Decidable (_ ∧ _))

/-- Within the first `n` edges of `wr_clk` among the events there is a clear pulse. -/
def PulseWithin (n : ℕ) (s : PacketFifo P) (es : List (FifoEvent P)) : Prop :=
  ∃ es' e, es' ++ [e] <+: es ∧ wrEdges (es' ++ [e]) ≤ n ∧ Pulses (run step s es') e

/-! ## The crossing -/

/-- How far the last change of the toggle is from its pulse, in edges of `wr_clk`: not yet sampled, in
the first register, in the second. -/
inductive Crossing (s : PacketFifo P) : ℕ → Prop
  | toggled (h : s.wrClrTog ≠ s.wrClrSync.getLsbD 0) : Crossing s 3
  | first (h : s.wrClrSync.getLsbD 0 ≠ s.wrClrSync.getLsbD 1) : Crossing s 2
  | second (h : s.wrClrSync.getLsbD 1 ≠ s.wrClrSyncPrev) : Crossing s 1

variable {s : PacketFifo P} {e : FifoEvent P}

theorem wrClrSync_step_of_wrClk (h : e.wrClk = true) :
    (s.step e).wrClrSync.getLsbD 0 = (if e.clrPick then s.wrClrTogNext e else s.wrClrTog) ∧
      (s.step e).wrClrSync.getLsbD 1 = s.wrClrSync.getLsbD 0 ∧
      (s.step e).wrClrSyncPrev = s.wrClrSync.getLsbD 1 := by
  simp only [step, h, if_true]
  exact ⟨BitVec.getLsbD_ofBoolListBE, BitVec.getLsbD_ofBoolListBE, trivial⟩

theorem wrClrSync_step_of_not_wrClk (h : e.wrClk = false) :
    (s.step e).wrClrSync = s.wrClrSync ∧ (s.step e).wrClrSyncPrev = s.wrClrSyncPrev := by
  simp [step, h]

theorem wrClrTog_step : (s.step e).wrClrTog = s.wrClrTogNext e := rfl

theorem wrClrTogNext_of_request (h : ClearRequested s e) : s.wrClrTogNext e = !s.wrClrTog := by
  simp [wrClrTogNext, h.1, h.2]

theorem wrClrTogNext_of_not_request (h : ¬ ClearRequested s e) : s.wrClrTogNext e = s.wrClrTog := by
  unfold wrClrTogNext
  split_ifs with hclk
  · have hreq : s.wrClrReq = false := by
      by_contra hreq
      exact h ⟨hclk, by simpa using hreq⟩
    rw [hreq, Bool.xor_false]
  · rfl

theorem crossing_of_request (hreq : ClearRequested s e) (he : Sampled s e) :
    Crossing (s.step e) 3 ∨ Crossing (s.step e) 2 := by
  have htog := wrClrTogNext_of_request hreq
  have hsame := he hreq
  cases hclk : e.wrClk with
  | false =>
    left
    apply Crossing.toggled
    rw [wrClrTog_step, htog, (wrClrSync_step_of_not_wrClk hclk).1, ← hsame]
    simp
  | true =>
    obtain ⟨hzero, hone, -⟩ := wrClrSync_step_of_wrClk (s := s) hclk
    cases hpick : e.clrPick with
    | false =>
      -- the old value of the toggle is sampled
      left
      apply Crossing.toggled
      rw [wrClrTog_step, htog, hzero, hpick, if_neg Bool.false_ne_true]
      simp
    | true =>
      right
      apply Crossing.first
      rw [hzero, hone, hpick, if_pos rfl, htog, ← hsame]
      simp

/-- **One event of a crossing**: an edge of `wr_clk` brings it one place further, or its pulse has
come; other events leave it where it is. -/
theorem Crossing.step {n : ℕ} (h : Crossing s n) (he : Sampled s e) :
    if e.wrClk then n = 1 ∧ s.wrDiagClearSync = true ∨ Crossing (s.step e) (n - 1)
    else Crossing (s.step e) n := by
  cases hclk : e.wrClk with
  | false =>
    obtain ⟨hsync, hprev⟩ := wrClrSync_step_of_not_wrClk (s := s) hclk
    cases h with
    | toggled h =>
      have hno : ¬ ClearRequested s e := fun hreq => h (he hreq)
      exact .toggled (by rwa [wrClrTog_step, wrClrTogNext_of_not_request hno, hsync])
    | first h => exact .first (by rwa [hsync])
    | second h => exact .second (by rwa [hsync, hprev])
  | true =>
    obtain ⟨hzero, hone, hprev⟩ := wrClrSync_step_of_wrClk (s := s) hclk
    cases h with
    | toggled h =>
      have hno : ¬ ClearRequested s e := fun hreq => h (he hreq)
      rw [wrClrTogNext_of_not_request hno, ite_self] at hzero
      exact .inr (.first (by rwa [hzero, hone]))
    | first h => exact .inr (.second (by rwa [hone, hprev]))
    | second h => exact .inl ⟨rfl, by simpa [wrDiagClearSync] using h⟩

/-- **A crossing ends with its pulse.** -/
theorem Crossing.pulseWithin {n : ℕ} (h : Crossing s n) {es : List (FifoEvent P)}
    (hes : Along PacketFifo.step Sampled s es) (hn : n ≤ wrEdges es) : PulseWithin n s es := by
  induction es generalizing s n with
  | nil => cases h <;> simp [wrEdges] at hn
  | cons e es ih =>
    have hstep := h.step hes.1
    cases hclk : e.wrClk with
    | false =>
      rw [hclk, if_neg Bool.false_ne_true] at hstep
      have hcount : ∀ fs : List (FifoEvent P), wrEdges (e :: fs) = wrEdges fs := fun fs => by
        simp [wrEdges, hclk]
      obtain ⟨es', e', hp, hle, hpulse⟩ := ih hstep hes.2 (by rwa [hcount] at hn)
      refine ⟨e :: es', e', List.cons_prefix_cons.mpr ⟨rfl, hp⟩, ?_, hpulse⟩
      rwa [List.cons_append, hcount]
    | true =>
      rw [hclk, if_pos rfl] at hstep
      have hcount : ∀ fs : List (FifoEvent P), wrEdges (e :: fs) = wrEdges fs + 1 := fun fs => by
        simp [wrEdges, hclk]
      rcases hstep with ⟨rfl, hsync⟩ | hnext
      · exact ⟨[], e, List.cons_prefix_cons.mpr ⟨rfl, List.nil_prefix⟩, by simp [wrEdges, hclk],
          hclk, hsync⟩
      · obtain ⟨es', e', hp, hle, hpulse⟩ := ih hnext hes.2 (by rw [hcount] at hn; omega)
        refine ⟨e :: es', e', List.cons_prefix_cons.mpr ⟨rfl, hp⟩, ?_, hpulse⟩
        have hpos : 0 < n := by cases h <;> omega
        rw [List.cons_append, hcount]
        omega

theorem PulseWithin.mono {m n : ℕ} (h : m ≤ n) {es : List (FifoEvent P)} :
    PulseWithin m s es → PulseWithin n s es := by
  rintro ⟨es', e, hp, hle, hpulse⟩
  exact ⟨es', e, hp, hle.trans h, hpulse⟩

/-- **Every clear arrives.** In every run from reset, for every interleaving of the clocks and every
sequence of register accesses, in which a request comes only when the last change of the toggle has
been sampled: each request is followed by a clear pulse within the next four edges of `wr_clk`. -/
theorem clear_arrives (mem : BitVec P.addrWidth → Payload) (x : Payload) (es₀ es : List (FifoEvent P))
    (e : FifoEvent P) (hes : Along step Sampled (PacketFifo.reset mem x) (es₀ ++ e :: es))
    (hreq : ClearRequested (run step (PacketFifo.reset mem x) es₀) e) (hedges : 4 ≤ wrEdges es) :
    PulseWithin 4 (run step (PacketFifo.reset mem x) (es₀ ++ [e])) es := by
  obtain ⟨-, he, hafter⟩ := (along_append _ _ _).mp hes
  rw [run_snoc]
  rcases crossing_of_request hreq he with h | h
  · exact (h.pulseWithin hafter (by omega)).mono (by decide)
  · exact (h.pulseWithin hafter (by omega)).mono (by decide)

/-- One clear of the overflow flag, and four edges of `wr_clk` behind it. -/
theorem clear_arrives_once :
    let s₀ : PacketFifo .smallest := PacketFifo.reset (fun _ => .zero) .zero
    let write : FifoEvent .smallest := .tick false (.write FifoReg.diagStatus 0x4)
    PulseWithin 4 (run step s₀ [write, write]) (List.replicate 4 .wrTick) :=
  clear_arrives _ _ [_] _ _ (by decide) (by decide) (by decide)

/-- **Two clears cancel.** Two writes of `DIAG_STATUS`, as close as the register interface takes them,
with no edge of `wr_clk` between: both are requests, and no pulse follows. -/
theorem clears_cancel :
    let s₀ : PacketFifo .smallest := PacketFifo.reset (fun _ => .zero) .zero
    let write : FifoEvent .smallest := .tick false (.write FifoReg.diagStatus 0x1)
    let es : List (FifoEvent .smallest) := FifoEvent.busWrite FifoReg.diagStatus 0x1 ++ [write]
    let edges : List (FifoEvent .smallest) := List.replicate 4 .wrTick
    ClearRequested (run step s₀ [write]) write ∧ ClearRequested (run step s₀ es) write ∧
      ¬ PulseWithin 4 (run step s₀ (es ++ [write])) edges := by
  intro s₀ write es edges
  refine ⟨by decide, by decide, ?_⟩
  rintro ⟨es', e, hp, -, -, hpulse⟩
  have hlen : es'.length < 4 := by
    have := hp.length_le
    rw [List.length_append, List.length_singleton] at this
    exact this
  have hes' : es' = edges.take es'.length :=
    List.prefix_iff_eq_take.mp ((List.prefix_append es' [e]).trans hp)
  have hquiet : ∀ n < 4,
      (run step (run step s₀ (es ++ [write])) (edges.take n)).wrDiagClearSync = false := by decide
  rw [hes', hquiet _ hlen] at hpulse
  cases hpulse

end PacketFifo

end PacketBuffering
