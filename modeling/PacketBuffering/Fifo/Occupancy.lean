import PacketBuffering.Fifo.SoftReset
import PacketBuffering.Fifo.Underflow

/-!
# The occupancy counters of the packet FIFO

`rd_occupancy` and `wr_occupancy` count requests: a write request counts also when the core refuses
it, up to `FIFO_DEPTH`. With one clock both see the same requests. `ctrl_soft_reset` empties the core at
once, and the counters at the edge that ends it.

* `Leveled`: the FIFO with the number of words written and not read since the last soft reset.
* `LevelInv`, **`LevelInv.step`**: it is the distance of the core's pointers, in the soft-reset cycle too.
* `Exact`: the counters show the level, and the threshold flags compare it.
* `CountsRight`: a request that is refused finds `FIFO_DEPTH` words, and no word is read with it; the soft
  reset is raised over no word.
* **`occupancy_exact_iff`**: the counters are exact along a run iff every event of it counts right.
* `occupancy_drifts`: a word waits on `s_axis` while the full FIFO is read.
-/

namespace PacketBuffering

variable {P : FifoParams}

open PacketFifo

/-! ## The level -/

/-- `wr_clk` and `aclk` rise together. -/
def OneClock (e : FifoEvent P) : Prop := e.wrClk = true ∧ e.aclk = true

instance (e : FifoEvent P) : Decidable (OneClock e) := inferInstanceAs (Decidable (_ ∧ _))

variable (P) in
/-- The FIFO with the number of words written into the core and not yet read from it, none while
`ctrl_soft_reset = 1`. -/
structure Leveled where
  fifo : PacketFifo P
  level : ℕ

/-- The event reads a word from the core. -/
def PacketFifo.fifoReads (s : PacketFifo P) (e : FifoEvent P) : Bool := s.core.pops (s.coreEvent e)

/-- The event executes the write of `CTRL` that raises `ctrl_soft_reset`. -/
def PacketFifo.raisesReset (s : PacketFifo P) (e : FifoEvent P) : Bool :=
  s.slave.writesTo e.axi FifoReg.ctrl && e.axi.wdata.getLsbD 1

namespace Leveled

/-- One event. The core is empty from the edge on that raises the soft reset. -/
def step (p : Leveled P) (e : FifoEvent P) : Leveled P where
  fifo := p.fifo.step e
  level :=
    if (p.fifo.step e).ctrlSoftReset then 0
    else p.level + (p.fifo.fifoAccepts e).length - (p.fifo.fifoReads e).toNat

/-- The state after a hardware reset. -/
def reset (mem : BitVec P.addrWidth → Payload) (x : Payload) : Leveled P := ⟨.reset mem x, 0⟩

/-- **The counters are exact**, and the threshold flags compare the level. -/
structure Exact (p : Leveled P) : Prop where
  wr : p.fifo.wrOccupancy.toNat = p.level
  rd : p.fifo.rdOccupancy.toNat = p.level
  almostFull : p.fifo.almostFull = decide (p.fifo.slave.almostFullThresh.toNat ≤ p.level)
  almostEmpty : p.fifo.almostEmpty = decide (p.level ≤ p.fifo.slave.almostEmptyThresh.toNat)

/-- Out of soft reset: a write requested while `wr_full = 1` finds `FIFO_DEPTH` words in the core, and
no read is requested with it; and where the soft reset is raised no write is requested, and the core
holds no word but the one that is being read. -/
def CountsRight (p : Leveled P) (e : FifoEvent P) : Prop :=
  p.fifo.ctrlSoftReset = false →
    (p.fifo.fifoWrEn e = true → p.fifo.wrFull = true →
      p.level = P.depth ∧ p.fifo.fifoRdEn e = false) ∧
    (p.fifo.raisesReset e = true →
      p.fifo.fifoWrEn e = false ∧ p.level = (p.fifo.fifoRdEn e).toNat)

instance (p : Leveled P) (e : FifoEvent P) : Decidable (CountsRight p e) :=
  inferInstanceAs (Decidable (_ → (_ → _ → _) ∧ (_ → _)))

/-- **The level is the distance of the core's pointers.** -/
structure LevelInv (p : Leveled P) : Prop where
  le_depth : p.level ≤ P.depth
  empty : p.fifo.ctrlSoftReset = true → p.level = 0
  core : ∃ ws r, CoreInv p.fifo.core ws r ∧ ws.length = r + p.level

/-- Both counters show the level. -/
structure Shows (p : Leveled P) : Prop where
  wr : p.fifo.wrOccupancy.toNat = p.level
  rd : p.fifo.rdOccupancy.toNat = p.level

theorem exact_iff_shows {p : Leveled P} : Exact p ↔ Shows p := by
  constructor
  · exact fun h => ⟨h.wr, h.rd⟩
  · rintro ⟨hwr, hrd⟩
    refine ⟨hwr, hrd, ?_, ?_⟩
    · rw [PacketFifo.almostFull, ← hrd]
      rfl
    · rw [PacketFifo.almostEmpty, ← hrd]
      rfl

variable {p : Leveled P} {e : FifoEvent P}

theorem LevelInv.reset (mem : BitVec P.addrWidth → Payload) (x : Payload) :
    LevelInv (Leveled.reset mem x) :=
  ⟨Nat.zero_le _, fun _ => rfl, [], 0, CoreInv.reset mem x, rfl⟩

theorem fifoReads_eq (hreset : p.fifo.ctrlSoftReset = false) (hone : OneClock e) :
    p.fifo.fifoReads e = p.fifo.fifoRdEn e := by
  simp only [PacketFifo.fifoReads, AsyncFifo.pops, coreEvent, hreset, hone.2, RdDomain.rdAllow]
  cases hen : p.fifo.fifoRdEn e with
  | false => rfl
  | true => simp [show p.fifo.core.rd.rdEmptyReg = false from rdEmpty_of_fifoRdEn hen]

theorem length_fifoAccepts (hreset : p.fifo.ctrlSoftReset = false) (hone : OneClock e) :
    (p.fifo.fifoAccepts e).length = (p.fifo.fifoWrEn e && !p.fifo.wrFull).toNat := by
  have hpush : p.fifo.core.pushes (p.fifo.coreEvent e) = (p.fifo.fifoWrEn e && !p.fifo.wrFull) := by
    simp [AsyncFifo.pushes, coreEvent, hreset, hone.1, WrDomain.wrAllow, wrFull]
  rw [PacketFifo.fifoAccepts, AsyncFifo.accepted, hpush]
  cases p.fifo.fifoWrEn e && !p.fifo.wrFull <;> rfl

theorem LevelInv.room (h : LevelInv p) :
    (p.fifo.fifoRdEn e = true → 0 < p.level) ∧ (p.fifo.wrFull = false → p.level < P.depth) := by
  obtain ⟨ws, r, hcore, hlen⟩ := h.core
  constructor
  · intro hen
    have := hcore.rdSide.lt_of_not_empty (rdEmpty_of_fifoRdEn hen)
    omega
  · intro hfull
    have hle := h.le_depth
    rcases Nat.lt_or_ge p.level P.depth with hlt | hge
    · exact hlt
    · have hset := hcore.wrSide.full_of_eq (by omega)
      rw [show p.fifo.core.wr.wrFullReg = false from hfull] at hset
      cases hset

theorem length_fifoAccepts_of_reset (hreset : p.fifo.ctrlSoftReset = true) :
    (p.fifo.fifoAccepts e).length = 0 ∧ p.fifo.fifoReads e = false := by
  simp [PacketFifo.fifoAccepts, PacketFifo.fifoReads, AsyncFifo.accepted, AsyncFifo.pushes,
    AsyncFifo.pops, coreEvent, hreset]

theorem core_of_reset (hnext : (p.fifo.step e).ctrlSoftReset = true) :
    ∃ mem x, (p.fifo.step e).core = AsyncFifo.reset mem x := by
  have hset : (p.fifo.slaveNext e).ctrlSoftReset = true := hnext
  have hc : (p.fifo.step e).core = (p.fifo.core.step (p.fifo.coreEvent e)).asyncReset := if_pos hset
  exact ⟨_, _, hc⟩

/-- **The level over one event**, with any clocks and with soft resets. -/
theorem LevelInv.step (h : LevelInv p) : LevelInv (p.step e) := by
  cases hnext : (p.fifo.step e).ctrlSoftReset with
  | true =>
    have hzero : (p.step e).level = 0 := if_pos hnext
    obtain ⟨mem, x, hc⟩ := core_of_reset hnext
    refine ⟨by rw [hzero]; exact Nat.zero_le _, fun _ => hzero, [], 0, ?_, by rw [hzero]; rfl⟩
    rw [Leveled.step, hc]
    exact CoreInv.reset mem x
  | false =>
    have hlevel : (p.step e).level =
        p.level + (p.fifo.fifoAccepts e).length - (p.fifo.fifoReads e).toNat :=
      if_neg (by rw [hnext]; exact Bool.false_ne_true)
    have hlow : (p.step e).fifo.ctrlSoftReset = true → (p.step e).level = 0 := fun hset =>
      absurd (hnext.symm.trans hset) Bool.false_ne_true
    cases hreset : p.fifo.ctrlSoftReset with
    | true =>
      obtain ⟨hacc, hread⟩ := length_fifoAccepts_of_reset (e := e) hreset
      rw [hacc, hread, h.empty hreset] at hlevel
      obtain ⟨mem, x, hc⟩ := core_after_reset (e := e) hreset hnext
      refine ⟨by rw [hlevel]; exact Nat.zero_le _, hlow, [], 0, ?_, by rw [hlevel]; rfl⟩
      rw [Leveled.step, hc]
      exact CoreInv.reset mem x
    | false =>
      obtain ⟨ws, r, hcore, hlen⟩ := h.core
      have hrun : CoreInv.Running (p.fifo.coreEvent e) := by
        simp [CoreInv.Running, coreEvent, hreset]
      have hstep := hcore.step (p.fifo.coreEvent e) hrun
      have hread : p.fifo.fifoReads e = true → 0 < p.level := by
        intro hp
        simp only [PacketFifo.fifoReads, AsyncFifo.pops, RdDomain.rdAllow, coreEvent,
          Bool.and_eq_true] at hp
        exact h.room.1 hp.2.1
      have hcount : (ws ++ p.fifo.core.accepted (p.fifo.coreEvent e)).length =
          bump (p.fifo.core.pops (p.fifo.coreEvent e)) r + (p.step e).level := by
        rw [List.length_append, hlevel, hlen]
        unfold PacketFifo.fifoAccepts bump
        unfold PacketFifo.fifoReads at hread ⊢
        cases hp : p.fifo.core.pops (p.fifo.coreEvent e) with
        | false =>
          rw [if_neg Bool.false_ne_true, Bool.toNat_false]
          omega
        | true =>
          have := hread hp
          rw [if_pos rfl, Bool.toNat_true]
          omega
      refine ⟨?_, hlow, _, _, ?_, hcount⟩
      · have := hstep.wrSide.le_depth
        omega
      · have hno : NoReset p.fifo e := ⟨hreset, hnext⟩
        rw [Leveled.step, hno.core_step]
        exact hstep

/-! ## The counters -/

/-- **A counter that shows the level**, after its clock. -/
theorem toNat_occupancyNext (hdepth : P.depth < 2 ^ 16) {n : BitVec 16} (hn : n.toNat = p.level)
    (hle : p.level ≤ P.depth) : (p.fifo.occupancyNext e n).toNat =
      if p.fifo.ctrlSoftReset then 0
      else if p.fifo.fifoWrEn e && !p.fifo.fifoRdEn e then min (p.level + 1) P.depth
      else if !p.fifo.fifoWrEn e && p.fifo.fifoRdEn e then p.level - 1
      else p.level := by
  have hone : (1 : BitVec 16).toNat = 1 := rfl
  have hzero : 0 < n ↔ 0 < p.level := by rw [← hn, BitVec.lt_def]; rfl
  unfold occupancyNext
  rw [hn]
  split_ifs with h₁ h₂ h₃ h₄ h₅
  · rfl
  · rw [BitVec.toNat_add, hn, hone, Nat.mod_eq_of_lt (by omega)]
    omega
  · omega
  · have hpos := hzero.mp h₅
    have hle : (1 : BitVec 16) ≤ n := by
      rw [BitVec.le_def, hone, hn]
      exact hpos
    rw [BitVec.toNat_sub_of_le hle, hn, hone]
  · have := mt hzero.mpr h₅
    omega
  · exact hn

/-- **One event with one clock**: counters that show the level show it again iff the event counts
right. -/
theorem shows_step_iff (hdepth : P.depth < 2 ^ 16) (h : LevelInv p) (hs : Shows p)
    (hone : OneClock e) : Shows (p.step e) ↔ CountsRight p e := by
  have hwr : (p.step e).fifo.wrOccupancy = p.fifo.occupancyNext e p.fifo.wrOccupancy := by
    simp [Leveled.step, PacketFifo.step, hone.1]
  have hrd : (p.step e).fifo.rdOccupancy = p.fifo.occupancyNext e p.fifo.rdOccupancy := by
    simp [Leveled.step, PacketFifo.step, hone.2]
  have hboth : Shows (p.step e) ↔ (p.fifo.occupancyNext e p.fifo.wrOccupancy).toNat =
      (p.step e).level := by
    constructor
    · intro hnext
      rw [← hwr]
      exact hnext.wr
    · intro heq
      refine ⟨by rw [hwr, heq], ?_⟩
      rw [hrd, toNat_occupancyNext hdepth hs.rd h.le_depth, ← heq,
        toNat_occupancyNext hdepth hs.wr h.le_depth]
  rw [hboth, toNat_occupancyNext hdepth hs.wr h.le_depth]
  unfold CountsRight
  have hraise : (p.fifo.step e).ctrlSoftReset = p.fifo.raisesReset e := by
    rw [ctrlSoftReset_step, hone.2]
    rfl
  cases hreset : p.fifo.ctrlSoftReset with
  | true =>
    -- the counters are cleared, and the core is empty
    obtain ⟨hacc, hread⟩ := length_fifoAccepts_of_reset (e := e) hreset
    simp [Leveled.step, hacc, hread, h.empty hreset]
  | false =>
    obtain ⟨hread, hwrite⟩ := h.room (e := e)
    have hle := h.le_depth
    have hpos := depth_pos (P := P)
    cases hr : p.fifo.raisesReset e with
    | true =>
      -- the core is emptied, and the counters count on
      have hzero : (p.step e).level = 0 := if_pos (hraise.trans hr)
      rw [hzero]
      cases hw : p.fifo.fifoWrEn e <;> cases hrd : p.fifo.fifoRdEn e <;>
        simp [hrd] at hread ⊢ <;> omega
    | false =>
      have hlevel : (p.step e).level = p.level + (p.fifo.fifoWrEn e && !p.fifo.wrFull).toNat -
          (p.fifo.fifoRdEn e).toNat := by
        rw [← length_fifoAccepts hreset hone, ← fifoReads_eq hreset hone]
        exact if_neg (by rw [hraise, hr]; exact Bool.false_ne_true)
      rw [hlevel]
      -- a request that is refused is counted, unless the counter stands at its bound
      cases hw : p.fifo.fifoWrEn e <;> cases hrd : p.fifo.fifoRdEn e <;>
        cases hf : p.fifo.wrFull <;> simp [hrd, hf] at hread hwrite ⊢ <;> omega

/-- **When the occupancy is exact.** With `wr_clk = aclk` and `FIFO_DEPTH < 2 ^ 16`, in every run from
reset with any traffic and soft resets: in every state both occupancy counters are the number of words
written into the core minus the number read from it, and the threshold flags compare that number, iff
every write requested while `wr_full = 1` out of soft reset finds `FIFO_DEPTH` words in the core and no
read requested with it, and every soft reset is raised without a write request over a core with no word
but the one being read. In every state that number is the distance of the core's pointers. -/
theorem occupancy_exact_iff (hdepth : P.depth < 2 ^ 16) (mem : BitVec P.addrWidth → Payload)
    (x : Payload) (es : List (FifoEvent P)) (hone : ∀ e ∈ es, OneClock e) :
    ((∀ es', es' <+: es → Exact (run step (reset mem x) es')) ↔
        Along step CountsRight (reset mem x) es) ∧
      ∀ es', es' <+: es →
        let p := run step (reset mem x) es'
        (p.fifo.core.wr.wrBinPtr - p.fifo.core.rd.rdBinPtr).toNat = p.level := by
  have hinv : ∀ es', LevelInv (run step (reset mem x) es') := fun es' =>
    (along_true step (reset mem x) es').invariant LevelInv (fun _ _ hs _ => hs.step)
      (LevelInv.reset mem x)
  have hclk : ∀ es' e, es' ++ [e] <+: es → OneClock e := by
    rintro es' e ⟨fs, rfl⟩
    exact hone e (by simp)
  refine ⟨⟨fun h => ?_, fun h es' hp => ?_⟩, fun es' _ => ?_⟩
  · refine along_iff_forall_isPrefix.mpr fun es' e hp => ?_
    have hnow := exact_iff_shows.mp (h es' ((List.prefix_append _ _).trans hp))
    have hnext := exact_iff_shows.mp (h _ hp)
    rw [run_snoc] at hnext
    exact (shows_step_iff hdepth (hinv es') hnow (hclk es' e hp)).mp hnext
  · rw [exact_iff_shows]
    have hrun := (h.of_isPrefix hp).and (along_of_forall _ fun e he => hone e (hp.subset he))
    refine (hrun.invariant (fun p => LevelInv p ∧ Shows p) ?_ ⟨LevelInv.reset mem x, rfl, rfl⟩).2
    intro p e hs he
    exact ⟨hs.1.step, (shows_step_iff hdepth hs.1 hs.2 he.2).mpr he.1⟩
  · intro p
    obtain ⟨ws, r, hcore, hlen⟩ := (hinv es').core
    have hle : p.level < 2 ^ P.ptrWidth := by
      have h₁ : p.level ≤ P.depth := (hinv es').le_depth
      have h₂ := depth_pos (P := P)
      have h₃ := two_pow_ptrWidth (P := P)
      omega
    rw [hcore.wrSide.bin, hcore.rdSide.bin, hlen, BitVec.ofNat_add, BitVec.add_comm,
      BitVec.add_sub_cancel, BitVec.toNat_ofNat]
    exact Nat.mod_eq_of_lt hle

/-- A cycle of the common clock with `w` offered on `s_axis` or not. -/
def cycle (w : Payload) (tvalid tready : Bool) : FifoEvent P :=
  { FifoEvent.push w with aclk := true, sAxisTvalid := tvalid, mAxisTready := tready }

/-- The smallest FIFO is filled and drained, and the soft reset is raised. -/
theorem occupancy_exact_fill :
    let w : Payload := ⟨true, 0b1111, 0x2A⟩
    let s₀ : Leveled .smallest := reset (fun _ => .zero) .zero
    let es : List (FifoEvent .smallest) :=
      List.replicate 4 (cycle w true false) ++ List.replicate 8 (cycle w false true) ++
        List.replicate 3 { cycle w false true with axi := .write FifoReg.ctrl 0b111 }
    (∀ es', es' <+: es → Exact (run step s₀ es')) ∧ (run step s₀ (es.take 4)).level = 4 ∧
      (run step s₀ (es.take 13)).fifo.ctrlSoftReset = true := by
  intro w s₀ es
  refine ⟨?_, by decide +kernel, by decide +kernel⟩
  exact (occupancy_exact_iff (by decide) (fun _ => .zero) .zero es (by decide)).1.mpr
    (by decide +kernel)

/-- In the soft-reset cycle the core is empty, and the counters show the words it held. -/
example :
    let w : Payload := ⟨true, 0b1111, 0x2A⟩
    let p : Leveled .smallest := run step (reset (fun _ => .zero) .zero)
      (List.replicate 3 (cycle w true false) ++
        [{ cycle w false false with axi := .write FifoReg.ctrl 0b111 }])
    p.fifo.ctrlSoftReset = true ∧ p.fifo.rdEmpty = true ∧ p.level = 0 ∧ p.fifo.rdOccupancy = 3 := by
  decide +kernel

/-- **The occupancy drifts.** A producer offers words on `s_axis` and waits. The fifth one finds the
FIFO full, in the cycle in which the fetch machine reads its first word: the level falls to three, and
the counters stay at four. -/
theorem occupancy_drifts :
    let s₀ : Leveled .smallest := reset (fun _ => .zero) .zero
    let es : List (FifoEvent .smallest) := List.replicate 5 (cycle ⟨true, 0b1111, 0x2A⟩ true false)
    (∀ e ∈ es, OneClock e) ∧ (run step s₀ es).level = 3 ∧
      (run step s₀ es).fifo.rdOccupancy = 4 ∧ (run step s₀ es).fifo.wrOccupancy = 4 ∧
      ¬ Exact (run step s₀ es) := by
  intro s₀ es
  have hlevel : (run step s₀ es).level = 3 := by decide +kernel
  have hwr : (run step s₀ es).fifo.wrOccupancy = 4 := by decide +kernel
  refine ⟨by decide, hlevel, by decide +kernel, hwr, fun hexact => ?_⟩
  have h := hexact.wr
  rw [hwr, hlevel] at h
  exact absurd h (by decide)

end Leveled

end PacketBuffering
