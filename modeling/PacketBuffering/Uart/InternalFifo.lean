import Mathlib.Data.BitVec
import Mathlib.Data.List.Rotate
import PacketBuffering.Lib.Lanes
import PacketBuffering.Lib.Run

/-!
# The FIFOs of the UART

`axi_internal_fifo`: a ring of words with a valid bit each. A push into a full FIFO without a pull stores
nothing, but moves both pointers on.

* `InternalFifo`, `InternalFifo.clock`: the FIFO.
* `queueStep`: what a cycle does to the words held, oldest first.
* `RingHolds`: the ring holds these words; `InternalFifo.holds_clock`: a cycle follows `queueStep`.
* **`internalFifo_law`**: in every run the outputs are those of the queue; a push into the full FIFO turns
  it by one, and in runs without one it is a plain queue.
-/

namespace PacketBuffering

variable {a d : ℕ}

/-! ## The FIFO -/

/-- The inputs of a cycle; `d` is `DATA_SIZE`. -/
structure FifoIn (d : ℕ) where
  rst : Bool
  push : Bool
  pull : Bool
  data : BitVec d

/-- The registers of `axi_internal_fifo`; `a` is `INDEX_LENGTH`, and there are `2 ^ a` words. -/
structure InternalFifo (a d : ℕ) where
  space : BitVec (a + 1)
  head : BitVec a
  tail : BitVec a
  valid : BitVec a → Bool
  available : BitVec (a + 1)
  fifo : BitVec a → BitVec d
  availableWriteSpace : Bool

namespace InternalFifo

/-- `FIFO_THRESHOLD`. -/
def fifoThreshold : ℕ := 90

/-- The registers after `arstn_i`; the words have none. -/
def reset (fifo : BitVec a → BitVec d) : InternalFifo a d where
  space := BitVec.ofNat (a + 1) (2 ^ a)
  head := 0
  tail := 0
  valid := fun _ => false
  available := 0
  fifo := fifo
  availableWriteSpace := true

variable (s : InternalFifo a d) (i : FifoIn d)

/-- The pointers, the counts and the valid bits after a cycle without reset. -/
def next : InternalFifo a d :=
  match i.push, i.pull with
  | false, false => s
  | false, true =>
    if s.valid s.head then
      { s with
        head := s.head + 1
        available := s.available - 1
        space := s.space + 1
        valid := Function.update s.valid s.head false }
    else s
  | true, false =>
    if s.valid s.tail then { s with head := s.head + 1, tail := s.tail + 1 }
    else
      { s with
        tail := s.tail + 1
        available := s.available + 1
        space := s.space - 1
        valid := Function.update s.valid s.tail true }
  | true, true =>
    match s.valid s.tail, s.valid s.head with
    | false, false =>
      { s with
        tail := s.tail + 1
        available := s.available + 1
        space := s.space - 1
        valid := Function.update s.valid s.tail true }
    | false, true =>
      { s with
        head := s.head + 1
        tail := s.tail + 1
        valid := Function.update (Function.update s.valid s.head false) s.tail true }
    | true, false =>
      { s with head := 0, tail := 0, available := 0, space := BitVec.ofNat (a + 1) (2 ^ a) }
    | true, true => { s with head := s.head + 1, tail := s.tail + 1 }

/-- The words after a cycle. -/
def fifoNext : BitVec a → BitVec d :=
  if i.push && (i.pull || !s.valid s.tail) then Function.update s.fifo s.tail i.data else s.fifo

/-- A rising `clk_i`. -/
def clock : InternalFifo a d where
  space := if i.rst then BitVec.ofNat (a + 1) (2 ^ a) else (s.next i).space
  head := if i.rst then 0 else (s.next i).head
  tail := if i.rst then 0 else (s.next i).tail
  valid := if i.rst then fun _ => false else (s.next i).valid
  available := if i.rst then 0 else (s.next i).available
  fifo := s.fifoNext i
  availableWriteSpace :=
    if i.rst then true else decide (s.space ≥ BitVec.ofNat (a + 1) fifoThreshold)

/-- `data_o`. -/
def dataO : BitVec d := if s.valid s.head then s.fifo s.head else 0

/-- `load` of `status_o`. -/
def load : Bool := s.valid s.head

/-- `full` of `status_o`. -/
def full : Bool := s.available.getLsbD a

end InternalFifo

/-! ## The queue -/

/-- **What a cycle does to the words held**, oldest first; `n` is the size of the FIFO. -/
def queueStep (n : ℕ) (q : List (BitVec d)) (i : FifoIn d) : List (BitVec d) :=
  if i.rst then []
  else match i.push, i.pull with
    | false, false => q
    | false, true => q.tail
    | true, false => if q.length = n then q.rotate 1 else q ++ [i.data]
    | true, true => q.tail ++ [i.data]

/-- The ring holds the words of `q`, from `head` on. -/
structure RingHolds (s : InternalFifo a d) (q : List (BitVec d)) : Prop where
  le : q.length ≤ 2 ^ a
  space : s.space = BitVec.ofNat (a + 1) (2 ^ a - q.length)
  available : s.available = BitVec.ofNat (a + 1) q.length
  tail : s.tail = s.head + BitVec.ofNat a q.length
  valid : ∀ k < 2 ^ a, s.valid (s.head + BitVec.ofNat a k) = decide (k < q.length)
  fifo : ∀ k, (hk : k < q.length) → s.fifo (s.head + BitVec.ofNat a k) = q[k]

namespace InternalFifo

variable {s s' : InternalFifo a d} {q : List (BitVec d)} {x : BitVec d}

/-- The oldest word leaves. -/
def popped (s : InternalFifo a d) : InternalFifo a d :=
  { s with
    head := s.head + 1
    available := s.available - 1
    space := s.space + 1
    valid := Function.update s.valid s.head false }

/-- A word enters. -/
def pushed (s : InternalFifo a d) (x : BitVec d) : InternalFifo a d :=
  { s with
    tail := s.tail + 1
    available := s.available + 1
    space := s.space - 1
    valid := Function.update s.valid s.tail true
    fifo := Function.update s.fifo s.tail x }

theorem add_ofNat_succ (x : BitVec a) (k : ℕ) : x + 1 + BitVec.ofNat a k = x + BitVec.ofNat a (k + 1) := by
  rw [BitVec.add_assoc, show (1 : BitVec a) = BitVec.ofNat a 1 from rfl, BitVec.ofNat_add_ofNat, Nat.add_comm]

theorem slot_inj (x : BitVec a) {j k : ℕ} (hj : j < 2 ^ a) (hk : k < 2 ^ a) :
    x + BitVec.ofNat a j = x + BitVec.ofNat a k ↔ j = k :=
  ⟨add_ofNat_inj hj hk, fun h => by rw [h]⟩

theorem slot_zero (x : BitVec a) : x + BitVec.ofNat a 0 = x := by simp

theorem slot_full (x : BitVec a) : x + BitVec.ofNat a (2 ^ a) = x := by
  have hzero : BitVec.ofNat a (2 ^ a) = 0 := by
    apply BitVec.eq_of_toNat_eq
    rw [BitVec.toNat_ofNat, Nat.mod_self, BitVec.ofNat_eq_ofNat, BitVec.toNat_ofNat, Nat.zero_mod]
  rw [hzero]
  simp

theorem valid_head (h : RingHolds s q) : s.valid s.head = decide (0 < q.length) := by
  have hslot := h.valid 0 (Nat.two_pow_pos a)
  rwa [slot_zero] at hslot

theorem valid_tail (h : RingHolds s q) : s.valid s.tail = decide (q.length = 2 ^ a) := by
  rw [h.tail]
  rcases h.le.lt_or_eq with hlt | heq
  · rw [h.valid _ hlt, decide_eq_false (lt_irrefl _), decide_eq_false hlt.ne]
  · rw [heq, slot_full, valid_head h, heq, decide_eq_true rfl, decide_eq_true (Nat.two_pow_pos a)]

/-- **The oldest word leaves.** -/
theorem holds_popped (h : RingHolds s (x :: q)) : RingHolds s.popped q := by
  have hle : q.length + 1 ≤ 2 ^ a := h.le
  refine ⟨by omega, ?_, ?_, ?_, fun k hk => ?_, fun k hk => ?_⟩
  · show s.space + 1 = _
    rw [h.space, List.length_cons, show (1 : BitVec (a + 1)) = BitVec.ofNat (a + 1) 1 from rfl,
      BitVec.ofNat_add_ofNat]
    congr 1
    omega
  · show s.available - 1 = _
    rw [h.available, List.length_cons, ← BitVec.ofNat_add_ofNat]
    exact BitVec.add_sub_cancel _ _
  · show s.tail = s.head + 1 + _
    rw [h.tail, add_ofNat_succ]
    rfl
  · show Function.update s.valid s.head false (s.head + 1 + _) = _
    rw [add_ofNat_succ]
    rcases Nat.lt_or_eq_of_le (Nat.succ_le_of_lt hk) with hlt | heq
    · have hne : s.head + BitVec.ofNat a (k + 1) ≠ s.head := by
        intro hslot
        have := (slot_inj s.head hlt (Nat.two_pow_pos a)).mp (hslot.trans (slot_zero _).symm)
        omega
      rw [Function.update_of_ne hne, h.valid _ hlt, List.length_cons]
      simp
    · rw [show k + 1 = 2 ^ a from heq, slot_full, Function.update_self, decide_eq_false (by omega)]
  · show s.fifo (s.head + 1 + _) = _
    rw [add_ofNat_succ, h.fifo (k + 1) (by rw [List.length_cons]; omega)]
    rfl

/-- **A word enters** while there is room. -/
theorem holds_pushed (h : RingHolds s q) (hlt : q.length < 2 ^ a) (x : BitVec d) :
    RingHolds (s.pushed x) (q ++ [x]) := by
  have hlen : (q ++ [x]).length = q.length + 1 := by simp
  have hne : ∀ k < 2 ^ a, k ≠ q.length → s.head + BitVec.ofNat a k ≠ s.tail := by
    intro k hk hkq hslot
    rw [h.tail, slot_inj _ hk hlt] at hslot
    exact hkq hslot
  refine ⟨by rw [hlen]; omega, ?_, ?_, ?_, fun k hk => ?_, fun k hk => ?_⟩
  · show s.space - 1 = _
    rw [h.space, hlen, show 2 ^ a - q.length = 2 ^ a - (q.length + 1) + 1 by omega, ← BitVec.ofNat_add_ofNat]
    exact BitVec.add_sub_cancel _ _
  · show s.available + 1 = _
    rw [h.available, hlen, ← BitVec.ofNat_add_ofNat]
    rfl
  · show s.tail + 1 = s.head + _
    rw [h.tail, hlen, ← BitVec.ofNat_add_ofNat, BitVec.add_assoc]
    rfl
  · show Function.update s.valid s.tail true (s.head + _) = _
    by_cases hkq : k = q.length
    · rw [hkq, ← h.tail, Function.update_self, hlen, decide_eq_true (by omega)]
    · rw [Function.update_of_ne (hne k hk hkq), h.valid k hk, hlen]
      exact decide_eq_decide.mpr (by omega)
  · show Function.update s.fifo s.tail x (s.head + _) = _
    by_cases hkq : k = q.length
    · subst hkq
      rw [← h.tail, Function.update_self]
      simp
    · have hk' : k < q.length := by
        rw [hlen] at hk
        omega
      rw [Function.update_of_ne (hne k (by omega) hkq), h.fifo k hk', List.getElem_append_left]

theorem holds_congr (h : RingHolds s q) (hspace : s'.space = s.space) (havailable : s'.available = s.available)
    (hhead : s'.head = s.head) (htail : s'.tail = s.tail) (hvalid : s'.valid = s.valid)
    (hfifo : s'.fifo = s.fifo) : RingHolds s' q where
  le := h.le
  space := hspace.trans h.space
  available := havailable.trans h.available
  tail := by rw [htail, hhead, h.tail]
  valid := fun k hk => by rw [hvalid, hhead, h.valid k hk]
  fifo := fun k hk => by rw [hfifo, hhead, h.fifo k hk]

theorem holds_reset (fifo : BitVec a → BitVec d) : RingHolds (reset fifo) [] := by
  refine ⟨Nat.zero_le _, rfl, rfl, ?_, fun k hk => rfl, fun k hk => absurd hk (Nat.not_lt_zero k)⟩
  exact (slot_zero 0).symm

/-- A full ring, of which the oldest word leaves and another one enters, keeps its valid bits. -/
theorem update_full (h : RingHolds s q) (hfull : q.length = 2 ^ a) :
    Function.update (Function.update s.valid s.head false) s.tail true = s.valid := by
  have htail : s.tail = s.head := by rw [h.tail, hfull, slot_full]
  have hvalid : s.valid s.head = true := by
    rw [valid_head h, hfull, decide_eq_true (Nat.two_pow_pos a)]
  rw [htail, Function.update_idem, ← hvalid, Function.update_eq_self]

/-- **A cycle** does to the ring what `queueStep` does to the queue. -/
theorem holds_clock (h : RingHolds s q) (i : FifoIn d) : RingHolds (s.clock i) (queueStep (2 ^ a) q i) := by
  obtain ⟨rst, push, pull, data⟩ := i
  cases rst with
  | true =>
    refine ⟨Nat.zero_le _, rfl, rfl, (slot_zero 0).symm, fun k hk => rfl, fun k hk => ?_⟩
    exact absurd hk (Nat.not_lt_zero k)
  | false =>
    have hhead := valid_head h
    have htail := valid_tail h
    have hpos := Nat.two_pow_pos a
    cases push <;> cases pull
    · -- neither
      exact holds_congr h rfl rfl rfl rfl rfl rfl
    · -- pull
      cases q with
      | nil =>
        have hnot : s.valid s.head = false := hhead
        refine holds_congr h ?_ ?_ ?_ ?_ ?_ rfl <;> simp [clock, next, hnot]
      | cons x q =>
        have hyes : s.valid s.head = true := hhead
        refine holds_congr (holds_popped h) ?_ ?_ ?_ ?_ ?_ rfl <;> simp [clock, next, hyes, popped]
    · -- push
      show RingHolds _ (if q.length = 2 ^ a then q.rotate 1 else q ++ [data])
      split_ifs with hfull
      · -- into a full ring: the oldest word is in the slot that becomes the last one
        have hyes : s.valid s.tail = true := by rw [htail, decide_eq_true hfull]
        obtain ⟨x, q, rfl⟩ := List.exists_cons_of_ne_nil (List.ne_nil_of_length_pos (hfull ▸ hpos))
        have hturn := holds_pushed (holds_popped h) (by rw [List.length_cons] at hfull; omega) x
        have hword : Function.update s.fifo s.tail x = s.fifo := by
          have hx := h.fifo 0 (by simp)
          rw [slot_zero, List.getElem_cons_zero] at hx
          rw [h.tail, hfull, slot_full, ← hx, Function.update_eq_self]
        rw [List.rotate_cons_succ, List.rotate_zero]
        refine holds_congr hturn ?_ ?_ ?_ ?_ ?_ ?_
        · simp [clock, next, hyes, popped, pushed]
        · simp [clock, next, hyes, popped, pushed]
        · simp [clock, next, hyes, popped, pushed]
        · simp [clock, next, hyes, popped, pushed]
        · simpa [clock, next, hyes, popped, pushed] using (update_full h hfull).symm
        · simpa [clock, fifoNext, hyes, popped, pushed] using hword.symm
      · have hnot : s.valid s.tail = false := by rw [htail, decide_eq_false hfull]
        refine holds_congr (holds_pushed h (lt_of_le_of_ne h.le hfull) data) ?_ ?_ ?_ ?_ ?_ ?_ <;>
          simp [clock, next, fifoNext, hnot, pushed]
    · -- both
      show RingHolds _ (q.tail ++ [data])
      cases q with
      | nil =>
        have hnot : s.valid s.head = false := hhead
        have hnot' : s.valid s.tail = false := by
          rw [htail, decide_eq_false]
          exact hpos.ne
        refine holds_congr (holds_pushed h hpos data) ?_ ?_ ?_ ?_ ?_ ?_ <;>
          simp [clock, next, fifoNext, hnot, hnot', pushed]
      | cons x q =>
        have hyes : s.valid s.head = true := hhead
        have hturn := holds_pushed (holds_popped h) (by have := h.le; rw [List.length_cons] at this; omega) data
        by_cases hfull : (x :: q).length = 2 ^ a
        · have hyes' : s.valid s.tail = true := by rw [htail, decide_eq_true hfull]
          refine holds_congr hturn ?_ ?_ ?_ ?_ ?_ ?_
          · simp [clock, next, hyes, hyes', popped, pushed]
          · simp [clock, next, hyes, hyes', popped, pushed]
          · simp [clock, next, hyes, hyes', popped, pushed]
          · simp [clock, next, hyes, hyes', popped, pushed]
          · simpa [clock, next, hyes, hyes', popped, pushed] using (update_full h hfull).symm
          · simp [clock, fifoNext, popped, pushed]
        · have hnot' : s.valid s.tail = false := by rw [htail, decide_eq_false hfull]
          refine holds_congr hturn ?_ ?_ ?_ ?_ ?_ ?_ <;>
            simp [clock, next, fifoNext, hyes, hnot', popped, pushed]

theorem holds_run (fifo : BitVec a → BitVec d) (is : List (FifoIn d)) :
    RingHolds (run clock (reset fifo) is) (run (queueStep (2 ^ a)) [] is) := by
  have hrun : ∀ (is : List (FifoIn d)) (s : InternalFifo a d) (q : List (BitVec d)), RingHolds s q →
      RingHolds (run clock s is) (run (queueStep (2 ^ a)) q is) := by
    intro is
    induction is with
    | nil => exact fun s q h => h
    | cons i is ih => exact fun s q h => ih _ _ (holds_clock h i)
  exact hrun is _ _ (holds_reset fifo)

theorem dataO_eq (h : RingHolds s q) : s.dataO = q.headD 0 := by
  rw [dataO, valid_head h]
  cases q with
  | nil => rfl
  | cons x q =>
    have hx := h.fifo 0 (by simp)
    rw [slot_zero] at hx
    simpa using hx

theorem load_eq (h : RingHolds s q) : s.load = !q.isEmpty := by
  rw [load, valid_head h]
  cases q <;> simp

theorem full_eq (h : RingHolds s q) : s.full = decide (q.length = 2 ^ a) := by
  have hle := h.le
  have hlt : q.length < 2 ^ (a + 1) := by
    rw [pow_succ]
    have := Nat.two_pow_pos a
    omega
  rw [full, h.available, BitVec.getLsbD_ofNat, decide_eq_true (Nat.lt_succ_self a), Bool.true_and]
  rcases hle.lt_or_eq with hlt | heq
  · rw [Nat.testBit_lt_two_pow hlt, decide_eq_false hlt.ne]
  · rw [heq, Nat.testBit_two_pow_self, decide_eq_true rfl]

theorem space_eq (h : RingHolds s q) : s.space.toNat = 2 ^ a - q.length := by
  rw [h.space, BitVec.toNat_ofNat]
  apply Nat.mod_eq_of_lt
  rw [pow_succ]
  have := Nat.two_pow_pos a
  omega

end InternalFifo

open InternalFifo in
/-- **The FIFOs of the UART**, in every run from reset, whatever their memory holds at first: `data_o` is the
oldest word of the queue or zero, and `load`, `full` and `space` say how long the queue is. The queue gets
every word that is pushed with a pull or into room; a word pushed into the full FIFO without a pull is
lost, and turns the queue by one instead. -/
theorem internalFifo_law (fifo : BitVec a → BitVec d) (is : List (FifoIn d)) :
    let s := run clock (reset fifo) is
    let q := run (queueStep (2 ^ a)) [] is
    s.dataO = q.headD 0 ∧ s.load = !q.isEmpty ∧ s.full = decide (q.length = 2 ^ a) ∧
      s.space.toNat = 2 ^ a - q.length :=
  have h := holds_run fifo is
  ⟨dataO_eq h, load_eq h, full_eq h, space_eq h⟩

/-- A word pushed into the full FIFO is not there afterwards, and the oldest one is the newest. -/
example : run (queueStep 2) [] [⟨false, true, false, 1⟩, ⟨false, true, false, 2⟩, ⟨false, true, false, 3#8⟩] =
    [2, 1] := by
  decide

end PacketBuffering
