import PacketBuffering.Lib.Run
import PacketBuffering.Lib.Turn
import PacketBuffering.Net.Encoder

/-!
# The arbiter

`arbiter.v`, for every number of ports and every setting of its parameters. Vectors of `PORTS` bits are
functions of which the values from `PORTS` on are not used.

* `Arbiter`, **`Arbiter.clock`**: the registers and a rising edge of `clk`.
* `ArbiterInv`: the invariant; `Arbiter.Cycle`: a cycle holds the grant, drops it or decides anew.
* **`arbiter_law`**: only who asks is granted, and keeps the grant until it is given back.
* `Arbiter.decisions_rotation`, **`arbiter_round_robin`**: no port is passed over.
-/

namespace PacketBuffering

/-- The parameters of `arbiter`. -/
structure ArbiterParams where
  ports : ℕ
  roundRobin : Bool
  block : Bool
  blockAck : Bool
  lsbHighPriority : Bool

/-- The registers of `arbiter`. -/
@[ext] structure Arbiter where
  grant : ℕ → Bool
  grantValid : Bool
  grantEncoded : ℕ
  mask : ℕ → Bool

/-- The inputs of `arbiter`. -/
structure ArbiterIn where
  rst : Bool
  request : ℕ → Bool
  acknowledge : ℕ → Bool

/-- A vector of `n` bits that is not zero. -/
def anyBit (n : ℕ) (v : ℕ → Bool) : Bool := (List.range n).any v

theorem anyBit_iff {n : ℕ} {v : ℕ → Bool} : anyBit n v = true ↔ ∃ k < n, v k = true := by
  rw [anyBit, List.any_eq_true]
  exact exists_congr fun k => and_congr_left fun _ => List.mem_range

namespace Arbiter

variable (A : ArbiterParams)

/-- The registers after configuration and after `rst`. -/
def reset : Arbiter := ⟨fun _ => false, false, 0, fun _ => false⟩

/-- `priority_encoder_inst` and `priority_encoder_masked` -/
def encoder : PriorityEncoder := ⟨A.ports, A.lsbHighPriority⟩

variable (s : Arbiter) (i : ArbiterIn)

/-- `request_valid` -/
def requestValid : Bool := (encoder A).outputValid i.request

/-- `request_index` -/
def requestIndex : ℕ := (encoder A).outputEncoded i.request

/-- `request & mask_reg` -/
def maskedRequest (k : ℕ) : Bool := i.request k && s.mask k

/-- `masked_request_valid` -/
def maskedRequestValid : Bool := (encoder A).outputValid (s.maskedRequest i)

/-- `masked_request_index` -/
def maskedRequestIndex : ℕ := (encoder A).outputEncoded (s.maskedRequest i)

/-- The granted request is still asserted, or not yet acknowledged. -/
def holds : Bool :=
  A.block && !A.blockAck && anyBit A.ports (fun k => s.grant k && i.request k) ||
    A.block && A.blockAck && s.grantValid && !anyBit A.ports (fun k => s.grant k && i.acknowledge k)

/-- The mask behind the port `q`. -/
def maskAfter (q k : ℕ) : Bool :=
  if A.lsbHighPriority then decide (k < A.ports ∧ q + 1 ≤ k) else decide (k + (A.ports - q) < A.ports)

/-- The grant of the port `q`. -/
def granting (input : ℕ → Bool) (mask : ℕ → Bool) : Arbiter where
  grant := (encoder A).outputUnencoded input
  grantValid := true
  grantEncoded := (encoder A).outputEncoded input
  mask := mask

/-- **A rising edge of `clk`.** -/
def clock : Arbiter :=
  if i.rst then reset
  else if s.holds A i then s
  else if requestValid A i then
    if A.roundRobin then
      if s.maskedRequestValid A i then
        granting A (s.maskedRequest i) (maskAfter A (s.maskedRequestIndex A i))
      else granting A i.request (maskAfter A (requestIndex A i))
    else granting A i.request s.mask
  else ⟨fun _ => false, false, 0, s.mask⟩

/-- The port that is chosen. -/
def choice : ℕ :=
  if A.roundRobin && s.maskedRequestValid A i then s.maskedRequestIndex A i else requestIndex A i

/-- The port granted anew. -/
def decisions : List ℕ :=
  if !i.rst && !s.holds A i && requestValid A i then [s.choice A i] else []

end Arbiter

/-! ## The invariant -/

/-- **The invariant**: the grant names one port, and the mask is set from some place on. -/
structure ArbiterInv (A : ArbiterParams) (s : Arbiter) : Prop where
  lt : s.grantValid = true → s.grantEncoded < A.ports
  grant : ∀ k, s.grant k = true ↔ s.grantValid = true ∧ k = s.grantEncoded

/-- The mask passes the ports behind `m`, for `m` between 0 and `PORTS`. -/
structure MaskFrom (A : ArbiterParams) (s : Arbiter) (m : ℕ) : Prop where
  le : m ≤ A.ports
  mask : ∀ k < A.ports, s.mask k = if A.lsbHighPriority then decide (m ≤ k)
    else decide (k < m)

namespace Arbiter

variable {A : ArbiterParams} {s : Arbiter} {i : ArbiterIn}

/-- **What a cycle of the arbiter can be.** -/
inductive Cycle (A : ArbiterParams) (s : Arbiter) (i : ArbiterIn) : Prop
  | hold (hold : s.holds A i = true) (hdec : s.decisions A i = []) (hclock : s.clock A i = s)
  | drop (hreq : ∀ k < A.ports, i.request k = false) (hdec : s.decisions A i = [])
      (hclock : s.clock A i = ⟨fun _ => false, false, 0, s.mask⟩)
  | grant (hfree : s.holds A i = false) (hlt : s.choice A i < A.ports)
      (hreq : i.request (s.choice A i) = true) (hdec : s.decisions A i = [s.choice A i])
      (hclock : s.clock A i = ⟨fun k => decide (k < A.ports) && k == s.choice A i, true,
        s.choice A i, if A.roundRobin then maskAfter A (s.choice A i) else s.mask⟩)

theorem requestValid_iff : requestValid A i = true ↔ ∃ k < A.ports, i.request k = true :=
  PriorityEncoder.outputValid_iff

theorem requestIndex_first (h : requestValid A i = true) :
    PriorityEncoder.First A.lsbHighPriority A.ports i.request (requestIndex A i) :=
  PriorityEncoder.outputEncoded_first h

theorem maskedRequestIndex_first (h : s.maskedRequestValid A i = true) :
    PriorityEncoder.First A.lsbHighPriority A.ports (s.maskedRequest i) (s.maskedRequestIndex A i) :=
  PriorityEncoder.outputEncoded_first h

theorem choice_request (h : requestValid A i = true) :
    s.choice A i < A.ports ∧ i.request (s.choice A i) = true := by
  unfold choice
  split_ifs with hm
  · obtain ⟨hlt, hset, -⟩ := maskedRequestIndex_first (Bool.and_eq_true _ _ ▸ hm).2
    rw [maskedRequest, Bool.and_eq_true] at hset
    exact ⟨hlt, hset.1⟩
  · obtain ⟨hlt, hset, -⟩ := requestIndex_first h
    exact ⟨hlt, hset⟩

theorem cycle (hrst : i.rst = false) : Cycle A s i := by
  by_cases hold : s.holds A i = true
  · exact .hold hold (by simp [decisions, hold]) (by simp [Arbiter.clock, hrst, hold])
  have hfree : s.holds A i = false := Bool.eq_false_iff.mpr hold
  by_cases hreq : requestValid A i = true
  · obtain ⟨hlt, hset⟩ := choice_request (s := s) hreq
    refine .grant hfree hlt hset (by simp [decisions, hrst, hfree, hreq]) ?_
    unfold Arbiter.clock choice
    rw [hrst, hfree, hreq]
    cases A.roundRobin <;> cases s.maskedRequestValid A i <;> rfl
  · refine .drop (fun k hk => ?_) (by simp [decisions, hreq]) (by simp [Arbiter.clock, hrst, hfree, hreq])
    by_contra hset
    exact hreq (requestValid_iff.mpr ⟨k, hk, by simpa using hset⟩)

theorem inv_reset : ArbiterInv A reset :=
  ⟨fun h => Bool.noConfusion h, fun _ => ⟨fun h => Bool.noConfusion h, fun h => Bool.noConfusion h.1⟩⟩

theorem inv_clock (h : ArbiterInv A s) (i : ArbiterIn) : ArbiterInv A (s.clock A i) := by
  cases hrst : i.rst with
  | true =>
    rw [Arbiter.clock, hrst, if_pos rfl]
    exact inv_reset
  | false =>
    cases cycle (A := A) (s := s) hrst with
    | hold _ _ hclock => rwa [hclock]
    | drop _ _ hclock =>
      rw [hclock]
      exact ⟨fun h => Bool.noConfusion h, fun _ => ⟨fun h => Bool.noConfusion h, fun h => Bool.noConfusion h.1⟩⟩
    | grant _ hlt _ _ hclock =>
      rw [hclock]
      refine ⟨fun _ => hlt, fun k => ?_⟩
      rw [Bool.and_eq_true, decide_eq_true_iff, beq_iff_eq]
      constructor
      · exact fun h => ⟨rfl, h.2⟩
      · rintro ⟨-, rfl⟩
        exact ⟨hlt, rfl⟩

theorem holds_of_blockAck (h : ArbiterInv A s) (hb : A.block = true) (ha : A.blockAck = true)
    (hv : s.grantValid = true) : s.holds A i = !i.acknowledge s.grantEncoded := by
  have hany : anyBit A.ports (fun k => s.grant k && i.acknowledge k) = i.acknowledge s.grantEncoded := by
    rw [Bool.eq_iff_iff, anyBit_iff]
    constructor
    · rintro ⟨k, -, hk⟩
      rw [Bool.and_eq_true] at hk
      rw [← ((h.grant k).mp hk.1).2]
      exact hk.2
    · intro hack
      exact ⟨_, h.lt hv, by rw [(h.grant _).mpr ⟨hv, rfl⟩, hack]; rfl⟩
  simp [holds, hb, ha, hv, hany]

/-- **Who is granted has asked.** -/
theorem request_of_mem_decisions : ∀ q ∈ s.decisions A i, q < A.ports ∧ i.request q = true := by
  intro q hq
  unfold decisions at hq
  split_ifs at hq with h
  · obtain rfl := List.mem_singleton.mp hq
    rw [Bool.and_eq_true, Bool.and_eq_true] at h
    exact choice_request h.2
  · cases hq

/-! ## Round robin -/

theorem maskFrom_reset : MaskFrom A reset (if A.lsbHighPriority then A.ports else 0) := by
  constructor
  · split_ifs <;> omega
  · intro k hk
    show false = _
    split_ifs <;> simp [hk]

theorem maskAfter_eq {q k : ℕ} (hq : q < A.ports) (hk : k < A.ports) : maskAfter A q k =
    if A.lsbHighPriority then decide (after A.lsbHighPriority q ≤ k)
      else decide (k < after A.lsbHighPriority q) := by
  unfold maskAfter after
  split_ifs
  · simp [hk]
  · exact decide_eq_decide.mpr (by omega)

theorem maskFrom_clock {m : ℕ} (h : MaskFrom A s m) (hr : A.roundRobin = true) (hrst : i.rst = false) :
    MaskFrom A (s.clock A i)
      (if s.decisions A i = [] then m else after A.lsbHighPriority (s.choice A i)) := by
  cases cycle (A := A) (s := s) hrst with
  | hold _ hdec hclock => rwa [if_pos hdec, hclock]
  | drop _ hdec hclock => rw [if_pos hdec, hclock]; exact ⟨h.le, h.mask⟩
  | grant _ hlt _ hdec hclock =>
    rw [hdec, if_neg (List.cons_ne_nil _ _), hclock, if_pos hr]
    exact ⟨after_le hlt, fun k hk => maskAfter_eq hlt hk⟩

/-- **The port granted is the one whose turn it is.** -/
theorem turn_choice_le {m p : ℕ} (h : MaskFrom A s m) (hr : A.roundRobin = true) (hp : p < A.ports)
    (hreq : i.request p = true) :
    turn A.lsbHighPriority A.ports m (s.choice A i) ≤ turn A.lsbHighPriority A.ports m p := by
  have hm := h.le
  have hvalid : requestValid A i = true := requestValid_iff.mpr ⟨p, hp, hreq⟩
  unfold choice
  rw [hr, Bool.true_and]
  split_ifs with hmv
  · -- a request passes the mask, and the first of them is served
    obtain ⟨hlt, hset, hbest⟩ := maskedRequestIndex_first hmv
    rw [maskedRequest, Bool.and_eq_true, h.mask _ hlt] at hset
    have hpm : s.mask p = true → _ := fun hmask => hbest p hp (by rw [maskedRequest, hreq, hmask]; rfl)
    rw [h.mask p hp] at hpm
    cases hu : A.lsbHighPriority <;> simp only [hu, turn, if_true, if_false, Bool.false_eq_true,
      decide_eq_true_eq] at hset hpm ⊢ <;> split_ifs <;> omega
  · -- no request passes the mask, and one starts all over
    obtain ⟨hlt, hset, hbest⟩ := requestIndex_first hvalid
    have hnone (k : ℕ) (hk : k < A.ports) (hkreq : i.request k = true) : s.mask k = false := by
      by_contra hmask
      refine hmv (PriorityEncoder.outputValid_iff.mpr ⟨k, hk, ?_⟩)
      rw [maskedRequest, hkreq, Bool.eq_true_of_not_eq_false hmask]
      rfl
    have hp' := hnone p hp hreq
    have hq' := hnone _ hlt hset
    have hbest' := hbest p hp hreq
    rw [h.mask _ hp] at hp'
    rw [h.mask _ hlt] at hq'
    cases hu : A.lsbHighPriority <;> simp only [hu, turn, if_true, if_false, Bool.false_eq_true,
      decide_eq_false_iff_not] at hp' hq' hbest' ⊢ <;> split_ifs <;> omega

/-- **Round robin.** While the port `p` asks, the ports granted before it take turns. -/
theorem decisions_rotation {m p : ℕ} (hr : A.roundRobin = true) (hp : p < A.ports) {s : Arbiter}
    (h : MaskFrom A s m) {es : List ArbiterIn} (hes : ∀ e ∈ es, e.rst = false ∧ e.request p = true) :
    Rotation A.lsbHighPriority A.ports p m
      ((log (Arbiter.clock A) (Arbiter.decisions A) s es).takeWhile (· != p)) := by
  induction es generalizing s m with
  | nil => exact .nil
  | cons e es ih =>
    obtain ⟨hrst, hreq⟩ := hes e List.mem_cons_self
    have hrest := ih (maskFrom_clock (i := e) h hr hrst) fun e he => hes e (List.mem_cons_of_mem _ he)
    rw [log_cons]
    cases cycle (A := A) (s := s) hrst with
    | hold _ hdec _ | drop _ hdec _ =>
      rw [hdec, if_pos rfl] at hrest
      rw [hdec]
      exact hrest
    | grant _ hlt _ hdec _ =>
      rw [hdec, if_neg (List.cons_ne_nil _ _)] at hrest
      rw [hdec, List.singleton_append]
      by_cases hq : s.choice A e = p
      · rw [List.takeWhile_cons_of_neg (by simp [hq])]
        exact .nil
      · rw [List.takeWhile_cons_of_pos (by simp [hq])]
        refine .cons hlt (lt_of_le_of_ne (turn_choice_le h hr hp hreq) fun heq => ?_) hrest
        exact hq (turn_injOn h.le hlt hp heq)

theorem maskFrom_run (hr : A.roundRobin = true) {es : List ArbiterIn} (hes : ∀ e ∈ es, e.rst = false) :
    ∃ m, MaskFrom A (run (Arbiter.clock A) reset es) m := by
  have halong : Along (Arbiter.clock A) (fun _ e => e.rst = false) reset es := along_of_forall _ hes
  exact halong.invariant (fun s => ∃ m, MaskFrom A s m)
    (fun s e ⟨_, hm⟩ he => ⟨_, maskFrom_clock hm hr he⟩) ⟨_, maskFrom_reset⟩

theorem inv_run (es : List ArbiterIn) : ArbiterInv A (run (Arbiter.clock A) reset es) :=
  (along_true (Arbiter.clock A) reset es).invariant (ArbiterInv A) (fun _ e h _ => inv_clock h e) inv_reset

end Arbiter

/-- **The arbiter.** After any run from reset, with any ports and any of its settings: a grant is to one
port, it is given only to a port that asks, without a decision it stays or is dropped, and with
`ARB_BLOCK_ACK` it stays until that port acknowledges. -/
theorem arbiter_law (A : ArbiterParams) (es : List ArbiterIn) (i : ArbiterIn) (hrst : i.rst = false) :
    let s := run (Arbiter.clock A) .reset es
    (∀ k, s.grant k = true ↔ s.grantValid = true ∧ k = s.grantEncoded) ∧
      (∀ q ∈ s.decisions A i, q < A.ports ∧ i.request q = true ∧
        (s.clock A i).grantValid = true ∧ (s.clock A i).grantEncoded = q) ∧
      (s.decisions A i = [] → s.clock A i = s ∨
        (s.clock A i).grantValid = false ∧ ∀ k, (s.clock A i).grant k = false) ∧
      (A.block = true → A.blockAck = true → s.grantValid = true →
        i.acknowledge s.grantEncoded = false → s.clock A i = s ∧ s.decisions A i = []) := by
  intro s
  have hinv : ArbiterInv A s := Arbiter.inv_run es
  refine ⟨hinv.grant, fun q hq => ?_, fun hnone => ?_, fun hb ha hv hack => ?_⟩
  · obtain ⟨hlt, hreq⟩ := Arbiter.request_of_mem_decisions q hq
    refine ⟨hlt, hreq, ?_⟩
    cases Arbiter.cycle (A := A) (s := s) hrst with
    | hold _ hdec _ | drop _ hdec _ =>
      rw [hdec] at hq
      cases hq
    | grant _ _ _ hdec hclock =>
      rw [hdec] at hq
      rw [hclock, List.mem_singleton.mp hq]
      exact ⟨rfl, rfl⟩
  · cases Arbiter.cycle (A := A) (s := s) hrst with
    | hold _ _ hclock => exact .inl hclock
    | drop _ _ hclock =>
      rw [hclock]
      exact .inr ⟨rfl, fun _ => rfl⟩
    | grant _ _ _ hdec _ =>
      rw [hdec] at hnone
      cases hnone
  · have hhold : s.holds A i = true := by rw [Arbiter.holds_of_blockAck hinv hb ha hv, hack]; rfl
    cases Arbiter.cycle (A := A) (s := s) hrst with
    | hold _ hdec hclock => exact ⟨hclock, hdec⟩
    | drop hreq hdec hclock => exact ⟨by rw [Arbiter.clock, hrst, hhold]; rfl, hdec⟩
    | grant hfree _ _ _ _ => rw [hhold] at hfree; cases hfree

/-- Two ports, the second of which keeps its grant until it acknowledges. -/
theorem arbiter_law_two :
    let A : ArbiterParams := ⟨2, true, true, true, true⟩
    let i : ArbiterIn := ⟨false, fun k => k == 1, fun _ => false⟩
    let s := run (Arbiter.clock A) .reset [i]
    s.grantValid = true ∧ s.clock A i = s :=
  ⟨by decide, ((arbiter_law ⟨2, true, true, true, true⟩ [⟨false, fun k => k == 1, fun _ => false⟩]
    ⟨false, fun k => k == 1, fun _ => false⟩ rfl).2.2.2 rfl rfl (by decide) rfl).1⟩

/-- **No port is passed over.** From any state that a round robin arbiter reaches: while the port `p`
asks, no other port is granted twice before it, so there are fewer grants before it than ports. -/
theorem arbiter_round_robin (A : ArbiterParams) (hr : A.roundRobin = true) {p : ℕ} (hp : p < A.ports)
    (es₀ es : List ArbiterIn) (hes₀ : ∀ e ∈ es₀, e.rst = false)
    (hes : ∀ e ∈ es, e.rst = false ∧ e.request p = true) :
    let before := (log (Arbiter.clock A) (Arbiter.decisions A)
      (run (Arbiter.clock A) .reset es₀) es).takeWhile (· != p)
    before.Nodup ∧ before.length < A.ports := by
  intro before
  obtain ⟨m, hm⟩ := Arbiter.maskFrom_run (A := A) hr hes₀
  have hrot := Arbiter.decisions_rotation hr hp hm hes
  exact ⟨hrot.nodup hp, hrot.length_lt hm.le hp⟩

/-- Three ports that all ask; the last one waits for the other two. -/
theorem arbiter_round_robin_three :
    let A : ArbiterParams := ⟨3, true, false, false, true⟩
    let i : ArbiterIn := ⟨false, fun _ => true, fun _ => false⟩
    let grants := log (Arbiter.clock A) (Arbiter.decisions A) .reset [i, i, i, i]
    grants = [0, 1, 2, 0] ∧ (grants.takeWhile (· != 2)).length < 3 :=
  ⟨by decide, (arbiter_round_robin ⟨3, true, false, false, true⟩ rfl (p := 2) (by decide) []
    (List.replicate 4 ⟨false, fun _ => true, fun _ => false⟩) nofun
    fun _ he => by rw [List.eq_of_mem_replicate he]; exact ⟨rfl, rfl⟩).2⟩

end PacketBuffering
