import PacketBuffering.Source.Stream

/-!
# Where packets are started

The length is latched, and the sequence number taken before its increment, in the start from idle only.

* **`PacketSource.length_iff`**: the packets that have the length asked for at their start.
* `PacketSource.startLog_spec`: the sequence numbers of the starts.
* **`PacketSource.numbered_iff`**: the runs whose sequence numbers are consistent.
-/

namespace PacketBuffering

namespace PacketSource

variable (D : SourceParams) (es : List SourceIn)

/-! ## Lengths -/

/-- **The complete packets of a run have the lengths asked for** iff each of them is started from idle,
or with the length held that is asked for. -/
theorem length_iff :
    (packets beatLast (sentLog D es)).map List.length <+:
        (startLog D es).map (fun x => x.asked.toNat) ↔
      ∀ x ∈ (startLog D es).take (packets beatLast (sentLog D es)).length,
        x.state = .idle ∨ x.held = x.asked := by
  let xs := (startLog D es).take (packets beatLast (sentLog D es)).length
  have hlengths : (packets beatLast (sentLog D es)).map List.length =
      xs.map fun x => x.length.toNat := by
    refine (congrArg (List.map List.length) (packets_sentLog D es)).trans ?_
    rw [List.map_map]
    exact List.map_congr_left fun x hx =>
      x.length_beats (length_pos_of_mem D es x (List.mem_of_mem_take hx))
  rw [List.prefix_iff_eq_take, List.length_map, ← List.map_take, hlengths, List.map_inj_left]
  refine forall₂_congr fun x _ => ?_
  rw [BitVec.toNat_inj, PacketStart.length]
  split_ifs with hidle
  · simp [hidle]
  · simp [hidle]

/-- All inputs at rest but the given ones; every word is taken. -/
def go (pktWords : BitVec 16) : SourceIn := ⟨true, false, pktWords, 0, false, true⟩

/-- The second packet has the length of the first one. -/
theorem length_kept :
    ¬ ∀ D es, (packets beatLast (sentLog D es)).map List.length <+:
        (startLog D es).map (fun x => x.asked.toNat) := by
  intro h
  exact absurd (h .default [go 2, go 3, go 3, go 3, go 3]) (by decide)

/-! ## Sequence numbers -/

/-- The sequence number in a header, its low half. -/
def headerSeq (b : Payload × BitVec 16) : BitVec 16 := b.1.tdata.extractLsb' 0 16

/-- The sequence number in a body word, its high half. -/
def bodySeq (b : Payload × BitVec 16) : BitVec 16 := b.1.tdata.extractLsb' 16 16

/-- The number in the header of a packet. -/
def packetSeq (p : List (Payload × BitVec 16)) : Option (BitVec 16) := p.head?.map headerSeq

/-- **Consistent numbers**: the headers count up by one, and each body word has the number of its
header. -/
def Numbered (ps : List (List (Payload × BitVec 16))) : Prop :=
  (ps.filterMap packetSeq).IsChain (fun a b => b = a + 1) ∧
    ∀ p ∈ ps, ∀ b ∈ p.tail, packetSeq p = some (bodySeq b)

/-- **The starts of a run**: the sequence register counts them, each with the number before it, and the
first one is from idle. -/
structure StartsInv (xs : List PacketStart) (s : PacketSource) : Prop where
  idle : xs = [] → s.state = .idle
  pktSeq : s.pktSeq = BitVec.ofNat 16 xs.length
  first : ∀ x ∈ xs.head?, x.state = .idle
  numbers : ∀ k x, xs[k]? = some x → x.pktSeq = BitVec.ofNat 16 k

theorem numbers_snoc {xs : List PacketStart} {x : PacketStart}
    (h : ∀ k y, xs[k]? = some y → y.pktSeq = BitVec.ofNat 16 k)
    (hx : x.pktSeq = BitVec.ofNat 16 xs.length) (k : ℕ) (y : PacketStart)
    (hy : (xs ++ [x])[k]? = some y) : y.pktSeq = BitVec.ofNat 16 k := by
  rcases Nat.lt_or_ge k xs.length with hk | hk
  · rw [List.getElem?_append_left hk] at hy
    exact h k y hy
  · rw [List.getElem?_append_right hk, List.getElem?_singleton] at hy
    split_ifs at hy with hzero
    · obtain rfl : x = y := by simpa using hy
      rw [show k = xs.length by omega]
      exact hx

variable {D} in
theorem StartsInv.clock {xs : List PacketStart} {s : PacketSource} (h : StartsInv xs s) (hs : Inv s)
    (i : SourceIn) : StartsInv (xs ++ s.begins D i) (s.clock D i) := by
  rcases cycle_cases s i with hstart | ⟨hv, hr⟩ | ⟨hf, hl⟩ | ⟨hstart, hv⟩
  · rw [clock_of_starts hs hstart, begins, if_pos hstart]
    refine ⟨fun hnil => absurd hnil (by simp), ?_, fun x hx => ?_, numbers_snoc h.numbers h.pktSeq⟩
    · show s.pktSeq + 1 = _
      rw [h.pktSeq, List.length_append, BitVec.ofNat_add]
      rfl
    · cases xs with
      | nil =>
        obtain rfl : s.start D i = x := by simpa using hx
        exact h.idle rfl
      | cons y ys => exact h.first x hx
  · rw [hs.begins_of_wait hv hr, List.append_nil, clock_of_wait hs hv hr]
    exact ⟨h.idle, h.pktSeq, h.first, h.numbers⟩
  · rw [hs.begins_of_next hf hl, List.append_nil, clock_of_next hs hf hl]
    exact ⟨h.idle, h.pktSeq, h.first, h.numbers⟩
  · obtain ⟨-, -, -, hseq, hidle, -⟩ := clock_of_silent (D := D) hs hstart hv
    rw [begins_of_not_starts hstart, List.append_nil]
    refine ⟨fun hnil => ?_, hseq.trans h.pktSeq, h.first, h.numbers⟩
    by_contra hne
    exact hidle hne (h.idle hnil)

theorem startLog_spec : StartsInv (startLog D es) (run (clock D) reset es) := by
  induction es using List.reverseRecOn with
  | nil => exact ⟨fun _ => rfl, rfl, nofun, nofun⟩
  | append_singleton es i ih =>
    have h := ih.clock (D := D) (inv_of_run D es) i
    rw [run_append, startLog, log_snoc]
    exact h

/-! ### A packet and its start -/

section Packet

variable {x : PacketStart} {p : List (Payload × BitVec 16)}

theorem halves {v w : ℕ} (hi : BitVec v) (lo : BitVec w) :
    (hi ++ lo).extractLsb' 0 w = lo ∧ (hi ++ lo).extractLsb' w v = hi := by
  constructor
  · ext j hj
    simp [BitVec.getLsbD_append, hj]
  · ext j hj
    rw [BitVec.getElem_extractLsb', BitVec.getLsbD_append, if_neg (by omega), Nat.add_sub_cancel_left]
    exact BitVec.getLsbD_eq_getElem hj

theorem headerSeq_header : headerSeq (x.header, x.length) = x.seq :=
  (halves _ _).1

theorem bodySeq_bodyBeat (target seq : BitVec 16) (k : ℕ) :
    bodySeq (bodyBeat target seq k) = seq :=
  (halves _ _).2

theorem packetSeq_of_isPrefix (hp : p ≠ []) (h : p <+: x.beats) :
    packetSeq p = some x.seq ∧ ∀ b ∈ p.tail, bodySeq b = x.pktSeq + 1 := by
  obtain ⟨b, bs, rfl⟩ := List.exists_cons_of_ne_nil hp
  rw [PacketStart.beats, List.cons_prefix_cons] at h
  obtain ⟨rfl, hbs⟩ := h
  refine ⟨congrArg some headerSeq_header, fun b hb => ?_⟩
  obtain ⟨k, -, rfl⟩ := List.mem_map.mp (hbs.subset hb)
  exact bodySeq_bodyBeat _ _ k

end Packet

theorem isChain_seq_iff {xs : List PacketStart} (hfirst : ∀ x ∈ xs.head?, x.state = .idle)
    (hnumbers : ∀ k x, xs[k]? = some x → x.pktSeq = BitVec.ofNat 16 k) :
    (xs.map PacketStart.seq).IsChain (fun a b => b = a + 1) ↔ ∀ x ∈ xs, x.state = .idle := by
  have hnum : ∀ k (hk : k < xs.length), xs[k].pktSeq = BitVec.ofNat 16 k := fun k hk =>
    hnumbers k _ (List.getElem?_eq_getElem hk)
  rw [List.isChain_iff_getElem]
  constructor
  · intro h
    have hidle : ∀ k (hk : k < xs.length), xs[k].state = .idle := by
      intro k
      induction k with
      | zero =>
        intro hk
        exact hfirst _ (by rw [List.head?_eq_getElem?, List.getElem?_eq_getElem hk]; rfl)
      | succ k ih =>
        intro hk
        have hlast := ih (by omega)
        by_contra hne
        -- A start from elsewhere skips a number.
        have hnext := h k (by rwa [List.length_map])
        rw [List.getElem_map, List.getElem_map, PacketStart.seq, if_neg hne, PacketStart.seq,
          if_pos hlast, hnum, hnum, add_left_inj, BitVec.ofNat_add, add_eq_left] at hnext
        exact absurd hnext (by decide)
    intro x hx
    obtain ⟨k, hk, rfl⟩ := List.getElem_of_mem hx
    exact hidle k hk
  · intro h k hk
    rw [List.length_map] at hk
    rw [List.getElem_map, List.getElem_map, PacketStart.seq, if_pos (h _ (List.getElem_mem hk)),
      PacketStart.seq, if_pos (h _ (List.getElem_mem _)), hnum, hnum, BitVec.ofNat_add]
    rfl

theorem filterMap_packetSeq {ps : List (List (Payload × BitVec 16))} {xs : List PacketStart}
    (h : List.Forall₂ (fun p x => p ≠ [] ∧ p <+: PacketStart.beats x) ps xs) :
    ps.filterMap packetSeq = xs.map PacketStart.seq := by
  induction h with
  | nil => rfl
  | cons hp _ ih => rw [List.filterMap_cons, (packetSeq_of_isPrefix hp.1 hp.2).1, List.map_cons, ih]

theorem tail_numbered_iff {ps : List (List (Payload × BitVec 16))} {xs : List PacketStart}
    (h : List.Forall₂ (fun p x => p ≠ [] ∧ p <+: PacketStart.beats x) ps xs)
    (hidle : ∀ x ∈ xs, x.state = .idle) :
    (∀ p ∈ ps, ∀ b ∈ p.tail, packetSeq p = some (bodySeq b)) ↔ ∀ p ∈ ps, p.length = 1 := by
  induction h with
  | nil => simp
  | @cons p x ps xs hp _ ih =>
    obtain ⟨hx, hxs⟩ := List.forall_mem_cons.mp hidle
    obtain ⟨hseq, hbody⟩ := packetSeq_of_isPrefix hp.1 hp.2
    rw [List.forall_mem_cons, List.forall_mem_cons, ih hxs]
    refine and_congr_left fun _ => ?_
    obtain ⟨b, bs, rfl⟩ := List.exists_cons_of_ne_nil hp.1
    cases bs with
    | nil => simp
    | cons b' bs =>
      refine iff_of_false (fun hall => ?_) (by simp)
      have hahead := hall b' (by simp)
      rw [hseq, hbody b' (by simp), PacketStart.seq, if_pos hx, Option.some_inj, left_eq_add]
        at hahead
      exact absurd hahead (by decide)

/-- **Sequence numbers** are consistent in a run iff every packet of which a word has been handed over
was started from idle and has handed over its header only. -/
theorem numbered_iff :
    Numbered (begun beatLast (sentLog D es)) ↔
      (∀ x ∈ (startLog D es).take (begun beatLast (sentLog D es)).length, x.state = .idle) ∧
        ∀ p ∈ begun beatLast (sentLog D es), p.length = 1 := by
  have hbegun := begun_sentLog D es
  have hstarts := startLog_spec D es
  have hfirst : ∀ x ∈ ((startLog D es).take (begun beatLast (sentLog D es)).length).head?,
      x.state = .idle := by
    intro x hx
    rw [List.head?_take] at hx
    split_ifs at hx with hzero
    · simp at hx
    · exact hstarts.first x hx
  have hnumbers : ∀ k x,
      ((startLog D es).take (begun beatLast (sentLog D es)).length)[k]? = some x →
        x.pktSeq = BitVec.ofNat 16 k := by
    intro k x hx
    rw [List.getElem?_take] at hx
    split_ifs at hx
    exact hstarts.numbers k x hx
  rw [Numbered, filterMap_packetSeq hbegun, isChain_seq_iff hfirst hnumbers]
  exact and_congr_right fun hidle => tail_numbered_iff hbegun hidle

/-- The body word of the first packet carries 1, its header 0. -/
theorem body_ahead : ¬ ∀ D es, Numbered (begun beatLast (sentLog D es)) := by
  intro h
  have hbody := (h .default [go 2, go 2, go 2]).2
  exact absurd hbody (by decide)

end PacketSource

end PacketBuffering
