import PacketBuffering.Lib.Run
import PacketBuffering.Source.Source

/-!
# The stream of the packet source

* `PacketStart`, `PacketStart.beats`: the start of a packet, and the words it leads to.
* `PacketSource.Inv`: the invariant; `PacketSource.clock_of_starts` and the lemmas beside it say what a
  cycle can be.
* **`PacketSource.sent_append`**: the words handed over, followed by those still due, are those of the
  packets that have been started.
-/

namespace PacketBuffering

/-! ## Packets -/

/-- The start of a packet: where it happens, the length that is held and the one that is asked for, the
sequence number before it and whether an error is injected. -/
structure PacketStart where
  state : SourceState
  held : BitVec 16
  asked : BitVec 16
  pktSeq : BitVec 16
  injectError : Bool

/-- A body word `k` of a packet of `target` words, with the length that is held. -/
def bodyBeat (target seq : BitVec 16) (k : ℕ) : Payload × BitVec 16 :=
  (⟨k + 1 == target.toNat, 0xF, seq ++ BitVec.ofNat 16 k⟩, target)

/-- The body words from `k` on. -/
def bodyFrom (target seq : BitVec 16) (k : ℕ) : List (Payload × BitVec 16) :=
  (List.range' k (target.toNat - k)).map (bodyBeat target seq)

theorem bodyFrom_of_lt {target seq : BitVec 16} {k : ℕ} (h : k < target.toNat) :
    bodyFrom target seq k = bodyBeat target seq k :: bodyFrom target seq (k + 1) := by
  obtain ⟨n, hn⟩ : ∃ n, target.toNat - k = n + 1 := ⟨target.toNat - k - 1, by omega⟩
  have hn' : target.toNat - (k + 1) = n := by omega
  rw [bodyFrom, hn, List.range'_succ, List.map_cons, bodyFrom, hn']

theorem bodyFrom_of_le {target seq : BitVec 16} {k : ℕ} (h : target.toNat ≤ k) :
    bodyFrom target seq k = [] := by
  rw [bodyFrom, Nat.sub_eq_zero_of_le h]
  rfl

namespace PacketStart

variable (x : PacketStart)

/-- The length is latched in the start from idle only. -/
def length : BitVec 16 := if x.state = .idle then x.asked else x.held

/-- The number in the header: the start from idle takes it before the increment. -/
def seq : BitVec 16 := if x.state = .idle then x.pktSeq else x.pktSeq + 1

/-- The header word. -/
def header : Payload :=
  ⟨x.length == 1, 0xF, (if x.injectError then 0xDEAD#16 else 0xA5A5#16) ++ x.seq⟩

/-- The words of the packet, with the length that is held. -/
def beats : List (Payload × BitVec 16) :=
  (x.header, x.length) :: bodyFrom x.length (x.pktSeq + 1) 1

end PacketStart

namespace PacketSource

variable {D : SourceParams} {s : PacketSource} {i : SourceIn}

/-! ## One cycle -/

/-- A packet is started. -/
def starts (s : PacketSource) (i : SourceIn) : Bool :=
  match s.state with
  | .idle => i.enable || i.triggerPulse
  | .send => s.fires i && s.axis.tlast && i.interPktGap == 0 && i.enable
  | .gap => !decide (s.gapCnt > 1) && i.enable

variable (D) in
/-- The packet that is started. -/
def start (s : PacketSource) (i : SourceIn) : PacketStart :=
  ⟨s.state, s.targetWords, i.asked D, s.pktSeq, i.injectError⟩

/-- **The invariant.** -/
structure Inv (s : PacketSource) : Prop where
  tvalid : s.tvalid = decide (s.state = .send)
  wordIdx : s.state = .send → s.wordIdx.toNat < s.targetWords.toNat
  tlast : s.state = .send → s.axis.tlast = (s.wordIdx.toNat + 1 == s.targetWords.toNat)
  targetWords : s.state ≠ .idle → 0 < s.targetWords.toNat

theorem Inv.reset : Inv reset := ⟨rfl, nofun, nofun, fun h => absurd rfl h⟩

theorem asked_pos (D : SourceParams) (i : SourceIn) : 0 < (i.asked D).toNat := by
  unfold SourceIn.asked
  split_ifs with h
  · exact h
  · rw [BitVec.toNat_ofNat, Nat.mod_eq_of_lt D.lt]
    exact D.pos

theorem asked_beq_one (D : SourceParams) (i : SourceIn) :
    (i.pktWords == 1 || i.pktWords == 0 && D.defaultPktWords == 1) = (i.asked D == 1) := by
  unfold SourceIn.asked
  by_cases h : i.pktWords = 0
  · have hone : BitVec.ofNat 16 D.defaultPktWords = 1 ↔ D.defaultPktWords = 1 := by
      rw [← BitVec.toNat_inj, BitVec.toNat_ofNat, Nat.mod_eq_of_lt D.lt]
      rfl
    rw [h, if_neg (by decide), Bool.eq_iff_iff, beq_iff_eq, hone]
    simp
  · have hpos : i.pktWords > 0 := (BitVec.pos_iff_ne_zero _).mpr h
    rw [if_pos hpos]
    simpa using fun h0 => absurd h0 h

/-- **What a cycle can be**: a start, an offer that waits, a word that is not the last one, or none of
these. -/
theorem cycle_cases (s : PacketSource) (i : SourceIn) :
    s.starts i = true ∨ (s.tvalid = true ∧ i.tready = false) ∨
      (s.fires i = true ∧ s.axis.tlast = false) ∨
      s.starts i = false ∧ (s.tvalid = true → s.fires i = true ∧ s.axis.tlast = true) := by
  unfold fires
  cases s.starts i <;> cases s.tvalid <;> cases i.tready <;> cases s.axis.tlast <;> simp

theorem tvalid_of_fires (h : s.fires i = true) : s.tvalid = true :=
  (Bool.and_eq_true _ _ ▸ h).1

theorem Inv.state_of_tvalid (h : Inv s) (hv : s.tvalid = true) : s.state = .send :=
  of_decide_eq_true (h.tvalid ▸ hv)

theorem Inv.fires_of_ne (h : Inv s) (hs : s.state ≠ .send) : s.fires i = false := by
  rw [fires, h.tvalid, decide_eq_false hs, Bool.false_and]

/-- **A start.** -/
theorem clock_of_starts (h : Inv s) (hs : s.starts i = true) :
    s.clock D i =
      { s with
        state := .send
        wordIdx := 0
        targetWords := (s.start D i).length
        pktSeq := s.pktSeq + 1
        axis := (s.start D i).header
        tvalid := true
        packetSent := s.fires i && s.axis.tlast } := by
  unfold starts at hs
  unfold clock start PacketStart.header PacketStart.length PacketStart.seq
  cases hstate : s.state with
  | idle =>
    have hf := h.fires_of_ne (i := i) (by rw [hstate]; exact nofun)
    rw [hstate] at hs
    simp only [clockIdle, hs, hf, ↓reduceIte, Bool.false_and, asked_beq_one]
    rfl
  | send =>
    rw [hstate] at hs
    simp only [Bool.and_eq_true, beq_iff_eq] at hs
    obtain ⟨⟨⟨hf, hl⟩, hg⟩, he⟩ := hs
    simp [clockSend, restart, SourceIn.header, hf, hl, hg, he]
  | gap =>
    have hf := h.fires_of_ne (i := i) (by rw [hstate]; exact nofun)
    rw [hstate] at hs
    simp only [Bool.and_eq_true, Bool.not_eq_true', decide_eq_false_iff_not] at hs
    obtain ⟨hg, he⟩ := hs
    simp only [clockGap, restart, SourceIn.header, hf, hg, he, ↓reduceIte, Bool.false_and]
    rfl

theorem clock_of_wait (h : Inv s) (hv : s.tvalid = true) (hr : i.tready = false) :
    s.clock D i = { s with packetSent := false } := by
  have hf : s.fires i = false := by rw [fires, hr, Bool.and_false]
  simp [clock, clockSend, h.state_of_tvalid hv, hv, hf]

theorem clock_of_next (h : Inv s) (hf : s.fires i = true) (hl : s.axis.tlast = false) :
    s.clock D i =
      { s with
        wordIdx := s.wordIdx + 1
        axis := ⟨s.wordIdx + 2 == s.targetWords, 0xF, s.pktSeq ++ (s.wordIdx + 1)⟩
        packetSent := false } := by
  have hv := tvalid_of_fires hf
  simp [clock, clockSend, h.state_of_tvalid hv, hv, hf, hl]

theorem clock_of_silent (h : Inv s) (hs : s.starts i = false)
    (hv : s.tvalid = true → s.fires i = true ∧ s.axis.tlast = true) :
    (s.clock D i).state ≠ .send ∧ (s.clock D i).tvalid = false ∧
      (s.clock D i).targetWords = s.targetWords ∧ (s.clock D i).pktSeq = s.pktSeq ∧
      ((s.clock D i).state ≠ .idle → s.state ≠ .idle) ∧
      (s.clock D i).packetSent = (s.fires i && s.axis.tlast) := by
  unfold starts at hs
  unfold clock
  cases hstate : s.state with
  | idle =>
    have hf := h.fires_of_ne (i := i) (by rw [hstate]; exact nofun)
    rw [hstate] at hs
    simp [clockIdle, hs, hf, hstate]
  | send =>
    obtain ⟨hf, hl⟩ := hv (by rw [h.tvalid, hstate]; rfl)
    rw [hstate] at hs
    simp only [clockSend, hf, hl, ↓reduceIte]
    split_ifs with hg he
    · simp
    · have hzero : i.interPktGap = 0 := not_not.mp fun h0 => hg ((BitVec.pos_iff_ne_zero _).mpr h0)
      simp [hf, hl, hzero, he] at hs
    · simp
  | gap =>
    have hf := h.fires_of_ne (i := i) (by rw [hstate]; exact nofun)
    rw [hstate] at hs
    simp only [clockGap, hf]
    split_ifs with hg he
    · simp [hstate]
    · rw [decide_eq_false hg, he] at hs
      exact Bool.noConfusion hs
    · simp

/-! ## What passes through -/

/-- The word that is handed over, with the length that is held. -/
def sent (s : PacketSource) (i : SourceIn) : List (Payload × BitVec 16) :=
  if s.fires i then [(s.axis, s.targetWords)] else []

variable (D) in
/-- The packet that is started. -/
def begins (s : PacketSource) (i : SourceIn) : List PacketStart :=
  if s.starts i then [s.start D i] else []

/-- The words of the packet on offer that are still due. -/
def due (s : PacketSource) : List (Payload × BitVec 16) :=
  if s.tvalid then
    (s.axis, s.targetWords) :: bodyFrom s.targetWords s.pktSeq (s.wordIdx.toNat + 1)
  else []

theorem length_pos (h : Inv s) (D : SourceParams) (i : SourceIn) :
    0 < (s.start D i).length.toNat := by
  unfold start PacketStart.length
  split_ifs with hidle
  · exact asked_pos D i
  · exact h.targetWords hidle

theorem due_of_starts (h : Inv s) (hs : s.starts i = true) :
    (s.clock D i).due = (s.start D i).beats := by
  rw [clock_of_starts h hs]
  rfl

theorem Inv.last_of_starts (h : Inv s) (hs : s.starts i = true) (hv : s.tvalid = true) :
    s.fires i = true ∧ s.axis.tlast = true := by
  unfold starts at hs
  rw [h.state_of_tvalid hv] at hs
  simp only [Bool.and_eq_true] at hs
  exact hs.1.1

theorem begins_of_not_starts (hs : s.starts i = false) : s.begins D i = [] := by
  rw [begins, hs]
  rfl

theorem Inv.begins_of_not_last (h : Inv s) (hv : s.tvalid = true)
    (hl : ¬ (s.fires i = true ∧ s.axis.tlast = true)) : s.begins D i = [] :=
  begins_of_not_starts (Bool.eq_false_iff.mpr fun hs => hl (h.last_of_starts hs hv))

theorem Inv.begins_of_wait (h : Inv s) (hv : s.tvalid = true) (hr : i.tready = false) :
    s.begins D i = [] :=
  h.begins_of_not_last hv (by simp [fires, hr])

theorem Inv.begins_of_next (h : Inv s) (hf : s.fires i = true) (hl : s.axis.tlast = false) :
    s.begins D i = [] :=
  h.begins_of_not_last (tvalid_of_fires hf) (by simp [hl])

theorem Inv.sent_eq_due (h : Inv s)
    (hv : s.tvalid = true → s.fires i = true ∧ s.axis.tlast = true) : s.sent i = s.due := by
  unfold sent due
  cases hvalid : s.tvalid with
  | false => simp [fires, hvalid]
  | true =>
    obtain ⟨hf, hl⟩ := hv hvalid
    rw [h.tlast (h.state_of_tvalid hvalid), beq_iff_eq] at hl
    rw [if_pos hf, if_pos rfl, bodyFrom_of_le hl.ge]

theorem Inv.due_of_next (h : Inv s) (hf : s.fires i = true) (hl : s.axis.tlast = false) :
    Inv (s.clock D i) ∧ s.due = (s.axis, s.targetWords) :: (s.clock D i).due := by
  have hv := tvalid_of_fires hf
  have hstate := h.state_of_tvalid hv
  have hlt : s.wordIdx.toNat + 1 < s.targetWords.toNat := by
    rw [h.tlast hstate, beq_eq_false_iff_ne] at hl
    exact Nat.lt_of_le_of_ne (h.wordIdx hstate) hl
  -- The length fits 16 bits, so neither sum wraps.
  have hbound := s.targetWords.isLt
  have hsucc : (s.wordIdx + 1).toNat = s.wordIdx.toNat + 1 :=
    BitVec.toNat_add_of_lt (hlt.trans hbound)
  have hmark : (s.wordIdx + 2 == s.targetWords) = (s.wordIdx.toNat + 1 + 1 == s.targetWords.toNat) := by
    have hsum : (s.wordIdx + 2).toNat = s.wordIdx.toNat + 2 :=
      BitVec.toNat_add_of_lt (Nat.lt_of_le_of_lt (Nat.succ_le_of_lt hlt) hbound)
    rw [Bool.eq_iff_iff, beq_iff_eq, beq_iff_eq, ← BitVec.toNat_inj, hsum]
  have hword : s.wordIdx + 1 = BitVec.ofNat 16 (s.wordIdx.toNat + 1) := by
    rw [← hsucc, BitVec.ofNat_toNat, BitVec.setWidth_eq]
  rw [clock_of_next h hf hl]
  refine ⟨⟨by rw [h.tvalid], fun _ => ?_, fun _ => ?_, fun hs => h.targetWords hs⟩, ?_⟩
  · show (s.wordIdx + 1).toNat < _
    rw [hsucc]
    exact hlt
  · show (s.wordIdx + 2 == s.targetWords) = ((s.wordIdx + 1).toNat + 1 == _)
    rw [hmark, hsucc]
  · unfold due
    simp only [hv, ↓reduceIte, hsucc, hmark]
    rw [bodyFrom_of_lt hlt, bodyBeat, hword]

/-- **Every cycle keeps the invariant, and passes the words on in order.** -/
theorem Inv.clock_sent (h : Inv s) (D : SourceParams) (i : SourceIn) :
    Inv (s.clock D i) ∧
      s.sent i ++ (s.clock D i).due = s.due ++ (s.begins D i).flatMap PacketStart.beats := by
  rcases cycle_cases s i with hs | ⟨hv, hr⟩ | ⟨hf, hl⟩ | ⟨hs, hv⟩
  · constructor
    · rw [clock_of_starts h hs]
      refine ⟨rfl, fun _ => length_pos h D i, fun _ => ?_, fun _ => length_pos h D i⟩
      show ((s.start D i).length == 1) = (1 == (s.start D i).length.toNat)
      rw [Bool.eq_iff_iff, beq_iff_eq, beq_iff_eq, ← BitVec.toNat_inj]
      exact eq_comm
    · rw [due_of_starts h hs, h.sent_eq_due (h.last_of_starts hs), begins, if_pos hs]
      simp
  · rw [h.begins_of_wait hv hr, clock_of_wait h hv hr]
    refine ⟨⟨h.tvalid, h.wordIdx, h.tlast, h.targetWords⟩, ?_⟩
    simp [sent, fires, hr, due]
  · obtain ⟨hinv, hdue⟩ := h.due_of_next (D := D) hf hl
    refine ⟨hinv, ?_⟩
    rw [h.begins_of_next hf hl, hdue, sent, if_pos hf]
    simp
  · obtain ⟨hstate, hvalid, htarget, -, hidle, -⟩ := clock_of_silent (D := D) h hs hv
    refine ⟨⟨?_, fun h' => absurd h' hstate, fun h' => absurd h' hstate, fun h' => ?_⟩, ?_⟩
    · rw [hvalid, decide_eq_false hstate]
    · rw [htarget]
      exact h.targetWords (hidle h')
    · rw [begins_of_not_starts hs, h.sent_eq_due hv, due, due, hvalid]
      simp

end PacketSource

/-! ## Whole packets -/

/-- The mark of a word. -/
def beatLast (b : Payload × BitVec 16) : Bool := b.1.tlast

theorem whole_bodyFrom {target seq : BitVec 16} {k : ℕ} (h : k < target.toNat) :
    Whole beatLast (bodyFrom target seq k) := by
  -- Induction on the number of words to come.
  obtain ⟨n, hn⟩ := Nat.exists_eq_add_of_lt h
  induction n generalizing k with
  | zero =>
    rw [bodyFrom_of_lt h, bodyFrom_of_le (by omega)]
    exact .singleton (beq_iff_eq.mpr (by omega))
  | succ n ih =>
    rw [bodyFrom_of_lt h]
    exact (ih (by omega) (by omega)).cons (beq_eq_false_iff_ne.mpr (by omega))

namespace PacketStart

variable {x : PacketStart}

theorem whole_beats (h : 0 < x.length.toNat) : Whole beatLast x.beats := by
  by_cases hone : x.length = 1
  · rw [beats, bodyFrom_of_le (by rw [hone]; rfl)]
    exact .singleton (beq_iff_eq.mpr hone)
  · have hne : x.length.toNat ≠ 1 := fun h' => hone (BitVec.eq_of_toNat_eq h')
    exact (whole_bodyFrom (by omega)).cons (beq_eq_false_iff_ne.mpr hone)

theorem length_beats (h : 0 < x.length.toNat) : x.beats.length = x.length.toNat := by
  rw [beats, bodyFrom, List.length_cons, List.length_map, List.length_range']
  omega

theorem snd_of_mem_beats : ∀ b ∈ x.beats, b.2 = x.length := by
  intro b hb
  rcases List.mem_cons.mp hb with rfl | hb
  · rfl
  · obtain ⟨k, -, rfl⟩ := List.mem_map.mp hb
    rfl

end PacketStart

/-! ## Runs -/

namespace PacketSource

section Runs

variable (D : SourceParams) (es : List SourceIn)

/-- The words handed over in a run, each with the length that is held. -/
def sentLog : List (Payload × BitVec 16) := log (clock D) sent reset es

/-- The packets started in a run. -/
def startLog : List PacketStart := log (clock D) (begins D) reset es

theorem inv_of_run : Inv (run (clock D) reset es) :=
  (along_true (clock D) reset es).invariant Inv (fun _ i h _ => (h.clock_sent D i).1) Inv.reset

/-- **The stream of the source.** -/
theorem sent_append : sentLog D es ++ (run (clock D) reset es).due =
    (startLog D es).flatMap PacketStart.beats := by
  have h := (along_true (clock D) reset es).log_buffer Inv due
    (fun _ i h _ => (h.clock_sent D i).1) (fun _ i h _ => (h.clock_sent D i).2) Inv.reset
  rw [log_hom (clock D) (begins D) List.flatMap_nil fun _ _ => List.flatMap_append] at h
  exact h

theorem sent_isPrefix : sentLog D es <+: (startLog D es).flatMap PacketStart.beats :=
  ⟨_, sent_append D es⟩

theorem length_pos_of_mem : ∀ x ∈ startLog D es, 0 < x.length.toNat := by
  have hinv : Along (clock D) (fun s _ => Inv s) reset es :=
    along_iff_forall_isPrefix.mpr fun es' _ _ => inv_of_run D es'
  refine hinv.forall_mem_log fun s i h x hx => ?_
  unfold begins at hx
  split_ifs at hx
  · rw [List.mem_singleton.mp hx]
    exact length_pos h D i
  · simp at hx

theorem whole_of_mem : ∀ x ∈ startLog D es, Whole beatLast x.beats :=
  fun x hx => x.whole_beats (length_pos_of_mem D es x hx)

theorem packets_sentLog : packets beatLast (sentLog D es) =
    ((startLog D es).take (packets beatLast (sentLog D es)).length).map PacketStart.beats :=
  packets_of_isPrefix (whole_of_mem D es) (sent_isPrefix D es)

theorem begun_sentLog : List.Forall₂ (fun p x => p ≠ [] ∧ p <+: PacketStart.beats x)
    (begun beatLast (sentLog D es))
    ((startLog D es).take (begun beatLast (sentLog D es)).length) :=
  begun_of_isPrefix (whole_of_mem D es) (sent_isPrefix D es)

end Runs

end PacketSource

end PacketBuffering
