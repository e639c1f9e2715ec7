import PacketBuffering.Lib.Handshake
import PacketBuffering.Source.Stream

/-!
# Framing of the packet source

* `PacketSource.gap_run`: a gap lasts as many cycles as its count says.
* `PacketSource.Framing`, **`PacketSource.framing`**: offers are kept, packets have the length that is
  held, the pulse comes with each packet, and packets keep their distance.
-/

namespace PacketBuffering

namespace PacketSource

variable {D : SourceParams} {s : PacketSource} {i : SourceIn}

/-- The last word of a packet is handed over. -/
def completes (s : PacketSource) (i : SourceIn) : Bool := s.fires i && s.axis.tlast

/-- **The pulse** follows each completed packet, and nothing else. -/
theorem Inv.packetSent (h : Inv s) : (s.clock D i).packetSent = s.completes i := by
  unfold completes
  rcases cycle_cases s i with hs | ⟨hv, hr⟩ | ⟨hf, hl⟩ | ⟨hs, hv⟩
  · rw [clock_of_starts h hs]
  · rw [clock_of_wait h hv hr, fires, hr]
    simp
  · rw [clock_of_next h hf hl, hl, Bool.and_false]
  · exact (clock_of_silent h hs hv).2.2.2.2.2

/-- **Offers** stay until they are taken. -/
theorem Inv.keeps (h : Inv s) :
    Keeps (owed s.tvalid i.tready s.axis) (s.clock D i).tvalid (s.clock D i).axis := by
  cases hv : s.tvalid with
  | false => simp
  | true =>
    cases hr : i.tready with
    | true => simp
    | false =>
      rw [clock_of_wait h hv hr]
      simpa using hv

/-! ## Gaps -/

/-- In a gap with `n` more cycles to come. -/
structure Waiting (n : ℕ) (s : PacketSource) : Prop where
  state : s.state = .gap
  tvalid : s.tvalid = false
  gapCnt : s.gapCnt.toNat = n

theorem waiting_of_completes (h : Inv s) (hc : s.completes i = true) (hg : i.interPktGap ≠ 0) :
    Waiting i.interPktGap.toNat (s.clock D i) := by
  obtain ⟨hf, hl⟩ := Bool.and_eq_true _ _ ▸ hc
  have hpos : i.interPktGap > 0 := (BitVec.pos_iff_ne_zero _).mpr hg
  simp only [clock, h.state_of_tvalid (tvalid_of_fires hf), clockSend, hf, hl, hpos, ↓reduceIte]
  exact ⟨rfl, rfl, rfl⟩

theorem Waiting.step {n : ℕ} (h : Waiting (n + 2) s) : Waiting (n + 1) (s.clock D i) := by
  have hgt : s.gapCnt > 1 := by
    show 1 < s.gapCnt.toNat
    rw [h.gapCnt]
    omega
  have hpred : (s.gapCnt - 1).toNat = n + 1 := by
    rw [BitVec.toNat_sub_of_le (BitVec.le_of_lt hgt), h.gapCnt]
    rfl
  simp only [clock, h.state, clockGap, hgt, ↓reduceIte]
  exact ⟨rfl, rfl, hpred⟩

theorem Waiting.last (h : Waiting 1 s) : (s.clock D i).tvalid = i.enable := by
  have hle : ¬ s.gapCnt > 1 := by
    rw [BitVec.eq_of_toNat_eq (y := 1#8) h.gapCnt]
    decide
  simp only [clock, h.state, clockGap, hle, ↓reduceIte]
  split_ifs with he
  · exact he.symm
  · exact (Bool.eq_false_iff.mpr he).symm

theorem gap_run {n : ℕ} (h : Waiting n s) (js : List SourceIn) (hlen : js.length < n) :
    Waiting (n - js.length) (run (clock D) s js) := by
  induction js using List.reverseRecOn with
  | nil => exact h
  | append_singleton js j ih =>
    rw [List.length_append, List.length_singleton] at hlen ⊢
    obtain ⟨k, hk⟩ : ∃ k, n - js.length = k + 2 := ⟨n - js.length - 2, by omega⟩
    have hk' : n - (js.length + 1) = k + 1 := by omega
    rw [run_snoc, hk']
    exact (hk ▸ ih (by omega)).step

theorem tvalid_of_no_gap (h : Inv s) (hc : s.completes i = true) (hg : i.interPktGap = 0) :
    (s.clock D i).tvalid = i.enable := by
  obtain ⟨hf, hl⟩ := Bool.and_eq_true _ _ ▸ hc
  have hstarts : s.starts i = i.enable := by
    simp [starts, h.state_of_tvalid (tvalid_of_fires hf), hf, hl, hg]
  cases he : i.enable with
  | true => rw [clock_of_starts h (hstarts.trans he)]
  | false => exact (clock_of_silent h (hstarts.trans he) fun _ => ⟨hf, hl⟩).2.1

/-- **The distance of two packets**: the cycles of the gap are idle, and in the next one the packet comes
if the source was enabled in the last of them. -/
theorem tvalid_after (h : Inv s) (hc : s.completes i = true) (js : List SourceIn) :
    (js.length < i.interPktGap.toNat → (run (clock D) s (i :: js)).tvalid = false) ∧
      (js.length = i.interPktGap.toNat →
        (run (clock D) s (i :: js)).tvalid = ((i :: js).getLast (by simp)).enable) := by
  rw [run_cons]
  by_cases hg : i.interPktGap = 0
  · refine ⟨fun hlt => absurd hlt (by rw [hg]; exact Nat.not_lt_zero _), fun hlen => ?_⟩
    obtain rfl : js = [] := List.eq_nil_of_length_eq_zero (by rw [hlen, hg]; rfl)
    exact tvalid_of_no_gap h hc hg
  · have hwait := waiting_of_completes (D := D) h hc hg
    refine ⟨fun hlt => (gap_run hwait js hlt).tvalid, fun hlen => ?_⟩
    have hne : js ≠ [] := by
      rintro rfl
      exact hg (BitVec.eq_of_toNat_eq hlen.symm)
    obtain ⟨js, j, rfl⟩ := (List.eq_nil_or_concat js).resolve_left hne
    rw [List.concat_eq_append, List.length_append, List.length_singleton] at hlen
    have hlast := gap_run (D := D) hwait js (by omega)
    rw [show i.interPktGap.toNat - js.length = 1 by omega] at hlast
    simp only [List.concat_eq_append, run_snoc, hlast.last]
    simp

/-! ## The law -/

/-- **The framing of the source**, after the cycles `es`, and in the next one, with the inputs `i`. -/
structure Framing (D : SourceParams) (es : List SourceIn) (i : SourceIn) : Prop where
  /-- An offer stays until it is taken. -/
  keeps : Keeps (owed (run (clock D) reset es).tvalid i.tready (run (clock D) reset es).axis)
    (run (clock D) reset (es ++ [i])).tvalid (run (clock D) reset (es ++ [i])).axis
  /-- A packet has as many words as are held with each of them, and only the last one is marked. -/
  packets : ∀ p ∈ packets beatLast (sentLog D es), Whole beatLast p ∧ ∀ b ∈ p, p.length = b.2.toNat
  /-- The pulse follows each completed packet. -/
  packetSent : (run (clock D) reset (es ++ [i])).packetSent = (run (clock D) reset es).completes i
  /-- Behind a completed packet the cycles of the gap are idle; then the next one comes if the source is
  enabled. -/
  gap : (run (clock D) reset es).completes i = true → ∀ js,
    (js.length < i.interPktGap.toNat →
      (run (clock D) reset (es ++ i :: js)).tvalid = false) ∧
    (js.length = i.interPktGap.toNat →
      (run (clock D) reset (es ++ i :: js)).tvalid = ((i :: js).getLast (by simp)).enable)

/-- **The packet source frames its packets**, for every sequence of its inputs. -/
theorem framing (D : SourceParams) (es : List SourceIn) (i : SourceIn) : Framing D es i := by
  have hinv := inv_of_run D es
  refine ⟨?_, fun p hp => ?_, ?_, fun hc js => ?_⟩
  · rw [run_append]
    exact hinv.keeps
  · rw [packets_sentLog] at hp
    obtain ⟨x, hx, rfl⟩ := List.mem_map.mp hp
    have hpos := length_pos_of_mem D es x (List.mem_of_mem_take hx)
    refine ⟨x.whole_beats hpos, fun b hb => ?_⟩
    rw [x.length_beats hpos, x.snd_of_mem_beats b hb]
  · rw [run_append]
    exact hinv.packetSent
  · rw [run_append]
    exact tvalid_after hinv hc js

/-- A source that is enabled, for packets of two words with one idle cycle between them. -/
def pairsIn (tready : Bool) : SourceIn := ⟨true, false, 2, 1, false, tready⟩

/-- Two packets, the first word of which has to wait. -/
theorem framing_two_packets :
    let es := pairsIn true :: pairsIn false :: List.replicate 5 (pairsIn true)
    (packets beatLast (sentLog .default es)).map List.length = [2, 2] ∧
      (∀ p ∈ packets beatLast (sentLog .default es), Whole beatLast p) ∧
      (run (clock .default) reset (es.take 4)).packetSent = true ∧
      (run (clock .default) reset (es.take 4)).tvalid = false := by
  intro es
  have hframing := framing .default es (pairsIn true)
  have hpulse := (framing .default (es.take 3) (pairsIn true)).packetSent
  have hidle := ((framing .default (es.take 3) (pairsIn true)).gap (by decide) []).1 (by decide)
  exact ⟨by decide, fun p hp => (hframing.packets p hp).1, hpulse.trans (by decide), hidle⟩

end PacketSource

end PacketBuffering
