import Mathlib.Data.BitVec
import Mathlib.Data.List.Induction
import Mathlib.Tactic.Common

/-!
# Packets of a word stream

A word stream is cut into packets behind the words marked as last.

* `packets`: the complete packets; `openPacket`: the words behind them.
* `packets_snoc_of_last`, `packets_snoc_of_not_last`: one more word; `packets_isPrefix`: further
  words do not change the packets already complete.
* `packets_map`: cutting commutes with a map that keeps the marks.
* `Whole`: a list of words of which only the final one is marked; `begun`: the packets of which a word
  has come; **`packets_of_isPrefix`**, **`begun_of_isPrefix`**: the beginning of a stream of whole packets.
-/

namespace PacketBuffering

/-- A word of a 32-bit AXI stream, `{tlast, tkeep, tdata}`. -/
@[ext] structure Payload where
  tlast : Bool
  tkeep : BitVec 4
  tdata : BitVec 32
deriving DecidableEq

/-- The all-zero word. -/
def Payload.zero : Payload := ⟨false, 0, 0⟩

section Packets

variable {α β : Type*} (last : α → Bool)

/-- Add one word to the complete packets and the open one. -/
def cut (s : List (List α) × List α) (w : α) : List (List α) × List α :=
  if last w then (s.1 ++ [s.2 ++ [w]], []) else (s.1, s.2 ++ [w])

/-- The complete packets of a word stream. -/
def packets (ws : List α) : List (List α) := (ws.foldl (cut last) ([], [])).1

/-- The words behind the last complete packet. -/
def openPacket (ws : List α) : List α := (ws.foldl (cut last) ([], [])).2

variable {last} (ws : List α) {w : α}

@[simp] theorem packets_nil : packets last [] = [] := rfl

@[simp] theorem openPacket_nil : openPacket last [] = [] := rfl

theorem packets_snoc_of_last (h : last w = true) :
    packets last (ws ++ [w]) = packets last ws ++ [openPacket last ws ++ [w]] := by
  simp [packets, openPacket, cut, h]

theorem openPacket_snoc_of_last (h : last w = true) : openPacket last (ws ++ [w]) = [] := by
  simp [openPacket, cut, h]

theorem packets_snoc_of_not_last (h : last w = false) :
    packets last (ws ++ [w]) = packets last ws := by
  simp [packets, cut, h]

theorem openPacket_snoc_of_not_last (h : last w = false) :
    openPacket last (ws ++ [w]) = openPacket last ws ++ [w] := by
  simp [openPacket, cut, h]

theorem length_packets : (packets last ws).length = (ws.filter last).length := by
  induction ws using List.reverseRecOn with
  | nil => rfl
  | append_singleton ws w ih =>
    cases h : last w with
    | false => simp [packets_snoc_of_not_last ws h, ih, h]
    | true => simp [packets_snoc_of_last ws h, ih, h]

theorem flatten_packets : (packets last ws).flatten ++ openPacket last ws = ws := by
  induction ws using List.reverseRecOn with
  | nil => rfl
  | append_singleton ws w ih =>
    cases h : last w with
    | false =>
      rw [packets_snoc_of_not_last ws h, openPacket_snoc_of_not_last ws h, ← List.append_assoc, ih]
    | true =>
      rw [packets_snoc_of_last ws h, openPacket_snoc_of_last ws h, List.flatten_append,
        List.flatten_singleton, List.append_nil, ← List.append_assoc, ih]

theorem mem_of_mem_packets {ws p : List α} (hp : p ∈ packets last ws) : ∀ w ∈ p, w ∈ ws := by
  intro w hw
  rw [← @flatten_packets _ last ws]
  exact List.mem_append_left _ (List.mem_flatten.mpr ⟨p, hp, hw⟩)

theorem ne_nil_of_mem_packets {ws p : List α} (hp : p ∈ packets last ws) : p ≠ [] := by
  induction ws using List.reverseRecOn with
  | nil => simp at hp
  | append_singleton ws w ih =>
    cases h : last w with
    | false => exact ih (by rwa [packets_snoc_of_not_last ws h] at hp)
    | true =>
      rw [packets_snoc_of_last ws h, List.mem_append, List.mem_singleton] at hp
      rcases hp with hp | rfl
      · exact ih hp
      · simp

theorem packets_isPrefix_append (vs : List α) : packets last ws <+: packets last (ws ++ vs) := by
  induction vs using List.reverseRecOn with
  | nil => simp
  | append_singleton vs v ih =>
    rw [← List.append_assoc]
    cases h : last v with
    | false => rwa [packets_snoc_of_not_last _ h]
    | true =>
      rw [packets_snoc_of_last _ h]
      exact ih.trans (List.prefix_append _ _)

theorem packets_isPrefix {ws vs : List α} (h : ws <+: vs) : packets last ws <+: packets last vs := by
  obtain ⟨us, rfl⟩ := h
  exact packets_isPrefix_append ws us

theorem packets_map {last' : β → Bool} {f : α → β} (hf : ∀ w, last' (f w) = last w) :
    packets last' (ws.map f) = (packets last ws).map (List.map f) ∧
      openPacket last' (ws.map f) = (openPacket last ws).map f := by
  induction ws using List.reverseRecOn with
  | nil => exact ⟨rfl, rfl⟩
  | append_singleton ws w ih =>
    rw [List.map_append, List.map_singleton]
    cases h : last w with
    | false =>
      have h' : last' (f w) = false := by rw [hf, h]
      rw [packets_snoc_of_not_last _ h', packets_snoc_of_not_last _ h,
        openPacket_snoc_of_not_last _ h', openPacket_snoc_of_not_last _ h]
      exact ⟨ih.1, by rw [ih.2, List.map_append, List.map_singleton]⟩
    | true =>
      have h' : last' (f w) = true := by rw [hf, h]
      rw [packets_snoc_of_last _ h', packets_snoc_of_last _ h, openPacket_snoc_of_last _ h',
        openPacket_snoc_of_last _ h, ih.1, ih.2]
      simp

/-! ## Streams of whole packets -/

variable (last) in
/-- Only the final word is marked. -/
def Whole (p : List α) : Prop := ∃ init w, p = init ++ [w] ∧ (∀ v ∈ init, last v = false) ∧ last w = true

variable (last) in
/-- The packets of which a word has come, also the open one. -/
def begun (ws : List α) : List (List α) :=
  packets last ws ++ if openPacket last ws = [] then [] else [openPacket last ws]

theorem Whole.singleton (h : last w = true) : Whole last [w] := ⟨[], w, rfl, nofun, h⟩

theorem Whole.cons {p : List α} (hp : Whole last p) (h : last w = false) : Whole last (w :: p) := by
  obtain ⟨init, v, rfl, hinit, hv⟩ := hp
  exact ⟨w :: init, v, rfl, List.forall_mem_cons.mpr ⟨h, hinit⟩, hv⟩

theorem cut_of_unmarked {ws : List α} (h : ∀ v ∈ ws, last v = false) :
    packets last ws = [] ∧ openPacket last ws = ws := by
  induction ws using List.reverseRecOn with
  | nil => exact ⟨rfl, rfl⟩
  | append_singleton ws w ih =>
    have hw := h w (by simp)
    obtain ⟨h₁, h₂⟩ := ih fun v hv => h v (by simp [hv])
    rw [packets_snoc_of_not_last ws hw, openPacket_snoc_of_not_last ws hw, h₁, h₂]
    exact ⟨rfl, rfl⟩

theorem Whole.cut_append {p : List α} (h : Whole last p) (ws : List α) :
    packets last (p ++ ws) = p :: packets last ws ∧ openPacket last (p ++ ws) = openPacket last ws := by
  induction ws using List.reverseRecOn with
  | nil =>
    obtain ⟨init, w, rfl, hinit, hw⟩ := h
    obtain ⟨h₁, h₂⟩ := cut_of_unmarked hinit
    rw [List.append_nil, packets_snoc_of_last _ hw, openPacket_snoc_of_last _ hw, h₁, h₂]
    exact ⟨rfl, rfl⟩
  | append_singleton ws w ih =>
    rw [← List.append_assoc]
    cases hw : last w with
    | false =>
      rw [packets_snoc_of_not_last _ hw, openPacket_snoc_of_not_last _ hw,
        packets_snoc_of_not_last _ hw, openPacket_snoc_of_not_last _ hw, ih.1, ih.2]
      exact ⟨rfl, rfl⟩
    | true =>
      rw [packets_snoc_of_last _ hw, openPacket_snoc_of_last _ hw,
        packets_snoc_of_last _ hw, openPacket_snoc_of_last _ hw, ih.1, ih.2]
      exact ⟨rfl, rfl⟩

theorem Whole.isPrefix_append {p ws rest : List α} (h : Whole last p) (hws : ws <+: p ++ rest) :
    (∃ ws', ws = p ++ ws' ∧ ws' <+: rest) ∨
      ws <+: p ∧ packets last ws = [] ∧ openPacket last ws = ws := by
  rcases List.prefix_or_prefix_of_prefix (List.prefix_append p rest) hws with ⟨ws', rfl⟩ | hp
  · exact .inl ⟨ws', rfl, (List.prefix_append_right_inj p).mp hws⟩
  · obtain ⟨init, w, rfl, hinit, -⟩ := h
    rcases List.prefix_concat_iff.mp hp with rfl | hp'
    · exact .inl ⟨[], by simp, List.nil_prefix⟩
    · exact .inr ⟨hp, cut_of_unmarked fun v hv => hinit v (hp'.subset hv)⟩

section Stream

variable {f : β → List α} {xs : List β} {ws : List α}

/-- **The complete packets** are the first of the stream. -/
theorem packets_of_isPrefix (hf : ∀ x ∈ xs, Whole last (f x)) (h : ws <+: xs.flatMap f) :
    packets last ws = (xs.take (packets last ws).length).map f := by
  induction xs generalizing ws with
  | nil =>
    obtain rfl := List.prefix_nil.mp h
    rfl
  | cons x xs ih =>
    obtain ⟨hx, hxs⟩ := List.forall_mem_cons.mp hf
    rw [List.flatMap_cons] at h
    rcases hx.isPrefix_append h with ⟨ws', rfl, hws'⟩ | ⟨-, hp, -⟩
    · rw [(hx.cut_append ws').1, List.length_cons, List.take_succ_cons, List.map_cons, ← ih hxs hws']
    · rw [hp]
      rfl

/-- **Each packet that has begun** is the beginning of one of the stream. -/
theorem begun_of_isPrefix (hf : ∀ x ∈ xs, Whole last (f x)) (h : ws <+: xs.flatMap f) :
    List.Forall₂ (fun p x => p ≠ [] ∧ p <+: f x) (begun last ws)
      (xs.take (begun last ws).length) := by
  induction xs generalizing ws with
  | nil =>
    obtain rfl := List.prefix_nil.mp h
    exact .nil
  | cons x xs ih =>
    obtain ⟨hx, hxs⟩ := List.forall_mem_cons.mp hf
    rw [List.flatMap_cons] at h
    rcases hx.isPrefix_append h with ⟨ws', rfl, hws'⟩ | ⟨hp, hcut, hopen⟩
    · have hbegun : begun last (f x ++ ws') = f x :: begun last ws' := by
        rw [begun, (hx.cut_append ws').1, (hx.cut_append ws').2, List.cons_append, begun]
      rw [hbegun, List.length_cons, List.take_succ_cons]
      refine .cons ⟨?_, List.prefix_refl _⟩ (ih hxs hws')
      obtain ⟨init, w, hw, -⟩ := hx
      rw [hw]
      simp
    · rw [begun, hcut, hopen, List.nil_append]
      by_cases hws : ws = []
      · rw [if_pos hws]
        exact .nil
      · rw [if_neg hws]
        exact .cons ⟨hws, hp⟩ .nil

end Stream

end Packets

end PacketBuffering
