import Mathlib.Data.List.Infix
import Mathlib.Order.Basic
import PacketBuffering.Lib.Run

/-!
# Bursts

A request asks for a list of beats, which come on a channel of their own; each beat carries a mark
that tells whether it is the last of its request.

* `FramedBy`: the marks on the channel are those the requests ask for.
* `BurstMachine`: a machine that takes the beats of its requests in order, as long as they are marked
  as asked for.
* **`BurstMachine.along_marked`**: framed beats are so all along a run; `BurstMachine.taken_append`:
  what has been taken and what is due is what was asked for.
* `BurstMachine.length_answered_le`: a request that has been answered is complete.
* `tagged`: the beats of requests, with the number of their request; **`tagged_own_iff`**: what happens
  when one beat is taken for each request.
* `shares`: how many of the first `n` beats each request has; **`isPrefix_flatMap_iff`**: beats as one
  list asks for are beats as another one asks for iff they are so request by request.
-/

namespace PacketBuffering

variable {ρ β ω σ ι : Type*}

/-- The beats are marked as the requests of a master ask for, of which `rs` are the first. -/
def FramedBy (slots : ρ → List β) (mark : β → Bool) (last : ω → Bool) (rs : List ρ) (ws : List ω) :
    Prop :=
  ∃ plan, rs <+: plan ∧ ws.map last <+: (plan.flatMap slots).map mark

theorem FramedBy.of_isPrefix {slots : ρ → List β} {mark : β → Bool} {last : ω → Bool}
    {rs rs' : List ρ} {ws ws' : List ω} (h : FramedBy slots mark last rs ws) (hrs : rs' <+: rs)
    (hws : ws' <+: ws) : FramedBy slots mark last rs' ws' := by
  obtain ⟨plan, hplan, hmarks⟩ := h
  exact ⟨plan, hrs.trans hplan, (hws.map last).trans hmarks⟩

theorem zipWith_isPrefix {α β γ : Type*} (f : α → β → γ) (l₁ l₂ : List α) (w : List β) :
    List.zipWith f l₁ w <+: List.zipWith f (l₁ ++ l₂) w := by
  induction l₁ generalizing w with
  | nil => simp
  | cons x l₁ ih =>
    cases w with
    | nil => simp
    | cons y w => simpa using ih w

/-- A machine with an invariant that takes the beats of its requests one after the other: the
requests and the beats of an event, the beats it takes them for, and the beats still due. -/
structure BurstMachine (step : σ → ι → σ) (slots : ρ → List β) (mark : β → Bool)
    (last : ω → Bool) where
  Inv : σ → Prop
  reqs : σ → ι → List ρ
  beats : σ → ι → List ω
  taken : σ → ι → List β
  due : σ → List β
  keep : ∀ s e, Inv s → Inv (step s e)
  length_taken : ∀ s e, (taken s e).length = (beats s e).length
  taken_isPrefix : ∀ s e, Inv s → taken s e <+: due s
  pass : ∀ s e, Inv s → (taken s e).map mark = (beats s e).map last →
    taken s e ++ due (step s e) = due s ++ (reqs s e).flatMap slots

namespace BurstMachine

variable {step : σ → ι → σ} {slots : ρ → List β} {mark : β → Bool} {last : ω → Bool}
  (M : BurstMachine step slots mark last)

/-- The beats of an event are marked as asked for. -/
def Marked (s : σ) (e : ι) : Prop := (M.taken s e).map mark = (M.beats s e).map last

variable {M} {s : σ} {es : List ι}

theorem inv_run (h₀ : M.Inv s) (es : List ι) : M.Inv (run step s es) :=
  (along_true step s es).invariant M.Inv (fun s e h _ => M.keep s e h) h₀

theorem taken_append (h₀ : M.Inv s) (hdue : M.due s = []) (h : Along step M.Marked s es) :
    log step M.taken s es ++ M.due (run step s es) = (log step M.reqs s es).flatMap slots := by
  have hbuf := h.log_buffer M.Inv M.due (fun s e h _ => M.keep s e h) M.pass h₀
  rw [log_hom step M.reqs List.flatMap_nil fun _ _ => List.flatMap_append, hdue] at hbuf
  exact hbuf

theorem taken_marks (h : Along step M.Marked s es) :
    (log step M.taken s es).map mark = (log step M.beats s es).map last := by
  rw [← log_map, ← log_map]
  exact h.log_congr (fun _ => True) (fun _ _ _ _ => trivial) (fun _ _ _ hi => hi) trivial

/-- **Framed beats are marked as asked for, all along a run.** -/
theorem along_marked (h₀ : M.Inv s) (hdue : M.due s = [])
    (h : FramedBy slots mark last (log step M.reqs s es) (log step M.beats s es)) :
    Along step M.Marked s es := by
  obtain ⟨plan, hrs, hws⟩ := h
  induction es using List.reverseRecOn with
  | nil => trivial
  | append_singleton es e ih =>
    rw [log_append] at hrs
    rw [log_append, List.map_append] at hws
    have hrun := ih ((List.prefix_append _ _).trans hrs) ((List.prefix_append _ _).trans hws)
    rw [along_append]
    refine ⟨hrun, ?_, trivial⟩
    -- Both what is taken and what comes continue the marks of the plan behind the beats so far.
    have htaken : (log step M.beats s es).map last ++ (M.taken (run step s es) e).map mark <+:
        (plan.flatMap slots).map mark := by
      have hslots : (log step M.reqs s es).flatMap slots <+: plan.flatMap slots :=
        ((List.prefix_append _ _).trans hrs).flatMap _
      rw [← taken_append h₀ hdue hrun] at hslots
      rw [← taken_marks hrun, ← List.map_append]
      refine List.IsPrefix.trans (List.IsPrefix.map _ ?_) (hslots.map mark)
      exact (List.prefix_append_right_inj _).mpr (M.taken_isPrefix _ e (inv_run h₀ es))
    have hbeats : (log step M.beats s es).map last ++ (M.beats (run step s es) e).map last <+:
        (plan.flatMap slots).map mark := by
      rw [log_cons, log_nil, List.append_nil] at hws
      exact hws
    have hlen := M.length_taken (run step s es) e
    have heq := (List.prefix_of_prefix_length_le htaken hbeats (by simp [hlen])).eq_of_length
      (by simp [hlen])
    exact List.append_cancel_left heq

/-- **A request that has been answered is complete**: there are no more answers than requests, and
an answer is given only when no beat is due. -/
theorem length_answered_le {α : Type*} {answers : σ → ι → List α} (h₀ : M.Inv s)
    (hdue : M.due s = [])
    (hle : ∀ es', es' <+: es → (log step answers s es').length ≤ (log step M.reqs s es').length)
    (hans : ∀ s e, M.Inv s → answers s e ≠ [] → M.due (step s e) = [])
    (h : Along step M.Marked s es) :
    (((log step M.reqs s es).take (log step answers s es).length).flatMap slots).length ≤
      (log step M.beats s es).length := by
  induction es using List.reverseRecOn with
  | nil => simp
  | append_singleton es e ih =>
    have hpre : es <+: es ++ [e] := List.prefix_append _ _
    have hes := ((along_append s es [e]).mp h).1
    by_cases ha : answers (run step s es) e = []
    · have hsame : log step answers s (es ++ [e]) = log step answers s es := by
        simp [ha]
      rw [hsame, log_append step M.reqs, log_append step M.beats,
        List.take_append_of_le_length (hle es hpre), List.length_append]
      exact (ih (fun es' h' => hle es' (h'.trans hpre)) hes).trans (Nat.le_add_right _ _)
    · have hnone : M.due (run step s (es ++ [e])) = [] := by
        rw [run_append]
        exact hans _ e (inv_run h₀ es) ha
      have htaken := taken_append h₀ hdue h
      rw [hnone, List.append_nil] at htaken
      have hlen := length_log_eq step M.length_taken s (es ++ [e])
      rw [← hlen, htaken]
      exact ((List.take_prefix _ _).flatMap slots).length_le

end BurstMachine

/-! ## Whose beat it is -/

section Tagged

variable (beats : ρ → List ω)

/-- The beats of requests, each with the number of its request. -/
def tagged (rs : List ρ) : List (ℕ × ω) :=
  rs.zipIdx.flatMap fun p => (beats p.1).map fun w => (p.2, w)

variable {beats} {rs : List ρ}

theorem map_snd_tagged (rs : List ρ) : (tagged beats rs).map Prod.snd = rs.flatMap beats := by
  have hfst : rs.flatMap beats = (rs.zipIdx.map Prod.fst).flatMap beats := by
    rw [List.zipIdx_map_fst]
  rw [hfst, List.flatMap_map, tagged, List.map_flatMap]
  simp [Function.comp_def]

theorem fst_lt_of_mem_tagged {b : ℕ × ω} (hb : b ∈ tagged beats rs) : b.1 < rs.length := by
  obtain ⟨p, hp, hb⟩ := List.mem_flatMap.mp hb
  obtain ⟨w, -, rfl⟩ := List.mem_map.mp hb
  exact (List.mem_zipIdx' hp).1

theorem length_tagged (rs : List ρ) :
    (tagged beats rs).length = (rs.flatMap beats).length := by
  rw [← map_snd_tagged, List.length_map]

theorem length_le_flatMap (h : ∀ r ∈ rs, beats r ≠ []) : rs.length ≤ (rs.flatMap beats).length := by
  induction rs with
  | nil => exact Nat.le_refl _
  | cons r rs ih =>
    have hr := List.length_pos_iff.mpr (h r List.mem_cons_self)
    have hrs := ih fun r' hr' => h r' (List.mem_cons_of_mem _ hr')
    rw [List.flatMap_cons, List.length_append, List.length_cons]
    omega

theorem length_flatMap_eq_iff (h : ∀ r ∈ rs, beats r ≠ []) :
    (rs.flatMap beats).length = rs.length ↔ ∀ r ∈ rs, (beats r).length = 1 := by
  induction rs with
  | nil => simp
  | cons r rs ih =>
    have hr := List.length_pos_iff.mpr (h r List.mem_cons_self)
    have hrs := length_le_flatMap fun r' hr' => h r' (List.mem_cons_of_mem _ hr')
    rw [List.flatMap_cons, List.length_append, List.length_cons, List.forall_mem_cons,
      ← ih fun r' hr' => h r' (List.mem_cons_of_mem _ hr')]
    omega

theorem tagged_append_cons (beats : ρ → List ω) (rs : List ρ) (r : ρ) (rs' : List ρ) :
    ∃ rest, tagged beats (rs ++ r :: rs') =
      tagged beats rs ++ ((beats r).map (fun w => (rs.length, w)) ++ rest) := by
  rw [tagged, List.zipIdx_append, List.flatMap_append, List.zipIdx_cons, List.flatMap_cons,
    Nat.zero_add]
  exact ⟨_, rfl⟩

/-- **The `k`-th beat belongs to the `k`-th request** iff every request before it has a single beat. -/
theorem tagged_own_iff (h : ∀ r ∈ rs, beats r ≠ []) {k : ℕ} (hk : k < rs.length) {w : ω}
    (hw : (rs.flatMap beats)[k]? = some w) :
    (tagged beats rs)[k]? = some (k, w) ↔ ∀ r ∈ rs.take k, (beats r).length = 1 := by
  have htake : ∀ r ∈ rs.take k, beats r ≠ [] := fun r hr => h r (List.mem_of_mem_take hr)
  have hlen : (rs.take k).length = k := List.length_take_of_le hk.le
  have hle := length_le_flatMap htake
  rw [← length_flatMap_eq_iff htake, ← length_tagged, hlen]
  rw [← length_tagged, hlen] at hle
  -- The beats of the requests before the `k`-th one, and of the `k`-th one.
  obtain ⟨rest, hsplit⟩ := tagged_append_cons beats (rs.take k) rs[k] (rs.drop (k + 1))
  rw [← List.drop_eq_getElem_cons hk, List.take_append_drop, hlen] at hsplit
  have hown : beats rs[k] ≠ [] := h _ (List.getElem_mem hk)
  constructor
  · intro htag
    by_contra hne
    rw [hsplit, List.getElem?_append_left (by omega)] at htag
    have hlt := fst_lt_of_mem_tagged (List.mem_of_getElem? htag)
    rw [hlen] at hlt
    exact Nat.lt_irrefl k hlt
  · intro heq
    have hsnd : ((tagged beats rs).map Prod.snd)[k]? = some w := by rwa [map_snd_tagged]
    rw [hsplit, List.map_append, List.getElem?_append_right (by simp [heq])] at hsnd
    rw [hsplit, List.getElem?_append_right heq.le, heq, Nat.sub_self]
    obtain ⟨v, vs, hv⟩ := List.exists_cons_of_ne_nil hown
    rw [hv] at hsnd ⊢
    simpa [heq] using hsnd

end Tagged

/-! ## Request by request -/

section Shares

variable {len : ρ → ℕ} {f g : ρ → List β}

variable (len) in
/-- The requests, each with the number of its beats among the first `n`. -/
def shares : List ρ → ℕ → List (ρ × ℕ)
  | [], _ => []
  | r :: rs, n => (r, min n (len r)) :: shares rs (n - len r)

theorem take_flatMap_eq_iff (hf : ∀ r, (f r).length = len r) (hg : ∀ r, (g r).length = len r)
    (rs : List ρ) (n : ℕ) :
    (rs.flatMap f).take n = (rs.flatMap g).take n ↔
      ∀ p ∈ shares len rs n, (f p.1).take p.2 = (g p.1).take p.2 := by
  induction rs generalizing n with
  | nil => simp [shares]
  | cons r rs ih =>
    have hfirst : (f r).take n = (g r).take n ↔
        (f r).take (min n (len r)) = (g r).take (min n (len r)) := by
      rw [List.take_eq_take_min, hf, List.take_eq_take_min (l := g r), hg]
    rw [List.flatMap_cons, List.flatMap_cons, List.take_append, List.take_append, hf, hg, shares,
      List.forall_mem_cons, ← ih, ← hfirst]
    constructor
    · intro h
      exact List.append_inj h (by rw [List.length_take, List.length_take, hf, hg])
    · rintro ⟨h₁, h₂⟩
      rw [h₁, h₂]

/-- **Request by request.** -/
theorem isPrefix_flatMap_iff (hf : ∀ r, (f r).length = len r) (hg : ∀ r, (g r).length = len r)
    {rs : List ρ} {bs : List β} (h : bs <+: rs.flatMap f) :
    bs <+: rs.flatMap g ↔
      ∀ p ∈ shares len rs bs.length, (f p.1).take p.2 = (g p.1).take p.2 := by
  rw [← take_flatMap_eq_iff hf hg, ← List.prefix_iff_eq_take.mp h, List.prefix_iff_eq_take]

theorem snd_le_of_mem_shares {rs : List ρ} {n : ℕ} {p : ρ × ℕ} (hp : p ∈ shares len rs n) :
    p.2 ≤ len p.1 := by
  induction rs generalizing n with
  | nil => simp [shares] at hp
  | cons r rs ih =>
    rcases List.mem_cons.mp hp with rfl | hp
    · exact min_le_right _ _
    · exact ih hp

end Shares

end PacketBuffering
