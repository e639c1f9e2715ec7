import Mathlib.Data.List.DropRight
import Mathlib.Data.List.Forall2
import Mathlib.Data.List.Induction
import Mathlib.Tactic.Common

/-!
# Runs of a clocked machine

A machine is a step function `step : σ → ι → σ` from a state and the inputs of one event to the
next state. A *run* is the list of its events.

* `run`: the state after a run; `log`: what an observer `obs` records along it; `log_hom`,
  `log_zipWith`, `run_eq_foldl_log`; `run_part_congr`: a part that depends on a part of the events;
  `run_component`, `log_component`: a part that is itself a machine.
* `Along`: a side condition on state and event, met at every step; `along_iff_forall_isPrefix`.
* `Along.snocInduction`: the induction principle, one event at the end of the run at a time;
  `Along.invariant`, `Along.log_congr`, `Along.log_eq_nil`: its instances for invariants and for
  what is recorded under one; `Along.run_eq_foldl`: for what follows it; `Along.log_component`: for parts;
  `Along.log_buffer`, `Along.log_registered`: for what passes through a buffer or a register;
  `Along.log_refines`: for machines that follow an abstract one.
* `Traced`: a machine with what has been recorded so far, for observers that refer to the past.
* `paired`: two runs side by side, for statements about pairs of runs.
* `run_eq_countP`: a counter that is wiped from time to time.
-/

namespace PacketBuffering

section Run

variable {σ ι ο : Type*} (step : σ → ι → σ)

/-- The state after the events `es`. -/
def run (s : σ) (es : List ι) : σ := es.foldl step s

/-- What the observer `obs` records along the run, oldest first. -/
def log (obs : σ → ι → List ο) : σ → List ι → List ο
  | _, [] => []
  | s, e :: es => obs s e ++ log obs (step s e) es

/-- Every step of the run meets `ok` in the state it is taken from. -/
def Along (ok : σ → ι → Prop) : σ → List ι → Prop
  | _, [] => True
  | s, e :: es => ok s e ∧ Along ok (step s e) es

instance Along.instDecidable (ok : σ → ι → Prop) [∀ s e, Decidable (ok s e)] :
    ∀ (s : σ) (es : List ι), Decidable (Along step ok s es)
  | _, [] => instDecidableTrue
  | s, e :: es =>
    have := Along.instDecidable ok (step s e) es
    inferInstanceAs (Decidable (ok s e ∧ Along step ok (step s e) es))

@[simp] theorem run_nil (s : σ) : run step s [] = s := rfl

@[simp] theorem run_cons (s : σ) (e : ι) (es : List ι) :
    run step s (e :: es) = run step (step s e) es := rfl

@[simp] theorem run_append (s : σ) (es fs : List ι) :
    run step s (es ++ fs) = run step (run step s es) fs := List.foldl_append

theorem run_snoc (s : σ) (es : List ι) (e : ι) :
    run step s (es ++ [e]) = step (run step s es) e := by
  rw [run_append, run_cons, run_nil]

variable (obs : σ → ι → List ο)

@[simp] theorem log_nil (s : σ) : log step obs s [] = [] := rfl

@[simp] theorem log_cons (s : σ) (e : ι) (es : List ι) :
    log step obs s (e :: es) = obs s e ++ log step obs (step s e) es := rfl

@[simp] theorem log_append (s : σ) (es fs : List ι) :
    log step obs s (es ++ fs) = log step obs s es ++ log step obs (run step s es) fs := by
  induction es generalizing s with
  | nil => rfl
  | cons e es ih => simp only [List.cons_append, log_cons, ih, run_cons, List.append_assoc]

theorem log_snoc (s : σ) (es : List ι) (e : ι) :
    log step obs s (es ++ [e]) = log step obs s es ++ obs (run step s es) e := by
  rw [log_append, log_cons, log_nil, List.append_nil]

theorem log_isPrefix (s : σ) {es es' : List ι} (h : es' <+: es) :
    log step obs s es' <+: log step obs s es := by
  obtain ⟨fs, rfl⟩ := h
  rw [log_append]
  exact List.prefix_append _ _

theorem log_map {ο' : Type*} (f : ο → ο') (s : σ) (es : List ι) :
    log step (fun s e => (obs s e).map f) s es = (log step obs s es).map f := by
  induction es generalizing s with
  | nil => rfl
  | cons e es ih => rw [log_cons, log_cons, ih, List.map_append]

theorem log_eq_map {ο' : Type*} {obs : σ → ι → List ο} {obs' : σ → ι → List ο'} {f : ο → ο'}
    (h : ∀ s e, obs' s e = (obs s e).map f) (s : σ) (es : List ι) :
    log step obs' s es = (log step obs s es).map f := by
  rw [← log_map]
  congr 1
  funext s e
  exact h s e

theorem log_hom {ο' : Type*} {f : List ο → List ο'} (hnil : f [] = [])
    (happ : ∀ l m, f (l ++ m) = f l ++ f m) (s : σ) (es : List ι) :
    log step (fun s e => f (obs s e)) s es = f (log step obs s es) := by
  induction es generalizing s with
  | nil => exact hnil.symm
  | cons e es ih => rw [log_cons, log_cons, ih, happ]

theorem length_log_eq {ο₁ ο₂ : Type*} {obs₁ : σ → ι → List ο₁} {obs₂ : σ → ι → List ο₂}
    (hlen : ∀ s e, (obs₁ s e).length = (obs₂ s e).length) (s : σ) (es : List ι) :
    (log step obs₁ s es).length = (log step obs₂ s es).length := by
  induction es generalizing s with
  | nil => rfl
  | cons e es ih => rw [log_cons, log_cons, List.length_append, List.length_append, hlen, ih]

theorem log_zipWith {ο₁ ο₂ : Type*} {obs₁ : σ → ι → List ο₁} {obs₂ : σ → ι → List ο₂}
    (hlen : ∀ s e, (obs₁ s e).length = (obs₂ s e).length) (f : ο₁ → ο₂ → ο) (s : σ) (es : List ι) :
    log step (fun s e => List.zipWith f (obs₁ s e) (obs₂ s e)) s es =
      List.zipWith f (log step obs₁ s es) (log step obs₂ s es) := by
  induction es generalizing s with
  | nil => rfl
  | cons e es ih => rw [log_cons, log_cons, log_cons, ih, List.zipWith_append (hlen s e)]

theorem run_eq_foldl_log {γ : Type*} {part : σ → γ} {f : γ → ο → γ}
    (h : ∀ s e, part (step s e) = (obs s e).foldl f (part s)) (s : σ) (es : List ι) :
    part (run step s es) = (log step obs s es).foldl f (part s) := by
  induction es generalizing s with
  | nil => rfl
  | cons e es ih => rw [run_cons, ih, h, log_cons, List.foldl_append]

theorem run_part_congr {κ γ : Type*} {step : σ → ι → σ} {part : σ → γ} {side : ι → κ}
    (hstep : ∀ s s' e e', part s = part s' → side e = side e' → part (step s e) = part (step s' e'))
    {s s' : σ} (h : part s = part s') {es es' : List ι} (hes : es.map side = es'.map side) :
    part (run step s es) = part (run step s' es') := by
  induction es generalizing s s' es' with
  | nil =>
    obtain rfl : es' = [] := List.map_eq_nil_iff.mp hes.symm
    exact h
  | cons e es ih =>
    cases es' with
    | nil => simp at hes
    | cons e' es' =>
      rw [List.map_cons, List.map_cons, List.cons.injEq] at hes
      exact ih (hstep s s' e e' h hes.1) hes.2

/-- **A component.** A part of the machine that is itself a machine, on the inputs the rest feeds it. -/
theorem run_component {τ κ : Type*} {pstep : τ → κ → τ} {part : σ → τ} {feed : σ → ι → κ}
    (h : ∀ s e, part (step s e) = pstep (part s) (feed s e)) (s : σ) (es : List ι) :
    part (run step s es) = run pstep (part s) (log step (fun s e => [feed s e]) s es) := by
  induction es generalizing s with
  | nil => rfl
  | cons e es ih => rw [run_cons, ih, h, log_cons, run_append, run_cons, run_nil]

theorem log_component {τ κ : Type*} {pstep : τ → κ → τ} {part : σ → τ} {feed : σ → ι → κ}
    (h : ∀ s e, part (step s e) = pstep (part s) (feed s e)) (pobs : τ → κ → List ο) (s : σ)
    (es : List ι) :
    log step (fun s e => pobs (part s) (feed s e)) s es =
      log pstep pobs (part s) (log step (fun s e => [feed s e]) s es) := by
  induction es generalizing s with
  | nil => rfl
  | cons e es ih =>
    rw [log_cons, ih, h, log_cons, log_append, log_cons, log_nil, List.append_nil, run_cons, run_nil]

variable {step} {ok : σ → ι → Prop}

@[simp] theorem along_nil (s : σ) : Along step ok s [] := trivial

@[simp] theorem along_cons (s : σ) (e : ι) (es : List ι) :
    Along step ok s (e :: es) ↔ ok s e ∧ Along step ok (step s e) es := Iff.rfl

@[simp] theorem along_append (s : σ) (es fs : List ι) :
    Along step ok s (es ++ fs) ↔ Along step ok s es ∧ Along step ok (run step s es) fs := by
  induction es generalizing s with
  | nil => simp
  | cons e es ih => simp only [List.cons_append, along_cons, ih, run_cons, and_assoc]

theorem Along.mono {ok' : σ → ι → Prop} (h : ∀ s e, ok s e → ok' s e) {s : σ} {es : List ι} :
    Along step ok s es → Along step ok' s es := by
  induction es generalizing s with
  | nil => exact id
  | cons e es ih => exact fun ⟨h₁, h₂⟩ => ⟨h s e h₁, ih h₂⟩

theorem Along.and {ok' : σ → ι → Prop} {s : σ} {es : List ι} (h : Along step ok s es)
    (h' : Along step ok' s es) : Along step (fun s e => ok s e ∧ ok' s e) s es := by
  induction es generalizing s with
  | nil => trivial
  | cons e es ih => exact ⟨⟨h.1, h'.1⟩, ih h.2 h'.2⟩

theorem along_of_forall {p : ι → Prop} (s : σ) {es : List ι} (h : ∀ e ∈ es, p e) :
    Along step (fun _ e => p e) s es := by
  induction es generalizing s with
  | nil => trivial
  | cons e es ih =>
    exact ⟨h e List.mem_cons_self, ih _ fun e' he' => h e' (List.mem_cons_of_mem _ he')⟩

variable (step) in
theorem along_true (s : σ) (es : List ι) : Along step (fun _ _ => True) s es :=
  along_of_forall s fun _ _ => trivial

theorem along_iff_forall_isPrefix {s : σ} {es : List ι} :
    Along step ok s es ↔ ∀ es' e, es' ++ [e] <+: es → ok (run step s es') e := by
  constructor
  · rintro h es' e ⟨fs, rfl⟩
    rw [along_append, along_append] at h
    exact h.1.2.1
  · intro h
    induction es using List.reverseRecOn with
    | nil => trivial
    | append_singleton es e ih =>
      rw [along_append]
      refine ⟨ih fun es' e' h' => h es' e' (h'.trans (List.prefix_append _ _)), ?_, trivial⟩
      exact h es e (List.prefix_refl _)

theorem Along.of_isPrefix {s : σ} {es es' : List ι} (h : Along step ok s es) (hp : es' <+: es) :
    Along step ok s es' := by
  obtain ⟨fs, rfl⟩ := hp
  exact ((along_append s es' fs).mp h).1

theorem Along.forall_mem_log {obs : σ → ι → List ο} {Q : ο → Prop}
    (hobs : ∀ s e, ok s e → ∀ o ∈ obs s e, Q o) {s : σ} {es : List ι} (h : Along step ok s es) :
    ∀ o ∈ log step obs s es, Q o := by
  induction es generalizing s with
  | nil => simp
  | cons e es ih =>
    intro o ho
    rw [log_cons, List.mem_append] at ho
    rcases ho with ho | ho
    · exact hobs s e h.1 o ho
    · exact ih h.2 o ho

theorem along_of_forall_mem_log {obs : σ → ι → List ο} {Q : ο → Prop}
    (hobs : ∀ s e, (∀ o ∈ obs s e, Q o) → ok s e) {s : σ} {es : List ι}
    (h : ∀ o ∈ log step obs s es, Q o) : Along step ok s es := by
  induction es generalizing s with
  | nil => trivial
  | cons e es ih =>
    rw [log_cons] at h
    exact ⟨hobs s e fun o ho => h o (List.mem_append_left _ ho),
      ih fun o ho => h o (List.mem_append_right _ ho)⟩

/-- An observer that records in no step more than another one, and in the whole run equally much, does
so in every step. -/
theorem along_length_eq {ο₁ ο₂ : Type*} {obs₁ : σ → ι → List ο₁} {obs₂ : σ → ι → List ο₂}
    (hle : ∀ s e, (obs₁ s e).length ≤ (obs₂ s e).length) {s : σ} {es : List ι}
    (h : (log step obs₁ s es).length = (log step obs₂ s es).length) :
    Along step (fun s e => (obs₁ s e).length = (obs₂ s e).length) s es := by
  have hrun (s : σ) (es : List ι) : (log step obs₁ s es).length ≤ (log step obs₂ s es).length := by
    induction es generalizing s with
    | nil => exact Nat.le_refl _
    | cons e es ih =>
      rw [log_cons, log_cons, List.length_append, List.length_append]
      exact Nat.add_le_add (hle s e) (ih _)
  induction es generalizing s with
  | nil => trivial
  | cons e es ih =>
    have hstep := hle s e
    have hrest := hrun (step s e) es
    rw [log_cons, log_cons, List.length_append, List.length_append] at h
    exact ⟨by omega, ih (by omega)⟩

/-- **Induction along a run.** A property of runs that holds of the empty run and survives one
more admissible event holds of every admissible run. -/
theorem Along.snocInduction {s : σ} {P : List ι → Prop} (nil : P [])
    (snoc : ∀ es e, Along step ok s es → P es → ok (run step s es) e → P (es ++ [e])) :
    ∀ es, Along step ok s es → P es := by
  intro es
  induction es using List.reverseRecOn with
  | nil => exact fun _ => nil
  | append_singleton es e ih =>
    intro h
    rw [along_append] at h
    exact snoc es e h.1 (ih h.1) h.2.1

/-- **Invariants.** What the start satisfies and every admissible step keeps holds along the
whole run. -/
theorem Along.invariant (Inv : σ → Prop) (keep : ∀ s e, Inv s → ok s e → Inv (step s e)) {s : σ}
    (h₀ : Inv s) {es : List ι} (h : Along step ok s es) : Inv (run step s es) :=
  Along.snocInduction (P := fun es => Inv (run step s es)) h₀
    (fun es e _ ih he => by rw [run_append]; exact keep _ e ih he) es h

/-- Two observers that agree in every admissible step from a state of the invariant record the
same. -/
theorem Along.log_congr (Inv : σ → Prop) {obs obs' : σ → ι → List ο}
    (keep : ∀ s e, Inv s → ok s e → Inv (step s e))
    (agree : ∀ s e, Inv s → ok s e → obs s e = obs' s e) {s : σ} (h₀ : Inv s) {es : List ι}
    (h : Along step ok s es) : log step obs s es = log step obs' s es := by
  induction es generalizing s with
  | nil => rfl
  | cons e es ih =>
    rw [log_cons, log_cons, agree s e h₀ h.1, ih (keep s e h₀ h.1) h.2]

theorem Along.log_eq_nil (Inv : σ → Prop) {obs : σ → ι → List ο}
    (keep : ∀ s e, Inv s → ok s e → Inv (step s e))
    (silent : ∀ s e, Inv s → ok s e → obs s e = []) {s : σ} (h₀ : Inv s) {es : List ι}
    (h : Along step ok s es) : log step obs s es = [] := by
  induction es generalizing s with
  | nil => rfl
  | cons e es ih => rw [log_cons, silent s e h₀ h.1, ih (keep s e h₀ h.1) h.2, List.append_nil]

theorem Along.run_eq_foldl {γ : Type*} (Inv : σ → Prop) {obs : σ → ι → List ο} {part : σ → γ}
    {f : γ → ο → γ} (keep : ∀ s e, Inv s → ok s e → Inv (step s e))
    (follow : ∀ s e, Inv s → ok s e → part (step s e) = (obs s e).foldl f (part s)) {s : σ}
    (h₀ : Inv s) {es : List ι} (h : Along step ok s es) :
    part (run step s es) = (log step obs s es).foldl f (part s) := by
  induction es generalizing s with
  | nil => rfl
  | cons e es ih =>
    rw [run_cons, ih (keep s e h₀ h.1) h.2, follow s e h₀ h.1, log_cons, List.foldl_append]

/-- **A component** under an invariant: a part that is itself a machine while the rest leaves it alone. -/
theorem Along.run_component {τ κ : Type*} {pstep : τ → κ → τ} {part : σ → τ} {feed : σ → ι → κ}
    (Inv : σ → Prop) (keep : ∀ s e, Inv s → ok s e → Inv (step s e))
    (h : ∀ s e, Inv s → ok s e → part (step s e) = pstep (part s) (feed s e)) {s : σ} (h₀ : Inv s)
    {es : List ι} (hes : Along step ok s es) :
    part (run step s es) = run pstep (part s) (log step (fun s e => [feed s e]) s es) := by
  induction es generalizing s with
  | nil => rfl
  | cons e es ih =>
    rw [run_cons, ih (keep s e h₀ hes.1) hes.2, h s e h₀ hes.1, log_cons, run_append, run_cons, run_nil]

theorem Along.log_component {τ κ : Type*} {pstep : τ → κ → τ} {part : σ → τ} {feed : σ → ι → κ}
    (Inv : σ → Prop) (keep : ∀ s e, Inv s → ok s e → Inv (step s e))
    (h : ∀ s e, Inv s → ok s e → part (step s e) = pstep (part s) (feed s e)) (pobs : τ → κ → List ο)
    {s : σ} (h₀ : Inv s) {es : List ι} (hes : Along step ok s es) :
    log step (fun s e => pobs (part s) (feed s e)) s es =
      log pstep pobs (part s) (log step (fun s e => [feed s e]) s es) := by
  induction es generalizing s with
  | nil => rfl
  | cons e es ih =>
    rw [log_cons, ih (keep s e h₀ hes.1) hes.2, h s e h₀ hes.1, log_cons, log_append, log_cons, log_nil,
      List.append_nil, run_cons, run_nil]

theorem Along.component {τ κ : Type*} {pstep : τ → κ → τ} {part : σ → τ} {feed : σ → ι → κ}
    {pok : τ → κ → Prop} (Inv : σ → Prop) (keep : ∀ s e, Inv s → ok s e → Inv (step s e))
    (h : ∀ s e, Inv s → ok s e → part (step s e) = pstep (part s) (feed s e))
    (hok : ∀ s e, Inv s → ok s e → pok (part s) (feed s e)) {s : σ} (h₀ : Inv s) {es : List ι}
    (hes : Along step ok s es) :
    Along pstep pok (part s) (log step (fun s e => [feed s e]) s es) := by
  induction es generalizing s with
  | nil => trivial
  | cons e es ih =>
    rw [log_cons, List.singleton_append, along_cons]
    refine ⟨hok s e h₀ hes.1, ?_⟩
    rw [← h s e h₀ hes.1]
    exact ih (keep s e h₀ hes.1) hes.2

/-- **A buffer.** If in every such step what leaves, followed by what is held after it, is what was
held followed by what enters, then the same is true of the whole run. -/
theorem Along.log_buffer (Inv : σ → Prop) (held : σ → List ο) {out inp : σ → ι → List ο}
    (keep : ∀ s e, Inv s → ok s e → Inv (step s e))
    (pass : ∀ s e, Inv s → ok s e → out s e ++ held (step s e) = held s ++ inp s e) {s : σ}
    (h₀ : Inv s) {es : List ι} (h : Along step ok s es) :
    log step out s es ++ held (run step s es) = held s ++ log step inp s es := by
  induction es generalizing s with
  | nil => simp
  | cons e es ih =>
    rw [log_cons, log_cons, run_cons, List.append_assoc, ih (keep s e h₀ h.1) h.2,
      ← List.append_assoc, pass s e h₀ h.1, List.append_assoc]

/-- **Refinement.** The machine follows an abstract one, of which a step takes any number of commands;
what it shows, followed by what it holds, is what the abstract machine shows. -/
theorem Along.log_refines {τ κ : Type*} {astep : τ → κ → τ} {aobs : τ → κ → List ο} (Inv : σ → Prop)
    (abs : σ → τ) (held : σ → List ο) {cmds : σ → ι → List κ} {out : σ → ι → List ο}
    (keep : ∀ s e, Inv s → ok s e → Inv (step s e))
    (sim : ∀ s e, Inv s → ok s e → abs (step s e) = run astep (abs s) (cmds s e))
    (pass : ∀ s e, Inv s → ok s e →
      out s e ++ held (step s e) = held s ++ log astep aobs (abs s) (cmds s e))
    {s : σ} (h₀ : Inv s) {es : List ι} (h : Along step ok s es) :
    abs (run step s es) = run astep (abs s) (log step cmds s es) ∧
      log step out s es ++ held (run step s es) =
        held s ++ log astep aobs (abs s) (log step cmds s es) := by
  induction es generalizing s with
  | nil => simp
  | cons e es ih =>
    obtain ⟨hstate, hlog⟩ := ih (keep s e h₀ h.1) h.2
    rw [sim s e h₀ h.1] at hstate hlog
    rw [run_cons, log_cons, log_cons, run_append, log_append]
    refine ⟨hstate, ?_⟩
    rw [List.append_assoc, hlog, ← List.append_assoc, pass s e h₀ h.1, List.append_assoc]

theorem Along.forall₂_log {ο' : Type*} {Q : ο → ο' → Prop} (Inv : σ → Prop)
    {obs : σ → ι → List ο} {obs' : σ → ι → List ο'}
    (keep : ∀ s e, Inv s → ok s e → Inv (step s e))
    (rel : ∀ s e, Inv s → ok s e → List.Forall₂ Q (obs s e) (obs' s e)) {s : σ} (h₀ : Inv s)
    {es : List ι} (h : Along step ok s es) :
    List.Forall₂ Q (log step obs s es) (log step obs' s es) := by
  induction es generalizing s with
  | nil => exact .nil
  | cons e es ih => exact List.rel_append (rel s e h₀ h.1) (ih (keep s e h₀ h.1) h.2)

theorem Along.log_registered (Inv : σ → Prop) {out : σ → List ο} {inp : σ → ι → List ο}
    (keep : ∀ s e, Inv s → ok s e → Inv (step s e))
    (next : ∀ s e, Inv s → ok s e → out (step s e) = inp s e) {s : σ} (h₀ : Inv s) {es : List ι}
    (h : Along step ok s es) (e : ι) :
    log step (fun s _ => out s) s (es ++ [e]) = out s ++ log step inp s es := by
  rw [log_snoc]
  exact h.log_buffer Inv out keep (fun s e hs he => by rw [next s e hs he]) h₀

/-! ## Runs with their past -/

/-- A machine with what has been recorded so far. -/
structure Traced (σ ο : Type*) where
  state : σ
  past : List ο

/-- One event, which is recorded. -/
def Traced.next (step : σ → ι → σ) (obs : σ → ι → List ο) (p : Traced σ ο) (e : ι) : Traced σ ο :=
  ⟨step p.state e, p.past ++ obs p.state e⟩

theorem run_traced (obs : σ → ι → List ο) (p : Traced σ ο) (es : List ι) :
    run (Traced.next step obs) p es =
      ⟨run step p.state es, p.past ++ log step obs p.state es⟩ := by
  induction es generalizing p with
  | nil => simp
  | cons e es ih => rw [run_cons, ih, run_cons, log_cons, ← List.append_assoc]; rfl

theorem log_traced {ο' : Type*} (obs : σ → ι → List ο) (obs' : σ → ι → List ο')
    (p : Traced σ ο) (es : List ι) :
    log (Traced.next step obs) (fun p => obs' p.state) p es = log step obs' p.state es := by
  induction es generalizing p with
  | nil => rfl
  | cons e es ih => rw [log_cons, log_cons, ih]; rfl

theorem past_isPrefix_of_mem_log {ο' : Type*} (obs : σ → ι → List ο) (obs' : σ → ι → List ο')
    (p : Traced σ ο) (es : List ι) :
    ∀ x ∈ log (Traced.next step obs) (fun p e => (obs' p.state e).map fun o => (o, p.past)) p es,
      p.past <+: x.2 := by
  induction es generalizing p with
  | nil => simp
  | cons e es ih =>
    intro x hx
    rw [log_cons, List.mem_append] at hx
    rcases hx with hx | hx
    · obtain ⟨o, -, rfl⟩ := List.mem_map.mp hx
      exact List.prefix_refl _
    · exact (List.prefix_append _ _).trans (ih _ x hx)

theorem isPrefix_past_of_mem_log {ο' : Type*} (obs : σ → ι → List ο) (obs' : σ → ι → List ο')
    (p : Traced σ ο) (es : List ι) :
    ∀ x ∈ log (Traced.next step obs) (fun p e => (obs' p.state e).map fun o => (o, p.past)) p es,
      x.2 <+: p.past ++ log step obs p.state es := by
  induction es generalizing p with
  | nil => simp
  | cons e es ih =>
    intro x hx
    rw [log_cons, List.mem_append] at hx
    rcases hx with hx | hx
    · obtain ⟨o, -, rfl⟩ := List.mem_map.mp hx
      exact List.prefix_append _ _
    · rw [log_cons, ← List.append_assoc]
      exact ih _ x hx

/-! ## Two runs side by side -/

/-- Two copies of a machine, each with its own event. -/
def paired (step : σ → ι → σ) (p : σ × σ) (e : ι × ι) : σ × σ := (step p.1 e.1, step p.2 e.2)

theorem run_paired (p : σ × σ) (es : List (ι × ι)) :
    run (paired step) p es = (run step p.1 (es.map Prod.fst), run step p.2 (es.map Prod.snd)) := by
  induction es generalizing p with
  | nil => rfl
  | cons e es ih => rw [run_cons, ih]; rfl

theorem log_paired_fst (obs : σ → ι → List ο) (p : σ × σ) (es : List (ι × ι)) :
    log (paired step) (fun p e => obs p.1 e.1) p es = log step obs p.1 (es.map Prod.fst) := by
  induction es generalizing p with
  | nil => rfl
  | cons e es ih => rw [log_cons, List.map_cons, log_cons, ih]; rfl

theorem log_paired_snd (obs : σ → ι → List ο) (p : σ × σ) (es : List (ι × ι)) :
    log (paired step) (fun p e => obs p.2 e.2) p es = log step obs p.2 (es.map Prod.snd) := by
  induction es generalizing p with
  | nil => rfl
  | cons e es ih => rw [log_cons, List.map_cons, log_cons, ih]; rfl

/-! ## Counters -/

/-- **A counter** shows, up to its width, the events counted since it was wiped last. -/
theorem run_eq_countP {w : ℕ} {count : σ → BitVec w} {wipe on : σ → ι → Bool}
    (h : ∀ s e, count (step s e) =
      if wipe s e then 0 else if on s e then count s + 1 else count s)
    {s : σ} (h₀ : count s = 0) (es : List ι) :
    count (run step s es) = BitVec.ofNat w
      (((log step (fun s e => [(wipe s e, on s e)]) s es).rtakeWhile fun t => !t.1).countP
        Prod.snd) := by
  induction es using List.reverseRecOn with
  | nil => simpa using h₀
  | append_singleton es e ih =>
    rw [run_snoc, h, log_snoc]
    cases hw : wipe (run step s es) e with
    | true => simp
    | false =>
      rw [List.rtakeWhile_concat_pos _ _ _ (by simp), List.countP_append, ih]
      cases ho : on (run step s es) e with
      | true => simp [BitVec.ofNat_add]
      | false => simp

end Run

end PacketBuffering
