import Mathlib.Data.List.Induction

/-!
# Runs of a labelled transition system

A system has initial states and a step relation whose steps carry an event. A run is the list of
the steps taken, each with the state before it, its event and the state after it, so a property
of a run can speak of the states reached, of the events, or of both.

- `Run.invariant`, `Run.invariant_trace`: what one step preserves holds at the end of a run; the
  second form may mention the steps taken so far.
- `Run.log_prefix`: a log that every step extends is never rewritten.
- `Run.reached_iff`: if a step leads from a good state to a good state exactly when it meets a
  condition, a run stays good exactly when all its steps meet the condition.
- `Run.project`: a run of a system is a run of its component.
- `Sys.ofFun`, `Run.exec`: the runs of a deterministic machine.
- `Sys.ofOption`, `Run.execOption`, `Run.traceOption`: those of one whose events are not always
  enabled.
-/

namespace Runs

/-- A transition system: its initial states and its steps, labelled with events. -/
structure Sys (σ : Type*) (ε : Type*) where
  init : σ → Prop
  step : σ → ε → σ → Prop

/-- One step of a run. -/
structure Step (σ : Type*) (ε : Type*) where
  pre : σ
  event : ε
  post : σ

section

variable {σ : Type*} {ε : Type*} {M : Sys σ ε}

/-- `Run M s tr t`: the steps `tr` lead from `s` to `t`. -/
inductive Run (M : Sys σ ε) (s : σ) : List (Step σ ε) → σ → Prop
  | nil : Run M s [] s
  | snoc {tr t e t'} : Run M s tr t → M.step t e t' → Run M s (tr ++ [⟨t, e, t'⟩]) t'

/-- The events of a run, in order. -/
def events (tr : List (Step σ ε)) : List ε := tr.map (·.event)

@[simp] theorem events_nil : events ([] : List (Step σ ε)) = [] := rfl

@[simp] theorem events_append (a b : List (Step σ ε)) : events (a ++ b) = events a ++ events b :=
  List.map_append

@[simp] theorem events_singleton (x : Step σ ε) : events [x] = [x.event] := rfl

/-- The steps before a listed step are a run to the state before it. -/
theorem Run.before_of_mem {s t : σ} {tr : List (Step σ ε)} (h : Run M s tr t) :
    ∀ x ∈ tr, ∃ tr', Run M s tr' x.pre ∧ M.step x.pre x.event x.post := by
  induction h with
  | nil => simp
  | snoc hr hs ih =>
    intro x hx
    rcases List.mem_append.mp hx with hx | hx
    · exact ih x hx
    · rw [List.mem_singleton.mp hx]
      exact ⟨_, hr, hs⟩

/-- A run up to one of its steps is a run, and the step is one. -/
theorem Run.split {s t : σ} {a b : List (Step σ ε)} {x : Step σ ε} (h : Run M s (a ++ x :: b) t) :
    Run M s a x.pre ∧ M.step x.pre x.event x.post := by
  generalize htr : a ++ x :: b = tr at h
  induction h generalizing b with
  | nil => simp at htr
  | snoc hr hs ih =>
    rcases List.eq_nil_or_concat b with rfl | ⟨b, y, rfl⟩
    · obtain ⟨rfl, rfl⟩ := List.append_singleton_inj.mp htr
      exact ⟨hr, hs⟩
    · rw [List.concat_eq_append, ← List.cons_append, ← List.append_assoc] at htr
      exact ih (List.append_singleton_inj.mp htr).1

/-- An invariant that may mention the steps taken so far. -/
theorem Run.invariant_trace {s t : σ} {tr : List (Step σ ε)} (h : Run M s tr t)
    {P : List (Step σ ε) → σ → Prop} (h0 : P [] s)
    (hstep : ∀ tr t e t', Run M s tr t → P tr t → M.step t e t' → P (tr ++ [⟨t, e, t'⟩]) t') :
    P tr t := by
  induction h with
  | nil => exact h0
  | snoc hr hs ih => exact hstep _ _ _ _ hr ih hs

/-- What every step preserves holds at the end of a run. -/
theorem Run.invariant {s t : σ} {tr : List (Step σ ε)} (h : Run M s tr t) {P : σ → Prop}
    (h0 : P s) (hstep : ∀ t e t', P t → M.step t e t' → P t') : P t :=
  h.invariant_trace (P := fun _ t => P t) h0 fun _ _ _ _ _ hp hs => hstep _ _ _ hp hs

/-- The state at the end of a run is the last one reached, or the start. -/
theorem Run.last {s t : σ} {tr : List (Step σ ε)} (h : Run M s tr t) :
    t = s ∧ tr = [] ∨ ∃ x ∈ tr, x.post = t := by
  cases h with
  | nil => exact .inl ⟨rfl, rfl⟩
  | snoc _ _ => exact .inr ⟨_, List.mem_append_right _ (List.mem_singleton.mpr rfl), rfl⟩

/-- What a step has added to a log. -/
def Step.added {α : Type*} (log : σ → List α) (x : Step σ ε) : List α :=
  (log x.post).drop (log x.pre).length

/-- A log that every step extends holds, at the end of a run, what it held after each step. -/
theorem Run.log_prefix {s t : σ} {tr : List (Step σ ε)} (h : Run M s tr t) {α : Type*}
    {log : σ → List α} (hstep : ∀ t e t', M.step t e t' → log t <+: log t') :
    ∀ x ∈ tr, log x.post <+: log t := by
  induction h with
  | nil => simp
  | snoc hr hs ih =>
    intro x hx
    rcases List.mem_append.mp hx with hx | hx
    · exact (ih x hx).trans (hstep _ _ _ hs)
    · cases List.mem_singleton.mp hx
      exact List.prefix_rfl

/-- The steps of a component: those that show an event of it. -/
def project {τ δ : Type*} (f : σ → τ) (g : Step σ ε → Option δ) (tr : List (Step σ ε)) :
    List (Step τ δ) :=
  tr.filterMap fun x => (g x).map fun d => ⟨f x.pre, d, f x.post⟩

theorem project_snoc {τ δ : Type*} (f : σ → τ) (g : Step σ ε → Option δ) (tr : List (Step σ ε))
    (x : Step σ ε) : project f g (tr ++ [x]) =
      project f g tr ++ ((g x).map fun d => ⟨f x.pre, d, f x.post⟩).toList := by
  rw [project, List.filterMap_append, List.filterMap_cons, List.filterMap_nil]
  cases g x <;> rfl

/-- A run of a system is a run of each component whose steps it takes or leaves out. -/
theorem Run.project {τ δ : Type*} {N : Sys τ δ} {f : σ → τ} {g : Step σ ε → Option δ} {s t : σ}
    {tr : List (Step σ ε)} (h : Run M s tr t)
    (hstep : ∀ t e t', M.step t e t' →
      (∃ d, g ⟨t, e, t'⟩ = some d ∧ N.step (f t) d (f t')) ∨ (g ⟨t, e, t'⟩ = none ∧ f t' = f t)) :
    Run N (f s) (Runs.project f g tr) (f t) := by
  induction h with
  | nil => exact .nil
  | snoc hr hs ih =>
    rw [project_snoc]
    obtain ⟨d, hd, hn⟩ | ⟨hd, hsame⟩ := hstep _ _ _ hs
    · rw [hd]
      exact ih.snoc hn
    · rw [hd, hsame]
      exact (List.append_nil _).symm ▸ ih

/-- If a step from a state with `P` ends in one with `P` exactly when it meets `C`, then from a
state with `P` every state reached has `P` exactly when every step meets `C`. -/
theorem Run.reached_iff {s t : σ} {tr : List (Step σ ε)} (h : Run M s tr t) {P : σ → Prop}
    {C : σ → ε → Prop} (h0 : P s)
    (hstep : ∀ t e t', P t → M.step t e t' → (P t' ↔ C t e)) :
    (∀ x ∈ tr, P x.post) ↔ ∀ x ∈ tr, C x.pre x.event := by
  induction h with
  | nil => simp
  | snoc hr hs ih =>
    have hlast : (∀ x ∈ _, P (Step.post x)) → P _ := fun hall =>
      hr.last.elim (fun ⟨he, _⟩ => he ▸ h0) fun ⟨x, hx, he⟩ => he ▸ hall x hx
    simp only [List.forall_mem_append, List.forall_mem_singleton]
    constructor
    · rintro ⟨hall, hp⟩
      exact ⟨ih.mp hall, (hstep _ _ _ (hlast hall) hs).mp hp⟩
    · rintro ⟨hall, hc⟩
      have hall' := ih.mpr hall
      exact ⟨hall', (hstep _ _ _ (hlast hall') hs).mpr hc⟩

/-- The system whose every event leads to one state. -/
def Sys.ofFun (init : σ → Prop) (f : σ → ε → σ) : Sys σ ε where
  init := init
  step t e t' := t' = f t e

/-- The steps of a deterministic machine over a list of events. -/
def trace (f : σ → ε → σ) : σ → List ε → List (Step σ ε)
  | _, [] => []
  | s, e :: es => ⟨s, e, f s e⟩ :: trace f (f s e) es

theorem trace_append (f : σ → ε → σ) (s : σ) (a b : List ε) :
    trace f s (a ++ b) = trace f s a ++ trace f (a.foldl f s) b := by
  induction a generalizing s with
  | nil => rfl
  | cons e es ih => simp [trace, ih]

/-- A deterministic machine runs on every list of events. -/
theorem Run.exec (init : σ → Prop) (f : σ → ε → σ) (s : σ) (es : List ε) :
    Run (Sys.ofFun init f) s (trace f s es) (es.foldl f s) := by
  induction es using List.reverseRecOn with
  | nil => exact .nil
  | append_singleton es e ih =>
    rw [trace_append, List.foldl_append]
    exact .snoc ih rfl

/-- The system whose events lead to one state where they are enabled. -/
def Sys.ofOption (init : σ → Prop) (f : σ → ε → Option σ) : Sys σ ε where
  init := init
  step t e t' := f t e = some t'

/-- A list of events that are enabled one after the other is a run. -/
theorem Run.execOption (init : σ → Prop) {f : σ → ε → Option σ} {s t : σ} {es : List ε}
    (h : es.foldlM f s = some t) : ∃ tr, Run (Sys.ofOption init f) s tr t ∧ events tr = es := by
  induction es using List.reverseRecOn generalizing t with
  | nil =>
    cases h
    exact ⟨[], .nil, rfl⟩
  | append_singleton es e ih =>
    rw [List.foldlM_append] at h
    obtain ⟨u, hu, he⟩ := Option.bind_eq_some_iff.mp h
    obtain ⟨tr, hrun, rfl⟩ := ih hu
    simp only [List.foldlM_cons, List.foldlM_nil, bind_pure] at he
    exact ⟨tr ++ [⟨u, e, t⟩], hrun.snoc he, events_append ..⟩

/-- The steps of such a machine over a list of events, up to one that is not enabled. -/
def traceOption (f : σ → ε → Option σ) : σ → List ε → List (Step σ ε)
  | _, [] => []
  | s, e :: es =>
    match f s e with
    | some t => ⟨s, e, t⟩ :: traceOption f t es
    | none => []

theorem traceOption_append {f : σ → ε → Option σ} {s t : σ} {a : List ε}
    (h : a.foldlM f s = some t) (b : List ε) :
    traceOption f s (a ++ b) = traceOption f s a ++ traceOption f t b := by
  induction a generalizing s with
  | nil =>
    cases h
    rfl
  | cons e a ih =>
    rw [List.foldlM_cons] at h
    obtain ⟨u, hu, h⟩ := Option.bind_eq_some_iff.mp h
    simp only [List.cons_append, traceOption, hu, ih h]

theorem event_mem_of_mem_traceOption {f : σ → ε → Option σ} {s : σ} {es : List ε} {x : Step σ ε}
    (h : x ∈ traceOption f s es) : x.event ∈ es := by
  induction es generalizing s with
  | nil => cases h
  | cons e es ih =>
    rw [traceOption] at h
    split at h
    · rcases List.mem_cons.mp h with rfl | h
      · exact List.mem_cons_self
      · exact List.mem_cons_of_mem _ (ih h)
    · cases h

/-- The steps over enabled events are a run. -/
theorem Run.traceOption (init : σ → Prop) (es : List ε) {f : σ → ε → Option σ} {s t : σ}
    (h : es.foldlM f s = some t) : Run (Sys.ofOption init f) s (Runs.traceOption f s es) t := by
  induction es using List.reverseRecOn generalizing t with
  | nil =>
    cases h
    exact .nil
  | append_singleton es e ih =>
    rw [List.foldlM_append] at h
    obtain ⟨u, hu, he⟩ := Option.bind_eq_some_iff.mp h
    simp only [List.foldlM_cons, List.foldlM_nil, bind_pure] at he
    rw [traceOption_append hu, Runs.traceOption, he]
    exact (ih hu).snoc he

end

end Runs
