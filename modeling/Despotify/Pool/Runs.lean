import Mathlib.Data.List.Basic

/-!
# Runs of a labelled system

A system is a partial step `σ → ε → Option σ`: the event says who moves and
what the environment chooses, and `none` means the event cannot happen in that
state.  A run is a list of events; `exec` replays it.

* `exec_inv`: what holds at the start and is kept by every step holds in every
  state reached.
* `AllSteps`, `exec_inv_of_allSteps`: the same for the runs all of whose steps
  meet a condition on the state before the step and the event.
* `outputs`, `exec_inv_outputs`: what a run puts out, and an invariant of it.
* `Always`: a property of every state a run goes through.
-/

namespace Runs

variable {σ ε : Type}

def exec (step : σ → ε → Option σ) : σ → List ε → Option σ
  | s, [] => some s
  | s, e :: es => (step s e).bind fun s' => exec step s' es

@[simp] theorem exec_nil (step : σ → ε → Option σ) (s : σ) : exec step s [] = some s := rfl

theorem exec_cons (step : σ → ε → Option σ) (s : σ) (e : ε) (es : List ε) :
    exec step s (e :: es) = (step s e).bind fun s' => exec step s' es := rfl

theorem exec_cons_eq_some {step : σ → ε → Option σ} {s t : σ} {e : ε} {es : List ε} :
    exec step s (e :: es) = some t ↔ ∃ s', step s e = some s' ∧ exec step s' es = some t := by
  rw [exec_cons, Option.bind_eq_some_iff]

theorem exec_append (step : σ → ε → Option σ) (s : σ) (es fs : List ε) :
    exec step s (es ++ fs) = (exec step s es).bind fun s' => exec step s' fs := by
  induction es generalizing s with
  | nil => rfl
  | cons e es ih =>
    rw [List.cons_append, exec_cons, exec_cons, Option.bind_assoc]
    congr 1
    funext s'
    exact ih s'

/-- A state some run leads to. -/
def Reachable (step : σ → ε → Option σ) (init s : σ) : Prop :=
  ∃ es, exec step init es = some s

/-- Every step of the run, taken from the state it is taken in, meets `ok`. -/
def AllSteps (step : σ → ε → Option σ) (ok : σ → ε → Prop) : σ → List ε → Prop
  | _, [] => True
  | s, e :: es => ok s e ∧ ∀ s', step s e = some s' → AllSteps step ok s' es

/-- A condition that can be decided at each step can be decided along a run. -/
def AllSteps.decide {step : σ → ε → Option σ} {ok : σ → ε → Prop} [∀ s e, Decidable (ok s e)] :
    ∀ (s : σ) (es : List ε), Decidable (AllSteps step ok s es)
  | _, [] => isTrue trivial
  | s, e :: es =>
    match h : step s e with
    | none => decidable_of_iff (ok s e)
        ⟨fun hok => ⟨hok, fun _ hs => nomatch h.symm.trans hs⟩, fun hall => hall.1⟩
    | some s' =>
      have : Decidable (AllSteps step ok s' es) := AllSteps.decide s' es
      decidable_of_iff (ok s e ∧ AllSteps step ok s' es)
        ⟨fun hall => ⟨hall.1, fun _ hs => Option.some.inj (h.symm.trans hs) ▸ hall.2⟩,
          fun hall => ⟨hall.1, hall.2 s' h⟩⟩

instance {step : σ → ε → Option σ} {ok : σ → ε → Prop} [∀ s e, Decidable (ok s e)] (s : σ)
    (es : List ε) : Decidable (AllSteps step ok s es) := AllSteps.decide s es

theorem AllSteps.cons {step : σ → ε → Option σ} {ok : σ → ε → Prop} {s s' : σ} {e : ε}
    {es : List ε} (hok : ok s e) (hs : step s e = some s') (h : AllSteps step ok s' es) :
    AllSteps step ok s (e :: es) := by
  refine ⟨hok, fun t ht => ?_⟩
  rw [hs] at ht
  cases ht
  exact h

theorem AllSteps.append {step : σ → ε → Option σ} {ok : σ → ε → Prop} {s t : σ} {es fs : List ε}
    (h : AllSteps step ok s es) (ht : exec step s es = some t) (h' : AllSteps step ok t fs) :
    AllSteps step ok s (es ++ fs) := by
  induction es generalizing s with
  | nil =>
    cases ht
    exact h'
  | cons e es ih =>
    obtain ⟨s', hs, ht'⟩ := exec_cons_eq_some.mp ht
    exact .cons h.1 hs (ih (h.2 s' hs) ht')

/-- A condition on the events alone is met along the run. -/
theorem AllSteps.of_forall {step : σ → ε → Option σ} {p : ε → Prop} {es : List ε}
    (hp : ∀ e ∈ es, p e) (s : σ) : AllSteps step (fun _ e => p e) s es := by
  induction es generalizing s with
  | nil => trivial
  | cons e es ih =>
    obtain ⟨hpe, hpes⟩ := List.forall_mem_cons.mp hp
    exact ⟨hpe, fun s' _ => ih hpes s'⟩

theorem AllSteps.imp {step : σ → ε → Option σ} {ok ok' : σ → ε → Prop}
    (himp : ∀ s e, ok s e → ok' s e) {s : σ} {es : List ε} (h : AllSteps step ok s es) :
    AllSteps step ok' s es := by
  induction es generalizing s with
  | nil => trivial
  | cons e es ih => exact ⟨himp s e h.1, fun s' hs => ih (h.2 s' hs)⟩

/-- A run all of whose steps meet a condition that makes them possible can be made. -/
theorem AllSteps.exists_exec {step : σ → ε → Option σ} {ok : σ → ε → Prop}
    (hok : ∀ s e, ok s e → ∃ s', step s e = some s') {s : σ} {es : List ε}
    (h : AllSteps step ok s es) : ∃ t, exec step s es = some t := by
  induction es generalizing s with
  | nil => exact ⟨s, rfl⟩
  | cons e es ih =>
    obtain ⟨s', hs⟩ := hok s e h.1
    obtain ⟨t, ht⟩ := ih (h.2 s' hs)
    exact ⟨t, exec_cons_eq_some.mpr ⟨s', hs, ht⟩⟩

theorem AllSteps.and {step : σ → ε → Option σ} {ok ok' : σ → ε → Prop} {s : σ} {es : List ε}
    (h : AllSteps step ok s es) (h' : AllSteps step ok' s es) :
    AllSteps step (fun s e => ok s e ∧ ok' s e) s es := by
  induction es generalizing s with
  | nil => trivial
  | cons e es ih => exact ⟨⟨h.1, h'.1⟩, fun s' hs => ih (h.2 s' hs) (h'.2 s' hs)⟩

/-- What an invariant and the condition say of every step. -/
theorem AllSteps.of_inv {step : σ → ε → Option σ} {ok ok' : σ → ε → Prop} {Inv : σ → Prop}
    (hstep : ∀ s e s', Inv s → ok s e → step s e = some s' → Inv s')
    (himp : ∀ s e, Inv s → ok s e → ok' s e) {es : List ε} {s : σ} (hs : Inv s)
    (h : AllSteps step ok s es) : AllSteps step ok' s es := by
  induction es generalizing s with
  | nil => trivial
  | cons e es ih => exact ⟨himp s e hs h.1, fun s' h' => ih (hstep s e s' hs h.1 h') (h.2 s' h')⟩

theorem exec_inv_of_allSteps {step : σ → ε → Option σ} {ok : σ → ε → Prop} {Inv : σ → Prop}
    (hstep : ∀ s e s', Inv s → ok s e → step s e = some s' → Inv s')
    {es : List ε} {s t : σ} (hs : Inv s) (hok : AllSteps step ok s es)
    (h : exec step s es = some t) : Inv t := by
  induction es generalizing s with
  | nil => cases h; exact hs
  | cons e es ih =>
    obtain ⟨s', h1, h2⟩ := exec_cons_eq_some.mp h
    exact ih (hstep s e s' hs hok.1 h1) (hok.2 s' h1) h2

/-- The invariant rule. -/
theorem exec_inv {step : σ → ε → Option σ} {Inv : σ → Prop}
    (hstep : ∀ s e s', Inv s → step s e = some s' → Inv s')
    {es : List ε} {s t : σ} (hs : Inv s) (h : exec step s es = some t) : Inv t := by
  induction es generalizing s with
  | nil => cases h; exact hs
  | cons e es ih =>
    obtain ⟨s', h1, h2⟩ := exec_cons_eq_some.mp h
    exact ih (hstep s e s' hs h1) h2

/-- What the steps of a run put out. -/
def outputs {β : Type} (step : σ → ε → Option σ) (out : σ → ε → List β) : σ → List ε → List β
  | _, [] => []
  | s, e :: es =>
    match step s e with
    | some s' => out s e ++ outputs step out s' es
    | none => []

theorem outputs_cons {β : Type} {step : σ → ε → Option σ} (out : σ → ε → List β) {s s' : σ} {e : ε}
    (hs : step s e = some s') (es : List ε) :
    outputs step out s (e :: es) = out s e ++ outputs step out s' es := by
  rw [outputs, hs]

/-- The invariant rule for a state together with what has been put out. -/
theorem exec_inv_outputs {β : Type} {step : σ → ε → Option σ} {out : σ → ε → List β}
    {ok : σ → ε → Prop} {Inv : σ → List β → Prop}
    (hstep : ∀ s e s' acc, Inv s acc → ok s e → step s e = some s' → Inv s' (acc ++ out s e))
    {es : List ε} {s t : σ} {acc : List β} (hs : Inv s acc) (hok : AllSteps step ok s es)
    (h : exec step s es = some t) : Inv t (acc ++ outputs step out s es) := by
  induction es generalizing s acc with
  | nil =>
    cases h
    rw [outputs, List.append_nil]
    exact hs
  | cons e es ih =>
    obtain ⟨s', h1, h2⟩ := exec_cons_eq_some.mp h
    rw [outputs, h1, ← List.append_assoc]
    exact ih (hstep s e s' acc hs hok.1 h1) (hok.2 s' h1) h2

theorem Reachable.inv {step : σ → ε → Option σ} {Inv : σ → Prop}
    (hstep : ∀ s e s', Inv s → step s e = some s' → Inv s')
    {init s : σ} (hinit : Inv init) (h : Reachable step init s) : Inv s := by
  obtain ⟨es, h⟩ := h
  exact exec_inv hstep hinit h

/-- Every state the run goes through, the first and the last included. -/
def Always (step : σ → ε → Option σ) (P : σ → Prop) : σ → List ε → Prop
  | s, [] => P s
  | s, e :: es => P s ∧ ∀ s', step s e = some s' → Always step P s' es

theorem Always.head {step : σ → ε → Option σ} {P : σ → Prop} {s : σ} {es : List ε}
    (h : Always step P s es) : P s := by
  cases es with
  | nil => exact h
  | cons e es => exact h.1

theorem Always.last {step : σ → ε → Option σ} {P : σ → Prop} {s t : σ} {es : List ε}
    (h : Always step P s es) (ht : exec step s es = some t) : P t := by
  induction es generalizing s with
  | nil => cases ht; exact h
  | cons e es ih =>
    obtain ⟨s', h1, h2⟩ := exec_cons_eq_some.mp ht
    exact ih (h.2 s' h1) h2

theorem Always.append {step : σ → ε → Option σ} {P : σ → Prop} {s : σ} {es fs : List ε}
    (h : Always step P s es) (h' : ∀ t, exec step s es = some t → Always step P t fs) :
    Always step P s (es ++ fs) := by
  induction es generalizing s with
  | nil => exact h' s rfl
  | cons e es ih =>
    refine ⟨h.1, fun s' hs => ih (h.2 s' hs) fun t ht => h' t ?_⟩
    exact exec_cons_eq_some.mpr ⟨s', hs, ht⟩

end Runs
