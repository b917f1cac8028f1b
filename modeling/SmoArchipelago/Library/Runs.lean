import Mathlib

/-! # Runs of a transition function

A component is a total step function on a state type; a run is the state reached
by a list of events. An event that is not enabled leaves the state unchanged, so
conditions on events are predicates over the state they are taken from.

## Implementation notes

`Along` reads a condition on every step and `Throughout` an invariant at every
state passed. Both recurse on the events, so they can be decided where the
condition can. -/

namespace SmoArchipelago.Library.Runs

variable {σ ε : Type*}

/-- The state reached by taking the events in order. -/
def run (step : σ → ε → σ) : σ → List ε → σ
  | s, [] => s
  | s, e :: es => run step (step s e) es

/-- Every step of the run is taken where the condition holds. -/
def Along (step : σ → ε → σ) (good : σ → ε → Prop) : σ → List ε → Prop
  | _, [] => True
  | s, e :: es => good s e ∧ Along step good (step s e) es

/-- The predicate holds in every state of the run, both ends included. -/
def Throughout (step : σ → ε → σ) (I : σ → Prop) : σ → List ε → Prop
  | s, [] => I s
  | s, e :: es => I s ∧ Throughout step I (step s e) es

/-- What an observer who looks at every step has noted at the end of the run. -/
def observe {γ : Type*} (step : σ → ε → σ) (note : σ → ε → γ → γ) : σ → List ε → γ → γ
  | _, [], g => g
  | s, e :: es, g => observe step note (step s e) es (note s e g)

instance decidableAlong (step : σ → ε → σ) (good : σ → ε → Prop)
    [∀ s e, Decidable (good s e)] : ∀ s es, Decidable (Along step good s es)
  | _, [] => isTrue trivial
  | s, e :: es =>
      have := decidableAlong step good (step s e) es
      inferInstanceAs (Decidable (good s e ∧ Along step good (step s e) es))

instance decidableThroughout (step : σ → ε → σ) (I : σ → Prop)
    [DecidablePred I] : ∀ s es, Decidable (Throughout step I s es)
  | s, [] => inferInstanceAs (Decidable (I s))
  | s, e :: es =>
      have := decidableThroughout step I (step s e) es
      inferInstanceAs (Decidable (I s ∧ Throughout step I (step s e) es))

variable {step : σ → ε → σ} {good : σ → ε → Prop} {I J : σ → Prop}

@[simp] theorem run_nil (s : σ) : run step s [] = s := rfl

@[simp] theorem run_cons (s : σ) (e : ε) (es : List ε) :
    run step s (e :: es) = run step (step s e) es := rfl

theorem run_append (s : σ) (es fs : List ε) :
    run step s (es ++ fs) = run step (run step s es) fs := by
  induction es generalizing s with
  | nil => rfl
  | cons e es ih => exact ih (step s e)

@[simp] theorem along_cons (s : σ) (e : ε) (es : List ε) :
    Along step good s (e :: es) ↔ good s e ∧ Along step good (step s e) es := Iff.rfl

theorem along_and {good' : σ → ε → Prop} {s : σ} {es : List ε} (h : Along step good s es)
    (h' : Along step good' s es) : Along step (fun s e => good s e ∧ good' s e) s es := by
  induction es generalizing s with
  | nil => exact trivial
  | cons e es ih => exact ⟨⟨h.1, h'.1⟩, ih h.2 h'.2⟩

/-- A condition on events alone. -/
theorem along_of_forall {es : List ε} (h : ∀ e ∈ es, ∀ s, good s e) {s : σ} :
    Along step good s es := by
  induction es generalizing s with
  | nil => exact trivial
  | cons e es ih =>
      constructor
      · exact h e List.mem_cons_self s
      · exact ih fun f member => h f (List.mem_cons_of_mem e member)

theorem throughout_start {s : σ} {es : List ε} (h : Throughout step I s es) : I s := by
  cases es with
  | nil => exact h
  | cons e es => exact h.1

theorem throughout_end {s : σ} {es : List ε} (h : Throughout step I s es) :
    I (run step s es) := by
  induction es generalizing s with
  | nil => exact h
  | cons e es ih => exact ih h.2

theorem throughout_mono {I' : σ → Prop} (weaker : ∀ s, I s → I' s) {s : σ} {es : List ε}
    (h : Throughout step I s es) : Throughout step I' s es := by
  induction es generalizing s with
  | nil => exact weaker s h
  | cons e es ih => exact ⟨weaker s h.1, ih h.2⟩

/-- A run that keeps `I` throughout has no step that spoils it. -/
theorem along_of_throughout (spoil : ∀ s e, ¬ good s e → ¬ I (step s e)) {s : σ} {es : List ε}
    (h : Throughout step I s es) : Along step good s es := by
  induction es generalizing s with
  | nil => exact trivial
  | cons e es ih =>
      constructor
      · by_contra bad
        exact spoil s e bad (throughout_start h.2)
      · exact ih h.2

/-- A predicate kept by every step holds of every reached state. -/
theorem invariant_run (keep : ∀ s e, I s → I (step s e)) {s : σ} (start : I s)
    (es : List ε) : I (run step s es) := by
  induction es generalizing s with
  | nil => exact start
  | cons e es ih => exact ih (keep s e start)

/-- Two runs of the same events stay in a relation that each of their steps keeps. -/
theorem paired_run {R : σ → σ → Prop} {es : List ε}
    (keep : ∀ s s' e, e ∈ es → R s s' → R (step s e) (step s' e)) {s s' : σ} (start : R s s') :
    R (run step s es) (run step s' es) := by
  induction es generalizing s s' with
  | nil => exact start
  | cons e es ih =>
      apply ih
      · exact fun s s' f member => keep s s' f (List.mem_cons_of_mem e member)
      · exact keep s s' e List.mem_cons_self start

/-- A relation between the state and the notes kept by every good step. -/
theorem observed_run {γ : Type*} {note : σ → ε → γ → γ} {R : σ → γ → Prop}
    (keep : ∀ s e g, R s g → good s e → R (step s e) (note s e g)) {s : σ} {g : γ} (first : R s g)
    {es : List ε} (h : Along step good s es) : R (run step s es) (observe step note s es g) := by
  induction es generalizing s g with
  | nil => exact first
  | cons e es ih => exact ih (keep s e g first h.1) h.2

/-- A predicate kept by every good step holds throughout a run of good steps. -/
theorem guarded_run (keep : ∀ s e, I s → good s e → I (step s e)) {s : σ} (start : I s)
    {es : List ε} (h : Along step good s es) : Throughout step I s es := by
  induction es generalizing s with
  | nil => exact start
  | cons e es ih => exact ⟨start, ih (keep s e start h.1) h.2⟩

/-- Where a step keeps `I` exactly when it is good, `I` holds throughout exactly
the runs whose every step is good. `J` collects what holds in any case. -/
theorem throughout_iff_along (side : ∀ s e, J s → J (step s e))
    (exact_step : ∀ s e, J s → I s → (I (step s e) ↔ good s e))
    {s : σ} (hJ : J s) (hI : I s) (es : List ε) :
    Throughout step I s es ↔ Along step good s es := by
  induction es generalizing s with
  | nil => exact ⟨fun _ => trivial, fun _ => hI⟩
  | cons e es ih =>
      have here := exact_step s e hJ hI
      constructor
      · intro h
        have next : I (step s e) := throughout_start h.2
        exact ⟨here.1 next, (ih (side s e hJ) next).1 h.2⟩
      · intro h
        have next : I (step s e) := here.2 h.1
        exact ⟨hI, (ih (side s e hJ) next).2 h.2⟩

/-- `throughout_iff_along` where every step has to meet `N` too. -/
theorem throughout_along_iff {N : σ → ε → Prop} (side : ∀ s e, J s → J (step s e))
    (exact_step : ∀ s e, J s → I s → (I (step s e) ∧ N s e ↔ good s e))
    {s : σ} (hJ : J s) (hI : I s) (es : List ε) :
    Throughout step I s es ∧ Along step N s es ↔ Along step good s es := by
  induction es generalizing s with
  | nil => exact ⟨fun _ => trivial, fun _ => ⟨hI, trivial⟩⟩
  | cons e es ih =>
      have here := exact_step s e hJ hI
      constructor
      · rintro ⟨h, now, later⟩
        have next : I (step s e) := throughout_start h.2
        exact ⟨here.1 ⟨next, now⟩, (ih (side s e hJ) next).1 ⟨h.2, later⟩⟩
      · intro h
        obtain ⟨next, now⟩ := here.2 h.1
        obtain ⟨rest, later⟩ := (ih (side s e hJ) next).2 h.2
        exact ⟨⟨hI, rest⟩, now, later⟩

/-- Where a good step keeps `I` and any other step spoils it for the rest of the run,
`I` holds at the end exactly of the runs whose every step is good. `P` is what all
events of the run are known to be. -/
theorem end_iff_along_of {P : ε → Prop} {K : σ → Prop} (side : ∀ s e, P e → J s → J (step s e))
    (keep : ∀ s e, P e → J s → I s → good s e → I (step s e))
    (spoil : ∀ s e, P e → J s → I s → ¬ good s e → K (step s e))
    (stays : ∀ s e, P e → J s → K s → K (step s e)) (apart : ∀ s, J s → I s → ¬ K s)
    {s : σ} (hJ : J s) (hI : I s) {es : List ε} (hP : ∀ e ∈ es, P e) :
    I (run step s es) ↔ Along step good s es := by
  have spoiled (s : σ) (es : List ε) (hP : ∀ e ∈ es, P e) (hJ : J s) (hK : K s) :
      ¬ I (run step s es) := by
    induction es generalizing s with
    | nil => exact fun hI => apart s hJ hI hK
    | cons e es ih =>
        have here := hP e List.mem_cons_self
        apply ih
        · exact fun f member => hP f (List.mem_cons_of_mem e member)
        · exact side s e here hJ
        · exact stays s e here hJ hK
  induction es generalizing s with
  | nil => exact ⟨fun _ => trivial, fun _ => hI⟩
  | cons e es ih =>
      have first := hP e List.mem_cons_self
      have others : ∀ f ∈ es, P f := fun f member => hP f (List.mem_cons_of_mem e member)
      constructor
      · intro last
        have here : good s e := by
          by_contra bad
          exact spoiled (step s e) es others (side s e first hJ) (spoil s e first hJ hI bad) last
        exact ⟨here, (ih (side s e first hJ) (keep s e first hJ hI here) others).1 last⟩
      · intro h
        exact (ih (side s e first hJ) (keep s e first hJ hI h.1) others).2 h.2

/-- `end_iff_along_of` for runs of any events. -/
theorem end_iff_along {K : σ → Prop} (side : ∀ s e, J s → J (step s e))
    (keep : ∀ s e, J s → I s → good s e → I (step s e))
    (spoil : ∀ s e, J s → I s → ¬ good s e → K (step s e))
    (stays : ∀ s e, J s → K s → K (step s e)) (apart : ∀ s, J s → I s → ¬ K s)
    {s : σ} (hJ : J s) (hI : I s) (es : List ε) :
    I (run step s es) ↔ Along step good s es :=
  end_iff_along_of (P := fun _ => True) (fun s e _ => side s e) (fun s e _ => keep s e)
    (fun s e _ => spoil s e) (fun s e _ => stays s e) apart hJ hI fun _ _ => trivial

/-! ## Logs -/

/-- Whatever was logged, was logged where the entries before it allow it. -/
def AtEach {α : Type*} (P : List α → α → Prop) (log : List α) : Prop :=
  ∀ before a after, log = before ++ a :: after → P before a

theorem atEach_nil {α : Type*} {P : List α → α → Prop} : AtEach P [] := by
  intro before a after split
  exact absurd split.symm (List.append_ne_nil_of_right_ne_nil _ (List.cons_ne_nil _ _))

theorem AtEach.append {α : Type*} {P : List α → α → Prop} {log : List α} {a : α}
    (h : AtEach P log) (new : P log a) : AtEach P (log ++ [a]) := by
  intro before b after split
  rcases List.eq_nil_or_concat after with none | ⟨after, c, some⟩
  · subst none
    obtain ⟨same, last⟩ := List.append_inj' split rfl
    rw [← same, ← List.singleton_injective last]
    exact new
  · subst some
    rw [List.concat_eq_append, ← List.cons_append, ← List.append_assoc] at split
    exact h before b after (List.append_inj' split rfl).1

end SmoArchipelago.Library.Runs
