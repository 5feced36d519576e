import ContractLedger.Proofs.Step
import Mathlib.Data.Set.Basic

/-!
Steps seen through a view of their state. Two steps agree if the one does on a state what the other
does on its view, without losing anything of what is measured there; sequences, choices and
repetitions of steps that agree agree.
-/

namespace ContractLedger

variable {ε ε' σ τ α β γ : Type}

/-- A result with its state seen through a function. -/
def through (view : σ → τ) : EStateM.Result ε σ α → EStateM.Result ε τ α
  | .ok value state => .ok value (view state)
  | .error error state => .error error (view state)

/-- The value or error of a result. -/
def answer : EStateM.Result ε σ α → Except ε α
  | .ok value _ => .ok value
  | .error error _ => .error error

/-- The state in which a result leaves things. -/
def ending : EStateM.Result ε σ α → σ
  | .ok _ state => state
  | .error _ state => state

theorem answer_through (view : σ → τ) (result : EStateM.Result ε σ α) :
    answer (through view result) = answer result := by
  cases result <;> rfl

theorem ending_through (view : σ → τ) (result : EStateM.Result ε σ α) :
    ending (through view result) = view (ending result) := by
  cases result <;> rfl

theorem ending_map (change : α → β) (step : EStateM ε σ α) (state : σ) :
    ending ((change <$> step) state) = ending (step state) := by
  rw [Step.map_apply]
  cases step state <;> rfl

theorem through_eq_ok {view : σ → τ} {result : EStateM.Result ε σ α} {value : α} {last : τ}
    (same : through view result = .ok value last) :
    ∃ state, result = .ok value state ∧ view state = last := by
  cases result with
  | ok found state =>
    cases same
    exact ⟨state, rfl, rfl⟩
  | error error state => cases same

theorem through_eq_error {view : σ → τ} {result : EStateM.Result ε σ α} {error : ε} {last : τ}
    (same : through view result = .error error last) :
    ∃ state, result = .error error state ∧ view state = last := by
  cases result with
  | ok found state => cases same
  | error other state =>
    cases same
    exact ⟨state, rfl, rfl⟩

theorem ok_of_answer_map {change : α → β} {result : EStateM.Result ε σ α} {value : β}
    (answers : (answer result).map change = .ok value) :
    ∃ found state, result = .ok found state ∧ change found = value := by
  cases result with
  | ok found state => exact ⟨found, state, rfl, Except.ok.inj answers⟩
  | error error state => cases answers

theorem answer_of_toOption {result : EStateM.Result ε σ α} {value : α}
    (answers : (answer result).toOption = some value) : answer result = .ok value := by
  cases result with
  | ok found state => exact congrArg Except.ok (Option.some.inj answers)
  | error error state => cases answers

theorem ok_of_toOption {result : EStateM.Result ε σ α} {value : α}
    (answers : (answer result).toOption = some value) : result = .ok value (ending result) := by
  cases result with
  | ok found state =>
    cases answers
    rfl
  | error error state => cases answers

theorem error_of_toOption {result : EStateM.Result ε σ α} (fails : (answer result).toOption = none) :
    ∃ error, result = .error error (ending result) := by
  cases result with
  | ok found state => cases fails
  | error error state => exact ⟨error, rfl⟩

theorem error_of_answer_map {change : α → β} {result : EStateM.Result ε σ α} {error : ε}
    (answers : (answer result).map change = .error error) :
    ∃ state, result = .error error state := by
  cases result with
  | ok found state => cases answers
  | error other state =>
    cases answers
    exact ⟨state, rfl⟩

/-- A step on a state and a step on its view that do the same, after which a measure of the view is
at least what it was. -/
structure Agree (view : σ → τ) (measure : τ → Set γ) (first : EStateM ε σ α)
    (second : EStateM ε τ α) : Prop where
  same : ∀ state, through view (first state) = second (view state)
  grows : ∀ state, measure (view state) ⊆ measure (ending (second (view state)))

/-- Nothing is measured, so that nothing can be lost. -/
def unmeasured : τ → Set Unit := fun _ => ∅

namespace Agree

variable {view : σ → τ} {measure : τ → Set γ}

theorem of_same {first : EStateM ε σ α} {second : EStateM ε τ α}
    (same : ∀ state, through view (first state) = second (view state)) :
    Agree view unmeasured first second :=
  ⟨same, fun _ => Set.Subset.refl _⟩

theorem forget {first : EStateM ε σ α} {second : EStateM ε τ α}
    (agree : Agree view measure first second) : Agree view unmeasured first second :=
  of_same agree.same

theorem done (value : α) :
    Agree view measure (pure value : EStateM ε σ α) (pure value) :=
  ⟨fun _ => rfl, fun _ => Set.Subset.refl _⟩

theorem failed (error : ε) : Agree view measure (throw error : EStateM ε σ α) (throw error) :=
  ⟨fun _ => rfl, fun _ => Set.Subset.refl _⟩

theorem changed {change : σ → σ} {changeView : τ → τ}
    (same : ∀ state, view (change state) = changeView (view state))
    (grows : ∀ state, measure (view state) ⊆ measure (changeView (view state))) :
    Agree view measure (modify change : EStateM ε σ PUnit) (modify changeView) :=
  ⟨fun state => congrArg (EStateM.Result.ok PUnit.unit) (same state), grows⟩

theorem bind {first : EStateM ε σ α} {firstView : EStateM ε τ α} {next : α → EStateM ε σ β}
    {nextView : α → EStateM ε τ β} (agree : Agree view measure first firstView)
    (agreeNext : ∀ value, Agree view measure (next value) (nextView value)) :
    Agree view measure (first >>= next) (firstView >>= nextView) := by
  constructor
  · intro state
    rw [Step.bind_apply, Step.bind_apply, ← agree.same state]
    cases first state with
    | ok value after => exact (agreeNext value).same after
    | error error after => rfl
  · intro state
    have before := agree.grows state
    rw [Step.bind_apply, ← agree.same state]
    rw [← agree.same state] at before
    cases ran : first state with
    | ok value after =>
      rw [ran] at before
      exact before.trans ((agreeNext value).grows after)
    | error error after =>
      rw [ran] at before
      exact before

theorem map {step : EStateM ε σ α} {stepView : EStateM ε τ α} (change : α → β)
    (agree : Agree view measure step stepView) :
    Agree view measure (change <$> step) (change <$> stepView) :=
  bind agree fun value => done (change value)

theorem reading {next : σ → EStateM ε σ β} {nextView : τ → EStateM ε τ β}
    (agree : ∀ state, Agree view measure (next state) (nextView (view state))) :
    Agree view measure (get >>= next) (get >>= nextView) :=
  ⟨fun state => (agree state).same state, fun state => (agree state).grows state⟩

theorem recover {step : EStateM ε σ α} {stepView : EStateM ε τ α} {handler : ε → EStateM ε' σ α}
    {handlerView : ε → EStateM ε' τ α} {whole : EStateM ε' σ α} {wholeView : EStateM ε' τ α}
    (agree : Agree view measure step stepView)
    (agreeHandler : ∀ error, Agree view measure (handler error) (handlerView error))
    (ok : ∀ state value after, step state = .ok value after → whole state = .ok value after)
    (error : ∀ state error after, step state = .error error after →
      whole state = handler error after)
    (okView : ∀ state value after, stepView state = .ok value after →
      wholeView state = .ok value after)
    (errorView : ∀ state error after, stepView state = .error error after →
      wholeView state = handlerView error after) : Agree view measure whole wholeView := by
  constructor
  · intro state
    have same := agree.same state
    cases ran : step state with
    | ok value after =>
      rw [ran] at same
      rw [ok _ _ _ ran, okView _ _ _ same.symm]
      rfl
    | error cause after =>
      rw [ran] at same
      rw [error _ _ _ ran, errorView _ _ _ same.symm]
      exact (agreeHandler cause).same after
  · intro state
    have same := agree.same state
    have before := agree.grows state
    rw [← same] at before
    cases ran : step state with
    | ok value after =>
      rw [ran] at same before
      rw [okView _ _ _ same.symm]
      exact before
    | error cause after =>
      rw [ran] at same before
      rw [errorView _ _ _ same.symm]
      exact before.trans ((agreeHandler cause).grows after)

theorem ite {condition : Prop} [Decidable condition] {yes no : EStateM ε σ α}
    {yesView noView : EStateM ε τ α} (agreeYes : Agree view measure yes yesView)
    (agreeNo : Agree view measure no noView) :
    Agree view measure (if condition then yes else no) (if condition then yesView else noView) := by
  split
  · exact agreeYes
  · exact agreeNo

theorem forM {step : α → EStateM ε σ PUnit} {stepView : α → EStateM ε τ PUnit} (items : List α)
    (agree : ∀ item, Agree view measure (step item) (stepView item)) :
    Agree view measure (items.forM step) (items.forM stepView) := by
  induction items with
  | nil => exact done PUnit.unit
  | cons item items ih => exact bind (agree item) fun _ => ih

end Agree

end ContractLedger
