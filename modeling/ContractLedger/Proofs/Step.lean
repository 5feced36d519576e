/-!
Steps on a state, evaluated at one: what the basic steps do, and a sequence from what its parts do.
-/

namespace ContractLedger.Step

variable {ε σ α β : Type}

@[simp]
theorem pure_apply (value : α) (state : σ) :
    (pure value : EStateM ε σ α) state = .ok value state := rfl

@[simp]
theorem get_apply (state : σ) : (get : EStateM ε σ σ) state = .ok state state := rfl

@[simp]
theorem getThe_apply (state : σ) : (getThe σ : EStateM ε σ σ) state = .ok state state := rfl

@[simp]
theorem set_apply (next state : σ) : (set next : EStateM ε σ PUnit) state = .ok ⟨⟩ next := rfl

@[simp]
theorem modify_apply (change : σ → σ) (state : σ) :
    (modify change : EStateM ε σ PUnit) state = .ok ⟨⟩ (change state) := rfl

theorem bind_apply (first : EStateM ε σ α) (next : α → EStateM ε σ β) (state : σ) :
    (first >>= next) state =
      match first state with
      | .ok value after => next value after
      | .error error after => .error error after := rfl

theorem map_apply (change : α → β) (step : EStateM ε σ α) (state : σ) :
    (change <$> step) state =
      match step state with
      | .ok value after => .ok (change value) after
      | .error error after => .error error after := rfl

theorem bind_ok {first : EStateM ε σ α} {state after : σ} {value : α}
    (ran : first state = .ok value after) (next : α → EStateM ε σ β) :
    (first >>= next) state = next value after := by
  rw [bind_apply, ran]

theorem bind_error {first : EStateM ε σ α} {state after : σ} {error : ε}
    (ran : first state = .error error after) (next : α → EStateM ε σ β) :
    (first >>= next) state = .error error after := by
  rw [bind_apply, ran]

theorem bind_eq_ok {first : EStateM ε σ α} {next : α → EStateM ε σ β} {state after : σ} {result : β} :
    (first >>= next) state = .ok result after ↔
      ∃ value middle, first state = .ok value middle ∧ next value middle = .ok result after := by
  rw [bind_apply]
  cases first state with
  | ok value middle =>
    refine ⟨fun ran => ⟨value, middle, rfl, ran⟩, ?_⟩
    rintro ⟨_, _, ⟨⟩, ran⟩
    exact ran
  | error error middle => exact ⟨nofun, nofun⟩

theorem map_ok {step : EStateM ε σ α} {state after : σ} {value : α}
    (ran : step state = .ok value after) (change : α → β) :
    (change <$> step) state = .ok (change value) after := by
  rw [map_apply, ran]

/-- Actions that change nothing, one for each item of a list. -/
theorem mapM_ok {step : α → EStateM ε σ β} (items : List α) (value : α → β) {state : σ}
    (each : ∀ item ∈ items, step item state = .ok (value item) state) :
    items.mapM step state = .ok (items.map value) state := by
  induction items with
  | nil => rfl
  | cons item items ih =>
    have rest := ih fun other member => each other (List.mem_cons_of_mem _ member)
    rw [List.mapM_cons, bind_ok (each item List.mem_cons_self), bind_ok rest]
    rfl

end ContractLedger.Step
