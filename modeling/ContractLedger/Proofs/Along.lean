import ContractLedger.Contract.Program
import ContractLedger.Proofs.View
import Mathlib.Order.Defs.Unbundled

/-!
Steps along a relation. However such a step ends, the state that it leaves is related to the one
before it. Where the relation is a preorder, sequences, choices and repetitions of such steps are
along it, and so is every program whose requests are.
-/

namespace ContractLedger

variable {ε ε' τ α β : Type} {rel : τ → τ → Prop}

/-- A step that leads along a relation, whether it succeeds or fails. -/
def Along (rel : τ → τ → Prop) (step : EStateM ε τ α) : Prop :=
  ∀ state, rel state (ending (step state))

namespace Along

theorem reading {next : τ → EStateM ε τ β} (rest : ∀ state, Along rel (next state)) :
    Along rel (get >>= next) :=
  fun state => rest state state

theorem ite {condition : Prop} [Decidable condition] {yes no : EStateM ε τ α}
    (alongYes : Along rel yes) (alongNo : Along rel no) :
    Along rel (if condition then yes else no) := by
  split
  · exact alongYes
  · exact alongNo

variable [IsPreorder τ rel]

theorem of_same {step : EStateM ε τ α} (same : ∀ state, ending (step state) = state) :
    Along rel step := by
  intro state
  rw [same]
  exact refl_of rel state

theorem done (value : α) : Along rel (pure value : EStateM ε τ α) :=
  of_same fun _ => rfl

theorem failed (error : ε) : Along rel (throw error : EStateM ε τ α) :=
  of_same fun _ => rfl

theorem bind {step : EStateM ε τ α} {next : α → EStateM ε τ β} (first : Along rel step)
    (rest : ∀ value, Along rel (next value)) : Along rel (step >>= next) := by
  intro state
  have before := first state
  rw [Step.bind_apply]
  cases ran : step state with
  | ok value after =>
    rw [ran] at before
    exact trans_of rel before (rest value after)
  | error error after =>
    rw [ran] at before
    exact before

/-- The end of the first part of a sequence is related to the end of the sequence. -/
theorem first {step : EStateM ε τ α} {next : α → EStateM ε τ β}
    (rest : ∀ value, Along rel (next value)) (state : τ) :
    rel (ending (step state)) (ending ((step >>= next) state)) := by
  rw [Step.bind_apply]
  cases step state with
  | ok value after => exact rest value after
  | error error after => exact refl_of rel after

/-- A sequence that fails after its first part leads along a relation if the rest does when it fails. -/
theorem before {step : EStateM ε τ α} {next : α → EStateM ε τ β} (along : Along rel step)
    (rest : ∀ value state error after, next value state = .error error after → rel state after)
    (state : τ) (error : ε) (after : τ) (ran : (step >>= next) state = .error error after) :
    rel state after := by
  have onward := along state
  rw [Step.bind_apply] at ran
  cases first : step state with
  | ok value middle =>
    rw [first] at ran onward
    exact trans_of rel onward (rest value middle error after ran)
  | error cause middle =>
    rw [first] at ran onward
    cases ran
    exact onward

theorem forM {step : α → EStateM ε τ PUnit} (items : List α)
    (each : ∀ item, Along rel (step item)) : Along rel (items.forM step) := by
  induction items with
  | nil => exact done PUnit.unit
  | cons item items ih => exact bind (each item) fun _ => ih

theorem mapM {step : α → EStateM ε τ β} (items : List α) (each : ∀ item, Along rel (step item)) :
    Along rel (items.mapM step) := by
  induction items with
  | nil => exact done []
  | cons item items ih =>
    rw [List.mapM_cons]
    exact bind (each item) fun _ => bind ih fun _ => done _

/-- A program is along a relation if the requests that it may make are. -/
theorem run {serve : (request : Request) → EStateM ContractError τ request.Answer}
    (each : ∀ request, Along rel (serve request)) (program : Program ε α) :
    Along rel (program.run serve) := by
  induction program with
  | done value => exact done value
  | fail error => exact failed error
  | ask request resume ih =>
    intro state
    have first := each request state
    simp only [Program.run]
    cases ran : serve request state with
    | ok answer after =>
      rw [ran] at first
      exact trans_of rel first (ih (.ok answer) after)
    | error error after =>
      rw [ran] at first
      exact trans_of rel first (ih (.error error) after)

end Along

/-! Steps that change nothing. -/

section Unchanged

variable {step : EStateM ε τ α} {state : τ}

theorem Along.ok_of_answer (along : Along Eq step) {value : α}
    (answers : answer (step state) = .ok value) : step state = .ok value state := by
  have same := along state
  cases ran : step state with
  | ok found after =>
    rw [ran] at same answers
    cases answers
    rw [show state = after from same]
  | error error after =>
    rw [ran] at answers
    cases answers

theorem Along.error_of_answer (along : Along Eq step) {error : ε}
    (answers : answer (step state) = .error error) : step state = .error error state := by
  have same := along state
  cases ran : step state with
  | ok found after =>
    rw [ran] at answers
    cases answers
  | error found after =>
    rw [ran] at same answers
    cases answers
    rw [show state = after from same]

end Unchanged

def Keeping {κ : Type} (part : τ → κ) (before after : τ) : Prop :=
  part after = part before

instance {κ : Type} (part : τ → κ) : IsPreorder τ (Keeping part) where
  refl _ := rfl
  trans _ _ _ first second := Eq.trans second first

theorem Along.changed {change : τ → τ} (each : ∀ state, rel state (change state)) :
    Along rel (modify change : EStateM ε τ PUnit) := each

end ContractLedger
