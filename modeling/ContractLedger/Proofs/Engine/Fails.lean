import ContractLedger.Engine.Services
import ContractLedger.Proofs.Step

/-!
How steps fail. An assertion about errors and the states that they leave holds of every failure of a
sequence or a choice of steps if it does of the failures of each. A ledger fails with an error of its
own, and a charge that is refused leaves the meter at its limit.
-/

namespace ContractLedger

variable {ε τ α β : Type} {allowed : ε → τ → Prop}

/-- A step that fails only as an assertion about the error and the state allows. -/
def Fails (allowed : ε → τ → Prop) (step : EStateM ε τ α) : Prop :=
  ∀ state error after, step state = .error error after → allowed error after

namespace Fails

theorem never {step : EStateM ε τ α} (succeeds : ∀ state, ∃ value after, step state = .ok value after) :
    Fails allowed step := by
  intro state error after ran
  obtain ⟨value, last, same⟩ := succeeds state
  cases same.symm.trans ran

theorem done (value : α) : Fails allowed (pure value : EStateM ε τ α) :=
  never fun state => ⟨value, state, rfl⟩

theorem failed {error : ε} (each : ∀ state, allowed error state) :
    Fails allowed (throw error : EStateM ε τ α) := by
  intro state _ _ ran
  cases ran
  exact each state

theorem changed (change : τ → τ) : Fails allowed (modify change : EStateM ε τ PUnit) :=
  never fun state => ⟨⟨⟩, change state, rfl⟩

theorem reading {next : τ → EStateM ε τ β} (rest : ∀ state, Fails allowed (next state)) :
    Fails allowed (get >>= next) :=
  fun state => rest state state

theorem bind {step : EStateM ε τ α} {next : α → EStateM ε τ β} (first : Fails allowed step)
    (rest : ∀ value, Fails allowed (next value)) : Fails allowed (step >>= next) := by
  intro state error after ran
  rw [Step.bind_apply] at ran
  cases found : step state with
  | ok value middle =>
    rw [found] at ran
    exact rest value middle error after ran
  | error cause middle =>
    rw [found] at ran
    cases ran
    exact first state error after found

theorem ite {condition : Prop} [Decidable condition] {yes no : EStateM ε τ α}
    (failsYes : Fails allowed yes) (failsNo : Fails allowed no) :
    Fails allowed (if condition then yes else no) := by
  split
  · exact failsYes
  · exact failsNo

theorem forM {step : α → EStateM ε τ PUnit} (items : List α)
    (each : ∀ item, Fails allowed (step item)) : Fails allowed (items.forM step) := by
  induction items with
  | nil => exact done PUnit.unit
  | cons item items ih => exact bind (each item) fun _ => ih

end Fails

namespace Service

variable {σ : Type} {allowed : ContractError → World σ → Prop}

theorem fails_onLedger (each : ∀ reason world, allowed (.state reason) world) (step : LedgerM σ α) :
    Fails allowed (onLedger step) := by
  intro world error after ran
  rw [onLedger, Host.run] at ran
  cases found : step world.host.ledger with
  | ok value ledger =>
    rw [found] at ran
    cases ran
  | error reason ledger =>
    rw [found] at ran
    cases ran
    exact each reason _

theorem fails_spend (each : ∀ refused (world : World σ), world.meter.consumed = world.meter.limit →
    allowed (.outOfGas refused) world) (amount : Gas) : Fails allowed (spend amount) := by
  intro world error after ran
  rw [spend, GasMeter.spend] at ran
  by_cases short : world.meter.available < amount
  · rw [if_pos short] at ran
    cases ran
    exact each _ _ rfl
  · rw [if_neg short] at ran
    cases ran

variable [ByteStore σ]

theorem fails_balanceOf (each : ∀ reason world, allowed (.state reason) world) (incoming : Incoming)
    (address : Address) : Fails allowed (balanceOf incoming address : ServiceM σ Amount) :=
  .bind (fails_onLedger each _) fun _ => .reading fun _ => .done _

/-- Services fail for the ledger or for want of gas, apart from transfers and calls. -/
theorem fails_answer (state : ∀ reason world, allowed (.state reason) world)
    (gas : ∀ refused (world : World σ), world.meter.consumed = world.meter.limit →
      allowed (.outOfGas refused) world) (schedule : Schedule) (frame : Frame)
    {call : CallRequest → ServiceM σ (Option Value)} {request : Request}
    (transfers : ∀ recipient amount, request = .transfer recipient amount →
      Fails allowed (answer schedule frame call request))
    (calls : ∀ called, request = .call called → Fails allowed (call called)) :
    Fails allowed (answer schedule frame call request) := by
  cases request with
  | spend amount => exact fails_spend gas amount
  | read key =>
    refine .bind (fails_spend gas _) fun _ => .bind (fails_onLedger state _) fun value => ?_
    cases value with
    | none => exact .done _
    | some bytes => exact .bind (fails_spend gas _) fun _ => .done _
  | write key value => exact .bind (fails_spend gas _) fun _ => fails_onLedger state _
  | balance => exact fails_balanceOf state _ _
  | transfer recipient amount => exact transfers recipient amount rfl
  | call called => exact calls called rfl
  | meter => exact .reading fun _ => .done _
  | note note => exact .changed _
  | _ => exact .done _

end Service

end ContractLedger
