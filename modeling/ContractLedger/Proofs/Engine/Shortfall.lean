import ContractLedger.Proofs.Engine.Along
import ContractLedger.Proofs.Engine.Fails

/-!
Requests that are refused for want of balance. Only transfers and calls are, and only where the balance
that the running contract is shown at that point is less than what they would move.
-/

namespace ContractLedger

variable {σ α : Type}

/-- The value that a request would move. -/
def Request.moves : Request → Amount
  | transfer _ amount => amount
  | call request => request.amount
  | _ => 0

/-- Whether a failure is not for want of balance. -/
def ContractError.Covered (error : ContractError) (_ : World σ) : Prop :=
  ∀ required available, error ≠ .insufficientBalance required available

namespace Service

open ContractError

private theorem covered_onLedger (step : LedgerM σ α) : Fails Covered (onLedger step) :=
  fails_onLedger (fun _ _ _ _ => nofun) step

private theorem covered_spend (amount : Gas) : Fails Covered (spend amount : ServiceM σ Unit) :=
  fails_spend (fun _ _ _ _ _ => nofun) amount

variable [ByteStore σ] {frame : Frame} {world after : World σ} {amount required available : Amount}

private theorem covered_balanceOf (incoming : Incoming) (address : Address) :
    Fails Covered (balanceOf incoming address : ServiceM σ Amount) :=
  fails_balanceOf (fun _ _ _ _ => nofun) incoming address

/-- What the running contract is shown as its balance. -/
def Shows (frame : Frame) (world : World σ) (shown : Amount) : Prop :=
  ContractLedger.answer (balanceOf frame.incoming frame.address world) = .ok shown

private theorem Shows.of_paid {price : Gas} {shown : Amount} (paid : spend price world = .ok () after)
    (shows : Shows frame after shown) : Shows frame world shown := by
  have same := ending_spend price world
  rw [paid, ending] at same
  unfold Shows at shows ⊢
  rw [same] at shows
  rw [← shows]
  simp only [balanceOf, Step.bind_apply, onLedger, Host.run]
  cases Ledger.getBalance frame.address world.host.ledger <;> rfl

theorem Shows.answer_ensureBalance {shown : Amount} (shows : Shows frame world shown)
    (amount : Amount) :
    ContractLedger.answer (ensureBalance frame amount world) =
      if shown < amount then .error (.insufficientBalance amount shown) else .ok () := by
  rw [ensureBalance, Step.bind_apply]
  cases ran : balanceOf frame.incoming frame.address world with
  | error error after =>
    rw [Shows, ran] at shows
    cases shows
  | ok value after =>
    rw [Shows, ran] at shows
    cases shows
    by_cases short : shown < amount
    · simp only [if_pos short]
      rfl
    · simp only [if_neg short]
      rfl

private theorem short_ensureBalance
    (refused : ensureBalance frame amount world = .error (.insufficientBalance required available) after) :
    required = amount ∧ available < amount ∧ Shows frame world available := by
  have reads := congrArg ContractLedger.answer refused
  cases ran : balanceOf frame.incoming frame.address world with
  | error error last =>
    rw [ensureBalance, Step.bind_error ran] at refused
    cases refused
    exact absurd rfl (covered_balanceOf _ _ world _ _ ran required available)
  | ok shown last =>
    have shows : Shows frame world shown := by rw [Shows, ran, ContractLedger.answer]
    rw [shows.answer_ensureBalance] at reads
    by_cases short : shown < amount
    · rw [if_pos short] at reads
      cases reads
      exact ⟨rfl, short, shows⟩
    · rw [if_neg short] at reads
      cases reads

private theorem short_checked {price : Gas} {rest : ServiceM σ α} (covers : Fails Covered rest)
    (refused : (do spend price; ensureBalance frame amount; rest : ServiceM σ α) world =
      .error (.insufficientBalance required available) after) :
    required = amount ∧ available < amount ∧ Shows frame world available := by
  cases paid : spend price world with
  | error error last =>
    rw [Step.bind_error paid] at refused
    cases refused
    exact absurd rfl (covered_spend price world _ _ paid required available)
  | ok value last =>
    rw [Step.bind_ok paid] at refused
    cases checked : ensureBalance frame amount last with
    | error error final =>
      rw [Step.bind_error checked] at refused
      cases refused
      obtain ⟨same, short, shows⟩ := short_ensureBalance checked
      exact ⟨same, short, shows.of_paid paid⟩
    | ok value final =>
      rw [Step.bind_ok checked] at refused
      exact absurd rfl (covers final _ _ refused required available)

end Service

namespace Engine

open Service ContractError

variable [ByteStore σ] {engine : Engine} {frame : Frame} {world after : World σ}
  {required available : Amount}

private theorem covered_leave {target : Address} {entry : Entry} {error : ContractError}
    {result : EStateM.Result ExecutionError (World σ) (Option Value)}
    (left : leave target entry result = .error error after) : error.Covered after := by
  cases result with
  | ok value last => cases left
  | error cause last =>
    have undoing : Fails Covered (do
        undo entry.checkpoint entry.mark
        throw (ContractError.call target cause) : ServiceM σ (Option Value)) :=
      .bind (.bind (covered_onLedger _) fun _ => .changed _) fun _ => .failed fun _ _ _ => nofun
    exact undoing last _ _ left

omit [ByteStore σ] in
private theorem covered_noContract (target : Address) :
    Fails Covered (throw (.noContract target) : ServiceM σ α) :=
  .failed fun _ _ _ => nofun

private theorem short_call {levels : Nat} {request : CallRequest}
    (refused : engine.call levels frame request world =
      .error (.insufficientBalance required available) after) :
    required = request.amount ∧ available < request.amount ∧ Shows frame world available := by
  cases levels with
  | zero => cases refused
  | succ levels =>
    cases entered : engine.enter frame request world with
    | error error last =>
      rw [call_refused entered] at refused
      cases refused
      simp only [enter, approach, bind_assoc] at entered
      refine short_checked (.bind (covered_onLedger _) fun code => ?_) entered
      cases code with
      | none => exact covered_noContract request.target
      | some code =>
        exact .bind (covered_onLedger _) fun _ => .reading fun _ =>
          .bind (.changed _) fun _ => .reading fun _ => .done _
    | ok entry inside =>
      rw [call_entered entered] at refused
      exact absurd rfl (covered_leave refused required available)

private theorem covered_serve {levels : Nat} {request : Request}
    (transfers : ∀ recipient amount, request ≠ .transfer recipient amount)
    (calls : ∀ called, request ≠ .call called) :
    Fails Covered (engine.serve levels frame request : ServiceM σ _) :=
  fails_answer (fun _ _ _ _ => nofun) (fun _ _ _ _ _ => nofun) _ frame
    (fun recipient amount same => absurd same (transfers recipient amount))
    fun called same => absurd same (calls called)

theorem serve_short {levels : Nat} {request : Request}
    (refused : ContractLedger.answer (engine.serve levels frame request world) =
      .error (.insufficientBalance required available)) :
    required = request.moves ∧ available < required ∧ Shows frame world available := by
  obtain ⟨after, ran⟩ : ∃ after, engine.serve levels frame request world =
      .error (.insufficientBalance required available) after := by
    cases ran : engine.serve levels frame request world with
    | ok value after =>
      rw [ran] at refused
      cases refused
    | error error after =>
      rw [ran] at refused
      cases refused
      exact ⟨after, rfl⟩
  cases request with
  | transfer recipient amount =>
    obtain ⟨rfl, short, shows⟩ := short_checked (.changed _) ran
    exact ⟨rfl, short, shows⟩
  | call request =>
    obtain ⟨rfl, short, shows⟩ := short_call ran
    exact ⟨rfl, short, shows⟩
  | _ =>
    refine absurd rfl (covered_serve ?_ ?_ world _ _ ran required available)
    · exact nofun
    · exact nofun

end Engine

end ContractLedger
