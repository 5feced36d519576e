import ContractLedger.Proofs.Engine.Along
import ContractLedger.Proofs.Engine.Fails
import ContractLedger.Proofs.Engine.Relay

/-!
Exhausted meters. A charge that is refused exhausts the meter, and what is exhausted stays so, whatever
callers do with the refusal. So if code only relays refused charges, then an invocation that tells of
one, at whatever depth it was refused, ends with its meter at the limit.
-/

namespace ContractLedger

variable {σ ε α : Type}

def GasMeter.Exhausted (meter : GasMeter) : Prop :=
  meter.consumed = meter.limit

theorem World.Advances.exhausted {before after : World σ} (advances : before.Advances after)
    (spent : before.meter.Exhausted) : after.meter.Exhausted := by
  obtain ⟨more, within⟩ := advances.consumed (UInt64.le_of_eq spent)
  rw [spent, ← advances.limit] at more
  exact UInt64.le_antisymm within more

/-- Whether a failure that tells of a refused charge leaves the meter exhausted. -/
def ContractError.Exhausts (error : ContractError) (world : World σ) : Prop :=
  ∀ refused ∈ error.outOfGas?, world.meter.Exhausted

/-- A program that relays exhausts the meter if the services that answer it do. -/
theorem Program.Relays.exhausts {serve : (request : Request) → ServiceM σ request.Answer}
    (advances : ∀ request, Along World.Advances (serve request))
    (exhausts : ∀ request, Fails ContractError.Exhausts (serve request))
    {told : Except ε α → Option OutOfGas} {known : Set OutOfGas} {program : Program ε α}
    (relays : program.Relays told known) {world : World σ}
    (spent : ∀ refused ∈ known, world.meter.Exhausted) :
    ∀ refused ∈ told (answer (program.run serve world)),
      (ending (program.run serve world)).meter.Exhausted := by
  induction program generalizing known world with
  | done value => exact fun refused member => spent refused (relays refused member)
  | fail error => exact fun refused member => spent refused (relays refused member)
  | ask request resume ih =>
    rw [Program.run_ask]
    refine ih _ (relays _) fun refused member => ?_
    have onward := advances request world
    rcases member with before | here
    · exact onward.exhausted (spent refused before)
    · cases served : serve request world with
      | ok value after =>
        rw [served] at here
        cases here
      | error error after =>
        rw [served] at here
        exact exhausts request world error after served refused here

namespace Service

open ContractError

private theorem exhausts_onLedger (step : LedgerM σ α) : Fails Exhausts (onLedger step) :=
  fails_onLedger (fun _ _ => nofun) step

private theorem exhausts_spend (amount : Gas) : Fails Exhausts (spend amount : ServiceM σ Unit) :=
  fails_spend (fun _ _ spent _ _ => spent) amount

variable [ByteStore σ]

private theorem exhausts_ensureBalance (frame : Frame) (required : Amount) :
    Fails Exhausts (ensureBalance frame required : ServiceM σ Unit) :=
  .bind (fails_balanceOf (fun _ _ => nofun) _ _) fun _ => .ite (.failed fun _ => nofun) (.done _)

theorem exhausts_answer (schedule : Schedule) (frame : Frame)
    {call : CallRequest → ServiceM σ (Option Value)} (calls : ∀ request, Fails Exhausts (call request))
    (request : Request) : Fails Exhausts (answer schedule frame call request) := by
  refine fails_answer (fun _ _ => nofun) (fun _ _ spent _ _ => spent) schedule frame ?_
    fun called _ => calls called
  rintro recipient amount rfl
  exact .bind (exhausts_spend _) fun _ => .bind (exhausts_ensureBalance _ _) fun _ => .changed _

end Service

variable [ByteStore σ]

namespace Engine

open Service

private theorem exhausts_enter (engine : Engine) (frame : Frame) (request : CallRequest) :
    Fails ContractError.Exhausts (engine.enter frame request : ServiceM σ _) := by
  refine .bind (.bind (exhausts_spend _) fun _ =>
    .bind (exhausts_ensureBalance _ _) fun _ => exhausts_onLedger _) fun code => ?_
  cases code with
  | none => exact .failed fun _ => nofun
  | some code =>
    exact .bind (exhausts_onLedger _) fun _ => .reading fun _ =>
      .bind (.changed _) fun _ => .reading fun _ => .done _

private theorem exhausts_leave {target : Address} {entry : Entry}
    {result : EStateM.Result ExecutionError (World σ) (Option Value)}
    (spent : ∀ refused ∈ ExecutionError.told (answer result), (ending result).meter.Exhausted)
    {error : ContractError} {last : World σ} (left : leave target entry result = .error error last) :
    error.Exhausts last := by
  cases result with
  | ok value after => cases left
  | error cause after =>
    have undoing : Fails ContractError.Exhausts
        (undo entry.checkpoint entry.mark : ServiceM σ Unit) :=
      .bind (exhausts_onLedger _) fun _ => .changed _
    have onward := advances_undo entry.checkpoint entry.mark after
    simp only [leave, Step.bind_apply] at left
    cases undone : undo entry.checkpoint entry.mark after with
    | ok value final =>
      rw [undone] at left onward
      cases left
      exact fun refused member => onward.exhausted (spent refused member)
    | error reason final =>
      rw [undone] at left
      cases left
      exact undoing after _ _ undone

variable {engine : Engine}

/-- If all code relays refused charges, a call that tells of one leaves the meter exhausted. -/
theorem Relays.exhausts_call (relays : engine.Relays) (levels : Nat) (frame : Frame)
    (request : CallRequest) :
    Fails ContractError.Exhausts (engine.call levels frame request : ServiceM σ _) := by
  induction levels generalizing frame request with
  | zero => exact .failed fun _ => nofun
  | succ levels ih =>
    intro world error after ran
    cases entered : engine.enter frame request world with
    | error reason last =>
      rw [call_refused entered] at ran
      cases ran
      exact exhausts_enter engine frame request world _ _ entered
    | ok entry inside =>
      rw [call_entered entered] at ran
      exact exhausts_leave ((relays.nestedProgram entry.code request).exhausts
        (respected_advances.serve engine levels entry.frame)
        (exhausts_answer _ _ (ih entry.frame)) nofun) ran

/-- If all code relays refused charges, an invocation that tells of one leaves the meter exhausted. -/
theorem Relays.exhausts_outermost (relays : engine.Relays) (context : Context)
    {program : Program ExecutionError (Option Value)}
    (relaysProgram : program.Relays ExecutionError.told ∅) (world : World σ) :
    ∀ refused ∈ ExecutionError.told (answer (engine.runOutermost context program world)),
      (ending (engine.runOutermost context program world)).meter.Exhausted :=
  relaysProgram.exhausts (respected_advances.serve engine _ _)
    (exhausts_answer _ _ (relays.exhausts_call _ _)) nofun

end Engine

end ContractLedger
