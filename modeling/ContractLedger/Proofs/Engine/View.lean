import ContractLedger.Proofs.Ledger.View
import ContractLedger.Settlement

/-!
Running contracts and settling transactions over a reliable store do what they do over its content,
and what waits for the next commit stays there until a transaction is settled.
-/

namespace ContractLedger

variable {σ : Type} [ByteStore σ] [ReliableStore σ]

def Host.pending (host : Host Content) : Set Bytes :=
  host.ledger.pending

def World.pending (world : World Content) : Set Bytes :=
  world.host.pending

def Host.view (host : Host σ) : Host Content :=
  ⟨host.ledger.view, host.observations⟩

theorem Host.mem_pendingList {host : Host σ} {bytes : Bytes} :
    bytes ∈ host.ledger.ledger.pendingList ↔ bytes ∈ host.view.pending :=
  Ledger.mem_pendingList

def World.view (world : World σ) : World Content :=
  ⟨world.host.view, world.meter, world.transfers⟩

theorem Host.agree_run {ε α γ : Type} {measure : Ledger.Mounted Content → Set γ}
    {step : LedgerM σ α} {stepContent : LedgerM Content α} (wrap : LedgerError → ε)
    (agree : Agree Ledger.Mounted.view measure step stepContent) :
    Agree Host.view (fun host => measure host.ledger) (Host.run step wrap)
      (Host.run stepContent wrap) := by
  constructor
  · intro host
    simp only [Host.run, Host.view, ← agree.same host.ledger]
    cases step host.ledger <;> rfl
  · intro host
    have grows := agree.grows host.ledger
    simp only [Host.run, Host.view]
    cases ran : stepContent host.ledger.view <;> rw [ran] at grows <;> exact grows

namespace Service

theorem agree_onLedger {α : Type} {step : LedgerM σ α} {stepContent : LedgerM Content α}
    (agree : Agree Ledger.Mounted.view Ledger.Mounted.pending step stepContent) :
    Agree World.view World.pending (onLedger step) (onLedger stepContent) := by
  have run := Host.agree_run ContractError.state agree
  constructor
  · intro world
    simp only [onLedger, World.view, ← run.same world.host]
    cases Host.run step ContractError.state world.host <;> rfl
  · intro world
    have grows := run.grows world.host
    simp only [onLedger, World.view]
    cases ran : Host.run stepContent ContractError.state world.host.view <;>
      rw [ran] at grows <;> exact grows

theorem agree_spend (amount : Gas) :
    Agree World.view World.pending (spend amount : ServiceM σ _) (spend amount) := by
  constructor
  · intro world
    simp only [spend, World.view]
    cases GasMeter.spend amount world.meter <;> rfl
  · intro world
    simp only [spend, World.view]
    cases GasMeter.spend amount world.meter <;> exact Set.Subset.refl _

theorem agree_balanceOf (incoming : Incoming) (address : Address) :
    Agree World.view World.pending (balanceOf incoming address : ServiceM σ _)
      (balanceOf incoming address) :=
  .bind (agree_onLedger (Ledger.agree_getBalance address)) fun _ => .reading fun _ => .done _

theorem agree_ensureBalance (frame : Frame) (required : Amount) :
    Agree World.view World.pending (ensureBalance frame required : ServiceM σ _)
      (ensureBalance frame required) :=
  .bind (agree_balanceOf _ _) fun _ => .ite (.failed _) (.done _)

theorem agree_record (frame : Frame) (recipient : Address) (value : Amount) :
    Agree World.view World.pending (record frame recipient value : ServiceM σ _)
      (record frame recipient value) :=
  .changed (fun _ => rfl) fun _ => Set.Subset.refl _

theorem agree_transfer (schedule : Schedule) (frame : Frame) (recipient : Address)
    (amount : Amount) :
    Agree World.view World.pending (transfer schedule frame recipient amount : ServiceM σ _)
      (transfer schedule frame recipient amount) :=
  .bind (agree_spend _) fun _ => .bind (agree_ensureBalance _ _) fun _ => agree_record _ _ _

theorem agree_read (schedule : Schedule) (frame : Frame) (key : Bytes) :
    Agree World.view World.pending (read schedule frame key : ServiceM σ _)
      (read schedule frame key) := by
  unfold read
  refine .bind (agree_spend _) fun _ =>
    .bind (agree_onLedger (Ledger.agree_getObject _ _)) fun value => ?_
  cases value with
  | none => exact .done _
  | some bytes => exact .bind (agree_spend _) fun _ => .done _

theorem agree_write (schedule : Schedule) (frame : Frame) (key value : Bytes) :
    Agree World.view World.pending (write schedule frame key value : ServiceM σ _)
      (write schedule frame key value) :=
  .bind (agree_spend _) fun _ => agree_onLedger (Ledger.agree_setObject _ _ _)

theorem agree_observe (frame : Frame) (note : Note) :
    Agree World.view World.pending (observe frame note : ServiceM σ _) (observe frame note) :=
  .changed (fun _ => rfl) fun _ => Set.Subset.refl _

theorem agree_answer (schedule : Schedule) (frame : Frame)
    {call : CallRequest → ServiceM σ (Option Value)}
    {callContent : CallRequest → ServiceM Content (Option Value)}
    (agree : ∀ request, Agree World.view World.pending (call request) (callContent request))
    (request : Request) :
    Agree World.view World.pending (answer schedule frame call request)
      (answer schedule frame callContent request) := by
  cases request with
  | spend amount => exact agree_spend amount
  | read key => exact agree_read schedule frame key
  | write key value => exact agree_write schedule frame key value
  | balance => exact agree_balanceOf _ _
  | transfer recipient amount => exact agree_transfer schedule frame recipient amount
  | call request => exact agree request
  | meter => exact .reading fun _ => .done _
  | note note => exact agree_observe frame note
  | _ => exact .done _

end Service

/-- Services that agree let every program end in the same way. -/
theorem Program.agree_run {ε α τ ρ γ : Type} {view : τ → ρ} {measure : ρ → Set γ}
    {serve : (request : Request) → EStateM ContractError τ request.Answer}
    {serveView : (request : Request) → EStateM ContractError ρ request.Answer}
    (agree : ∀ request, Agree view measure (serve request) (serveView request))
    (program : Program ε α) : Agree view measure (program.run serve) (program.run serveView) := by
  induction program with
  | done value => exact .done value
  | fail error => exact .failed error
  | ask request resume ih =>
    constructor
    · intro state
      simp only [run, ← (agree request).same state]
      cases serve request state with
      | ok answer after => exact (ih _).same after
      | error error after => exact (ih _).same after
    · intro state
      have first := (agree request).grows state
      simp only [run]
      rw [← (agree request).same state] at *
      cases ran : serve request state with
      | ok answer after =>
        rw [ran] at first
        exact first.trans ((ih _).grows after)
      | error error after =>
        rw [ran] at first
        exact first.trans ((ih _).grows after)

namespace Engine

theorem agree_undo (checkpoint : Hash) (mark : Nat) :
    Agree World.view World.pending (undo checkpoint mark : ServiceM σ _) (undo checkpoint mark) :=
  .bind (Service.agree_onLedger (Ledger.agree_revertTo checkpoint)) fun _ =>
    .changed (fun _ => rfl) fun _ => Set.Subset.refl _

theorem agree_call (engine : Engine) (levels : Nat) (frame : Frame) (request : CallRequest) :
    Agree World.view World.pending (engine.call levels frame request : ServiceM σ _)
      (engine.call levels frame request) := by
  induction levels generalizing frame request with
  | zero => exact .failed _
  | succ levels ih =>
    unfold call
    refine .bind (Service.agree_spend _) fun _ => .bind (Service.agree_ensureBalance _ _) fun _ =>
      .bind (Service.agree_onLedger (Ledger.agree_getCode _)) fun code => ?_
    cases code with
    | none => exact .failed _
    | some code =>
      refine .bind (Service.agree_onLedger Ledger.agree_checkpoint) fun checkpoint =>
        .reading fun before => ?_
      have run (inner : Frame) := Program.agree_run
        (Service.agree_answer engine.limits.schedule inner (ih inner))
        (engine.nestedProgram code request)
      have undone (cause : ExecutionError) : Agree World.view World.pending
          (do undo checkpoint before.transfers.length
              throw (ContractError.call request.target cause) : ServiceM σ (Option Value))
          (do undo checkpoint before.transfers.length
              throw (ContractError.call request.target cause)) :=
        .bind (agree_undo _ _) fun _ => .failed _
      have transfers : before.view.transfers = before.transfers := rfl
      refine .ite (.bind (Service.agree_record _ _ _) fun _ => .reading fun world => ?_)
        (.reading fun world => ?_)
      all_goals
        have meter : world.view.meter = world.meter := rfl
        refine .recover (run (nestedFrame frame request world.meter.available)) undone ?_ ?_ ?_ ?_
        all_goals
          intro state value after ran
          simp only [meter, transfers, ran]

theorem agree_runOutermost {ε α : Type} (engine : Engine) (context : Context)
    (program : Program ε α) :
    Agree World.view World.pending (engine.runOutermost context program : EStateM ε (World σ) α)
      (engine.runOutermost context program) :=
  Program.agree_run (Service.agree_answer _ _ fun _ => agree_call engine _ _ _) program

end Engine

/-- An invocation of a host and one of its view that do the same, losing nothing that is pending. -/
def AgreeOn (invocation : Host σ → ExecutionResult × World σ)
    (invocationView : Host Content → ExecutionResult × World Content) : Prop :=
  ∀ host, ((invocation host).1, (invocation host).2.view) = invocationView host.view ∧
    host.view.pending ⊆ (invocationView host.view).2.pending

namespace Engine

private theorem agreeOn_finish (engine : Engine) (operation : String) (context : Context)
    (program : Program ExecutionError (Option Value)) (meter : GasMeter) :
    AgreeOn
      (fun host : Host σ =>
        finish operation context (engine.runOutermost context program (startWorld host meter)))
      (fun host =>
        finish operation context (engine.runOutermost context program (startWorld host meter))) := by
  intro host
  have agree := @agree_runOutermost σ _ _ _ _ engine context program
  have same : through World.view (engine.runOutermost context program (startWorld host meter)) =
      engine.runOutermost context program (startWorld host.view meter) :=
    agree.same (startWorld host meter)
  have grows : host.view.pending ⊆
      (ending (engine.runOutermost context program (startWorld host.view meter))).pending :=
    agree.grows (startWorld host meter)
  simp only [← same] at grows ⊢
  cases ran : engine.runOutermost context program (startWorld host meter) with
  | ok returned world =>
    rw [ran] at grows
    exact ⟨rfl, grows⟩
  | error failure world =>
    rw [ran] at grows
    exact ⟨rfl, grows⟩

theorem agree_create (engine : Engine) (code : Bytes) (context : Context) (meter : GasMeter) :
    AgreeOn (fun host : Host σ => engine.create code context host meter)
      (fun host => engine.create code context host meter) :=
  agreeOn_finish engine _ context _ meter

theorem agree_executeMethod (engine : Engine) (code : Bytes) (method : String)
    (context : Context) (meter : GasMeter) :
    AgreeOn (fun host : Host σ => engine.executeMethod code (some method) context host meter)
      (fun host => engine.executeMethod code (some method) context host meter) := by
  unfold executeMethod
  simp only
  cases engine.loadType (engine.injector.prepareMethod code method) with
  | error reason => exact fun host => ⟨rfl, Set.Subset.refl _⟩
  | ok type =>
    cases type with
    | none => exact fun host => ⟨rfl, Set.Subset.refl _⟩
    | some type => exact agreeOn_finish engine _ context _ meter

end Engine

namespace Settlement

theorem agree_onLedger {α : Type} {step : LedgerM σ α} {stepContent : LedgerM Content α}
    (agree : Agree Ledger.Mounted.view Ledger.Mounted.pending step stepContent) :
    Agree Host.view Host.pending (onLedger step) (onLedger stepContent) :=
  Host.agree_run _ agree

theorem agree_onLedger_unmeasured {α : Type} {step : LedgerM σ α} {stepContent : LedgerM Content α}
    (agree : Agree Ledger.Mounted.view unmeasured step stepContent) :
    Agree Host.view unmeasured (onLedger step) (onLedger stepContent) :=
  Host.agree_run _ agree

theorem agree_tell (severity : Severity) (text : String) :
    Agree Host.view Host.pending (tell severity text : SettleM σ Unit) (tell severity text) :=
  .changed (fun _ => rfl) fun _ => Set.Subset.refl _

theorem agree_orRollback {α : Type} {step : SettleM σ α} {stepContent : SettleM Content α}
    (agree : Agree Host.view unmeasured step stepContent) :
    Agree Host.view unmeasured (orRollback step) (orRollback stepContent) := by
  have rolledBack (refusal : Refusal) : Agree Host.view unmeasured
      (do onLedger Ledger.rollback; throw refusal : SettleM σ α)
      (do onLedger Ledger.rollback; throw refusal) :=
    .bind (agree_onLedger_unmeasured Ledger.agree_rollback) fun _ => .failed _
  refine .recover agree rolledBack ?_ ?_ ?_ ?_
  all_goals
    intro state value after ran
    simp only [orRollback, ran]

theorem agree_invoke {invocation : Host σ → ExecutionResult × World σ}
    {invocationView : Host Content → ExecutionResult × World Content}
    (agree : AgreeOn invocation invocationView) :
    Agree Host.view Host.pending (invoke invocation) (invoke invocationView) := by
  constructor
  · intro host
    simp only [invoke, ← (agree host).1]
    rfl
  · intro host
    exact (agree host).2

theorem agree_execute (engine : Engine) (transaction : Transaction) (context : Context) :
    Agree Host.view Host.pending (execute engine transaction context : SettleM σ _)
      (execute engine transaction context) := by
  unfold execute
  cases transaction.action with
  | create code =>
    exact .bind (agree_onLedger (Ledger.agree_createAccount _)) fun _ =>
      .bind (agree_onLedger (Ledger.agree_setCode _ _)) fun _ =>
        agree_invoke (Engine.agree_create engine code context _)
  | call method =>
    refine .bind (agree_onLedger (Ledger.agree_getCode _)) fun code => ?_
    cases code with
    | none => exact .failed _
    | some code => exact agree_invoke (Engine.agree_executeMethod engine code method context _)

theorem agree_moveValue (sender recipient : Address) (value : Amount) :
    Agree Host.view Host.pending (moveValue sender recipient value : SettleM σ _)
      (moveValue sender recipient value) := by
  unfold moveValue
  refine .ite (.done _) (.bind (agree_onLedger (Ledger.agree_getBalance _)) fun available => ?_)
  have move : Agree Host.view Host.pending
      (do
        onLedger (Ledger.setBalance sender (available - value))
        let balance ← onLedger (Ledger.getBalance recipient)
        onLedger (Ledger.setBalance recipient (Amount.plus balance value)) : SettleM σ Unit)
      (do
        onLedger (Ledger.setBalance sender (available - value))
        let balance ← onLedger (Ledger.getBalance recipient)
        onLedger (Ledger.setBalance recipient (Amount.plus balance value))) :=
    .bind (agree_onLedger (Ledger.agree_setBalance _ _)) fun _ =>
      .bind (agree_onLedger (Ledger.agree_getBalance _)) fun _ =>
        agree_onLedger (Ledger.agree_setBalance _ _)
  exact .ite (.bind (.failed _) fun _ => move) move

theorem agree_applyTransfers (transaction : Transaction) (transfers : TransferList) :
    Agree Host.view Host.pending (applyTransfers transaction transfers : SettleM σ _)
      (applyTransfers transaction transfers) :=
  .bind (agree_moveValue _ _ _) fun _ => .forM _ fun _ => agree_moveValue _ _ _

theorem agree_transact (engine : Engine) (transaction : Transaction) (block : Block) :
    Agree Host.view unmeasured (transact engine transaction block : SettleM σ _)
      (transact engine transaction block) := by
  unfold transact
  refine .bind (agree_onLedger (Ledger.agree_getBalance _)).forget fun available => ?_
  have settle : Agree Host.view unmeasured
      (do
        let result ← orRollback (execute engine transaction (contextOf transaction block))
        if result.isSuccess then
          orRollback (applyTransfers transaction result.transfers)
          onLedger Ledger.commit
        else
          tell .detail ("transaction to " ++ transaction.contract.text ++ " failed, rolling back")
          onLedger Ledger.rollback
        return result : SettleM σ ExecutionResult)
      (do
        let result ← orRollback (execute engine transaction (contextOf transaction block))
        if result.isSuccess then
          orRollback (applyTransfers transaction result.transfers)
          onLedger Ledger.commit
        else
          tell .detail ("transaction to " ++ transaction.contract.text ++ " failed, rolling back")
          onLedger Ledger.rollback
        return result) := by
    refine .bind (agree_orRollback (agree_execute _ _ _).forget) fun result => .ite ?_ ?_
    · exact .bind (agree_orRollback (agree_applyTransfers _ _).forget) fun _ =>
        .bind (agree_onLedger_unmeasured Ledger.agree_commit) fun _ => .done _
    · exact .bind (agree_tell _ _).forget fun _ =>
        .bind (agree_onLedger_unmeasured Ledger.agree_rollback) fun _ => .done _
  exact .ite (.bind (.failed _) fun _ => settle) settle

end Settlement

end ContractLedger
