import ContractLedger.Proofs.Engine.Settled
import ContractLedger.Proofs.Engine.Solvent

/-!
The run of a transaction. A transaction that creates a contract or calls one prepares the ledger and
then runs one program in an outermost frame. The run starts from the ledger as it was, except that a
created contract is a new account with its code; and if it succeeds, the ledger has the balances of
that start still and backs the transfers of the result.
-/

namespace ContractLedger

variable {σ : Type} [ByteStore σ]

namespace Engine

def constructorProgram (engine : Engine) (code : Bytes) (context : Context) :
    Program ExecutionError (Option Value) :=
  match engine.loadType (engine.injector.prepareConstructor code) with
  | .error reason => .fail (.load reason)
  | .ok none => .fail (.load .noContractType)
  | .ok (some type) => do
    let _ ← type.construct context.parameters
    return some (.address context.address)

def methodProgram (engine : Engine) (code : Bytes) (method : String) (context : Context) :
    Program ExecutionError (Option Value) :=
  match engine.loadType (engine.injector.prepareMethod code method) with
  | .error reason => .fail (.load reason)
  | .ok none => .done none
  | .ok (some type) => type.perform method context.parameters

theorem executeMethod_eq (engine : Engine) (code : Bytes) (method : String) (context : Context)
    (host : Host σ) (meter : GasMeter) :
    engine.executeMethod code (some method) context host meter =
      finish method context (engine.runOutermost context
        (engine.methodProgram code method context) (startWorld host meter)) := by
  rw [executeMethod, methodProgram]
  cases engine.loadType (engine.injector.prepareMethod code method) with
  | error reason => rfl
  | ok found => cases found <;> rfl

end Engine

/-- What a transaction asks an engine to run. -/
structure Task where
  operation : String
  program : Program ExecutionError (Option Value)

namespace Settlement

/-- Everything that precedes the run of a transaction. -/
def prepare (engine : Engine) (transaction : Transaction) (context : Context) : SettleM σ Task := do
  match transaction.action with
  | .create code =>
    let _ ← onLedger (Ledger.createAccount transaction.contract)
    let _ ← onLedger (Ledger.setCode transaction.contract code)
    return ⟨"create", engine.constructorProgram code context⟩
  | .call method =>
    let some code ← onLedger (Ledger.getCode transaction.contract)
      | throw (.noContract transaction.contract)
    return ⟨method, engine.methodProgram code method context⟩

/-- The world in which the run of a transaction starts. -/
def opening (transaction : Transaction) (host : Host σ) : World σ :=
  Engine.startWorld host (.start transaction.gasLimit)

theorem execute_eq (engine : Engine) (transaction : Transaction) (context : Context) :
    (execute engine transaction context : SettleM σ ExecutionResult) =
      prepare engine transaction context >>= fun task =>
        invoke fun host => Engine.finish task.operation context
          (engine.runOutermost context task.program (opening transaction host)) := by
  unfold execute prepare
  cases transaction.action with
  | create code =>
    simp only [bind_assoc, pure_bind]
    rfl
  | call method =>
    funext host
    simp only [Step.bind_apply]
    cases onLedger (Ledger.getCode transaction.contract) host with
    | error refusal after => rfl
    | ok found after =>
      cases found with
      | none => rfl
      | some code =>
        simp only [Step.pure_apply, invoke, Engine.executeMethod_eq]
        rfl

theorem execute_ok {engine : Engine} {transaction : Transaction} {context : Context}
    {host batch : Host σ} {result : ExecutionResult}
    (ran : execute engine transaction context host = .ok result batch)
    (success : result.isSuccess = true) :
    ∃ task ready returned world, prepare engine transaction context host = .ok task ready ∧
      engine.runOutermost context task.program (opening transaction ready) = .ok returned world ∧
      result.transfers = world.transfers ∧ batch = world.host := by
  rw [execute_eq] at ran
  obtain ⟨task, ready, prepared, invoked⟩ := Step.bind_eq_ok.mp ran
  cases ended : engine.runOutermost context task.program (opening transaction ready) with
  | ok returned world =>
    simp only [invoke, ended] at invoked
    cases invoked
    exact ⟨task, ready, returned, world, prepared, ended, rfl, rfl⟩
  | error failure world =>
    simp only [invoke, ended] at invoked
    cases invoked
    cases success

/-- The points of the run of a transaction. -/
def Reaches (engine : Engine) (transaction : Transaction) (block : Block) (host : Host σ)
    (frame : Frame) (world : World σ) : Prop :=
  ∃ task ready,
    prepare engine transaction (contextOf transaction block) host = .ok task ready ∧
    Engine.Occurs engine engine.limits.maxCallDepth
      (Frame.outermost (contextOf transaction block)) task.program (opening transaction ready)
      frame world

/-- The world that the outermost frame of a transaction finds after so many of its requests. -/
def worldAt (engine : Engine) (transaction : Transaction) (block : Block) (host : Host σ)
    (count : Nat) : World σ :=
  let context := contextOf transaction block
  match prepare engine transaction context host with
  | .ok task ready =>
    engine.worldAfter engine.limits.maxCallDepth (Frame.outermost context) count task.program
      (opening transaction ready)
  | .error _ last => opening transaction last

theorem reaches_worldAt {engine : Engine} {transaction : Transaction} {block : Block} {host : Host σ}
    (prepared : (answer (prepare engine transaction (contextOf transaction block) host)).map
      (fun _ => ()) = .ok ()) (count : Nat) :
    Reaches engine transaction block host (Frame.outermost (contextOf transaction block))
      (worldAt engine transaction block host count) := by
  obtain ⟨task, ready, ran, _⟩ := ok_of_answer_map prepared
  refine ⟨task, ready, ran, ?_⟩
  rw [worldAt, ran]
  exact engine.occurs_worldAfter _ _ count task.program _

section Views

variable [ReliableStore σ]

theorem agree_prepare (engine : Engine) (transaction : Transaction) (context : Context) :
    Agree Host.view Host.pending (prepare engine transaction context : SettleM σ _)
      (prepare engine transaction context) := by
  unfold prepare
  cases transaction.action with
  | create code =>
    exact .bind (agree_onLedger (Ledger.agree_createAccount _)) fun _ =>
      .bind (agree_onLedger (Ledger.agree_setCode _ _)) fun _ => .done _
  | call method =>
    refine .bind (agree_onLedger (Ledger.agree_getCode _)) fun code => ?_
    cases code with
    | none => exact .failed _
    | some code => exact .done _

theorem Reaches.view {engine : Engine} {transaction : Transaction} {block : Block} {host : Host σ}
    {frame : Frame} {world : World σ}
    (reaches : Reaches engine transaction block host frame world) :
    Reaches engine transaction block host.view frame world.view := by
  obtain ⟨task, ready, prepared, occurs⟩ := reaches
  have same := (agree_prepare engine transaction (contextOf transaction block)).same host
  rw [prepared] at same
  exact ⟨task, ready.view, same.symm, occurs.view⟩

end Views

/-! The start of a run and its end on a sound ledger. -/

end Settlement

/-- The book from which the run of a transaction starts. -/
def Transaction.opening (transaction : Transaction) (book : Book) : Book :=
  match transaction.action with
  | .create code => book.set transaction.contract { Holding.fresh with code := some code }
  | .call _ => book

theorem Transaction.opening_of_call {transaction : Transaction} {method : String}
    (calls : transaction.action = .call method) (book : Book) : transaction.opening book = book := by
  rw [opening, calls]

theorem Transaction.code_of_call {transaction : Transaction} {method : String}
    (calls : transaction.action = .call method) : transaction.action.code = [] := by
  rw [calls]
  rfl

namespace Settlement

variable {data : Set Bytes} {engine : Engine} {transaction : Transaction} {context : Context}
  {host batch ready : Host Content} {book : Book} {roots : Address → Hash}

theorem onLedger_succeeds {α : Type} {step : LedgerM Content α} {value found : α} {last : Book}
    (succeeds : Ledger.Succeeds data host.ledger step value last)
    (ran : onLedger step host = .ok found ready) (pending : ready.pending ⊆ data) :
    found = value ∧ ∃ rootsReady, Ledger.Sound data ready.ledger last rootsReady := by
  simp only [onLedger, Host.run] at ran
  cases ended : step host.ledger with
  | error error after =>
    rw [ended] at ran
    cases ran
  | ok other after =>
    rw [ended] at ran
    cases ran
    have whole : (ending (step host.ledger)).pending ⊆ data := by
      rw [ended]
      exact pending
    obtain ⟨_, rootsReady, same, _, sound⟩ := succeeds whole
    rw [ended] at same
    cases same
    exact ⟨rfl, rootsReady, sound⟩

theorem prepare_ok (faithful : Faithful data) (sound : Ledger.Sound data host.ledger book roots)
    (within : ∀ code ∈ transaction.action.code, code ∈ data) {task : Task}
    (prepared : prepare engine transaction context host = .ok task ready)
    (pending : ready.pending ⊆ data) :
    (∃ rootsReady, Ledger.Sound data ready.ledger (transaction.opening book) rootsReady) ∧
      ((transaction.opening book).holding transaction.contract).code ≠ none := by
  unfold prepare at prepared
  unfold Transaction.opening
  cases action : transaction.action with
  | create code =>
    rw [action] at within
    simp only [action] at prepared ⊢
    obtain ⟨_, created, ranCreate, prepared⟩ := Step.bind_eq_ok.mp prepared
    obtain ⟨_, after, ranCode, prepared⟩ := Step.bind_eq_ok.mp prepared
    cases prepared
    have grown : created.pending ⊆
        (ending (onLedger (Ledger.setCode transaction.contract code) created)).pending :=
      (agree_onLedger (Ledger.agree_setCode transaction.contract code)).grows created
    rw [ranCode] at grown
    obtain ⟨_, _, soundCreated⟩ := onLedger_succeeds
      (Ledger.createAccount_sound faithful sound transaction.contract) ranCreate
      (grown.trans pending)
    have wrote := onLedger_succeeds (Ledger.setCode_sound faithful soundCreated transaction.contract
      (within code List.mem_cons_self)) ranCode pending
    rw [Book.holding_set_same, Book.set, Book.set, Function.update_idem] at wrote
    refine ⟨wrote.2, ?_⟩
    rw [Book.holding_set_same]
    exact Option.some_ne_none code
  | call method =>
    simp only [action] at prepared ⊢
    obtain ⟨found, after, ran, prepared⟩ := Step.bind_eq_ok.mp prepared
    rw [onLedger, Host.run, Ledger.getCode_apply faithful sound.orderly sound.lists] at ran
    cases ran
    cases code : (book.holding transaction.contract).code with
    | none =>
      rw [code] at prepared
      cases prepared
    | some bytes =>
      rw [code] at prepared
      cases prepared
      exact ⟨⟨roots, sound⟩, Option.some_ne_none bytes⟩

theorem solvent_opening (faithful : Faithful data)
    (sound : Ledger.Sound data host.ledger book roots)
    (within : ∀ code ∈ transaction.action.code, code ∈ data) {block : Block} {task : Task}
    (prepared : prepare engine transaction (contextOf transaction block) host = .ok task ready)
    (pending : ready.pending ⊆ data) :
    Solvent data (transaction.opening book) ⟨transaction.contract, transaction.value⟩
      (Frame.outermost (contextOf transaction block)) (opening transaction ready) := by
  obtain ⟨⟨_, soundReady⟩, code⟩ := prepare_ok faithful sound within prepared pending
  exact @Solvent.start data _ (Frame.outermost (contextOf transaction block))
    (opening transaction ready) _ soundReady code rfl

/-- At every point of the run of a transaction code is solvent. -/
theorem Reaches.solvent (faithful : Faithful data)
    (sound : Ledger.Sound data host.ledger book roots)
    (within : ∀ code ∈ transaction.action.code, code ∈ data) {block : Block} {frame : Frame}
    {world : World Content} (reaches : Reaches engine transaction block host frame world)
    (pending : world.pending ⊆ data) :
    Solvent data (transaction.opening book) ⟨transaction.contract, transaction.value⟩ frame world := by
  obtain ⟨task, ready, prepared, occurs⟩ := reaches
  have start := solvent_opening faithful sound within prepared (occurs.grows.1.trans pending)
  exact (upheld_solvent faithful _ _).occurs (respected_steady faithful) occurs start

/-- What is pending after the run of a transaction is pending when it is settled. -/
theorem pending_execute (engine : Engine) (transaction : Transaction) (block : Block)
    (host : Host Content) :
    (ending (execute engine transaction (contextOf transaction block) host)).pending ⊆
      (ending (unsettled engine transaction block host)).pending := by
  have rest (result : ExecutionResult) : Along Host.Grows (if result.isSuccess = true then
      applyTransfers transaction result.transfers else pure ()) :=
    .ite (agree_applyTransfers transaction result.transfers).grows (.done ())
  rw [unsettled]
  exact Along.first rest host

/-- What is pending at the end of a program is pending after the run of its transaction. -/
theorem pending_prepared {block : Block} {task : Task}
    (prepared : prepare engine transaction (contextOf transaction block) host = .ok task ready) :
    (ending (execute engine transaction (contextOf transaction block) host)).pending =
      (ending (engine.runOutermost (contextOf transaction block) task.program
        (opening transaction ready))).pending := by
  rw [execute_eq, Step.bind_ok prepared]
  simp only [invoke, ending]
  cases engine.runOutermost (contextOf transaction block) task.program (opening transaction ready) <;>
    rfl

/-- What is pending at a point of the run of a transaction is pending when it is settled. -/
theorem Reaches.pending {block : Block} {frame : Frame} {world : World Content}
    (reaches : Reaches engine transaction block host frame world) :
    world.pending ⊆ (ending (unsettled engine transaction block host)).pending := by
  obtain ⟨task, ready, prepared, occurs⟩ := reaches
  refine Set.Subset.trans ?_ (pending_execute engine transaction block host)
  rw [pending_prepared prepared]
  exact occurs.grows.2

/-- A run that succeeded has the balances and the code of its start still, which back the transfers
of the result. -/
theorem execute_sound (faithful : Faithful data) (sound : Ledger.Sound data host.ledger book roots)
    (within : ∀ code ∈ transaction.action.code, code ∈ data) {block : Block}
    {result : ExecutionResult}
    (ran : execute engine transaction (contextOf transaction block) host = .ok result batch)
    (success : result.isSuccess = true) (pending : batch.pending ⊆ data) :
    (∃ last rootsLast, Ledger.Sound data batch.ledger last rootsLast ∧
      (transaction.opening book).Alike last) ∧
      (transaction.opening book).Backs ⟨transaction.contract, transaction.value⟩
        result.transfers := by
  obtain ⟨task, ready, returned, world, prepared, ended, transfers, rfl⟩ := execute_ok ran success
  have grown := respected_grows.runOutermost engine (contextOf transaction block) task.program
    (opening transaction ready)
  rw [ended] at grown
  have start := solvent_opening faithful sound within prepared (grown.trans pending)
  have last := (upheld_solvent faithful _ _).run (respected_steady faithful) engine
    engine.limits.maxCallDepth task.program start
  change Solvent data _ _ _ (ending (engine.runOutermost _ _ _)) at last
  rw [ended] at last
  rw [transfers]
  exact ⟨last.sound pending, last.backs pending⟩

end Settlement

end ContractLedger
