import ContractLedger.Engine.Invocation
import ContractLedger.Admission.Inspection

/-!
Transactions: an invocation whose outcome is settled at once. If it succeeds, its value and its
transfers are carried out and everything is committed; otherwise everything is rolled back. Code
that is to be deployed is inspected first.
-/

namespace ContractLedger

inductive TransactionAction where
  | create (code : Bytes)
  | call (method : String)
deriving DecidableEq

structure Transaction where
  sender : Address
  contract : Address
  value : Amount
  gasLimit : Gas
  action : TransactionAction
  parameters : List Value
deriving DecidableEq

/-- Why a transaction was not executed. The failure of the contract itself is part of a result. -/
inductive Refusal where
  | insufficientBalance (required available : Amount)
  | noContract (address : Address)
  | rejected (violations : List Violation)
  | state (reason : LedgerError)
deriving DecidableEq

namespace Refusal

def message : Refusal → String
  | insufficientBalance required available =>
    "Insufficient balance: required " ++ toString required.toNat ++ ", available " ++
      toString available.toNat
  | noContract address => "No contract at " ++ address.text
  | rejected violations =>
    "Code rejected with " ++ toString violations.length ++ " violations"
  | state reason => "State error: " ++ reason.message

/-- The texts of the errors inside a refusal, outermost first. -/
def sources : Refusal → List String
  | state reason => reason.message :: reason.sources
  | _ => []

end Refusal

abbrev SettleM (σ : Type) := EStateM Refusal (Host σ)

namespace Settlement

variable {σ : Type} [ByteStore σ]

def onLedger {α : Type} (step : LedgerM σ α) : SettleM σ α :=
  Host.run step .state

def tell (severity : Severity) (text : String) : SettleM σ Unit :=
  modify fun host => host.tell severity "executive" text

/-- Rolls the ledger back where a step fails. -/
def orRollback {α : Type} (step : SettleM σ α) : SettleM σ α := fun host =>
  match step host with
  | .ok value host => .ok value host
  | .error refusal host => (do onLedger Ledger.rollback; throw refusal) host

/-- Runs an invocation with a meter of its own. -/
def invoke (invocation : Host σ → ExecutionResult × World σ) : SettleM σ ExecutionResult :=
  fun host =>
    let (result, world) := invocation host
    .ok result world.host

/-- The invocation that a transaction asks for. -/
def execute (engine : Engine) (transaction : Transaction) (context : Context) :
    SettleM σ ExecutionResult := do
  let meter := GasMeter.start transaction.gasLimit
  match transaction.action with
  | .create code =>
    let _ ← onLedger (Ledger.createAccount transaction.contract)
    let _ ← onLedger (Ledger.setCode transaction.contract code)
    invoke (engine.create code context · meter)
  | .call method =>
    let some code ← onLedger (Ledger.getCode transaction.contract)
      | throw (.noContract transaction.contract)
    invoke (engine.executeMethod code (some method) context · meter)

/-- Moves value from one account to another, which may be the same. -/
def moveValue (sender recipient : Address) (value : Amount) : SettleM σ Unit := do
  if value = 0 then return
  let available ← onLedger (Ledger.getBalance sender)
  if available < value then throw (.insufficientBalance value available)
  onLedger (Ledger.setBalance sender (available - value))
  let balance ← onLedger (Ledger.getBalance recipient)
  onLedger (Ledger.setBalance recipient (Amount.plus balance value))

/-- Carries out the value of a transaction and then the transfers of its result. -/
def applyTransfers (transaction : Transaction) (transfers : TransferList) : SettleM σ Unit := do
  moveValue transaction.sender transaction.contract transaction.value
  transfers.forM fun transfer => moveValue transfer.sender transfer.recipient transfer.value

/-- The context in which a transaction is invoked. -/
def contextOf (transaction : Transaction) (block : Block) : Context :=
  { block
    message := ⟨transaction.sender, transaction.value, transaction.gasLimit⟩
    address := transaction.contract
    parameters := transaction.parameters }

/-- Executes a transaction and settles its outcome. -/
def transact (engine : Engine) (transaction : Transaction) (block : Block) :
    SettleM σ ExecutionResult := do
  let available ← onLedger (Ledger.getBalance transaction.sender)
  if available < transaction.value then
    throw (.insufficientBalance transaction.value available)
  let result ← orRollback (execute engine transaction (contextOf transaction block))
  if result.isSuccess then
    orRollback (applyTransfers transaction result.transfers)
    onLedger Ledger.commit
  else
    tell .detail ("transaction to " ++ transaction.contract.text ++ " failed, rolling back")
    onLedger Ledger.rollback
  return result

/-- Inspects code, then executes the transaction that deploys it; nothing is executed if the
inspection finds anything. -/
def deploy (engine : Engine) (inspector : Inspector) (transaction : Transaction)
    (module : ModuleBody) (block : Block) : SettleM σ ExecutionResult := do
  let violations := inspector.inspect module
  modify fun host =>
    { host with
      ledger := { host.ledger with
        journal := host.ledger.journal ++ violations.map Violation.entry } }
  if violations.isEmpty then
    transact engine transaction block
  else
    violations.forM fun violation =>
      tell .warning
        ("rejected code for " ++ transaction.contract.text ++ ": " ++ violation.text)
    throw (.rejected violations)

end Settlement

end ContractLedger
