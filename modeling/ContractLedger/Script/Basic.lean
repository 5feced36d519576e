import ContractLedger.Contract.Samples

/-!
Contracts written as lists of steps. A step asks the engine for one service, with operands taken
from literals, arguments and variables, and reports what came of it; its value may be kept in a
variable, and its failure may be tolerated. Two control steps end a run and choose between steps.
-/

namespace ContractLedger.Script

/-- Where a step takes a value from. -/
inductive Operand where
  | literal (value : Value)
  | argument (index : Nat)
  | named (name : String)
deriving DecidableEq

/-- A step that asks for a service or computes a value. -/
inductive Action where
  | get (key : Operand)
  | set (key value : Operand)
  | getWord (key : Operand)
  | setWord (key value : Operand)
  | getText (key : Operand)
  | setText (key value : Operand)
  | spend (amount : Operand)
  | transfer (recipient amount : Operand)
  | call (target amount method : Operand) (parameters : List Operand)
  | balance
  | hash (data : Operand)
  | depth
  | gasLimit
  | gasConsumed
  | gasAvailable
  | messageValue
  | messageGasLimit
  | blockNumber
  | self
  | sender
  | coinbase
  | add (first second : Operand)
  | subtract (first second : Operand)
  | assign (value : Operand)
  | revert (reason : String)
deriving DecidableEq

def Action.name : Action → String
  | get _ => "get"
  | set _ _ => "set"
  | getWord _ => "get_u64"
  | setWord _ _ => "set_u64"
  | getText _ => "get_string"
  | setText _ _ => "set_string"
  | spend _ => "spend"
  | transfer _ _ => "transfer"
  | call _ _ _ _ => "call"
  | balance => "balance"
  | hash _ => "hash"
  | depth => "depth"
  | gasLimit => "gas_limit"
  | gasConsumed => "gas_consumed"
  | gasAvailable => "gas_available"
  | messageValue => "msg_value"
  | messageGasLimit => "msg_gas_limit"
  | blockNumber => "block_number"
  | self => "self"
  | sender => "sender"
  | coinbase => "coinbase"
  | add _ _ => "add"
  | subtract _ _ => "sub"
  | assign _ => "let"
  | revert _ => "revert"

/-- What happens to the answer of a step: the variable that keeps its value, and whether its
failure is passed over. -/
structure Handling where
  keepIn : Option String
  tolerant : Bool
deriving DecidableEq

mutual

inductive Step where
  | act (action : Action) (handling : Handling)
  | direct (restorer invoker : Blueprint) (method : String) (parameters : List Value)
      (handling : Handling)
  | finish (value : Option Operand)
  | ifZero (tested : Operand) (whenZero otherwise : List Step)

/-- A constructor or a method of a script. -/
inductive Operation where
  | mk (name : String) (signature : Signature) (steps : List Step)

/-- The plan of a contract type: a sample, or a script. -/
inductive Blueprint where
  | counter
  | faulty
  | plain (name : String)
  | script (name : String) (restore : List Step) (constructor : Option Operation)
      (methods : List Operation)

end

/-- The arguments of a run and the variables set in it so far. -/
structure Scope where
  arguments : List Value
  bound : List (String × Value)
deriving DecidableEq

def Scope.start (arguments : List Value) : Scope := ⟨arguments, []⟩

/-- Where a run stands after a step: at the next one, or at its end. -/
inductive Progress where
  | running (scope : Scope)
  | ended (returned : Option Value)
deriving DecidableEq

/-- The value that a run returned, if it did. -/
def Progress.returned : Progress → Option Value
  | running _ => none
  | ended returned => returned

namespace Operand

def value (scope : Scope) : Operand → Code Value
  | literal value => return value
  | argument index =>
    match scope.arguments[index]? with
    | some value => return value
    | none => Code.revert "no such argument"
  | named name =>
    match scope.bound.lookup name with
    | some value => return value
    | none => Code.revert "no such variable"

/-- The content of an operand that has to be of a kind. -/
def valueAs (scope : Scope) (kind : ValueKind) (operand : Operand) : Code kind.Carrier := do
  match (← operand.value scope).as? kind with
  | some content => return content
  | none => Code.revert ("operand is not a " ++ kind.name)

end Operand

namespace Action

/-- Does what an action asks for, and yields its value. -/
def perform (scope : Scope) : Action → Code (Option Value)
  | get key => do
    return (← Code.read (← key.valueAs scope .bytes)).map .bytes
  | set key value => do
    let key ← key.valueAs scope .bytes
    Code.write key (← value.valueAs scope .bytes)
    return none
  | getWord key => do
    return (← Code.readWord (← key.valueAs scope .bytes)).map .u64
  | setWord key value => do
    let key ← key.valueAs scope .bytes
    Code.writeWord key (← value.valueAs scope .u64)
    return none
  | getText key => do
    return (← Code.readText (← key.valueAs scope .bytes)).map .text
  | setText key value => do
    let key ← key.valueAs scope .bytes
    Code.writeText key (← value.valueAs scope .text)
    return none
  | spend amount => do
    Code.spend (← amount.valueAs scope .u64)
    return none
  | transfer recipient amount => do
    let recipient ← recipient.valueAs scope .address
    Code.transfer recipient (← amount.valueAs scope .u64)
    return none
  | call target amount method parameters => do
    let target ← target.valueAs scope .address
    let amount ← amount.valueAs scope .u64
    let method ← method.valueAs scope .text
    let parameters ← parameters.mapM (Operand.value scope)
    Code.call target method parameters amount
  | balance => return some (.u64 (← Program.request .balance))
  | hash data => do
    return some (.bytes (Keccak.digest (← data.valueAs scope .bytes)).bytes)
  | depth => return some (.u64 (UInt64.ofNat (← Program.request .depth)))
  | gasLimit => return some (.u64 (← Program.request .meter).limit)
  | gasConsumed => return some (.u64 (← Program.request .meter).consumed)
  | gasAvailable => return some (.u64 (← Program.request .meter).available)
  | messageValue => return some (.u64 (← Program.request .value))
  | messageGasLimit => return some (.u64 (← Program.request .gasLimit))
  | blockNumber => return some (.u64 (← Program.request .block).number)
  | self => return some (.address (← Program.request .self))
  | sender => return some (.address (← Program.request .sender))
  | coinbase => return some (.address (← Program.request .block).coinbase)
  | add first second => do
    let first ← first.valueAs scope .u64
    return some (.u64 (Amount.plus first (← second.valueAs scope .u64)))
  | subtract first second => do
    let first ← first.valueAs scope .u64
    return some (.u64 (Amount.minus first (← second.valueAs scope .u64)))
  | assign value => some <$> value.value scope
  | revert reason => Code.revert reason

end Action

/-- Runs the action of a step, reports it, and handles its answer. -/
def settle (scope : Scope) (name : String) (handling : Handling)
    (action : Code (Option Value)) : Code Progress := do
  let answer ← action.attempt
  Program.report (.step name answer)
  match answer with
  | .ok value =>
    match handling.keepIn, value with
    | some slot, some value =>
      return .running { scope with bound := (slot, value) :: scope.bound }
    | _, _ => return .running scope
  | .error error =>
    if handling.tolerant then return .running scope else .fail error

/-- A blueprint whose script has a method with the constructor's name cannot be built. -/
structure ReservedName where
  typeName : String
deriving DecidableEq

/-- A type that was built, or a report of why it could not be, which ends the step. -/
def requireBuilt : Except ReservedName ContractType → Code ContractType
  | .ok type => return type
  | .error reserved => do
    Program.report (.reservedName reserved.typeName)
    Code.revert ("reserved method name in " ++ reserved.typeName)

/-- Invokes a method on an instance that another type restores, in the frame of the script. The
invoking type is needed only once there is an instance. -/
def invokeDirectly (restorer invoker : Except ReservedName ContractType) (method : String)
    (parameters : List Value) : Code (Option Value) := do
  let target ← (← requireBuilt restorer).restore
  let outcome ← (← requireBuilt invoker).invoke target method parameters
  Program.report (.invocation target outcome)
  match outcome.toResult method with
  | .ok returned => return returned
  | .error error => Code.revert error.message

/-- The layout of scripts, which hold nothing. -/
def layout : String := "script"

mutual

def Step.run (scope : Scope) : Step → Code Progress
  | .act action handling => settle scope action.name handling (action.perform scope)
  | .direct restorer invoker method parameters handling =>
    settle scope "direct" handling
      (invokeDirectly restorer.build invoker.build method parameters)
  | .finish none => return .ended none
  | .finish (some operand) => return .ended (some (← operand.value scope))
  | .ifZero tested whenZero otherwise => do
    if (← tested.valueAs scope .u64) = 0 then runSteps scope whenZero
    else runSteps scope otherwise

/-- Runs steps one after another until one ends the run. -/
def runSteps (scope : Scope) : List Step → Code Progress
  | [] => return .running scope
  | step :: rest => do
    match ← step.run scope with
    | .running scope => runSteps scope rest
    | .ended returned => return .ended returned

def addMethods (type : ContractType) : List Operation → Except ReservedName ContractType
  | [] => .ok type
  | .mk name signature steps :: rest =>
    if name = constructorName then .error ⟨type.name⟩
    else
      addMethods
        (type.withMethod name signature fun _ arguments => do
          return (← runSteps (.start (signature.values arguments)) steps).returned)
        rest

/-- Gives a type the constructor of a script, if it has one. -/
def addConstructor (type : ContractType) : Option Operation → ContractType
  | none => type
  | some (.mk _ signature steps) =>
    type.withConstructor signature fun arguments => do
      let _ ← runSteps (.start (signature.values arguments)) steps
      return []

def Blueprint.build : Blueprint → Except ReservedName ContractType
  | .counter => .ok Sample.counter
  | .faulty => .ok Sample.faulty
  | .plain name => .ok (Sample.plain name)
  | .script name restore constructor methods =>
    addMethods
      (addConstructor
        (ContractType.start name layout do
          let _ ← runSteps (.start []) restore
          return [])
        constructor)
      methods

end

/-- Modules of several blueprints, which can be built only if each of them can. -/
def buildModule (blueprints : List Blueprint) : Except ReservedName Module :=
  blueprints.mapM Blueprint.build

end ContractLedger.Script
