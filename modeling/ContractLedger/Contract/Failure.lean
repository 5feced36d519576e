import ContractLedger.Contract.Value
import ContractLedger.Engine.Gas
import ContractLedger.Ledger.Basic

/-!
Failures of contract code and of the invocations that run it. A failed call is a failure of its
caller that holds the failure of the callee, so failures form chains; exhausted gas and the
contract failure at the bottom of a chain are found by following it.
-/

namespace ContractLedger

/-- Why code could not be turned into a contract type. -/
inductive LoadError where
  | unknownCode (hash : Hash)
  | noContractType
  | ambiguousContractType (count : Nat)
  | malformed (reason : String)
deriving DecidableEq

def LoadError.message : LoadError → String
  | .unknownCode hash => "no module for code " ++ hash.text
  | .noContractType => "code exports no contract type"
  | .ambiguousContractType count => "code exports " ++ toString count ++ " contract types"
  | .malformed reason => "malformed code: " ++ reason

mutual

/-- A failure raised by contract code or by a service that it used. -/
inductive ContractError where
  | revert (reason : String)
  | outOfGas (refused : OutOfGas)
  | insufficientBalance (required available : Amount)
  | callDepth (limit : Nat)
  | noContract (address : Address)
  | call (target : Address) (cause : ExecutionError)
  | state (reason : LedgerError)
  | instanceMismatch (typeName : String)

/-- A failure of a creation or of the invocation of a method. -/
inductive ExecutionError where
  | load (reason : LoadError)
  | argument (reason : String)
  | parameterCount (expected got : Nat)
  | constructorInvocation
  | construct (cause : ContractError)
  | restore (cause : ContractError)
  | targetInvocation (cause : ContractError)
  | outOfGas (refused : OutOfGas)

end

/-- The category of a failed invocation. -/
inductive FailureKind where
  | load
  | argument
  | parameterCount
  | constructorInvocation
  | construct
  | restore
  | targetInvocation
  | outOfGas
  | state
deriving DecidableEq

def FailureKind.name : FailureKind → String
  | .load => "Load"
  | .argument => "Argument"
  | .parameterCount => "ParameterCount"
  | .constructorInvocation => "ConstructorInvocation"
  | .construct => "Construct"
  | .restore => "Restore"
  | .targetInvocation => "TargetInvocation"
  | .outOfGas => "OutOfGas"
  | .state => "State"

mutual

def ContractError.message : ContractError → String
  | .revert reason => "reverted: " ++ reason
  | .outOfGas refused => refused.message
  | .insufficientBalance required available =>
    "insufficient balance: required " ++ toString required.toNat ++ ", available " ++
      toString available.toNat
  | .callDepth limit => "call depth limit of " ++ toString limit ++ " reached"
  | .noContract address => "no contract at " ++ address.text
  | .call target cause => "call to " ++ target.text ++ " failed: " ++ cause.message
  | .state reason => "state error: " ++ reason.message
  | .instanceMismatch typeName => "instance is not a " ++ typeName

def ExecutionError.message : ExecutionError → String
  | .load reason => "load error: " ++ reason.message
  | .argument reason => "argument error: " ++ reason
  | .parameterCount expected got =>
    "parameter count mismatch: expected " ++ toString expected ++ ", got " ++ toString got
  | .constructorInvocation => "the constructor cannot be invoked as a method"
  | .construct cause => "construction failed: " ++ cause.message
  | .restore cause => "restoration failed: " ++ cause.message
  | .targetInvocation cause => "target invocation failed: " ++ cause.message
  | .outOfGas refused => refused.message

end

/-- The contract failure that an invocation's failure wraps, if any. -/
def ExecutionError.contractError? : ExecutionError → Option ContractError
  | .construct cause | .restore cause | .targetInvocation cause => some cause
  | _ => none

mutual

/-- The last contract failure on the chain of nested calls. -/
def ContractError.innermost : ContractError → ContractError
  | .call target cause => cause.cause?.getD (.call target cause)
  | error => error

/-- The last contract failure behind an invocation's failure. -/
def ExecutionError.cause? : ExecutionError → Option ContractError
  | .construct cause => some cause.innermost
  | .restore cause => some cause.innermost
  | .targetInvocation cause => some cause.innermost
  | _ => none

end

mutual

/-- The charge that was refused, if that is where the chain ends. -/
def ContractError.outOfGas? : ContractError → Option OutOfGas
  | .outOfGas refused => some refused
  | .call _ cause => cause.outOfGas?
  | _ => none

/-- The charge that was refused, if that is where the chain ends. -/
def ExecutionError.outOfGas? : ExecutionError → Option OutOfGas
  | .outOfGas refused => some refused
  | .construct cause => cause.outOfGas?
  | .restore cause => cause.outOfGas?
  | .targetInvocation cause => cause.outOfGas?
  | _ => none

end

/-- The texts of the errors inside a ledger failure, outermost first. -/
def LedgerError.sources : LedgerError → List String
  | .trie (.malformed reason) => [(TrieError.malformed reason).message, reason.message]
  | .trie (.store reason) => [(TrieError.store reason).message, reason.message]
  | .trie reason => [reason.message]
  | .malformedAccount reason => [reason.message]
  | .store reason => [reason.message]

mutual

/-- The texts of the errors inside a contract failure, outermost first. -/
def ContractError.sources : ContractError → List String
  | .outOfGas refused => [refused.message]
  | .call _ cause => cause.message :: cause.sources
  | .state reason => reason.message :: reason.sources
  | _ => []

/-- The texts of the errors inside an invocation's failure, outermost first. -/
def ExecutionError.sources : ExecutionError → List String
  | .load reason => [reason.message]
  | .outOfGas refused => [refused.message]
  | .construct cause => cause.message :: cause.sources
  | .restore cause => cause.message :: cause.sources
  | .targetInvocation cause => cause.message :: cause.sources
  | _ => []

end

namespace ExecutionError

/-- Wraps a contract failure, unless gas ran out somewhere below, which is reported as such. -/
def fromCause (cause : ContractError) (wrap : ContractError → ExecutionError) : ExecutionError :=
  match cause.outOfGas? with
  | some refused => .outOfGas refused
  | none => wrap cause

/-- The category by the form of the failure alone. -/
def formKind : ExecutionError → FailureKind
  | .load _ => .load
  | .argument _ => .argument
  | .parameterCount _ _ => .parameterCount
  | .constructorInvocation => .constructorInvocation
  | .construct _ => .construct
  | .restore _ => .restore
  | .targetInvocation _ => .targetInvocation
  | .outOfGas _ => .outOfGas

/-- The category: that of the ledger if the chain ends there, else by form. -/
def kind (error : ExecutionError) : FailureKind :=
  match error.cause? with
  | some (.state _) => .state
  | _ => error.formKind

/-- The short form used in the journal. -/
def brief (error : ExecutionError) : String :=
  match error.cause? with
  | some cause => error.kind.name ++ " (" ++ cause.message ++ ")"
  | none => error.kind.name

end ExecutionError

end ContractLedger
