import ContractLedger.Contract.Program
import ContractLedger.OrderedMap

/-!
Contract types: how instances are constructed and restored, and the methods that they offer.
Construction, restoration and invocation are programs, with every check that precedes the
contract's own code in its place.
-/

namespace ContractLedger

/-- A method: its parameters, and its code for an instance and arguments. -/
structure Method where
  signature : Signature
  body : Instance → signature.Arguments → Code (Option Value)

/-- A constructor: its parameters, and the code that yields what the new instance holds. -/
structure Constructor where
  signature : Signature
  body : signature.Arguments → Code (List Value)

/-- A contract type. Without a constructor of its own, it constructs by restoring. -/
structure ContractType where
  name : String
  layout : String
  restorer : Code (List Value)
  constructor : Option Constructor
  methods : OrderedMap String Method

/-- The name of the constructor, which no method may have. -/
def constructorName : String := "constructor"

namespace ContractType

/-- A type without methods or a constructor of its own. -/
def start (name layout : String) (restorer : Code (List Value)) : ContractType :=
  ⟨name, layout, restorer, none, .empty⟩

def withConstructor (type : ContractType) (signature : Signature)
    (body : signature.Arguments → Code (List Value)) : ContractType :=
  { type with constructor := some ⟨signature, body⟩ }

/-- Adds a method, in place of an earlier one of its name. -/
def withMethod (type : ContractType) (name : String) (signature : Signature)
    (body : Instance → signature.Arguments → Code (Option Value)) : ContractType :=
  { type with methods := type.methods.insert name ⟨signature, body⟩ }

/-- The number of parameters of the constructor. -/
def constructorArity (type : ContractType) : Nat :=
  type.constructor.elim 0 fun constructor => constructor.signature.length

/-- The number of parameters of an operation, if there is one of that name. -/
def arity? (type : ContractType) (operation : String) : Option Nat :=
  if operation = constructorName then some type.constructorArity
  else (type.methods.get? operation).map fun method => method.signature.length

/-- An instance of the type that holds the given fields. -/
def newInstance (type : ContractType) (fields : List Value) : Instance :=
  ⟨type.name, type.layout, fields⟩

def construct (type : ContractType) (parameters : List Value) :
    Program ExecutionError Instance := do
  if parameters.length ≠ type.constructorArity then
    .fail (.parameterCount type.constructorArity parameters.length)
  else
    let body ← match type.constructor with
      | none => pure type.restorer
      | some constructor =>
        match constructor.signature.accept parameters with
        | .ok arguments => pure (constructor.body arguments)
        | .error reason => .fail (.argument reason)
    let fields ← body.mapError fun cause => .fromCause cause .construct
    return type.newInstance fields

/-- Rebuilds an instance from the contract's storage. -/
def restore (type : ContractType) : Code Instance := do
  return type.newInstance (← type.restorer)

/-- Invokes a method on an instance. -/
def invoke {ε : Type} (type : ContractType) (target : Instance) (method : String)
    (parameters : List Value) : Program ε Outcome :=
  if method = constructorName then .done .constructorMisuse
  else if target.typeName ≠ type.name then .done (.targetFailed (.instanceMismatch type.name))
  else
    match type.methods.get? method with
    | none => .done .unknownMethod
    | some found =>
      if parameters.length ≠ found.signature.length then
        .done (.arityMismatch found.signature.length parameters.length)
      else if target.layout ≠ type.layout then
        .done (.targetFailed (.instanceMismatch type.name))
      else
        match found.signature.accept parameters with
        | .error reason => .done (.argumentMismatch reason)
        | .ok arguments => do
          match ← (found.body target arguments).attempt with
          | .ok returned => return .success returned
          | .error cause => return .targetFailed cause

/-- Restores an instance and invokes a method on it. -/
def perform (type : ContractType) (method : String) (parameters : List Value) :
    Program ExecutionError (Option Value) := do
  let target ← type.restore.mapError fun cause => .fromCause cause .restore
  .ofExcept ((← type.invoke target method parameters).toResult method)

end ContractType

/-- The contract types that one piece of code exports. -/
abbrev Module := List ContractType

/-- The contract type of a module, if it exports just one; nothing if it exports none. -/
def Module.singleType : Module → Except LoadError (Option ContractType)
  | [] => .ok none
  | [type] => .ok (some type)
  | types => .error (.ambiguousContractType types.length)

/-- What turns code into the contract types that it exports. -/
abbrev Loader := Bytes → Except LoadError Module

/-- Modules registered by the hash of their code, the latest first. -/
abbrev Registry := List (Hash × Module)

namespace Registry

/-- Registers a module as the content of code. -/
def register (registry : Registry) (code : Bytes) (module : Module) : Registry :=
  (Keccak.digest code, module) :: registry

def contains (registry : Registry) (hash : Hash) : Bool :=
  (registry.lookup hash).isSome

/-- The loader that knows the registered modules. -/
def load (registry : Registry) : Loader := fun code =>
  match registry.lookup (Keccak.digest code) with
  | some module => .ok module
  | none => .error (.unknownCode (Keccak.digest code))

end Registry

end ContractLedger
