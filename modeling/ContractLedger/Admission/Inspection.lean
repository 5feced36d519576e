import ContractLedger.Admission.Instruction
import ContractLedger.Admission.Denylist
import ContractLedger.Journal

/-!
The inspection that code passes before it is deployed. A method offends with its first reference
to a denied signature or, under the stricter policy, to a generic method; a reference that is
both counts as denied.
-/

namespace ContractLedger

/-- What becomes of references that are still generic. -/
inductive GenericPolicy where
  | allow
  | reject
deriving DecidableEq

inductive Offence where
  | nonDeterministicCall
  | unresolvedGenericCall
deriving DecidableEq

def Offence.name : Offence → String
  | .nonDeterministicCall => "Forbidden Non-Deterministic Call"
  | .unresolvedGenericCall => "Unresolved Generic Call"

/-- An offending method, with the place and the signature of its first offence. -/
structure Violation where
  methodName : String
  methodFullName : String
  offset : UInt32
  offence : Offence
  signature : String
deriving DecidableEq

namespace Violation

def message (violation : Violation) : String :=
  violation.methodFullName ++ " calls " ++ violation.signature

def text (violation : Violation) : String :=
  violation.methodName ++ ": " ++ violation.offence.name ++ " (" ++ violation.message ++ ")"

/-- The journal entry made when a violation is found. -/
def entry (violation : Violation) : JournalEntry :=
  ⟨.detail, "validation",
    violation.methodFullName ++ " rejected at offset " ++ toString violation.offset.toNat ++ ": " ++
      violation.offence.name ++ " " ++ violation.signature⟩

end Violation

structure Inspector where
  denylist : Denylist
  generics : GenericPolicy

namespace Inspector

def offence? (inspector : Inspector) (reference : MethodReference) : Option Offence :=
  if inspector.denylist.contains reference.fullName then some .nonDeterministicCall
  else if reference.generic && inspector.generics = .reject then some .unresolvedGenericCall
  else none

/-- The violation of an instruction of a method, if it is one. -/
def violation? (inspector : Inspector) (method : MethodBody) (instruction : Instruction) :
    Option Violation := do
  let reference ← instruction.reference?
  let offence ← inspector.offence? reference
  return ⟨method.name, method.fullName, instruction.offset, offence, reference.fullName⟩

/-- The first violation of a method. -/
def inspectMethod (inspector : Inspector) (method : MethodBody) : Option Violation :=
  method.body.findSome? (inspector.violation? method)

/-- The violations of a module, at most one for each method, in the order of declaration. -/
def inspect (inspector : Inspector) (module : ModuleBody) : List Violation :=
  module.methods.filterMap inspector.inspectMethod

end Inspector

end ContractLedger
