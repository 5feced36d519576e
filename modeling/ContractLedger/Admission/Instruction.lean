/-!
Contract code as the inspection sees it: modules of types of methods of instructions, some of
which refer to methods.
-/

namespace ContractLedger

inductive Opcode where
  | nop
  | load
  | store
  | branch
  | call
  | callVirtual
  | newObject
  | loadFunction
  | leave
deriving DecidableEq

namespace Opcode

def name : Opcode → String
  | nop => "Nop"
  | load => "Load"
  | store => "Store"
  | branch => "Branch"
  | call => "Call"
  | callVirtual => "CallVirtual"
  | newObject => "NewObject"
  | loadFunction => "LoadFunction"
  | leave => "Return"

def all : List Opcode :=
  [nop, load, store, branch, call, callVirtual, newObject, loadFunction, leave]

def ofName? (name : String) : Option Opcode :=
  all.find? (·.name == name)

end Opcode

/-- A reference to a method, generic if type parameters are still unbound. -/
structure MethodReference where
  returnType : String
  declaringType : String
  name : String
  parameters : List String
  generic : Bool
deriving DecidableEq

/-- The signature of a referenced method, by which it is denied or not. -/
def MethodReference.fullName (reference : MethodReference) : String :=
  reference.returnType ++ " " ++ reference.declaringType ++ "::" ++ reference.name ++ "(" ++
    String.intercalate "," reference.parameters ++ ")"

inductive InstructionOperand where
  | none
  | number (value : Int64)
  | text (value : String)
  | target (offset : UInt32)
  | method (reference : MethodReference)
deriving DecidableEq

structure Instruction where
  offset : UInt32
  opcode : Opcode
  operand : InstructionOperand
deriving DecidableEq

/-- The method that an instruction refers to, whatever its opcode. -/
def Instruction.reference? (instruction : Instruction) : Option MethodReference :=
  match instruction.operand with
  | .method reference => some reference
  | _ => none

/-- A method with its body, and the signature under which reports name it. -/
structure MethodBody where
  name : String
  fullName : String
  body : List Instruction
deriving DecidableEq

structure TypeBody where
  name : String
  methods : List MethodBody
deriving DecidableEq

/-- Every type of one piece of code. -/
structure ModuleBody where
  types : List TypeBody
deriving DecidableEq

/-- Every method of every type, in the order of declaration. -/
def ModuleBody.methods (module : ModuleBody) : List MethodBody :=
  module.types.flatMap TypeBody.methods

end ContractLedger
