import ContractLedger.Identifier

/-!
Values that cross the boundary of a contract as arguments and returns, and signatures: the
kinds of the parameters that an operation takes.
-/

namespace ContractLedger

/-- An argument or a returned value. -/
inductive Value where
  | bool (value : Bool)
  | u32 (value : UInt32)
  | u64 (value : UInt64)
  | i32 (value : Int32)
  | i64 (value : Int64)
  | address (value : Address)
  | bytes (value : Bytes)
  | text (value : String)
deriving DecidableEq

inductive ValueKind where
  | bool
  | u32
  | u64
  | i32
  | i64
  | address
  | bytes
  | text
deriving DecidableEq

namespace ValueKind

def name : ValueKind → String
  | bool => "Bool"
  | u32 => "U32"
  | u64 => "U64"
  | i32 => "I32"
  | i64 => "I64"
  | address => "Address"
  | bytes => "Bytes"
  | text => "String"

def all : List ValueKind := [bool, u32, u64, i32, i64, address, bytes, text]

def ofName? (name : String) : Option ValueKind :=
  all.find? (·.name == name)

/-- What a value of a kind holds. -/
abbrev Carrier : ValueKind → Type
  | bool => Bool
  | u32 => UInt32
  | u64 => UInt64
  | i32 => Int32
  | i64 => Int64
  | address => Address
  | bytes => Bytes
  | text => String

end ValueKind

namespace Value

def kind : Value → ValueKind
  | bool _ => .bool
  | u32 _ => .u32
  | u64 _ => .u64
  | i32 _ => .i32
  | i64 _ => .i64
  | address _ => .address
  | bytes _ => .bytes
  | text _ => .text

def carrier : (value : Value) → value.kind.Carrier
  | bool value => value
  | u32 value => value
  | u64 value => value
  | i32 value => value
  | i64 value => value
  | address value => value
  | bytes value => value
  | text value => value

def ofCarrier : (kind : ValueKind) → kind.Carrier → Value
  | .bool, value => bool value
  | .u32, value => u32 value
  | .u64, value => u64 value
  | .i32, value => i32 value
  | .i64, value => i64 value
  | .address, value => address value
  | .bytes, value => bytes value
  | .text, value => text value

/-- The content of a value that is of the given kind. -/
def as? (kind : ValueKind) (value : Value) : Option kind.Carrier :=
  if same : value.kind = kind then some (same ▸ value.carrier) else none

end Value

/-- The kinds of an operation's parameters, in order. -/
abbrev Signature := List ValueKind

namespace Signature

/-- The arguments that a signature asks for. -/
abbrev Arguments : Signature → Type
  | [] => Unit
  | kind :: rest => kind.Carrier × Arguments rest

def values : (signature : Signature) → signature.Arguments → List Value
  | [], _ => []
  | kind :: rest, (first, others) => Value.ofCarrier kind first :: values rest others

def acceptFrom : (index : Nat) → (signature : Signature) → List Value →
    Except String signature.Arguments
  | _, [], _ => .ok ()
  | index, _ :: _, [] => .error ("missing argument " ++ toString index)
  | index, kind :: rest, value :: others =>
    match value.as? kind with
    | none =>
      .error ("argument " ++ toString index ++ " must be " ++ kind.name ++ ", got " ++
        value.kind.name)
    | some first => do
      return (first, ← acceptFrom (index + 1) rest others)

/-- Takes the arguments of a signature from the front of a list of values, or tells of the
first that is missing or of another kind. -/
def accept (signature : Signature) (values : List Value) : Except String signature.Arguments :=
  acceptFrom 0 signature values

end Signature

end ContractLedger
