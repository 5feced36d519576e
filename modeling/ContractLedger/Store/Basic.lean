import ContractLedger.Identifier

/-!
What the ledger needs from a byte store: reading one key of a column, and writing a list of
operations as a whole. Any access may fail, and any may change the store, so that a store which
counts or refuses accesses is a store too. A keyspace is the part of a column that one trie owns.
-/

namespace ContractLedger

inductive StoreError where
  | noColumn (column : Nat)
  | refused (reason : String)
deriving DecidableEq

def StoreError.message : StoreError → String
  | .noColumn column => "No such column family: " ++ toString column
  | .refused reason => reason

inductive StoreOp where
  | put (column : Nat) (key value : Bytes)
  | delete (column : Nat) (key : Bytes)
  | deleteUnder (column : Nat) (stem : Bytes)
deriving DecidableEq

/-- A store of byte strings under byte-string keys, in numbered columns. -/
class ByteStore (σ : Type) where
  read : Nat → Bytes → EStateM StoreError σ (Option Bytes)
  write : List StoreOp → EStateM StoreError σ Unit

namespace Column

/-- The column of account trie records, and of the key of the latest root. -/
def accounts : Nat := 0

/-- The column of code, keyed by its hash. -/
def code : Nat := 1

/-- The column of storage trie records, keyed by owner and hash. -/
def storage : Nat := 2

def count : Nat := 3

end Column

/-- The removal of every key of every column. -/
def clearColumns : List StoreOp :=
  (List.range Column.count).map fun column => .deleteUnder column []

/-- A whole column, or the part of the storage column that belongs to one address. -/
structure Keyspace where
  column : Nat
  owner : Option Address
deriving DecidableEq

namespace Keyspace

def ofColumn (column : Nat) : Keyspace := ⟨column, none⟩

def ofOwner (owner : Address) : Keyspace := ⟨Column.storage, some owner⟩

/-- The store key of a key of this keyspace. -/
def fullKey (space : Keyspace) (key : Bytes) : Bytes :=
  match space.owner with
  | some owner => owner.bytes ++ key
  | none => key

/-- The operation that stores a value in this keyspace. -/
def put (space : Keyspace) (key value : Bytes) : StoreOp :=
  .put space.column (space.fullKey key) value

def read {σ : Type} [ByteStore σ] (space : Keyspace) (key : Bytes) :
    EStateM StoreError σ (Option Bytes) :=
  ByteStore.read space.column (space.fullKey key)

end Keyspace

end ContractLedger
