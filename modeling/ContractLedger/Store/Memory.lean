import ContractLedger.Store.Basic
import ContractLedger.OrderedMap

/-!
A byte store in memory, which fails only for a column that it does not have, and a wrapper that
counts the accesses to another store.
-/

namespace ContractLedger

structure Memory where
  accounts : OrderedMap Bytes Bytes
  code : OrderedMap Bytes Bytes
  storage : OrderedMap Bytes Bytes

namespace Memory

def empty : Memory := ⟨.empty, .empty, .empty⟩

def column? (memory : Memory) : Nat → Option (OrderedMap Bytes Bytes)
  | 0 => some memory.accounts
  | 1 => some memory.code
  | 2 => some memory.storage
  | _ => none

/-- Changes one column; a number that names none changes nothing. -/
def updateColumn (memory : Memory) (column : Nat)
    (change : OrderedMap Bytes Bytes → OrderedMap Bytes Bytes) : Memory :=
  match column with
  | 0 => { memory with accounts := change memory.accounts }
  | 1 => { memory with code := change memory.code }
  | 2 => { memory with storage := change memory.storage }
  | _ => memory

def apply (memory : Memory) : StoreOp → Memory
  | .put column key value => memory.updateColumn column (·.insert key value)
  | .delete column key => memory.updateColumn column (·.erase key)
  | .deleteUnder column stem =>
    memory.updateColumn column (·.filterKeys fun key => !stem.isPrefixOf key)

/-- The operations take effect one after another. -/
def applyAll (memory : Memory) (ops : List StoreOp) : Memory :=
  ops.foldl apply memory

def inColumn {α : Type} (column : Nat) (look : OrderedMap Bytes Bytes → α) :
    EStateM StoreError Memory α := fun memory =>
  match memory.column? column with
  | some entries => .ok (look entries) memory
  | none => .error (.noColumn column) memory

instance : ByteStore Memory where
  read column key := inColumn column (·.get? key)
  write ops := fun memory => .ok () (memory.applyAll ops)

/-- The entries of a column whose keys start with a stem, in the order of their keys. -/
def entriesUnder (column : Nat) (stem : Bytes) :
    EStateM StoreError Memory (List (Bytes × Bytes)) :=
  inColumn column fun entries => (entries.filterKeys (stem.isPrefixOf ·)).entries

/-- The value under the least key that starts with a stem. -/
def readUnder (column : Nat) (stem : Bytes) : EStateM StoreError Memory (Option Bytes) := do
  let entries ← entriesUnder column stem
  return (entries.head?).map (·.2)

end Memory

/-- A store together with the number of its reads, of its written operations and of the bytes
put by them. -/
structure Counted (σ : Type) where
  store : σ
  reads : Nat
  writes : Nat
  bytesWritten : Nat

namespace Counted

variable {σ : Type}

def start (store : σ) : Counted σ := ⟨store, 0, 0, 0⟩

/-- The number of value bytes that an operation puts. -/
def valueBytes : StoreOp → Nat
  | .put _ _ value => value.length
  | _ => 0

def onStore {α : Type} (access : EStateM StoreError σ α) :
    EStateM StoreError (Counted σ) α := fun counted =>
  match access counted.store with
  | .ok value store => .ok value { counted with store }
  | .error error store => .error error { counted with store }

/-- Runs a read on the store below and counts it. -/
def counting {α : Type} (access : EStateM StoreError σ α) :
    EStateM StoreError (Counted σ) α := do
  modify fun counted => { counted with reads := counted.reads + 1 }
  onStore access

instance [ByteStore σ] : ByteStore (Counted σ) where
  read column key := counting (ByteStore.read column key)
  write ops := do
    modify fun counted =>
      { counted with
        writes := counted.writes + ops.length
        bytesWritten := ops.foldl (fun total op => total + valueBytes op) counted.bytesWritten }
    onStore (ByteStore.write ops)

end Counted

end ContractLedger
