import ContractLedger.Ledger.Account
import ContractLedger.Trie.Basic
import ContractLedger.OrderedMap
import ContractLedger.Journal

/-!
The ledger: account records in one trie, a storage trie for each address, and code by its hash.
Every change waits in memory until `commit` writes it in one go; `rollback` drops it. Within a
batch a checkpoint is simply the root of the account trie, because each account record holds
the root of its owner's storage.
-/

namespace ContractLedger

inductive LedgerError where
  | trie (reason : TrieError)
  | malformedAccount (reason : Rlp.DecodeError)
  | store (reason : StoreError)
deriving DecidableEq

def LedgerError.message : LedgerError → String
  | .trie reason => "State trie error: " ++ reason.message
  | .malformedAccount reason => "Account record decoding failed: " ++ reason.message
  | .store reason => "State database error: " ++ reason.message

/-- The storage tries touched in the current batch, by owner. -/
abbrev StorageCache := OrderedMap Address Trie

namespace StorageCache

/-- The operations that store the pending records of the tries that changed, in the order of
their owners. -/
def flush (cache : StorageCache) : Except TrieError (List StoreOp) := do
  let ops ← (cache.values.filter Trie.isDirty).mapM Trie.flush
  return ops.flatten

/-- The cached trie of an address, or else the one that `create` makes, which is then cached. -/
def getOrOpen {ε σ : Type} (cache : StorageCache) (owner : Address)
    (create : EStateM ε σ Trie) : EStateM ε σ (Trie × StorageCache) := do
  match cache.get? owner with
  | some trie => return (trie, cache)
  | none =>
    let trie ← create
    return (trie, cache.insert owner trie)

end StorageCache

/-- A ledger with its uncommitted batch. -/
structure Ledger where
  accounts : Trie
  storage : StorageCache
  pendingCode : List (Hash × Bytes)

/-- A ledger beside its store and the journal. -/
structure Ledger.Mounted (σ : Type) where
  ledger : Ledger
  store : σ
  journal : Journal

/-- A step on a mounted ledger; what it changed stays changed if it fails. -/
abbrev LedgerM (σ : Type) := EStateM LedgerError (Ledger.Mounted σ)

namespace Ledger

def latestRootKey : Bytes :=
  Bytes.ofText "latest_root"

/-- A ledger with nothing pending, at a root that is trusted. -/
def ofRoot (root : Hash) : Ledger :=
  ⟨Trie.ofRoot (.ofColumn Column.accounts) root, .empty, []⟩

/-- The root of the account trie, the uncommitted batch included. -/
def root (ledger : Ledger) : Hash :=
  ledger.accounts.root

section Steps

variable {σ : Type} [ByteStore σ]

def tell (severity : Severity) (text : String) : LedgerM σ Unit :=
  modify fun mounted =>
    { mounted with journal := mounted.journal ++ [⟨severity, "state", text⟩] }

def onStore {α : Type} (access : EStateM StoreError σ α) : LedgerM σ α := fun mounted =>
  match access mounted.store with
  | .ok value store => .ok value { mounted with store }
  | .error error store => .error (.store error) { mounted with store }

def onAccounts {α : Type} (step : TrieM σ α) : LedgerM σ α := fun mounted =>
  match step ⟨mounted.ledger.accounts, mounted.store⟩ with
  | .ok value after =>
    .ok value
      { mounted with
        ledger := { mounted.ledger with accounts := after.trie }, store := after.store }
  | .error error after =>
    .error (.trie error)
      { mounted with
        ledger := { mounted.ledger with accounts := after.trie }, store := after.store }

def readAccount (record : Bytes) : LedgerM σ Account :=
  match Account.decode record with
  | .ok account => pure account
  | .error error => throw (.malformedAccount error)

/-- The record of an account, if it was ever written. -/
def account (address : Address) : LedgerM σ (Option Account) := do
  match ← onAccounts (Trie.get address.bytes) with
  | some record => some <$> readAccount record
  | none => return none

/-- The record of an account, a fresh one standing for an absent one. -/
def accountOrFresh (address : Address) : LedgerM σ Account := do
  return (← account address).getD .fresh

def writeAccount (address : Address) (account : Account) : LedgerM σ Unit :=
  onAccounts (Trie.insert address.bytes account.encode)

/-- The storage root that an account's record gives. -/
def storageRoot (address : Address) : LedgerM σ Hash := do
  return (← accountOrFresh address).storageRoot

/-- The storage trie of an address, opened at its first use in a batch. -/
def storageTrie (address : Address) : LedgerM σ Trie := do
  let cache := (← get).ledger.storage
  let (trie, cache) ← cache.getOrOpen address do
    return Trie.ofRoot (.ofOwner address) (← storageRoot address)
  modify fun mounted => { mounted with ledger := { mounted.ledger with storage := cache } }
  return trie

/-- Keeps a storage trie in the cache. -/
def keepStorage (ledger : Ledger) (address : Address) (trie : Trie) : Ledger :=
  { ledger with storage := ledger.storage.insert address trie }

/-- Runs a step on the storage trie of an address. -/
def onStorage {α : Type} (address : Address) (step : TrieM σ α) : LedgerM σ α := do
  let trie ← storageTrie address
  fun mounted =>
    match step ⟨trie, mounted.store⟩ with
    | .ok value after =>
      .ok value
        { mounted with
          ledger := mounted.ledger.keepStorage address after.trie, store := after.store }
    | .error error after =>
      .error (.trie error)
        { mounted with
          ledger := mounted.ledger.keepStorage address after.trie, store := after.store }

/-- Points an account at code, keeping the code under its hash, which is returned. -/
def setCode (address : Address) (code : Bytes) : LedgerM σ Hash := do
  let hash := Keccak.digest code
  let account ← accountOrFresh address
  if ((← get).ledger.pendingCode.lookup hash).isNone then
    if (← onStore (ByteStore.read Column.code hash.bytes)).isNone then
      modify fun mounted =>
        { mounted with
          ledger := { mounted.ledger with
            pendingCode := (hash, code) :: mounted.ledger.pendingCode } }
  writeAccount address { account with codeHash := some hash }
  return hash

/-- The code of an account; nothing if it has none or the store lost it. -/
def getCode (address : Address) : LedgerM σ (Option Bytes) := do
  match (← account address).bind Account.codeHash with
  | none => return none
  | some hash =>
    match (← get).ledger.pendingCode.lookup hash with
    | some code => return some code
    | none =>
      let code ← onStore (ByteStore.read Column.code hash.bytes)
      if code.isNone then
        tell .warning
          ("code " ++ hash.text ++ " of " ++ address.text ++ " is missing from the database")
      return code

/-- Repoints the cached storage trie of an address, if there is one. -/
def revertStorage (address : Address) (root : Hash) : LedgerM σ Unit :=
  modify fun mounted =>
    match mounted.ledger.storage.get? address with
    | some trie =>
      { mounted with ledger := mounted.ledger.keepStorage address (trie.revertTo root) }
    | none => mounted

/-- Puts a fresh record in the place of whatever an address holds. -/
def createAccount (address : Address) : LedgerM σ Account := do
  revertStorage address Node.emptyRoot
  writeAccount address .fresh
  return .fresh

/-- Writes one value of an account's storage, an empty one removing its key. -/
def setObject (address : Address) (key value : Bytes) : LedgerM σ Unit := do
  let account ← accountOrFresh address
  let root ← onStorage address do
    Trie.insert key value
    return (← getThe (Trie.Mounted σ)).trie.root
  writeAccount address { account with storageRoot := root }

def getObject (address : Address) (key : Bytes) : LedgerM σ (Option Bytes) :=
  onStorage address (Trie.get key)

def setBalance (address : Address) (balance : Amount) : LedgerM σ Unit := do
  let account ← accountOrFresh address
  writeAccount address { account with balance }

/-- The balance of an account, zero if it was never written. -/
def getBalance (address : Address) : LedgerM σ Amount := do
  return (← accountOrFresh address).balance

/-- A result of a trie as a step on the ledger. -/
def liftTrie {α : Type} : Except TrieError α → LedgerM σ α
  | .ok value => pure value
  | .error error => throw (.trie error)

/-- Writes the whole batch to the store and starts a new one. -/
def commit : LedgerM σ Unit := do
  let ledger := (← get).ledger
  let storageOps ← liftTrie ledger.storage.flush
  let codeOps := ledger.pendingCode.map fun (hash, code) =>
    StoreOp.put Column.code hash.bytes code
  let accountOps ← liftTrie ledger.accounts.flush
  let latest := StoreOp.put Column.accounts latestRootKey ledger.root.bytes
  onStore (ByteStore.write (storageOps ++ codeOps ++ accountOps ++ [latest]))
  tell .detail
    ("committed " ++ ledger.root.text ++ ": " ++ toString accountOps.length ++
      " account nodes, " ++ toString storageOps.length ++ " storage nodes, " ++
      toString codeOps.length ++ " code blobs")
  modify fun mounted =>
    { mounted with
      ledger := ⟨mounted.ledger.accounts.markCommitted, .empty, []⟩ }

/-- Drops the batch. -/
def rollback : LedgerM σ Unit := do
  let ledger := (← get).ledger
  tell .detail
    ("rolling back to " ++ ledger.accounts.committedRoot.text ++ ", dropping " ++
      toString ledger.storage.size ++ " storage tries and " ++
      toString ledger.pendingCode.length ++ " code blobs")
  modify fun mounted =>
    { mounted with ledger := ⟨mounted.ledger.accounts.rollback, .empty, []⟩ }

/-- Repoints the ledger at a root that the store holds, dropping the batch. -/
def loadSnapshot (root : Hash) : LedgerM σ Unit := do
  onAccounts (Trie.setRoot root)
  modify fun mounted =>
    { mounted with ledger := { mounted.ledger with storage := .empty, pendingCode := [] } }
  tell .detail ("loaded snapshot " ++ root.text)

/-- The current root, to be returned to later in the batch. -/
def checkpoint : LedgerM σ Hash := do
  return (← get).ledger.root

/-- Returns every account and every cached storage trie to a checkpoint of the batch. -/
def revertTo (checkpoint : Hash) : LedgerM σ Unit := do
  modify fun mounted =>
    { mounted with
      ledger := { mounted.ledger with
        accounts := mounted.ledger.accounts.revertTo checkpoint } }
  (← get).ledger.storage.keys.forM fun address => do
    revertStorage address (← storageRoot address)

/-- Empties the store and starts from nothing. -/
def refresh : LedgerM σ Unit := do
  onStore (ByteStore.write clearColumns)
  modify fun mounted => { mounted with ledger := .ofRoot Node.emptyRoot }

/-- Puts a ledger at a root that the store holds in the place of the present one, which stays
if there is no such root. -/
def openAt (root : Hash) : LedgerM σ Unit := do
  fun mounted =>
    match Trie.setRoot root ⟨Trie.empty (.ofColumn Column.accounts), mounted.store⟩ with
    | .ok _ after => .ok () { mounted with ledger := ⟨after.trie, .empty, []⟩, store := after.store }
    | .error error after => .error (.trie error) { mounted with store := after.store }
  tell .detail ("opened state at " ++ root.text)

/-- Opens the ledger at the root of the latest commit, or empty if there was none. -/
def openLatest : LedgerM σ Unit := do
  match ← onStore (ByteStore.read Column.accounts latestRootKey) with
  | none => openAt Node.emptyRoot
  | some bytes =>
    match Hash.ofBytes? bytes with
    | some root => openAt root
    | none => throw (.malformedAccount .invalidLength)

end Steps

end Ledger

end ContractLedger
