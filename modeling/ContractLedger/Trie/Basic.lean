import ContractLedger.Trie.Node
import ContractLedger.Store.Basic

/-!
A trie over byte-string keys. Its nodes are records named by their digests; new ones wait in an
overlay and never replace an older one, so any earlier root of a batch stays readable until the
overlay is dropped. Updates happen on the overlay alone and end with a new root.

A walk through a damaged store may go round in circles. Two visits to the same record with the
same remaining path would repeat for ever, and there are only so many hashes, so a walk that is
longer than that is given up as endless.
-/

namespace ContractLedger

/-- Why a trie could not be read or repointed. -/
inductive TrieError where
  | incomplete (hash : Hash)
  | unknownRoot (root : Hash)
  | malformed (reason : Rlp.DecodeError)
  | store (reason : StoreError)
  | endless
deriving DecidableEq

def TrieError.message : TrieError → String
  | .incomplete hash => "Database missing expected trie node " ++ hash.text
  | .unknownRoot root => "Unknown trie root " ++ root.text
  | .malformed reason => "Trie node decoding failed: " ++ reason.message
  | .store reason => "Trie database error: " ++ reason.message
  | .endless => "Trie walk does not end"

/-- The records of a batch that are not in the store yet, newest first. -/
abbrev Overlay := List (Hash × Bytes)

/-- A trie: where its records are kept, the pending ones, and two roots. -/
structure Trie where
  keyspace : Keyspace
  overlay : Overlay
  root : Hash
  committedRoot : Hash
deriving DecidableEq

/-- A trie beside the store that it reads from. -/
structure Trie.Mounted (σ : Type) where
  trie : Trie
  store : σ

/-- A step on a mounted trie; what it changed stays changed if it fails. -/
abbrev TrieM (σ : Type) := EStateM TrieError (Trie.Mounted σ)

namespace Trie

/-- The trie with a given root, which is trusted to be stored. -/
def ofRoot (keyspace : Keyspace) (root : Hash) : Trie :=
  ⟨keyspace, [], root, root⟩

def empty (keyspace : Keyspace) : Trie :=
  ofRoot keyspace Node.emptyRoot

/-- Whether the content differs from the committed one. -/
def isDirty (trie : Trie) : Bool :=
  trie.root != trie.committedRoot

/-- Takes the current root for committed and drops the overlay. -/
def markCommitted (trie : Trie) : Trie :=
  { trie with overlay := [], committedRoot := trie.root }

/-- Drops the overlay and returns to the committed root. -/
def rollback (trie : Trie) : Trie :=
  { trie with overlay := [], root := trie.committedRoot }

/-- Returns to a root of the batch, keeping the overlay. -/
def revertTo (trie : Trie) (root : Hash) : Trie :=
  { trie with root }

/-- The longest walk along a path that does not repeat itself. -/
def walkLimit (path : Path) : Nat :=
  (path.length + 1) * Hash.count

section Steps

variable {σ : Type} [ByteStore σ]

/-- Runs an access on the store of a mounted trie. -/
def onStore {α : Type} (access : EStateM StoreError σ α) : TrieM σ α := fun mounted =>
  match access mounted.store with
  | .ok value store => .ok value { mounted with store }
  | .error error store => .error (.store error) { mounted with store }

def readNode (record : Bytes) : TrieM σ Node :=
  match Node.decode record with
  | .ok node => pure node
  | .error error => throw (.malformed error)

/-- The node of a hash, from the overlay or else from the store. -/
def load (hash : Hash) : TrieM σ Node := do
  if hash = Node.emptyRoot then return .empty
  let trie := (← get).trie
  match trie.overlay.lookup hash with
  | some record => readNode record
  | none =>
    match ← onStore (trie.keyspace.read hash.bytes) with
    | some record => readNode record
    | none => throw (.incomplete hash)

/-- Adds the record of a node to the overlay, unless the node is empty. -/
def keep (node : Node) : TrieM σ Hash := do
  if node = .empty then return Node.emptyRoot
  let record := node.encode
  let hash := Keccak.digest record
  modify fun mounted =>
    { mounted with trie.overlay := (hash, record) :: mounted.trie.overlay }
  return hash

/-- The child under a nibble, the empty node standing for an absent one. -/
def loadChild (children : Children) (nibble : UInt8) : TrieM σ Node :=
  match children.child? nibble with
  | some hash => load hash
  | none => pure .empty

def lookupFrom : Nat → Node → Path → TrieM σ (Option Bytes)
  | 0, _, _ => throw .endless
  | _ + 1, .empty, _ => return none
  | _ + 1, .leaf rest value, path => return if rest = path then some value else none
  | steps + 1, .extension lead child, path => do
    match lead.after? path with
    | none => return none
    | some rest => lookupFrom steps (← load child) rest
  | _ + 1, .branch _ value, [] => return value
  | steps + 1, .branch children _, nibble :: rest => do
    match children.child? nibble with
    | none => return none
    | some child => lookupFrom steps (← load child) rest

def get (key : Bytes) : TrieM σ (Option Bytes) := do
  let path := Path.ofBytes key
  lookupFrom (walkLimit path) (← load (← getThe (Mounted σ)).trie.root) path

/-- Hangs a value below a branch, or in its own slot when no path is left. -/
def place (branch : Children × Option Bytes) (path : Path) (value : Bytes) :
    TrieM σ (Children × Option Bytes) := do
  match path with
  | [] => return (branch.1, some value)
  | nibble :: rest => return (branch.1.put nibble (← keep (.leaf rest value)), branch.2)

/-- Hangs a node below an extension, unless the path is empty. -/
def extend (path : Path) (node : Node) : TrieM σ Node := do
  if path.isEmpty then return node
  return .extension path (← keep node)

def prepend (path : Path) : Node → TrieM σ Node
  | .empty => pure .empty
  | .leaf rest value => pure (.leaf (path ++ rest) value)
  | .extension rest child => pure (.extension (path ++ rest) child)
  | .branch children value => extend path (.branch children value)

def insertAt : Nat → Node → Path → Bytes → TrieM σ Node
  | 0, _, _, _ => throw .endless
  | _ + 1, .empty, path, value => return .leaf path value
  | _ + 1, .leaf rest old, path, value => do
    if rest = path then return .leaf rest value
    let common := rest.shared path
    let branch ← place (.none, none) (rest.drop common) old
    let branch ← place branch (path.drop common) value
    extend (path.take common) (.branch branch.1 branch.2)
  | steps + 1, .extension lead child, path, value => do
    let common := lead.shared path
    match lead.drop common with
    | [] =>
      let node ← insertAt steps (← load child) (path.drop common) value
      return .extension lead (← keep node)
    | nibble :: rest =>
      let below ← if rest.isEmpty then pure child else keep (.extension rest child)
      let branch ← place (Children.none.put nibble (some below), none) (path.drop common) value
      extend (lead.take common) (.branch branch.1 branch.2)
  | _ + 1, .branch children _, [], value => return .branch children (some value)
  | steps + 1, .branch children slot, nibble :: rest, value => do
    let node ← insertAt steps (← loadChild children nibble) rest value
    return .branch (children.put nibble (some (← keep node))) slot

/-- Turns a branch with a single entry into a leaf or an extension, and one with none into the
empty node. -/
def collapse (children : Children) (value : Option Bytes) : TrieM σ Node := do
  match children.present, value with
  | [], none => return .empty
  | [], some value => return .leaf [] value
  | [(nibble, child)], none => prepend [nibble] (← load child)
  | _, value => return .branch children value

/-- The node without a key, or nothing where the key is absent. -/
def removeAt : Nat → Node → Path → TrieM σ (Option Node)
  | 0, _, _ => throw .endless
  | _ + 1, .empty, _ => return none
  | _ + 1, .leaf rest _, path => return if rest = path then some .empty else none
  | steps + 1, .extension lead child, path => do
    match lead.after? path with
    | none => return none
    | some rest =>
      match ← removeAt steps (← load child) rest with
      | none => return none
      | some node => return some (← prepend lead node)
  | _ + 1, .branch _ none, [] => return none
  | _ + 1, .branch children (some _), [] => some <$> collapse children none
  | steps + 1, .branch children value, nibble :: rest => do
    match children.child? nibble with
    | none => return none
    | some child =>
      match ← removeAt steps (← load child) rest with
      | none => return none
      | some .empty => some <$> collapse (children.put nibble none) value
      | some node => some <$> collapse (children.put nibble (some (← keep node))) value

def setRootNode (node : Node) : TrieM σ Unit := do
  let root ← keep node
  modify fun mounted => { mounted with trie.root := root }

/-- Removes a key, telling whether it was present. -/
def remove (key : Bytes) : TrieM σ Bool := do
  let path := Path.ofBytes key
  match ← removeAt (walkLimit path) (← load (← getThe (Mounted σ)).trie.root) path with
  | none => return false
  | some node =>
    setRootNode node
    return true

/-- Stores a value under a key; an empty value removes the key. -/
def insert (key value : Bytes) : TrieM σ Unit := do
  if value.isEmpty then
    let _ ← remove key
  else
    let path := Path.ofBytes key
    let root ← load (← getThe (Mounted σ)).trie.root
    setRootNode (← insertAt (walkLimit path) root path value)

/-- Repoints the trie at a root that the store holds, dropping the overlay. -/
def setRoot (root : Hash) : TrieM σ Unit := do
  let trie := (← getThe (Mounted σ)).trie
  if root ≠ Node.emptyRoot then
    if (← onStore (trie.keyspace.read root.bytes)).isNone then
      throw (.unknownRoot root)
  modify fun mounted =>
    { mounted with trie := { mounted.trie with overlay := [], root, committedRoot := root } }

def pairsFrom : Nat → Node → Path → TrieM σ (List (Path × Bytes))
  | 0, _, _ => throw .endless
  | _ + 1, .empty, _ => return []
  | _ + 1, .leaf rest value, path => return [(path ++ rest, value)]
  | steps + 1, .extension lead child, path => do
    pairsFrom steps (← load child) (path ++ lead)
  | steps + 1, .branch children value, path => do
    let below ← children.present.mapM fun (nibble, child) => do
      pairsFrom steps (← load child) (path ++ [nibble])
    return (value.toList.map fun value => (path, value)) ++ below.flatten

/-- Every key with its value, in the order of the keys. -/
def pairs : TrieM σ (List (Bytes × Bytes)) := do
  let found ← pairsFrom (Hash.count + 1) (← load (← getThe (Mounted σ)).trie.root) []
  found.mapM fun (path, value) =>
    match path.toBytes? with
    | some key => pure (key, value)
    | none => throw (.malformed (.custom "odd trie key length"))

end Steps

def pendingFrom (overlay : Overlay) :
    Nat → Hash → Except TrieError (List (Hash × Bytes))
  | 0, _ => .error .endless
  | steps + 1, hash =>
    match overlay.lookup hash with
    | none => .ok []
    | some record => do
      let node ← (Node.decode record).mapError .malformed
      let below ← node.childHashes.reverse.mapM (pendingFrom overlay steps)
      return (hash, record) :: below.flatten

/-- The pending records that the root leads to, each as often as a path of pending records
reaches it. -/
def pending (trie : Trie) : Except TrieError (List (Hash × Bytes)) :=
  pendingFrom trie.overlay (Hash.count + 1) trie.root

/-- The operations that store the pending records of the current root. -/
def flush (trie : Trie) : Except TrieError (List StoreOp) := do
  let records ← trie.pending
  return records.map fun (hash, record) => trie.keyspace.put hash.bytes record

end Trie

end ContractLedger
