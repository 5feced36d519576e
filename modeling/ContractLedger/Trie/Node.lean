import ContractLedger.Path
import ContractLedger.Keccak
import ContractLedger.Rlp.Encoding
import ContractLedger.Rlp.Decoding

/-!
Trie nodes and their records. A node refers to its children by the digests of their records. A
leaf and an extension are both lists of two items, told apart by the flags of the packed path; a
branch is a list of seventeen.
-/

namespace ContractLedger

/-- The children of a branch, one place for each nibble. -/
abbrev Children := Vector (Option Hash) 16

inductive Node where
  | empty
  | leaf (path : Path) (value : Bytes)
  | extension (path : Path) (child : Hash)
  | branch (children : Children) (value : Option Bytes)
deriving DecidableEq

namespace Children

def none : Children := Vector.replicate 16 Option.none

/-- The children of a list, in the order of the nibbles. -/
def ofList (slots : List (Option Hash)) : Children :=
  Vector.ofFn fun nibble => (slots[nibble.val]?).join

def child? (children : Children) (nibble : UInt8) : Option Hash :=
  children[nibble.toNat]?.join

/-- Puts a child, or none, under a nibble. -/
def put (children : Children) (nibble : UInt8) (child : Option Hash) : Children :=
  children.setIfInBounds nibble.toNat child

/-- The children that are present, each with its nibble, in the order of the nibbles. -/
def present (children : Children) : List (UInt8 × Hash) :=
  children.toList.zipIdx.filterMap fun (child, index) =>
    child.map fun hash => (UInt8.ofNat index, hash)

end Children

namespace Node

def encodeChild : Option Hash → Bytes
  | some hash => Rlp.encodeBytes hash.bytes
  | none => Rlp.encodeBytes []

def encode : Node → Bytes
  | empty => Rlp.encodeBytes []
  | leaf path value => Rlp.encodeList [Rlp.encodeBytes (path.pack true), Rlp.encodeBytes value]
  | extension path child =>
    Rlp.encodeList [Rlp.encodeBytes (path.pack false), Rlp.encodeBytes child.bytes]
  | branch children value =>
    Rlp.encodeList
      (children.toList.map encodeChild ++ [Rlp.encodeBytes (value.getD [])])

def readPair : Rlp.ReadM Node := do
  let packed ← Rlp.liftExcept (Rlp.content (← Rlp.item 0))
  match Path.unpack? packed with
  | none => throw (.custom "invalid hex-prefix path")
  | some (path, true) => return leaf path (← Rlp.liftExcept (Rlp.decodeBytes (← Rlp.item 1)))
  | some (path, false) => return extension path (← Rlp.liftExcept (Rlp.decodeHash (← Rlp.item 1)))

def readChild (index : Nat) : Rlp.ReadM (Option Hash) := do
  let item ← Rlp.item index
  if Rlp.isEmptyItem item then return none
  return some (← Rlp.liftExcept (Rlp.decodeHash item))

def readBranch : Rlp.ReadM Node := do
  let children := Children.ofList (← (List.range 16).mapM readChild)
  let item ← Rlp.item 16
  if Rlp.isEmptyItem item then return branch children none
  return branch children (some (← Rlp.liftExcept (Rlp.content item)))

def read : Rlp.ReadM Node := do
  match ← Rlp.itemCount with
  | 2 => readPair
  | 17 => readBranch
  | _ => throw (.custom "invalid trie node item count")

def decode (record : Bytes) : Except Rlp.DecodeError Node :=
  if Rlp.isEmptyItem record then .ok empty else Rlp.runReader read record

/-- The digest of the empty node's record, which is also the root of an empty trie. -/
def emptyRoot : Hash :=
  ⟨[0x56, 0xe8, 0x1f, 0x17, 0x1b, 0xcc, 0x55, 0xa6, 0xff, 0x83, 0x45, 0xe6, 0x92, 0xc0, 0xf8, 0x6e,
    0x5b, 0x48, 0xe0, 0x1b, 0x99, 0x6c, 0xad, 0xc0, 0x01, 0x62, 0x2f, 0xb5, 0xe3, 0x63, 0xb4, 0x21],
    rfl⟩

def hash : Node → Hash
  | empty => emptyRoot
  | node => Keccak.digest node.encode

/-- The hashes of the nodes that a node refers to. -/
def childHashes : Node → List Hash
  | extension _ child => [child]
  | branch children _ => children.toList.filterMap id
  | _ => []

end Node

end ContractLedger
