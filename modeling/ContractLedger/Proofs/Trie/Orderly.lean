import ContractLedger.Proofs.Step
import ContractLedger.Proofs.Store.Content
import ContractLedger.Proofs.Trie.Stored
import ContractLedger.Trie.Basic

/-!
Tries whose records are in order: each is kept under its own digest, and each pending one belongs
to a canonical trie. In such a trie a resolved trie whose records are all there is loaded node by
node, so that a lookup of a path finds what the resolved trie holds there.
-/

namespace ContractLedger

namespace Keyspace

/-- The value that a content keeps in a keyspace under a hash. -/
def held (space : Keyspace) (content : Content) (hash : Hash) : Option Bytes :=
  content space.column (space.fullKey hash.bytes)

/-- The byte strings that a content keeps in a keyspace under their own digests. -/
def records (space : Keyspace) (content : Content) : Set Bytes :=
  { record | space.held content (Keccak.digest record) = some record }

/-- A keyspace of a column that exists, in which hashes lead to what they are digests of. -/
structure Orderly (data : Set Bytes) (content : Content) (space : Keyspace) : Prop where
  column : space.column < Column.count
  named : ∀ hash record, space.held content hash = some record →
    hash = Keccak.digest record ∧ record ∈ data

/-- Every record is that of a canonical trie whose records are all there. -/
def Closed (space : Keyspace) (content : Content) : Prop :=
  ∀ record ∈ space.records content, ∃ tree : Tree,
    tree.Canonical ∧ tree ≠ .empty ∧ tree.record = record ∧ tree.Stored (space.records content)

theorem Orderly.records_subset {data : Set Bytes} {content : Content} {space : Keyspace}
    (orderly : space.Orderly data content) : space.records content ⊆ data :=
  fun _ found => (orderly.named _ _ found).2

theorem read_content (space : Keyspace) (column : space.column < Column.count) (hash : Hash)
    (content : Content) :
    space.read hash.bytes content = .ok (space.held content hash) content :=
  if_pos column

end Keyspace

namespace Overlay

/-- The pending byte strings. -/
def records (overlay : Overlay) : Set Bytes :=
  { record | record ∈ overlay.map (·.2) }

/-- Every entry is the record of a canonical trie under its hash. -/
def Made (overlay : Overlay) : Prop :=
  ∀ entry ∈ overlay, ∃ tree : Tree,
    tree.Canonical ∧ tree ≠ .empty ∧ entry = (tree.hash, tree.record)

variable {first second overlay : Overlay} {hash : Hash} {record : Bytes}

theorem records_nil : records [] = ∅ := by
  simp [records]

theorem records_append : (records (first ++ second)) = first.records ∪ second.records := by
  ext record
  simp [records]

theorem records_mono (within : ∀ entry ∈ first, entry ∈ second) :
    first.records ⊆ second.records := by
  intro record member
  obtain ⟨entry, present, same⟩ := List.mem_map.mp member
  exact List.mem_map.mpr ⟨entry, within entry present, same⟩

theorem Made.append (madeFirst : first.Made) (madeSecond : second.Made) :
    Made (first ++ second) := by
  intro entry member
  exact (List.mem_append.mp member).elim (madeFirst entry) (madeSecond entry)

theorem Made.named (made : overlay.Made) (member : (hash, record) ∈ overlay) :
    hash = Keccak.digest record := by
  obtain ⟨tree, _, some, same⟩ := made _ member
  cases same
  exact Tree.hash_of_ne_empty some

theorem mem_of_lookup (found : overlay.lookup hash = some record) :
    (hash, record) ∈ overlay := by
  obtain ⟨before, after, rfl, _⟩ := List.lookup_eq_some_iff.mp found
  simp

/-- What is kept by digests is found under the digest of given data only if it is that data. -/
theorem eq_of_lookup {data : Set Bytes} (faithful : Faithful data)
    (named : ∀ hash record, (hash, record) ∈ overlay → hash = Keccak.digest record)
    (within : overlay.records ⊆ data) (member : record ∈ data) {found : Bytes}
    (looked : overlay.lookup (Keccak.digest record) = some found) : found = record := by
  have entry := mem_of_lookup looked
  have pending : found ∈ overlay.records := List.mem_map.mpr ⟨_, entry, rfl⟩
  exact faithful.apart (.inr (within pending)) (.inr member) (named _ _ entry).symm

theorem not_mem_of_lookup
    (named : ∀ hash record, (hash, record) ∈ overlay → hash = Keccak.digest record)
    (absent : overlay.lookup (Keccak.digest record) = none) : record ∉ overlay.records := by
  intro member
  obtain ⟨entry, present, rfl⟩ := List.mem_map.mp member
  have differ := List.lookup_eq_none_iff.mp absent entry present
  rw [named entry.1 entry.2 present] at differ
  simp at differ

end Overlay

namespace Trie

/-- The byte strings that a trie can load, pending ones and stored ones. -/
def records (trie : Trie) (content : Content) : Set Bytes :=
  trie.overlay.records ∪ trie.keyspace.records content

def Mounted.records (mounted : Mounted Content) : Set Bytes :=
  mounted.trie.records mounted.store

/-- A trie whose records are in order and belong to given data. -/
structure Orderly (data : Set Bytes) (content : Content) (trie : Trie) : Prop where
  space : trie.keyspace.Orderly data content
  made : trie.overlay.Made
  within : trie.overlay.records ⊆ data

variable {data : Set Bytes} {mounted : Mounted Content} {tree : Tree} {children : UInt8 → Tree}
  {value : Option Bytes} {path : Path}

theorem Orderly.records_subset {content : Content} {trie : Trie}
    (orderly : trie.Orderly data content) : trie.records content ⊆ data :=
  Set.union_subset orderly.within orderly.space.records_subset

/-- The record that is pending under the hash of a trie is that of the trie. -/
theorem Orderly.eq_of_lookup {content : Content} {trie : Trie} (faithful : Faithful data)
    (orderly : trie.Orderly data content) (some : tree ≠ .empty) (member : tree.record ∈ data)
    {record : Bytes} (found : trie.overlay.lookup tree.hash = Option.some record) : record = tree.record := by
  rw [Tree.hash_of_ne_empty some] at found
  exact Overlay.eq_of_lookup faithful (fun _ _ => orderly.made.named) orderly.within member found

/-- What is stored of a trie that is not pending is its record. -/
theorem Orderly.held_of_lookup {content : Content} {trie : Trie} (orderly : trie.Orderly data content)
    (some : tree ≠ .empty) (present : tree.record ∈ trie.records content)
    (absent : trie.overlay.lookup tree.hash = none) : tree.record ∈ trie.keyspace.records content := by
  rw [Tree.hash_of_ne_empty some] at absent
  exact present.resolve_left (Overlay.not_mem_of_lookup (fun _ _ => orderly.made.named) absent)

theorem Orderly.lookup_emptyRoot {content : Content} {trie : Trie} (faithful : Faithful data)
    (orderly : trie.Orderly data content) : trie.overlay.lookup Node.emptyRoot = none := by
  cases found : trie.overlay.lookup Node.emptyRoot with
  | none => rfl
  | some record =>
    have entry := Overlay.mem_of_lookup found
    obtain ⟨tree, canonical, some, same⟩ := orderly.made _ entry
    obtain ⟨hash, rfl⟩ := Prod.mk.inj same
    have member := orderly.within (List.mem_map.mpr ⟨_, entry, rfl⟩)
    exact absurd hash.symm (canonical.hash_ne_emptyRoot faithful member some)

private theorem readNode_tree (faithful : Faithful data) (canonical : tree.Canonical)
    (member : tree.record ∈ data) : readNode tree.record mounted = .ok tree.node mounted := by
  rw [readNode, Tree.record, Node.decode_encode (canonical.readable (faithful.short _ member))]
  rfl

/-- The top of a stored trie is loaded by the hash of the trie. -/
theorem load_tree (faithful : Faithful data) (orderly : mounted.trie.Orderly data mounted.store)
    (canonical : tree.Canonical) (stored : tree.Stored mounted.records) :
    load tree.hash mounted = .ok tree.node mounted := by
  by_cases none : tree = .empty
  · subst tree
    rfl
  · have present := ((Tree.stored_of_ne_empty none).mp stored).1
    have member : tree.record ∈ data := orderly.records_subset present
    rw [load, if_neg (canonical.hash_ne_emptyRoot faithful member none),
      Step.bind_ok (Step.get_apply mounted)]
    cases found : mounted.trie.overlay.lookup tree.hash with
    | some record =>
      obtain rfl := orderly.eq_of_lookup faithful none member found
      exact readNode_tree faithful canonical member
    | none =>
      have kept : mounted.trie.keyspace.held mounted.store tree.hash = some tree.record := by
        rw [Tree.hash_of_ne_empty none]
        exact orderly.held_of_lookup none present found
      have read : onStore (mounted.trie.keyspace.read tree.hash.bytes) mounted =
          .ok (some tree.record) mounted := by
        rw [onStore, Keyspace.read_content _ orderly.space.column, kept]
      simp only
      rw [Step.bind_ok read]
      exact readNode_tree faithful canonical member

/-- A branch refers to those of its children that are not empty. -/
theorem child?_branch (canonical : (Tree.branch children value).Canonical) (nibble : UInt8) :
    (Tree.refs children).child? nibble = (children nibble).ref := by
  by_cases bound : nibble.toNat < 16
  · exact Tree.child?_refs children bound
  · have none := canonical.2.1 nibble (Nat.le_of_not_lt bound)
    rw [none, Children.child?, Vector.getElem?_eq_none (Nat.le_of_not_lt bound)]
    rfl

/-- A lookup from the top of a stored trie finds what the trie holds at the path. -/
theorem lookupFrom_tree (faithful : Faithful data)
    (orderly : mounted.trie.Orderly data mounted.store) (canonical : tree.Canonical)
    (rooted : tree.Rooted mounted.records) {steps : Nat} (enough : path.length < steps) :
    lookupFrom steps tree.node path mounted = .ok (tree.get path) mounted := by
  induction tree generalizing path steps with
  | empty =>
    obtain ⟨steps, rfl⟩ := Nat.exists_eq_add_of_lt enough
    rfl
  | leaf rest value =>
    obtain ⟨steps, rfl⟩ := Nat.exists_eq_add_of_lt enough
    rfl
  | extension lead child ih =>
    obtain ⟨steps, rfl⟩ : ∃ fewer, steps = fewer + 1 := Nat.exists_eq_add_one.mpr (by omega)
    obtain ⟨_, leadSome, _, canonicalChild⟩ := canonical
    simp only [Tree.node_extension, lookupFrom, Tree.get]
    cases after : lead.after? path with
    | none => rfl
    | some rest =>
      have shorter : rest.length < steps := by
        have lengths := congrArg List.length (Path.after?_eq_some.mp after)
        have leadLength := List.length_pos_iff.mpr leadSome
        rw [List.length_append] at lengths
        omega
      simp only
      have stored := Tree.rooted_extension.mp rooted
      rw [Step.bind_ok (load_tree faithful orderly canonicalChild stored)]
      exact ih canonicalChild stored.rooted shorter
  | branch children value ih =>
    obtain ⟨steps, rfl⟩ : ∃ fewer, steps = fewer + 1 := Nat.exists_eq_add_one.mpr (by omega)
    cases path with
    | nil => rfl
    | cons nibble rest =>
      have shorter : rest.length < steps := by
        rw [List.length_cons] at enough
        omega
      simp only [Tree.node_branch, lookupFrom, Tree.get, child?_branch canonical]
      by_cases none : children nibble = .empty
      · simp [Tree.ref, none, Tree.get]
      · have stored := Tree.rooted_branch.mp rooted nibble
        simp only [Tree.ref, if_neg none]
        rw [Step.bind_ok (load_tree faithful orderly (canonical.1 nibble) stored)]
        exact ih nibble (canonical.1 nibble) stored.rooted shorter

theorem length_lt_walkLimit (path : Path) : path.length < walkLimit path :=
  Nat.lt_of_lt_of_le (Nat.lt_succ_self _) (Nat.le_mul_of_pos_right _ (Nat.two_pow_pos 256))

/-- Reading a key finds what the trie of the root holds there. -/
theorem get_tree (faithful : Faithful data) (orderly : mounted.trie.Orderly data mounted.store)
    (canonical : tree.Canonical) (stored : tree.Stored mounted.records)
    (root : mounted.trie.root = tree.hash) (key : Bytes) :
    get key mounted = .ok (tree.get (Path.ofBytes key)) mounted := by
  have loaded := load_tree faithful orderly canonical stored
  rw [← root] at loaded
  rw [get, Step.bind_ok (Step.getThe_apply mounted), Step.bind_ok loaded]
  exact lookupFrom_tree faithful orderly canonical stored.rooted (length_lt_walkLimit _)

end Trie

end ContractLedger
