import ContractLedger.Proofs.Path
import ContractLedger.Proofs.Trie.Record
import Mathlib.Logic.Function.Basic

/-!
Resolved tries: nodes that hold their children instead of naming them by hash. A resolved trie
is a finite map from paths to values, and in canonical shape it is the only one with its entries.
-/

namespace ContractLedger

/-- A trie with its nodes in the places of their hashes. -/
inductive Tree where
  | empty
  | leaf (path : Path) (value : Bytes)
  | extension (path : Path) (child : Tree)
  | branch (children : UInt8 → Tree) (value : Option Bytes)

namespace Tree

instance (tree : Tree) : Decidable (tree = .empty) :=
  match tree with
  | .empty => .isTrue rfl
  | .leaf _ _ => .isFalse nofun
  | .extension _ _ => .isFalse nofun
  | .branch _ _ => .isFalse nofun

def get : Tree → Path → Option Bytes
  | empty, _ => none
  | leaf rest value, path => if rest = path then some value else none
  | extension lead child, path => (lead.after? path).bind child.get
  | branch _ value, [] => value
  | branch children _, nibble :: rest => (children nibble).get rest

/-- The node at the top, its children named by their hashes. -/
def node : Tree → Node
  | empty => .empty
  | leaf path value => .leaf path value
  | extension path child => .extension path child.node.hash
  | branch children value =>
    .branch (Vector.ofFn fun index =>
      if children (UInt8.ofNat index) = empty then none
      else some (children (UInt8.ofNat index)).node.hash) value

def hash (tree : Tree) : Hash :=
  tree.node.hash

def record (tree : Tree) : Bytes :=
  tree.node.encode

/-- The reference that a branch keeps to a child. -/
def ref (tree : Tree) : Option Hash :=
  if tree = empty then none else some tree.hash

def refs (children : UInt8 → Tree) : Children :=
  Vector.ofFn fun index => (children (UInt8.ofNat index)).ref

theorem node_extension (path : Path) (child : Tree) :
    (extension path child).node = .extension path child.hash := rfl

theorem node_branch (children : UInt8 → Tree) (value : Option Bytes) :
    (branch children value).node = .branch (refs children) value := rfl

theorem child?_refs (children : UInt8 → Tree) {nibble : UInt8} (bound : nibble.toNat < 16) :
    (refs children).child? nibble = (children nibble).ref := by
  simp [Children.child?, refs, bound]

theorem put_refs (children : UInt8 → Tree) (nibble : UInt8) (child : Tree) :
    (refs children).put nibble child.ref = refs (Function.update children nibble child) := by
  apply Vector.ext
  intro index bound
  have within : (UInt8.ofNat index).toNat = index :=
    UInt8.toNat_ofNat_of_lt' (Nat.lt_trans bound (by decide))
  simp only [Children.put, refs, Vector.getElem_setIfInBounds, Vector.getElem_ofFn]
  by_cases same : UInt8.ofNat index = nibble
  · subst nibble
    rw [if_pos within, Function.update_self]
  · have apart : nibble.toNat ≠ index := by
      rintro rfl
      exact same UInt8.ofNat_toNat
    rw [if_neg apart, Function.update_of_ne same]

theorem node_eq_empty {tree : Tree} : tree.node = .empty ↔ tree = empty := by
  cases tree <;> simp [node]

theorem hash_of_ne_empty {tree : Tree} (some : tree ≠ empty) :
    tree.hash = Keccak.digest tree.record := by
  cases tree with
  | empty => exact absurd rfl some
  | leaf path value => rfl
  | extension path child => rfl
  | branch children value => rfl

/-- At least two of the children and the value are present. -/
def Crowded (children : UInt8 → Tree) (value : Option Bytes) : Prop :=
  (∃ first second, first ≠ second ∧ children first ≠ empty ∧ children second ≠ empty) ∨
    (value.isSome = true ∧ ∃ nibble, children nibble ≠ empty)

def IsBranch : Tree → Prop
  | branch _ _ => True
  | _ => False

/-- The shape in which each map is written in one way only. -/
def Canonical : Tree → Prop
  | empty => True
  | leaf path value => path.Nibbles ∧ value ≠ []
  | extension path child => path.Nibbles ∧ path ≠ [] ∧ child.IsBranch ∧ child.Canonical
  | branch children value =>
    (∀ nibble, (children nibble).Canonical) ∧
      (∀ nibble, 16 ≤ nibble.toNat → children nibble = empty) ∧ value ≠ some [] ∧
      Crowded children value

variable {tree first second : Tree} {children : UInt8 → Tree} {value : Option Bytes} {path : Path}

theorem get_extension (lead : Path) (child : Tree) (rest : Path) :
    (extension lead child).get (lead ++ rest) = child.get rest := by
  rw [get, Path.after?_append, Option.bind_some]

theorem get_extension_eq_some {lead : Path} {child : Tree} {path : Path} {found : Bytes} :
    (extension lead child).get path = some found ↔
      ∃ rest, path = lead ++ rest ∧ child.get rest = some found := by
  simp only [get, Option.bind_eq_some_iff, Path.after?_eq_some]

theorem IsBranch.ne_empty (isBranch : tree.IsBranch) : tree ≠ empty := by
  rintro rfl
  exact isBranch

theorem exists_branch_of_isBranch (isBranch : tree.IsBranch) :
    ∃ children value, tree = branch children value := by
  cases tree with
  | branch children value => exact ⟨children, value, rfl⟩
  | _ => exact isBranch.elim

theorem Canonical.exists_entry (canonical : tree.Canonical) (some : tree ≠ empty) :
    ∃ path value, tree.get path = Option.some value := by
  induction tree with
  | empty => exact absurd rfl some
  | leaf path value => exact ⟨path, value, by simp [get]⟩
  | extension lead child ih =>
    obtain ⟨_, _, isBranch, canonicalChild⟩ := canonical
    obtain ⟨rest, value, found⟩ := ih canonicalChild isBranch.ne_empty
    exact ⟨lead ++ rest, value, by rw [get_extension, found]⟩
  | branch children value ih =>
    obtain ⟨canonicalChildren, _, _, crowded⟩ := canonical
    have child : ∃ nibble, children nibble ≠ empty := by
      rcases crowded with ⟨first, _, _, present, _⟩ | ⟨_, present⟩
      · exact ⟨first, present⟩
      · exact present
    obtain ⟨nibble, present⟩ := child
    obtain ⟨rest, value, found⟩ := ih nibble (canonicalChildren nibble) present
    exact ⟨nibble :: rest, value, found⟩

theorem Canonical.eq_empty_iff (canonical : tree.Canonical) :
    tree = empty ↔ ∀ path, tree.get path = none := by
  constructor
  · rintro rfl path
    rfl
  · intro noEntry
    apply Classical.byContradiction
    intro some
    obtain ⟨path, value, found⟩ := canonical.exists_entry some
    rw [noEntry path] at found
    cases found

/-- Whatever the nibble, a branch has an entry that does not start with it. -/
theorem Canonical.spread (canonical : (branch children value).Canonical) (nibble : UInt8) :
    ∃ path found, (branch children value).get path = some found ∧
      ∀ rest, path ≠ nibble :: rest := by
  obtain ⟨canonicalChildren, _, _, crowded⟩ := canonical
  rcases crowded with ⟨one, other, apart, presentOne, presentOther⟩ | ⟨present, _⟩
  · have different : ∃ side, side ≠ nibble ∧ children side ≠ empty := by
      by_cases same : one = nibble
      · exact ⟨other, fun again => apart (same.trans again.symm), presentOther⟩
      · exact ⟨one, same, presentOne⟩
    obtain ⟨side, away, presentSide⟩ := different
    obtain ⟨rest, found, entry⟩ := (canonicalChildren side).exists_entry presentSide
    refine ⟨side :: rest, found, entry, ?_⟩
    intro rest same
    exact away (List.cons.inj same).1
  · obtain ⟨found, rfl⟩ := Option.isSome_iff_exists.mp present
    exact ⟨[], found, rfl, by simp⟩

/-- The entries of a branch do not all start with one nonempty path. -/
theorem Canonical.no_common_lead (canonical : (branch children value).Canonical) {lead : Path}
    (common : ∀ path found, (branch children value).get path = some found →
      ∃ rest, path = lead ++ rest) : lead = [] := by
  cases lead with
  | nil => rfl
  | cons nibble lead =>
    obtain ⟨path, found, entry, away⟩ := canonical.spread nibble
    obtain ⟨rest, starts⟩ := common path found entry
    exact absurd starts (away _)

private theorem lead_le_of_entries {lead other : Path} {child : Tree}
    (isBranch : child.IsBranch) (canonical : child.Canonical)
    (common : ∀ path found, (extension lead child).get path = some found →
      ∃ rest, path = other ++ rest) (longer : lead.length ≤ other.length) : other = lead := by
  obtain ⟨children, value, rfl⟩ := exists_branch_of_isBranch isBranch
  obtain ⟨path, found, entry⟩ := canonical.exists_entry isBranch.ne_empty
  obtain ⟨rest, starts⟩ := common (lead ++ path) found (by rw [get_extension, entry])
  have within : lead <+: other :=
    List.prefix_of_prefix_length_le (List.prefix_append lead path) ⟨rest, starts.symm⟩ longer
  obtain ⟨extra, rfl⟩ := within
  have none : extra = [] := by
    apply canonical.no_common_lead
    intro below found entry
    obtain ⟨rest, starts⟩ := common (lead ++ below) found (by rw [get_extension, entry])
    rw [List.append_assoc] at starts
    exact ⟨rest, List.append_cancel_left starts⟩
  rw [none, List.append_nil]

private theorem lead_unique {lead other : Path} {child otherChild : Tree}
    (canonical : (extension lead child).Canonical)
    (canonicalOther : (extension other otherChild).Canonical)
    (same : ∀ path, (extension lead child).get path = (extension other otherChild).get path) :
    lead = other := by
  have fromOther : ∀ path found, (extension lead child).get path = some found →
      ∃ rest, path = other ++ rest := by
    intro path found entry
    obtain ⟨rest, starts, _⟩ := get_extension_eq_some.mp ((same path).symm.trans entry)
    exact ⟨rest, starts⟩
  have fromLead : ∀ path found, (extension other otherChild).get path = some found →
      ∃ rest, path = lead ++ rest := by
    intro path found entry
    obtain ⟨rest, starts, _⟩ := get_extension_eq_some.mp ((same path).trans entry)
    exact ⟨rest, starts⟩
  rcases Nat.le_total lead.length other.length with longer | longer
  · exact (lead_le_of_entries canonical.2.2.1 canonical.2.2.2 fromOther longer).symm
  · exact lead_le_of_entries canonicalOther.2.2.1 canonicalOther.2.2.2 fromLead longer

private theorem leaf_single {rest : Path} {value found : Bytes}
    (entry : (leaf rest value).get path = some found) : path = rest := by
  by_cases same : rest = path
  · exact same.symm
  · rw [get, if_neg same] at entry
    cases entry

theorem Canonical.two_entries (canonical : (branch children value).Canonical) :
    ∃ path other found another, path ≠ other ∧ (branch children value).get path = some found ∧
      (branch children value).get other = some another := by
  obtain ⟨path, found, entry, _⟩ := canonical.spread 0
  cases path with
  | cons nibble rest =>
    obtain ⟨other, another, otherEntry, away⟩ := canonical.spread nibble
    exact ⟨_, other, found, another, (away rest).symm, entry, otherEntry⟩
  | nil =>
    have child : ∃ nibble, children nibble ≠ empty := by
      rcases canonical.2.2.2 with ⟨first, _, _, present, _⟩ | ⟨_, present⟩
      · exact ⟨first, present⟩
      · exact present
    obtain ⟨nibble, present⟩ := child
    obtain ⟨rest, another, below⟩ := (canonical.1 nibble).exists_entry present
    exact ⟨[], nibble :: rest, found, another, by simp, entry, below⟩

private theorem leaf_ne_branch {rest : Path} {found : Bytes}
    (canonical : (branch children value).Canonical)
    (same : ∀ path, (leaf rest found).get path = (branch children value).get path) : False := by
  obtain ⟨path, other, _, _, apart, entry, otherEntry⟩ := canonical.two_entries
  have pathIs := leaf_single ((same path).trans entry)
  have otherIs := leaf_single ((same other).trans otherEntry)
  exact apart (pathIs.trans otherIs.symm)

private theorem leaf_ne_extension {rest lead : Path} {found : Bytes} {child : Tree}
    (canonical : (extension lead child).Canonical)
    (same : ∀ path, (leaf rest found).get path = (extension lead child).get path) : False := by
  obtain ⟨_, _, isBranch, canonicalChild⟩ := canonical
  obtain ⟨children, value, rfl⟩ := exists_branch_of_isBranch isBranch
  obtain ⟨path, other, _, _, apart, entry, otherEntry⟩ := canonicalChild.two_entries
  have pathIs := leaf_single ((same (lead ++ path)).trans ((get_extension ..).trans entry))
  have otherIs := leaf_single ((same (lead ++ other)).trans ((get_extension ..).trans otherEntry))
  exact apart (List.append_cancel_left (pathIs.trans otherIs.symm))

private theorem extension_ne_branch {lead : Path} {child : Tree}
    (canonical : (extension lead child).Canonical)
    (canonicalBranch : (branch children value).Canonical)
    (same : ∀ path, (extension lead child).get path = (branch children value).get path) :
    False := by
  apply canonical.2.1
  apply canonicalBranch.no_common_lead
  intro path found entry
  obtain ⟨rest, starts, _⟩ := get_extension_eq_some.mp ((same path).trans entry)
  exact ⟨rest, starts⟩

/-- Canonical tries with the same entries are the same. -/
theorem Canonical.unique (canonical : first.Canonical) (canonicalSecond : second.Canonical)
    (same : ∀ path, first.get path = second.get path) : first = second := by
  induction first generalizing second with
  | empty => exact (canonicalSecond.eq_empty_iff.mpr fun path => (same path).symm).symm
  | leaf rest value =>
    have entry : second.get rest = some value := by
      rw [← same, get, if_pos rfl]
    cases second with
    | empty => cases entry
    | leaf other found =>
      have pathIs := leaf_single entry
      subst other
      rw [get, if_pos rfl] at entry
      rw [Option.some.inj entry]
    | extension lead child => exact (leaf_ne_extension canonicalSecond same).elim
    | branch children slot => exact (leaf_ne_branch canonicalSecond same).elim
  | extension lead child ih =>
    cases second with
    | empty =>
      have none : extension lead child = empty := canonical.eq_empty_iff.mpr same
      cases none
    | leaf rest value => exact (leaf_ne_extension canonical fun path => (same path).symm).elim
    | extension other otherChild =>
      obtain rfl := lead_unique canonical canonicalSecond same
      have below : child = otherChild := ih canonical.2.2.2 canonicalSecond.2.2.2 fun rest => by
        rw [← get_extension lead child, ← get_extension lead otherChild, same]
      rw [below]
    | branch children value => exact (extension_ne_branch canonical canonicalSecond same).elim
  | branch children value ih =>
    cases second with
    | empty =>
      have none : branch children value = empty := canonical.eq_empty_iff.mpr same
      cases none
    | leaf rest value => exact (leaf_ne_branch canonical fun path => (same path).symm).elim
    | extension lead child =>
      exact (extension_ne_branch canonicalSecond canonical fun path => (same path).symm).elim
    | branch others slot =>
      have below : children = others := by
        funext nibble
        exact ih nibble (canonical.1 nibble) (canonicalSecond.1 nibble) fun rest =>
          same (nibble :: rest)
      have here : value = slot := same []
      rw [below, here]

/-- The node at the top of a canonical trie is recovered from its record. -/
theorem Canonical.readable (canonical : tree.Canonical) (short : tree.record.length < 2 ^ 63) :
    tree.node.Readable := by
  cases tree with
  | empty => exact trivial
  | leaf path value =>
    have held := Node.length_leaf_le path value
    refine ⟨canonical.1, ?_⟩
    simp only [record, node, Path.Fits] at short ⊢
    omega
  | extension lead child =>
    have held := Node.length_extension_le lead child.hash
    refine ⟨canonical.1, ?_⟩
    simp only [record, node, hash, Path.Fits, List.length_nil] at short held ⊢
    omega
  | branch children value =>
    have held := Node.length_branch_le (refs children) value
    refine ⟨canonical.2.2.1, ?_⟩
    simp only [record, node_branch, Path.Fits, List.length_nil] at short ⊢
    omega

end Tree

end ContractLedger
