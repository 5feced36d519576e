import ContractLedger.Proofs.Trie.Stored

/-!
Resolved tries as maps from keys to values. A canonical trie spells a map if its entries are those
of the map, at the nibbles of their keys. The map determines the trie, and an update of the one is
an update of the other. A map has one root only, and where digests tell the records apart, a root
has one map only.
-/

namespace ContractLedger

namespace Tree

/-- Stores a value at a path; an empty value removes the path. -/
def put (tree : Tree) (path : Path) (value : Bytes) : Tree :=
  if value = [] then (tree.remove path).getD tree else tree.insert path value

/-- The map with a value under a key, an empty value removing the key. -/
def written (map : Bytes → Option Bytes) (key value : Bytes) : Bytes → Option Bytes :=
  Function.update map key (if value = [] then none else some value)

/-- A canonical trie whose entries are those of a map. -/
structure Spells (tree : Tree) (map : Bytes → Option Bytes) : Prop where
  canonical : tree.Canonical
  entry : ∀ path value, tree.get path = some value ↔
    ∃ key, Path.ofBytes key = path ∧ map key = some value

variable {tree first second : Tree} {map other : Bytes → Option Bytes} {path : Path}
  {value : Bytes}

theorem Spells.get (spells : tree.Spells map) (key : Bytes) :
    tree.get (Path.ofBytes key) = map key := by
  apply Option.ext
  intro value
  rw [spells.entry]
  constructor
  · rintro ⟨same, nibbles, found⟩
    rwa [← Path.ofBytes_injective nibbles]
  · intro found
    exact ⟨key, rfl, found⟩

theorem Spells.map_unique (spells : tree.Spells map) (again : tree.Spells other) : map = other := by
  funext key
  rw [← spells.get, again.get]

theorem Spells.unique (spells : first.Spells map) (again : second.Spells map) : first = second := by
  apply spells.canonical.unique again.canonical
  intro path
  apply Option.ext
  intro value
  rw [spells.entry, again.entry]

theorem spells_empty : empty.Spells fun _ => none := by
  refine ⟨trivial, fun path value => ?_⟩
  constructor
  · nofun
  · rintro ⟨_, _, found⟩
    cases found

theorem canonical_put (canonical : tree.Canonical) (nibbles : path.Nibbles) :
    (tree.put path value).Canonical := by
  unfold put
  split
  · cases removed : tree.remove path with
    | none => exact canonical
    | some after => exact canonical_remove canonical nibbles removed
  · next some => exact canonical_insert canonical nibbles some

theorem get_put (canonical : tree.Canonical) (nibbles : path.Nibbles) (other : Path) :
    (tree.put path value).get other =
      if other = path then if value = [] then none else some value else tree.get other := by
  unfold put
  split
  · cases removed : tree.remove path with
    | none =>
      rw [Option.getD_none]
      split
      · next same => rw [same, (remove_eq_none_iff tree path).mp removed]
      · rfl
    | some after => exact get_remove canonical nibbles removed other
  · exact get_insert tree path value other

theorem Spells.put (spells : tree.Spells map) (key value : Bytes) :
    (tree.put (Path.ofBytes key) value).Spells (written map key value) := by
  have nibbles := Path.ofBytes_nibbles key
  refine ⟨canonical_put spells.canonical nibbles, fun path found => ?_⟩
  rw [get_put spells.canonical nibbles]
  by_cases same : path = Path.ofBytes key
  · subst path
    rw [if_pos rfl]
    constructor
    · intro entry
      exact ⟨key, rfl, by rwa [written, Function.update_self]⟩
    · rintro ⟨again, nibbles, entry⟩
      rwa [Path.ofBytes_injective nibbles, written, Function.update_self] at entry
  · rw [if_neg same, spells.entry]
    refine exists_congr fun again => and_congr_right fun spelled => ?_
    have apart : again ≠ key := by
      rintro rfl
      exact same spelled.symm
    rw [written, Function.update_of_ne apart]

end Tree

/-- Byte strings among which there are all records of the trie that spells a map, whose root is
given. -/
def Keeps (records : Set Bytes) (root : Hash) (map : Bytes → Option Bytes) : Prop :=
  ∃ tree : Tree, tree.Spells map ∧ tree.hash = root ∧ tree.Stored records

namespace Keeps

variable {records larger data : Set Bytes} {root other : Hash} {map another : Bytes → Option Bytes}

theorem empty : Keeps records Node.emptyRoot fun _ => none :=
  ⟨.empty, Tree.spells_empty, rfl, Tree.stored_empty⟩

theorem mono (keeps : Keeps records root map) (within : records ⊆ larger) :
    Keeps larger root map := by
  obtain ⟨tree, spells, hash, stored⟩ := keeps
  exact ⟨tree, spells, hash, stored.mono within⟩

theorem root_unique (keeps : Keeps records root map) (again : Keeps larger other map) :
    root = other := by
  obtain ⟨tree, spells, rfl, _⟩ := keeps
  obtain ⟨tree', spells', rfl, _⟩ := again
  rw [spells.unique spells']

theorem map_unique (faithful : Faithful data) (keeps : Keeps records root map)
    (within : records ⊆ data) (again : Keeps larger root another) (withinAgain : larger ⊆ data) :
    map = another := by
  obtain ⟨first, spells, rfl, stored⟩ := keeps
  obtain ⟨second, spellsAgain, same, storedAgain⟩ := again
  have trees : first = second := spells.canonical.eq_of_hash_eq faithful (stored.mono within)
    spellsAgain.canonical (storedAgain.mono withinAgain) same.symm
  subst trees
  exact spells.map_unique spellsAgain

end Keeps

open Classical in
noncomputable def Tree.rootOf (map : Bytes → Option Bytes) : Hash :=
  if spelled : ∃ tree : Tree, tree.Spells map then spelled.choose.hash else Node.emptyRoot

theorem Keeps.eq_rootOf {records : Set Bytes} {root : Hash} {map : Bytes → Option Bytes}
    (keeps : Keeps records root map) : root = Tree.rootOf map := by
  obtain ⟨tree, spells, rfl, _⟩ := keeps
  have spelled : ∃ tree : Tree, tree.Spells map := ⟨tree, spells⟩
  rw [Tree.rootOf, dif_pos spelled, spells.unique spelled.choose_spec]

end ContractLedger
