import ContractLedger.Proofs.Trie.History

/-!
New tries made of entries. If the entries of a map are inserted into a new trie, in whatever order
and over whatever store, the root is that of the map; so a root that is kept anywhere for the map can
be found again from its entries alone.
-/

namespace ContractLedger

theorem Tree.Canonical.get_ne_nil {tree : Tree} (canonical : tree.Canonical) {path : Path}
    {value : Bytes} (found : tree.get path = some value) : value ≠ [] := by
  induction tree generalizing path with
  | empty => cases found
  | leaf rest held =>
    rw [get] at found
    split at found <;> cases found
    exact canonical.2
  | extension lead child ih =>
    obtain ⟨rest, _, below⟩ := get_extension_eq_some.mp found
    exact ih canonical.2.2.2 below
  | branch children slot ih =>
    cases path with
    | nil =>
      rintro rfl
      exact canonical.2.2.1 found
    | cons nibble rest => exact ih nibble (canonical.1 nibble) found

/-- Removing a key is the only way to leave an empty value under it. -/
theorem Keeps.value_ne_nil {records : Set Bytes} {root : Hash} {map : Bytes → Option Bytes}
    (keeps : Keeps records root map) {key value : Bytes} (found : map key = some value) :
    value ≠ [] := by
  obtain ⟨tree, spells, _, _⟩ := keeps
  rw [← spells.get] at found
  exact spells.canonical.get_ne_nil found

namespace Trie

namespace Change

/-- The insertion of entries, one after another. -/
def insertions (entries : List (Bytes × Bytes)) : List Change :=
  entries.map fun entry => .insert entry.1 entry.2

variable {entries : List (Bytes × Bytes)} {map : Bytes → Option Bytes}

/-- The entries of a map leave the map, in whatever order they are inserted. -/
theorem left_insertions (listed : ∀ key value, (key, value) ∈ entries ↔ map key = some value)
    (nonempty : ∀ key value, map key = some value → value ≠ []) :
    left (insertions entries) = map := by
  funext key
  cases held : map key with
  | none =>
    refine left_of_not_mem fun member => ?_
    obtain ⟨change, inserted, rfl⟩ := List.mem_map.mp member
    obtain ⟨⟨key, value⟩, inside, rfl⟩ := List.mem_map.mp inserted
    exact nomatch held.symm.trans ((listed key value).mp inside)
  | some value =>
    have present : ((insertions entries).reverse.find? (·.key = key)).isSome := by
      rw [List.find?_isSome]
      refine ⟨.insert key value, ?_, decide_eq_true rfl⟩
      rw [List.mem_reverse]
      exact List.mem_map.mpr ⟨(key, value), (listed key value).mpr held, rfl⟩
    obtain ⟨change, found⟩ := Option.isSome_iff_exists.mp present
    have same : change.key = key := of_decide_eq_true (List.find?_some found :)
    obtain ⟨⟨other, last⟩, inside, rfl⟩ :=
      List.mem_map.mp (List.mem_reverse.mp (List.mem_of_find?_eq_some found))
    subst same
    have again := (listed other last).mp inside
    rw [left, found, Option.bind_some, ← held, kept, if_neg (nonempty other last again)]
    exact again.symm

end Change

/-- A hash that is the root of every new trie into which exactly the entries of a map are inserted,
provided that digests tell the records of that trie apart. -/
def FreshRoot (root : Hash) (map : Bytes → Option Bytes) : Prop :=
  ∀ (σ : Type) [ByteStore σ] (keyspace : Keyspace) (store : σ) (entries : List (Bytes × Bytes)),
    (∀ key value, (key, value) ∈ entries ↔ map key = some value) →
    Faithful { record |
      record ∈ Change.made (Change.insertions entries) ⟨Trie.empty keyspace, store⟩ } →
    ∃ replies after,
      Change.run (Change.insertions entries) ⟨Trie.empty keyspace, store⟩ = .ok replies after ∧
      after.trie.root = root

end Trie

open Trie in
/-- A root that is kept for a map is the root of every new trie of its entries. -/
theorem Keeps.freshRoot {records : Set Bytes} {root : Hash} {map : Bytes → Option Bytes}
    (keeps : Keeps records root map) : FreshRoot root map := by
  intro σ _ keyspace store entries listed faithful
  obtain ⟨after, ran, bears⟩ := @Change.run_bears _ _ _ _ [] faithful (.empty _ keyspace store)
    (Change.insertions entries) fun _ member => member
  rw [List.nil_append,
    Change.left_insertions listed fun key value found => keeps.value_ne_nil found] at bears
  exact ⟨_, after, ran, bears.keeps.root_unique keeps⟩

end ContractLedger
