import ContractLedger.Proofs.Trie.Map
import ContractLedger.Proofs.Trie.Orderly

/-!
Tries listed entry by entry. The list of a resolved trie has every entry once and is in the order of
the paths, so that what is read off a stored trie enumerates its map in the order of the keys.
-/

namespace ContractLedger

namespace Tree

def entries : Tree → List (Path × Bytes)
  | empty => []
  | leaf path value => [(path, value)]
  | extension lead child => child.entries.map fun entry => (lead ++ entry.1, entry.2)
  | branch children value =>
    (value.toList.map fun value => ([], value)) ++
      (present children).flatMap fun nibble =>
        (children nibble).entries.map fun entry => (nibble :: entry.1, entry.2)

variable {tree : Tree} {children : UInt8 → Tree} {path : Path} {value : Bytes}

theorem mem_entries (canonical : tree.Canonical) :
    (path, value) ∈ tree.entries ↔ tree.get path = some value := by
  induction tree generalizing path with
  | empty => simp [entries, get]
  | leaf rest found => simp [entries, get, eq_comm]
  | extension lead child ih =>
    simp only [entries, List.mem_map, Prod.exists, Prod.mk.injEq, get_extension_eq_some]
    constructor
    · rintro ⟨rest, found, member, rfl, rfl⟩
      exact ⟨rest, rfl, (ih canonical.2.2.2).mp member⟩
    · rintro ⟨rest, rfl, found⟩
      exact ⟨rest, value, (ih canonical.2.2.2).mpr found, rfl, rfl⟩
  | branch children slot ih =>
    cases path with
    | nil => simp [entries, get]
    | cons nibble rest =>
      simp only [entries, List.mem_append, List.mem_flatMap, List.mem_map, Prod.exists,
        Prod.mk.injEq, List.cons.injEq, get]
      constructor
      · rintro (⟨_, _, impossible, _⟩ | ⟨_, _, _, _, member, ⟨rfl, rfl⟩, rfl⟩)
        · cases impossible
        · exact (ih _ (canonical.1 _)).mp member
      · intro found
        have some : children nibble ≠ empty := by
          intro none
          rw [none] at found
          cases found
        exact .inr ⟨nibble, (mem_present canonical.2.1 nibble).mpr some, rest, value,
          (ih nibble (canonical.1 nibble)).mpr found, ⟨rfl, rfl⟩, rfl⟩

private theorem present_ordered (children : UInt8 → Tree) :
    (present children).Pairwise (· < ·) := by
  have all : ((List.range 16).map UInt8.ofNat).Pairwise (· < ·) := by decide
  exact all.sublist List.filter_sublist

theorem entries_ordered (tree : Tree) :
    tree.entries.Pairwise fun first second => first.1 < second.1 := by
  induction tree with
  | empty => exact .nil
  | leaf path value => exact List.pairwise_singleton _ _
  | extension lead child ih =>
    rw [entries, List.pairwise_map]
    exact ih.imp List.append_left_lt
  | branch children value ih =>
    have below : ((present children).flatMap fun nibble =>
        (children nibble).entries.map fun entry => (nibble :: entry.1, entry.2)).Pairwise
          fun first second => first.1 < second.1 := by
      rw [List.pairwise_flatMap]
      constructor
      · intro nibble _
        rw [List.pairwise_map]
        exact (ih nibble).imp fun less => List.cons_lt_cons_iff.mpr (.inr ⟨rfl, less⟩)
      · refine (present_ordered children).imp ?_
        intro nibble other less first memberFirst second memberSecond
        obtain ⟨_, _, rfl⟩ := List.mem_map.mp memberFirst
        obtain ⟨_, _, rfl⟩ := List.mem_map.mp memberSecond
        exact List.cons_lt_cons_iff.mpr (.inl less)
    rw [entries, List.pairwise_append]
    refine ⟨?_, below, ?_⟩
    · cases value with
      | none => exact .nil
      | some value => exact List.pairwise_singleton _ _
    · intro here memberHere entry member
      obtain ⟨_, _, rfl⟩ := List.mem_map.mp memberHere
      obtain ⟨nibble, _, inside⟩ := List.mem_flatMap.mp member
      obtain ⟨_, _, rfl⟩ := List.mem_map.mp inside
      exact List.nil_lt_cons _ _

end Tree

/-- A list of all entries of a map, each once and in the order of their keys. -/
structure Enumerates (listed : List (Bytes × Bytes)) (map : Bytes → Option Bytes) : Prop where
  entry : ∀ key value, (key, value) ∈ listed ↔ map key = some value
  ordered : listed.Pairwise fun first second => first.1 < second.1

/-- The entries of a trie that spells a map are at the nibbles of the keys. -/
theorem Tree.Spells.enumerates {tree : Tree} {map : Bytes → Option Bytes} (spells : tree.Spells map) :
    ∃ listed, tree.entries = listed.map (fun entry => (Path.ofBytes entry.1, entry.2)) ∧
      Enumerates listed map := by
  have spelled : ∀ entry ∈ tree.entries, ∃ key, Path.ofBytes key = entry.1 := by
    rintro ⟨path, value⟩ member
    obtain ⟨key, same, _⟩ := (spells.entry path value).mp ((mem_entries spells.canonical).mp member)
    exact ⟨key, same⟩
  choose! key same using spelled
  obtain ⟨listed, whole⟩ : ∃ listed : List (Bytes × Bytes),
      tree.entries = listed.map fun entry => (Path.ofBytes entry.1, entry.2) := by
    refine ⟨tree.entries.map fun entry => (key entry, entry.2), ?_⟩
    rw [List.map_map]
    refine (List.map_id _).symm.trans (List.map_congr_left fun entry member => ?_)
    exact Prod.ext (same entry member).symm rfl
  refine ⟨listed, whole, fun key value => ?_, ?_⟩
  · rw [← spells.get, ← mem_entries spells.canonical, whole, List.mem_map]
    constructor
    · exact fun member => ⟨(key, value), member, rfl⟩
    · rintro ⟨⟨other, found⟩, member, spelledSame⟩
      obtain ⟨paths, rfl⟩ := Prod.mk.inj spelledSame
      rwa [← Path.ofBytes_injective paths]
  · have ordered := tree.entries_ordered
    rw [whole, List.pairwise_map] at ordered
    exact ordered.imp Path.lt_of_ofBytes_lt

namespace Trie

variable {data : Set Bytes} {mounted : Mounted Content} {tree : Tree} {map : Bytes → Option Bytes}

/-- Listing from the top of a stored trie lists the entries of the trie. -/
theorem pairsFrom_tree (faithful : Faithful data)
    (orderly : mounted.trie.Orderly data mounted.store) (canonical : tree.Canonical)
    (rooted : tree.Rooted mounted.records) {steps : Nat} (enough : tree.height < steps)
    (path : Path) :
    pairsFrom steps tree.node path mounted =
      .ok (tree.entries.map fun entry => (path ++ entry.1, entry.2)) mounted := by
  induction tree generalizing path steps with
  | empty =>
    obtain ⟨steps, rfl⟩ : ∃ fewer, steps = fewer + 1 := Nat.exists_eq_add_one.mpr (by omega)
    rfl
  | leaf rest value =>
    obtain ⟨steps, rfl⟩ : ∃ fewer, steps = fewer + 1 := Nat.exists_eq_add_one.mpr (by omega)
    rfl
  | extension lead child ih =>
    obtain ⟨steps, rfl⟩ : ∃ fewer, steps = fewer + 1 := Nat.exists_eq_add_one.mpr (by omega)
    have canonicalChild := canonical.2.2.2
    have stored := Tree.rooted_extension.mp rooted
    rw [Tree.node_extension, pairsFrom,
      Step.bind_ok (load_tree faithful orderly canonicalChild stored),
      ih canonicalChild stored.rooted (Nat.lt_of_succ_lt_succ enough)]
    simp [Tree.entries, Function.comp_def]
  | branch children value ih =>
    obtain ⟨steps, rfl⟩ : ∃ fewer, steps = fewer + 1 := Nat.exists_eq_add_one.mpr (by omega)
    have each (nibble : UInt8) :
        (do pairsFrom steps (← load (children nibble).hash) (path ++ [nibble]) : TrieM Content _)
            mounted =
          .ok ((children nibble).entries.map fun entry => (path ++ [nibble] ++ entry.1, entry.2))
            mounted := by
      have stored := Tree.rooted_branch.mp rooted nibble
      have lower := Tree.height_child_lt children value nibble
      rw [Step.bind_ok (load_tree faithful orderly (canonical.1 nibble) stored)]
      exact ih nibble (canonical.1 nibble) stored.rooted (by omega) _
    have below := Step.mapM_ok (Tree.present children) _ fun nibble _ => each nibble
    rw [Tree.node_branch, pairsFrom, Tree.present_refs, List.mapM_map]
    refine (Step.bind_ok below _).trans ?_
    simp [Tree.entries, List.flatMap, Function.comp_def]

theorem pairs_tree (faithful : Faithful data) (orderly : mounted.trie.Orderly data mounted.store)
    (spells : tree.Spells map) (stored : tree.Stored mounted.records)
    (root : mounted.trie.root = tree.hash) :
    ∃ listed, pairs mounted = .ok listed mounted ∧ Enumerates listed map := by
  have few := spells.canonical.height_le_count faithful (stored.mono orderly.records_subset)
  have loaded := load_tree faithful orderly spells.canonical stored
  have found := pairsFrom_tree faithful orderly spells.canonical stored.rooted
    (Nat.lt_succ_of_le few) []
  obtain ⟨listed, whole, enumerates⟩ := spells.enumerates
  rw [← root] at loaded
  refine ⟨listed, ?_, enumerates⟩
  rw [pairs, Step.bind_ok (Step.getThe_apply mounted), Step.bind_ok loaded, Step.bind_ok found]
  rw [whole, List.map_map, List.mapM_map]
  refine (Step.mapM_ok listed id fun entry _ => ?_).trans (by rw [List.map_id])
  simp only [Function.comp_apply, List.nil_append, Path.toBytes?_ofBytes]
  rfl

end Trie

end ContractLedger
