import ContractLedger.Proofs.Trie.Orderly

/-!
What a trie writes to its store. The pending records that the root leads to are all found, and with
them the store holds the whole trie of the root, because what is not pending was stored with
everything below it.
-/

namespace ContractLedger

namespace Tree

/-- The tries right below the top, in the order of the nibbles, the empty ones left out. -/
def kids : Tree → List Tree
  | extension _ child => [child]
  | branch children _ => (present children).map children
  | _ => []

variable {tree kid : Tree} {records : Set Bytes}

private theorem hashes_refs (children : UInt8 → Tree) :
    (refs children).toList.filterMap id =
      (present children).map fun nibble => (children nibble).hash := by
  have slots : (refs children).toList =
      (List.range 16).map fun index => (children (UInt8.ofNat index)).ref := by
    apply List.ext_getElem
    · simp
    · intro index bound _
      simp [refs]
  rw [slots, present, ← List.filterMap_eq_filter, List.filterMap_map, List.filterMap_map,
    List.map_filterMap]
  congr 1
  funext index
  by_cases none : children (UInt8.ofNat index) = empty <;> simp [ref, none, Option.guard]

theorem childHashes_node (tree : Tree) : tree.node.childHashes = tree.kids.map hash := by
  cases tree with
  | branch children value =>
    rw [node_branch, Node.childHashes, hashes_refs, kids, List.map_map]
    rfl
  | _ => rfl

theorem height_kid_lt (member : kid ∈ tree.kids) : kid.height < tree.height := by
  cases tree with
  | extension lead child =>
    obtain rfl := List.mem_singleton.mp member
    exact Nat.lt_succ_self _
  | branch children value =>
    obtain ⟨nibble, _, rfl⟩ := List.mem_map.mp member
    exact height_child_lt children value nibble
  | _ => cases member

theorem Canonical.of_kid (canonical : tree.Canonical) (member : kid ∈ tree.kids) : kid.Canonical := by
  cases tree with
  | extension lead child =>
    obtain rfl := List.mem_singleton.mp member
    exact canonical.2.2.2
  | branch children value =>
    obtain ⟨nibble, _, rfl⟩ := List.mem_map.mp member
    exact canonical.1 nibble
  | _ => cases member

theorem Canonical.rooted_iff (canonical : tree.Canonical) :
    tree.Rooted records ↔ ∀ kid ∈ tree.kids, kid.Stored records := by
  cases tree with
  | extension lead child =>
    rw [rooted_extension]
    simp [kids]
  | branch children value =>
    rw [rooted_branch, kids, List.forall_mem_map]
    refine ⟨fun stored nibble _ => stored nibble, fun stored nibble => ?_⟩
    by_cases none : children nibble = empty
    · rw [none]
      exact stored_empty
    · exact stored nibble ((mem_present canonical.2.1 nibble).mpr none)
  | empty => exact ⟨fun _ _ => nofun, fun _ => trivial⟩
  | leaf path value => exact ⟨fun _ _ => nofun, fun _ => trivial⟩

end Tree

namespace Trie

theorem mapM_ok {α β γ δ ε : Type} {items : List α} (name : α → β) (step : β → Except ε γ)
    (view : δ → γ) (holds : α → δ → Prop)
    (each : ∀ item ∈ items, ∃ value, step (name item) = .ok (view value) ∧ holds item value) :
    ∃ values : List δ, (items.map name).mapM step = .ok (values.map view) ∧
      (∀ item ∈ items, ∃ value ∈ values, holds item value) ∧
      ∀ value ∈ values, ∃ item ∈ items, holds item value := by
  induction items with
  | nil => exact ⟨[], rfl, nofun, nofun⟩
  | cons item items ih =>
    obtain ⟨value, first, here⟩ := each item List.mem_cons_self
    obtain ⟨values, rest, covers, covered⟩ := ih fun other member =>
      each other (List.mem_cons_of_mem _ member)
    refine ⟨value :: values, ?_, ?_, ?_⟩
    · rw [List.map_cons, List.mapM_cons, first]
      simp [rest, bind, Except.bind, pure, Except.pure]
    · rintro other (_ | ⟨_, member⟩)
      · exact ⟨value, List.mem_cons_self, here⟩
      · obtain ⟨found, inside, holdsOther⟩ := covers other member
        exact ⟨found, List.mem_cons_of_mem _ inside, holdsOther⟩
    · rintro found (_ | ⟨_, member⟩)
      · exact ⟨item, List.mem_cons_self, here⟩
      · obtain ⟨other, inside, holdsOther⟩ := covered found member
        exact ⟨other, List.mem_cons_of_mem _ inside, holdsOther⟩

/-- Records that complete a store: each belongs to a canonical trie, and with the store they hold
the whole of it. -/
def Completes (store : Set Bytes) (written : Overlay) : Prop :=
  ∀ entry ∈ written, ∃ tree : Tree, tree.Canonical ∧ tree ≠ .empty ∧
    entry = (tree.hash, tree.record) ∧ tree.Stored (written.records ∪ store)

variable {data : Set Bytes} {content : Content} {trie : Trie} {tree : Tree} {store : Set Bytes}

/-- What the pending records below a hash are: some of the overlay, which complete the store with
the trie of the hash. -/
structure Gathers (trie : Trie) (content : Content) (tree : Tree) (found : Overlay) : Prop where
  within : ∀ entry ∈ found, entry ∈ trie.overlay
  completes : Completes (trie.keyspace.records content) found
  stored : tree.Stored (Overlay.records found ∪ trie.keyspace.records content)

private theorem stored_of_not_pending (faithful : Faithful data)
    (orderly : trie.Orderly data content) (closed : trie.keyspace.Closed content)
    (canonical : tree.Canonical) (stored : tree.Stored (trie.records content))
    (absent : trie.overlay.lookup tree.hash = none) :
    tree.Stored (trie.keyspace.records content) := by
  by_cases none : tree = .empty
  · subst tree
    exact Tree.stored_empty
  · have present := ((Tree.stored_of_ne_empty none).mp stored).1
    obtain ⟨other, canonicalOther, someOther, record, storedOther⟩ :=
      closed _ (orderly.held_of_lookup none present absent)
    have same : other = tree := by
      apply canonicalOther.eq_of_hash_eq faithful
        (storedOther.mono orderly.space.records_subset) canonical
        (stored.mono orderly.records_subset)
      rw [Tree.hash_of_ne_empty none, Tree.hash_of_ne_empty someOther, record]
    exact same ▸ storedOther

private theorem Gathers.of_kids {parts : List Overlay} (canonical : tree.Canonical)
    (some : tree ≠ .empty) (entry : (tree.hash, tree.record) ∈ trie.overlay)
    (covers : ∀ kid ∈ tree.kids, ∃ part ∈ parts, Gathers trie content kid part)
    (covered : ∀ part ∈ parts, ∃ kid, Gathers trie content kid part) :
    Gathers trie content tree ((tree.hash, tree.record) :: parts.flatten) := by
  have more {part : Overlay} (inside : part ∈ parts) : part.records ∪ trie.keyspace.records content ⊆
      Overlay.records ((tree.hash, tree.record) :: parts.flatten) ∪ trie.keyspace.records content :=
    Set.union_subset_union_left _ (Overlay.records_mono fun entry member =>
      List.mem_cons_of_mem _ (List.mem_flatten.mpr ⟨part, inside, member⟩))
  have whole : tree.Stored (Overlay.records ((tree.hash, tree.record) :: parts.flatten) ∪
      trie.keyspace.records content) := by
    refine (Tree.stored_of_ne_empty some).mpr ⟨.inl ?_, canonical.rooted_iff.mpr fun kid kidOf => ?_⟩
    · exact List.mem_map.mpr ⟨_, List.mem_cons_self, rfl⟩
    · obtain ⟨part, inside, gathers⟩ := covers kid kidOf
      exact gathers.stored.mono (more inside)
  refine ⟨?_, ?_, whole⟩
  · rintro other (_ | ⟨_, member⟩)
    · exact entry
    · obtain ⟨part, inside, present⟩ := List.mem_flatten.mp member
      obtain ⟨_, gathers⟩ := covered part inside
      exact gathers.within other present
  · rintro other (_ | ⟨_, member⟩)
    · exact ⟨tree, canonical, some, rfl, whole⟩
    · obtain ⟨part, inside, present⟩ := List.mem_flatten.mp member
      obtain ⟨_, gathers⟩ := covered part inside
      obtain ⟨inner, canonicalInner, someInner, same, stored⟩ := gathers.completes other present
      exact ⟨inner, canonicalInner, someInner, same, stored.mono (more inside)⟩

/-- The pending records below the hash of a trie are found in as many steps as it is high. -/
theorem pendingFrom_tree (faithful : Faithful data) (orderly : trie.Orderly data content)
    (closed : trie.keyspace.Closed content) {steps : Nat} (canonical : tree.Canonical)
    (stored : tree.Stored (trie.records content)) (enough : tree.height < steps) :
    ∃ found, pendingFrom trie.overlay steps tree.hash = .ok found ∧
      Gathers trie content tree found := by
  induction steps generalizing tree with
  | zero => exact absurd enough (Nat.not_lt_zero _)
  | succ steps ih =>
    rw [pendingFrom]
    cases found : trie.overlay.lookup tree.hash with
    | none =>
      refine ⟨[], rfl, nofun, nofun, ?_⟩
      rw [Overlay.records_nil, Set.empty_union]
      exact stored_of_not_pending faithful orderly closed canonical stored found
    | some record =>
      have some : tree ≠ .empty := by
        rintro rfl
        cases (orderly.lookup_emptyRoot faithful).symm.trans found
      obtain ⟨present, rooted⟩ := (Tree.stored_of_ne_empty some).mp stored
      obtain rfl := orderly.eq_of_lookup faithful some (orderly.records_subset present) found
      have decoded : Node.decode tree.record = .ok tree.node :=
        Node.decode_encode (canonical.readable (faithful.short _ (orderly.records_subset present)))
      obtain ⟨parts, gathered, covers, covered⟩ := mapM_ok Tree.hash
        (pendingFrom trie.overlay steps) id (Gathers trie content) fun kid inside => by
          have kidOf : kid ∈ tree.kids := List.mem_reverse.mp inside
          exact ih (canonical.of_kid kidOf) (canonical.rooted_iff.mp rooted kid kidOf)
            (Nat.lt_of_lt_of_le (Tree.height_kid_lt kidOf) (Nat.le_of_lt_succ enough))
      rw [List.map_reverse, ← Tree.childHashes_node, List.map_id] at gathered
      refine ⟨(tree.hash, tree.record) :: parts.flatten, ?_, ?_⟩
      · simp only [decoded, Except.mapError, bind, Except.bind, gathered, pure, Except.pure]
      · refine .of_kids canonical some (Overlay.mem_of_lookup found)
          (fun kid kidOf => covers kid (List.mem_reverse.mpr kidOf)) fun part inside => ?_
        obtain ⟨kid, _, gathers⟩ := covered part inside
        exact ⟨kid, gathers⟩

theorem pending_tree (faithful : Faithful data) (orderly : trie.Orderly data content)
    (closed : trie.keyspace.Closed content) (canonical : tree.Canonical)
    (stored : tree.Stored (trie.records content)) (root : trie.root = tree.hash) :
    ∃ found, trie.pending = .ok found ∧ Gathers trie content tree found := by
  have few := canonical.height_le_count faithful (stored.mono orderly.records_subset)
  rw [pending, root]
  exact pendingFrom_tree faithful orderly closed canonical stored (Nat.lt_succ_of_le few)

end Trie

end ContractLedger
