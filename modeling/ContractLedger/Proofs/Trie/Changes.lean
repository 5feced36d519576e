import ContractLedger.Proofs.Trie.Map
import ContractLedger.Proofs.Trie.Orderly

/-!
Updates of a trie, step by step. Each adds records of canonical tries to the overlay and touches
nothing else, until the last makes a new root; and each ends with the node of the resolved trie
that the update of the old one gives, whose records are all there.
-/

namespace ContractLedger.Trie

def Mounted.adding (mounted : Mounted Content) (fresh : Overlay) : Mounted Content :=
  { mounted with trie.overlay := fresh ++ mounted.trie.overlay }

/-- A step that succeeds and only adds records of canonical tries to the overlay. -/
def Adds {α : Type} (mounted : Mounted Content) (step : TrieM Content α)
    (ends : α → Mounted Content → Prop) : Prop :=
  ∃ value fresh, step mounted = .ok value (mounted.adding fresh) ∧ fresh.Made ∧
    ends value (mounted.adding fresh)

variable {data : Set Bytes} {mounted : Mounted Content} {tree child : Tree}
  {children : UInt8 → Tree} {slot : Option Bytes} {lead path : Path} {value : Bytes}

theorem Mounted.adding_adding (mounted : Mounted Content) (first second : Overlay) :
    (mounted.adding first).adding second = mounted.adding (second ++ first) := by
  simp [adding]

theorem Mounted.records_adding (mounted : Mounted Content) (fresh : Overlay) :
    (mounted.adding fresh).records = fresh.records ∪ mounted.records := by
  simp only [Mounted.records, Trie.records, adding, Overlay.records_append, Set.union_assoc]

theorem Mounted.records_subset_adding (mounted : Mounted Content) (fresh : Overlay) :
    mounted.records ⊆ (mounted.adding fresh).records := by
  rw [records_adding]
  exact Set.subset_union_right

namespace Adds

variable {α β : Type} {step : TrieM Content α} {ends : α → Mounted Content → Prop}

theorem of_same {value : α} (ran : step mounted = .ok value mounted) (holds : ends value mounted) :
    Adds mounted step ends :=
  ⟨value, [], ran, nofun, holds⟩

theorem bind {next : α → TrieM Content β} {endsRest : β → Mounted Content → Prop}
    (adds : Adds mounted step ends)
    (rest : ∀ value fresh, ends value (mounted.adding fresh) →
      Adds (mounted.adding fresh) (next value) endsRest) :
    Adds mounted (step >>= next) endsRest := by
  obtain ⟨value, fresh, ran, made, holds⟩ := adds
  obtain ⟨last, more, ranRest, madeRest, holdsRest⟩ := rest value fresh holds
  rw [Mounted.adding_adding] at ranRest holdsRest
  exact ⟨last, more ++ fresh, (Step.bind_ok ran next).trans ranRest, madeRest.append made,
    holdsRest⟩

theorem of_read {value : α} {next : α → TrieM Content β} {endsRest : β → Mounted Content → Prop}
    (ran : step mounted = .ok value mounted) (adds : Adds mounted (next value) endsRest) :
    Adds mounted (step >>= next) endsRest := by
  rw [Adds, Step.bind_ok ran]
  exact adds

theorem imp {weaker : α → Mounted Content → Prop} (adds : Adds mounted step ends)
    (implies : ∀ value after, ends value after → weaker value after) :
    Adds mounted step weaker := by
  obtain ⟨value, fresh, ran, made, holds⟩ := adds
  exact ⟨value, fresh, ran, made, implies _ _ holds⟩

/-- What a pure function of the value holds where the value does. -/
theorem map {change : α → β} {endsRest : β → Mounted Content → Prop}
    (adds : Adds mounted step fun value after => endsRest (change value) after) :
    Adds mounted (change <$> step) endsRest :=
  adds.bind fun _ _ holds => of_same rfl holds

end Adds

/-- Ends with the node of a trie whose records below the top are there. -/
def Yields (tree : Tree) (node : Node) (after : Mounted Content) : Prop :=
  node = tree.node ∧ tree.Rooted after.records

theorem keep_tree (tree : Tree) (canonical : tree.Canonical) (rooted : tree.Rooted mounted.records) :
    Adds mounted (keep tree.node) fun hash after =>
      hash = tree.hash ∧ tree.Stored after.records := by
  by_cases none : tree = .empty
  · subst tree
    exact .of_same rfl ⟨rfl, trivial⟩
  · have hash := Tree.hash_of_ne_empty none
    refine ⟨tree.hash, [(tree.hash, tree.record)], ?_, ?_, rfl, ?_⟩
    · rw [hash, keep, if_neg (mt Tree.node_eq_empty.mp none)]
      rfl
    · intro entry member
      exact ⟨tree, canonical, none, List.mem_singleton.mp member⟩
    · rw [Tree.stored_of_ne_empty none, Mounted.records_adding]
      refine ⟨.inl ?_, rooted.mono Set.subset_union_right⟩
      simp [Overlay.records]

private theorem put_hash (child : Tree) (some : child ≠ .empty) (nibble : UInt8) :
    (Tree.refs children).put nibble (Option.some child.hash) =
      Tree.refs (Function.update children nibble child) := by
  rw [← Tree.put_refs, Tree.ref, if_neg some]

private theorem stored_update {records : Set Bytes}
    (stored : ∀ nibble, (children nibble).Stored records) (storedChild : child.Stored records)
    (nibble other : UInt8) : (Function.update children nibble child other).Stored records := by
  by_cases same : other = nibble
  · subst other
    rwa [Function.update_self]
  · rw [Function.update_of_ne same]
    exact stored other

theorem place_tree (entries : (UInt8 → Tree) × Option Bytes) (nibbles : path.Nibbles)
    (notEmpty : value ≠ []) (stored : ∀ nibble, (entries.1 nibble).Stored mounted.records) :
    Adds mounted (place (Tree.refs entries.1, entries.2) path value) fun branch after =>
      branch = (Tree.refs (Tree.placed entries path value).1, (Tree.placed entries path value).2) ∧
        ∀ nibble, ((Tree.placed entries path value).1 nibble).Stored after.records := by
  cases path with
  | nil => exact .of_same rfl ⟨rfl, stored⟩
  | cons nibble rest =>
    have canonical : (Tree.leaf rest value).Canonical :=
      ⟨(Path.nibbles_cons.mp nibbles).2, notEmpty⟩
    rw [place]
    refine (keep_tree (.leaf rest value) canonical trivial).bind ?_
    rintro hash fresh ⟨same, storedLeaf⟩
    subst same
    refine .of_same rfl ⟨?_, ?_⟩
    · rw [put_hash (Tree.leaf rest value) nofun]
      rfl
    · exact stored_update (fun other => (stored other).mono (mounted.records_subset_adding fresh))
        storedLeaf nibble

theorem extend_tree (canonical : (Tree.extended lead tree).Canonical)
    (rooted : tree.Rooted mounted.records) :
    Adds mounted (extend lead tree.node) (Yields (Tree.extended lead tree)) := by
  by_cases none : lead = []
  · subst lead
    exact .of_same rfl ⟨rfl, rooted⟩
  · have below : Tree.extended lead tree = .extension lead tree := if_neg none
    rw [below] at canonical ⊢
    rw [extend, if_neg (mt List.isEmpty_iff.mp none)]
    refine (keep_tree tree canonical.2.2.2 rooted).bind ?_
    rintro _ fresh ⟨rfl, stored⟩
    exact .of_same rfl ⟨rfl, stored⟩

theorem prepend_tree (nibbles : lead.Nibbles) (canonical : tree.Canonical)
    (rooted : tree.Rooted mounted.records) :
    Adds mounted (prepend lead tree.node) (Yields (tree.joined lead)) := by
  cases tree with
  | branch children value =>
    have extended : (Tree.extended lead (.branch children value)).Canonical :=
      Tree.canonical_extended nibbles trivial canonical
    exact extend_tree extended rooted
  | empty => exact .of_same rfl ⟨rfl, trivial⟩
  | leaf rest value => exact .of_same rfl ⟨rfl, trivial⟩
  | extension rest child => exact .of_same rfl ⟨rfl, rooted⟩

private theorem fork_tree (entries : (UInt8 → Tree) × Option Bytes) (nibbles : path.Nibbles)
    (notEmpty : value ≠ []) (stored : ∀ nibble, (entries.1 nibble).Stored mounted.records)
    (canonical : (Tree.fork lead (Tree.placed entries path value)).Canonical) :
    Adds mounted
      (do
        let branch ← place (Tree.refs entries.1, entries.2) path value
        extend lead (.branch branch.1 branch.2))
      (Yields (Tree.fork lead (Tree.placed entries path value))) := by
  refine (place_tree entries nibbles notEmpty stored).bind ?_
  rintro _ fresh ⟨rfl, storedAfter⟩
  exact extend_tree canonical storedAfter

private theorem split_tree {nibble : UInt8} {rest second : Path} (restNibbles : rest.Nibbles)
    (isBranch : child.IsBranch) (canonicalChild : child.Canonical) (nibbles : second.Nibbles)
    (notEmpty : value ≠ []) (storedChild : child.Stored mounted.records)
    (canonical : (Tree.fork lead (Tree.placed (Function.update Tree.noEntries.1 nibble
      (Tree.extended rest child), none) second value)).Canonical) :
    Adds mounted
      (do
        let below ← if rest.isEmpty then pure child.hash else keep (.extension rest child.hash)
        let branch ← place (Children.none.put nibble (some below), none) second value
        extend lead (.branch branch.1 branch.2))
      (Yields (Tree.fork lead (Tree.placed (Function.update Tree.noEntries.1 nibble
        (Tree.extended rest child), none) second value))) := by
  have fork {state : Mounted Content} {below : Tree} (some : below ≠ .empty)
      (stored : below.Stored state.records)
      (canonical : (Tree.fork lead (Tree.placed (Function.update Tree.noEntries.1 nibble below,
        none) second value)).Canonical) :
      Adds state
        (do
          let branch ← place (Children.none.put nibble (Option.some below.hash), none) second value
          extend lead (.branch branch.1 branch.2))
        (Yields (Tree.fork lead (Tree.placed (Function.update Tree.noEntries.1 nibble below,
          none) second value))) := by
    rw [← Tree.refs_noEntries, put_hash _ some]
    exact fork_tree (_, none) nibbles notEmpty
      (stored_update (fun _ => Tree.stored_empty) stored nibble) canonical
  by_cases none : rest = []
  · subst rest
    exact .of_read rfl (fork isBranch.ne_empty storedChild canonical)
  · have extended : Tree.extended rest child = .extension rest child := if_neg none
    rw [extended] at canonical ⊢
    rw [if_neg (mt List.isEmpty_iff.mp none)]
    refine (keep_tree (.extension rest child) ⟨restNibbles, none, isBranch, canonicalChild⟩
      storedChild).bind ?_
    rintro _ fresh ⟨rfl, stored⟩
    exact fork nofun stored canonical

private theorem splitLeaf_tree {rest : Path} {old : Bytes} (count : Nat)
    (canonicalLeaf : (Tree.leaf rest old).Canonical) (nibbles : path.Nibbles) (notEmpty : value ≠ [])
    (canonical : (Tree.fork lead (Tree.placed (Tree.placed Tree.noEntries (rest.drop count) old)
      (path.drop count) value)).Canonical) :
    Adds mounted
      (do
        let branch ← place (.none, none) (rest.drop count) old
        let branch ← place branch (path.drop count) value
        extend lead (.branch branch.1 branch.2))
      (Yields (Tree.fork lead (Tree.placed (Tree.placed Tree.noEntries (rest.drop count) old)
        (path.drop count) value))) := by
  have left {long : Path} (whole : long.Nibbles) : Path.Nibbles (long.drop count) :=
    fun nibble member => whole nibble (List.mem_of_mem_drop member)
  rw [← Tree.refs_noEntries]
  refine (place_tree Tree.noEntries (left canonicalLeaf.1) canonicalLeaf.2 fun _ => trivial).bind ?_
  rintro _ fresh ⟨rfl, stored⟩
  exact fork_tree _ (left nibbles) notEmpty stored canonical

private theorem loadChild_tree (faithful : Faithful data)
    (orderly : mounted.trie.Orderly data mounted.store)
    (canonical : (Tree.branch children slot).Canonical)
    (stored : ∀ nibble, (children nibble).Stored mounted.records) (nibble : UInt8) :
    loadChild (Tree.refs children) nibble mounted = .ok (children nibble).node mounted := by
  rw [loadChild, child?_branch canonical, Tree.ref]
  by_cases none : children nibble = .empty
  · rw [if_pos none, none]
    rfl
  · rw [if_neg none]
    exact load_tree faithful orderly (canonical.1 nibble) (stored nibble)

/-- Inserting from the top of a stored trie yields the trie with the value inserted. -/
theorem insertAt_tree (faithful : Faithful data) (orderly : mounted.trie.Orderly data mounted.store)
    (canonical : tree.Canonical) (rooted : tree.Rooted mounted.records) (nibbles : path.Nibbles)
    (notEmpty : value ≠ []) {steps : Nat} (enough : path.length < steps) :
    Adds mounted (insertAt steps tree.node path value) (Yields (tree.insert path value)) := by
  have inserted := Tree.canonical_insert canonical nibbles notEmpty
  induction tree generalizing path steps with
  | empty =>
    obtain ⟨steps, rfl⟩ : ∃ fewer, steps = fewer + 1 := Nat.exists_eq_add_one.mpr (by omega)
    exact .of_same rfl ⟨rfl, trivial⟩
  | leaf rest old =>
    obtain ⟨steps, rfl⟩ : ∃ fewer, steps = fewer + 1 := Nat.exists_eq_add_one.mpr (by omega)
    rw [Tree.insert] at inserted ⊢
    rw [Tree.node, insertAt]
    by_cases same : rest = path
    · rw [if_pos same, if_pos same]
      exact .of_same rfl ⟨rfl, trivial⟩
    · rw [if_neg same] at inserted ⊢
      rw [if_neg same]
      exact splitLeaf_tree _ canonical nibbles notEmpty inserted
  | extension lead child ih =>
    obtain ⟨steps, rfl⟩ : ∃ fewer, steps = fewer + 1 := Nat.exists_eq_add_one.mpr (by omega)
    obtain ⟨leadNibbles, leadSome, isBranch, canonicalChild⟩ := canonical
    obtain ⟨common, first, second, length, leadIs, pathIs, apart⟩ := lead.shared_split path
    subst leadIs pathIs
    obtain ⟨commonNibbles, firstNibbles⟩ := Path.nibbles_append.mp leadNibbles
    obtain ⟨_, secondNibbles⟩ := Path.nibbles_append.mp nibbles
    have storedChild := Tree.rooted_extension.mp rooted
    rw [Tree.node_extension, insertAt]
    simp only [Tree.insert, length, List.take_left, List.drop_left] at inserted ⊢
    cases first with
    | nil =>
      simp only [List.append_nil] at inserted leadSome ⊢
      have shorter : second.length < steps := by
        have some := List.length_pos_iff.mpr leadSome
        rw [List.length_append] at enough
        omega
      refine .of_read (load_tree faithful orderly canonicalChild storedChild) ?_
      refine (ih canonicalChild storedChild.rooted secondNibbles shorter inserted.2.2.2).bind ?_
      rintro _ fresh ⟨rfl, rootedAfter⟩
      refine (keep_tree _ inserted.2.2.2 rootedAfter).bind ?_
      rintro _ more ⟨rfl, stored⟩
      exact .of_same rfl ⟨rfl, stored⟩
    | cons nibble rest =>
      obtain ⟨_, restNibbles⟩ := Path.nibbles_cons.mp firstNibbles
      exact split_tree restNibbles isBranch canonicalChild secondNibbles notEmpty storedChild inserted
  | branch children slot ih =>
    obtain ⟨steps, rfl⟩ : ∃ fewer, steps = fewer + 1 := Nat.exists_eq_add_one.mpr (by omega)
    have storedChildren := Tree.rooted_branch.mp rooted
    cases path with
    | nil => exact .of_same rfl ⟨rfl, rooted⟩
    | cons nibble rest =>
      have shorter : rest.length < steps := by
        rw [List.length_cons] at enough
        omega
      have restNibbles := (Path.nibbles_cons.mp nibbles).2
      have insertedChild := Tree.canonical_insert (canonical.1 nibble) restNibbles notEmpty
      rw [Tree.node_branch, insertAt]
      refine .of_read (loadChild_tree faithful orderly canonical storedChildren nibble) ?_
      refine (ih nibble (canonical.1 nibble) (storedChildren nibble).rooted restNibbles shorter
        insertedChild).bind ?_
      rintro _ fresh ⟨rfl, rootedAfter⟩
      refine (keep_tree _ insertedChild rootedAfter).bind ?_
      rintro _ more ⟨rfl, stored⟩
      rw [put_hash _ (Tree.insert_ne_empty _ _ _)]
      refine .of_same rfl ⟨rfl, Tree.rooted_branch.mpr (stored_update (fun other => ?_) stored nibble)⟩
      rw [Mounted.adding_adding]
      exact (storedChildren other).mono (mounted.records_subset_adding _)

theorem collapse_tree (faithful : Faithful data)
    (orderly : mounted.trie.Orderly data mounted.store) (closed : Tree.Closed children)
    (stored : ∀ nibble, (children nibble).Stored mounted.records) :
    Adds mounted (collapse (Tree.refs children) slot) (Yields (Tree.merged children slot)) := by
  have present := Tree.present_refs children
  have member := Tree.mem_present closed.2
  unfold collapse Tree.merged
  cases list : Tree.present children with
  | nil =>
    rw [list] at present
    simp only [present, List.map_nil]
    cases slot with
    | none => exact .of_same rfl ⟨rfl, trivial⟩
    | some value => exact .of_same rfl ⟨rfl, trivial⟩
  | cons nibble others =>
    rw [list] at present
    simp only [present, List.map_cons]
    have bound : nibble.toNat < 16 := by
      apply Classical.byContradiction
      intro large
      exact (member nibble).mp (by simp [list]) (closed.2 nibble (Nat.le_of_not_lt large))
    cases others with
    | cons second others => exact .of_same rfl ⟨rfl, Tree.rooted_branch.mpr stored⟩
    | nil =>
      cases slot with
      | some value => exact .of_same rfl ⟨rfl, Tree.rooted_branch.mpr stored⟩
      | none =>
        refine .of_read (load_tree faithful orderly (closed.1 nibble) (stored nibble)) ?_
        exact prepend_tree (Path.nibbles_cons.mpr ⟨bound, Path.Nibbles.nil⟩) (closed.1 nibble)
          (stored nibble).rooted

private theorem present_of_crowded (closed : Tree.Closed children)
    (crowded : Tree.Crowded children slot) :
    (∃ first second rest, Tree.present children = first :: second :: rest) ∨
      (slot.isSome = true ∧ ∃ first rest, Tree.present children = first :: rest) := by
  have member := Tree.mem_present closed.2
  rcases crowded with ⟨first, second, apart, presentFirst, presentSecond⟩ | ⟨some, nibble, present⟩
  · have one := (member first).mpr presentFirst
    have two := (member second).mpr presentSecond
    cases list : Tree.present children with
    | nil => simp [list] at one
    | cons head tail =>
      cases tail with
      | nil =>
        simp only [list, List.mem_singleton] at one two
        exact absurd (one.trans two.symm) apart
      | cons next rest => exact .inl ⟨head, next, rest, rfl⟩
  · have one := (member nibble).mpr present
    cases list : Tree.present children with
    | nil => simp [list] at one
    | cons head tail => exact .inr ⟨some, head, tail, rfl⟩

private theorem collapse_crowded (closed : Tree.Closed children)
    (crowded : Tree.Crowded children slot) (state : Mounted Content) :
    Tree.merged children slot = .branch children slot ∧
      collapse (Tree.refs children) slot state = .ok (Tree.branch children slot).node state := by
  have present := Tree.present_refs children
  unfold collapse Tree.merged
  rcases present_of_crowded closed crowded with ⟨first, second, rest, list⟩ | ⟨some, first, rest, list⟩
  · rw [list] at present
    simp only [list, present, List.map_cons]
    exact ⟨trivial, rfl⟩
  · obtain ⟨value, rfl⟩ := Option.isSome_iff_exists.mp some
    rw [list] at present
    simp only [list, present, List.map_cons]
    cases rest <;> exact ⟨trivial, rfl⟩

private theorem remove_branch_ne_empty (canonical : (Tree.branch children slot).Canonical)
    (nibbles : path.Nibbles) {after : Tree}
    (removed : (Tree.branch children slot).remove path = some after) : after ≠ .empty := by
  rintro rfl
  obtain ⟨one, other, found, another, apart, entry, otherEntry⟩ := canonical.two_entries
  have left := Tree.get_remove canonical nibbles removed
  have firstGone := left one
  have secondGone := left other
  rw [entry, Tree.get] at firstGone
  rw [otherEntry, Tree.get] at secondGone
  split at firstGone
  · next here =>
    split at secondGone
    · next there => exact apart (here.trans there.symm)
    · cases secondGone
  · cases firstGone

private theorem collapse_replaced {nibble : UInt8} {below : Tree}
    (canonical : (Tree.branch children slot).Canonical) (bound : nibble.toNat < 16)
    (canonicalBelow : below.Canonical) (some : below ≠ .empty)
    (stored : ∀ nibble, (children nibble).Stored mounted.records)
    (rooted : below.Rooted mounted.records) :
    Adds mounted
      (do
        let hash ← keep below.node
        Option.some <$> collapse ((Tree.refs children).put nibble (Option.some hash)) slot)
      (fun result after => ∃ node, result = Option.some node ∧
        Yields (Tree.merged (Function.update children nibble below) slot) node after) := by
  have closed : Tree.Closed (Function.update children nibble below) :=
    Tree.Closed.update ⟨canonical.1, canonical.2.1⟩ bound canonicalBelow
  have crowded : Tree.Crowded (Function.update children nibble below) slot :=
    canonical.2.2.2.update some
  refine (keep_tree below canonicalBelow rooted).bind ?_
  rintro _ fresh ⟨rfl, storedBelow⟩
  obtain ⟨merged, ran⟩ := collapse_crowded closed crowded (mounted.adding fresh)
  rw [put_hash _ some, merged]
  refine .map (.of_same ran ⟨_, rfl, rfl, Tree.rooted_branch.mpr
    (stored_update (fun other => ?_) storedBelow nibble)⟩)
  exact (stored other).mono (mounted.records_subset_adding fresh)

/-- What removing ends with: nothing where the path is absent, else the node of what is left. -/
inductive Leaves (before : Mounted Content) :
    Option Tree → Option Node → Mounted Content → Prop
  | absent : Leaves before none none before
  | left {tree : Tree} {node : Node} {after : Mounted Content} (yields : Yields tree node after)
      (unchanged : tree = .empty → after = before) : Leaves before (some tree) (some node) after

private theorem rejoin_tree {rest : Path} {result : Option Node} {state : Mounted Content}
    (leadNibbles : lead.Nibbles) (isBranch : child.IsBranch) (canonical : child.Canonical)
    (nibbles : rest.Nibbles) (leaves : Leaves mounted (child.remove rest) result state) :
    Adds state
      (do
        match result with
        | none => return none
        | some node => return some (← prepend lead node))
      (Leaves mounted ((child.remove rest).map (Tree.joined lead))) := by
  cases removed : child.remove rest with
  | none =>
    rw [removed] at leaves
    cases leaves
    exact .of_same rfl .absent
  | some below =>
    rw [removed] at leaves
    have canonicalBelow := Tree.canonical_remove canonical nibbles removed
    obtain ⟨children, slot, rfl⟩ := Tree.exists_branch_of_isBranch isBranch
    have some := remove_branch_ne_empty canonical nibbles removed
    cases leaves with
    | left yields _ =>
      obtain ⟨rfl, rooted⟩ := yields
      refine (prepend_tree leadNibbles canonicalBelow rooted).bind ?_
      intro node more yields
      exact .of_same rfl (.left yields fun none => absurd none (Tree.joined_ne_empty some))

private theorem recollapse_tree {nibble : UInt8} {rest : Path} {result : Option Node}
    {state : Mounted Content} (faithful : Faithful data)
    (orderly : mounted.trie.Orderly data mounted.store)
    (canonical : (Tree.branch children slot).Canonical) (nibbles : Path.Nibbles (nibble :: rest))
    (stored : ∀ nibble, (children nibble).Stored state.records)
    (leaves : Leaves mounted ((children nibble).remove rest) result state) :
    Adds state
      (do
        match result with
        | none => return none
        | some .empty => some <$> collapse ((Tree.refs children).put nibble none) slot
        | some node => some <$> collapse ((Tree.refs children).put nibble (some (← keep node))) slot)
      (Leaves mounted (((children nibble).remove rest).map fun below =>
        Tree.merged (Function.update children nibble below) slot)) := by
  have some {after : Tree} := @remove_branch_ne_empty children slot _ canonical nibbles after
  obtain ⟨bound, restNibbles⟩ := Path.nibbles_cons.mp nibbles
  rw [Tree.remove] at some
  cases removed : (children nibble).remove rest with
  | none =>
    rw [removed] at leaves
    cases leaves
    exact .of_same rfl .absent
  | some below =>
    rw [removed] at leaves some
    have canonicalBelow := Tree.canonical_remove (canonical.1 nibble) restNibbles removed
    cases leaves with
    | left yields unchanged =>
      obtain ⟨rfl, rootedBelow⟩ := yields
      by_cases gone : below = .empty
      · obtain rfl := unchanged gone
        subst gone
        have closed : Tree.Closed (Function.update children nibble .empty) :=
          Tree.Closed.update ⟨canonical.1, canonical.2.1⟩ bound canonicalBelow
        have reference : (Tree.refs children).put nibble Option.none =
            Tree.refs (Function.update children nibble .empty) := Tree.put_refs _ _ .empty
        simp only [Tree.node, reference]
        refine .map ((collapse_tree faithful orderly closed
          (stored_update stored Tree.stored_empty nibble)).imp ?_)
        intro node after yields
        exact .left yields fun none => absurd none (some rfl)
      · have collapsed := collapse_replaced canonical bound canonicalBelow gone stored rootedBelow
        cases below with
        | empty => exact absurd rfl gone
        | _ =>
          refine collapsed.imp ?_
          intro result after replaced
          obtain ⟨_, rfl, yields⟩ := replaced
          exact .left yields fun none => absurd none (some rfl)

/-- Removing from the top of a stored trie yields the trie without the path. -/
theorem removeAt_tree (faithful : Faithful data) (orderly : mounted.trie.Orderly data mounted.store)
    (canonical : tree.Canonical) (rooted : tree.Rooted mounted.records) (nibbles : path.Nibbles)
    {steps : Nat} (enough : path.length < steps) :
    Adds mounted (removeAt steps tree.node path) (Leaves mounted (tree.remove path)) := by
  induction tree generalizing path steps with
  | empty =>
    obtain ⟨steps, rfl⟩ : ∃ fewer, steps = fewer + 1 := Nat.exists_eq_add_one.mpr (by omega)
    exact .of_same rfl .absent
  | leaf rest value =>
    obtain ⟨steps, rfl⟩ : ∃ fewer, steps = fewer + 1 := Nat.exists_eq_add_one.mpr (by omega)
    rw [Tree.node, removeAt, Tree.remove]
    by_cases same : rest = path
    · rw [if_pos same, if_pos same]
      exact .of_same rfl (.left ⟨rfl, trivial⟩ fun _ => rfl)
    · rw [if_neg same, if_neg same]
      exact .of_same rfl .absent
  | extension lead child ih =>
    obtain ⟨steps, rfl⟩ : ∃ fewer, steps = fewer + 1 := Nat.exists_eq_add_one.mpr (by omega)
    obtain ⟨leadNibbles, leadSome, isBranch, canonicalChild⟩ := canonical
    have stored := Tree.rooted_extension.mp rooted
    rw [Tree.node_extension, removeAt, Tree.remove]
    cases starts : lead.after? path with
    | none => exact .of_same rfl .absent
    | some rest =>
      obtain rfl := Path.after?_eq_some.mp starts
      obtain ⟨_, restNibbles⟩ := Path.nibbles_append.mp nibbles
      have shorter : rest.length < steps := by
        have some := List.length_pos_iff.mpr leadSome
        rw [List.length_append] at enough
        omega
      refine .of_read (load_tree faithful orderly canonicalChild stored) ?_
      refine (ih canonicalChild stored.rooted restNibbles shorter).bind ?_
      intro result fresh leaves
      exact rejoin_tree leadNibbles isBranch canonicalChild restNibbles leaves
  | branch children slot ih =>
    obtain ⟨steps, rfl⟩ : ∃ fewer, steps = fewer + 1 := Nat.exists_eq_add_one.mpr (by omega)
    have stored := Tree.rooted_branch.mp rooted
    rw [Tree.node_branch]
    cases path with
    | nil =>
      cases slot with
      | none => exact .of_same rfl .absent
      | some value =>
        have closed : Tree.Closed children := ⟨canonical.1, canonical.2.1⟩
        rw [removeAt, Tree.remove]
        refine .map ((collapse_tree faithful orderly closed stored).imp ?_)
        intro node after yields
        exact .left yields fun none => absurd none (remove_branch_ne_empty canonical nibbles rfl)
    | cons nibble rest =>
      have shorter : rest.length < steps := by
        rw [List.length_cons] at enough
        omega
      have restNibbles := (Path.nibbles_cons.mp nibbles).2
      rw [Tree.remove, removeAt, child?_branch canonical, Tree.ref]
      by_cases none : children nibble = .empty
      · rw [if_pos none, none]
        exact .of_same rfl .absent
      · rw [if_neg none]
        refine .of_read (load_tree faithful orderly (canonical.1 nibble) (stored nibble)) ?_
        refine (ih nibble (canonical.1 nibble) (stored nibble).rooted restNibbles shorter).bind ?_
        intro result fresh leaves
        refine recollapse_tree faithful orderly canonical nibbles (fun other => ?_) leaves
        exact (stored other).mono (mounted.records_subset_adding fresh)

/-- The trie at another root, with more records pending. -/
def Mounted.moved (mounted : Mounted Content) (fresh : Overlay) (root : Hash) : Mounted Content :=
  { mounted with
    trie := { mounted.trie with overlay := fresh ++ mounted.trie.overlay, root } }

/-- A step that succeeds and makes a trie the root, only adding records to the overlay. -/
def Roots {α : Type} (mounted : Mounted Content) (step : TrieM Content α) (value : α)
    (tree : Tree) : Prop :=
  ∃ fresh, step mounted = .ok value (mounted.moved fresh tree.hash) ∧ fresh.Made ∧
    tree.Stored (mounted.moved fresh tree.hash).records

private theorem setRootNode_tree (canonical : tree.Canonical)
    (rooted : tree.Rooted mounted.records) :
    Roots mounted (setRootNode tree.node) () tree := by
  obtain ⟨_, fresh, ran, made, rfl, stored⟩ := keep_tree tree canonical rooted
  exact ⟨fresh, Step.bind_ok ran _, made, stored⟩

private theorem Roots.after {α β : Type} {step : TrieM Content α} {next : α → TrieM Content β}
    {middle : α} {fresh : Overlay} {last : β} (ran : step mounted = .ok middle (mounted.adding fresh))
    (made : fresh.Made) (roots : Roots (mounted.adding fresh) (next middle) last tree) :
    Roots mounted (step >>= next) last tree := by
  obtain ⟨more, ranRest, madeRest, stored⟩ := roots
  have same : (mounted.adding fresh).moved more tree.hash =
      mounted.moved (more ++ fresh) tree.hash := by
    simp [Mounted.moved, Mounted.adding]
  rw [same] at ranRest stored
  exact ⟨more ++ fresh, (Step.bind_ok ran next).trans ranRest, madeRest.append made, stored⟩

private theorem Roots.of_read {α β : Type} {step : TrieM Content α} {next : α → TrieM Content β}
    {middle : α} {last : β} (ran : step mounted = .ok middle mounted)
    (roots : Roots mounted (next middle) last tree) : Roots mounted (step >>= next) last tree := by
  rw [Roots, Step.bind_ok ran]
  exact roots

private theorem Roots.of_same {α : Type} {step : TrieM Content α} {value : α}
    (root : mounted.trie.root = tree.hash) (ran : step mounted = .ok value mounted)
    (stored : tree.Stored mounted.records) : Roots mounted step value tree := by
  have same : mounted.moved [] tree.hash = mounted := by
    rw [← root]
    rfl
  exact ⟨[], by rwa [same], nofun, by rwa [same]⟩

/-- Removing a key leaves the trie without it, and tells whether it was there. -/
theorem remove_tree (faithful : Faithful data) (orderly : mounted.trie.Orderly data mounted.store)
    (canonical : tree.Canonical) (stored : tree.Stored mounted.records)
    (root : mounted.trie.root = tree.hash) (key : Bytes) :
    Roots mounted (remove key) (tree.get (Path.ofBytes key)).isSome
      ((tree.remove (Path.ofBytes key)).getD tree) := by
  have nibbles := Path.ofBytes_nibbles key
  have loaded := load_tree faithful orderly canonical stored
  obtain ⟨result, fresh, ran, made, leaves⟩ := removeAt_tree faithful orderly canonical
    stored.rooted nibbles (length_lt_walkLimit (Path.ofBytes key))
  have absent := Tree.remove_eq_none_iff tree (Path.ofBytes key)
  rw [← root] at loaded
  unfold remove
  refine .of_read (Step.getThe_apply mounted) (.of_read loaded (.after ran made ?_))
  generalize after : mounted.adding fresh = state at leaves ⊢
  cases removed : tree.remove (Path.ofBytes key) with
  | none =>
    rw [removed] at leaves
    cases leaves
    rw [absent.mp removed]
    exact .of_same root rfl stored
  | some left =>
    rw [removed] at leaves
    have present : (tree.get (Path.ofBytes key)).isSome = true := by
      rw [Option.isSome_iff_ne_none]
      intro none
      rw [absent.mpr none] at removed
      cases removed
    cases leaves with
    | left yields _ =>
      obtain ⟨rfl, rooted⟩ := yields
      obtain ⟨more, ranRest, madeRest, storedRest⟩ :=
        setRootNode_tree (Tree.canonical_remove canonical nibbles removed) rooted
      rw [present]
      exact ⟨more, Step.bind_ok ranRest _, madeRest, storedRest⟩

/-- Storing a value under a key leaves the trie with it there. -/
theorem insert_tree (faithful : Faithful data) (orderly : mounted.trie.Orderly data mounted.store)
    (canonical : tree.Canonical) (stored : tree.Stored mounted.records)
    (root : mounted.trie.root = tree.hash) (key value : Bytes) :
    Roots mounted (insert key value) () (tree.put (Path.ofBytes key) value) := by
  have nibbles := Path.ofBytes_nibbles key
  unfold insert Tree.put
  by_cases none : value = []
  · obtain ⟨fresh, ran, made, storedAfter⟩ :=
      remove_tree faithful orderly canonical stored root key
    rw [if_pos (List.isEmpty_iff.mpr none), if_pos none]
    exact ⟨fresh, Step.bind_ok ran _, made, storedAfter⟩
  · have loaded := load_tree faithful orderly canonical stored
    obtain ⟨_, fresh, ran, made, rfl, rooted⟩ := insertAt_tree faithful orderly canonical
      stored.rooted nibbles none (length_lt_walkLimit (Path.ofBytes key))
    rw [← root] at loaded
    rw [if_neg (mt List.isEmpty_iff.mp none), if_neg none]
    exact .of_read (Step.getThe_apply mounted) (.of_read loaded (.after ran made
      (setRootNode_tree (Tree.canonical_insert canonical nibbles none) rooted)))

end ContractLedger.Trie
