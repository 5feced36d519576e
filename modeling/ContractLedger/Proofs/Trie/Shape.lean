import ContractLedger.Proofs.Trie.Descent
import ContractLedger.Proofs.Trie.History
import ContractLedger.Proofs.Trie.View
import Mathlib.Algebra.Group.Even

/-!
The shape of a trie, node by node, as its records have it: what each node is like that can be loaded on
the way down from another. A finite part of a trie in which all nodes are as they should be is a
resolved trie in canonical shape, so that an update of any such part leaves one.
-/

namespace ContractLedger

namespace Tree

variable {children : UInt8 → Tree} {value : Option Bytes}

/-- A branch is crowded just if it has two entries among its children and its value. -/
theorem crowded_iff (closed : ∀ nibble, 16 ≤ nibble.toNat → children nibble = empty) :
    Crowded children value ↔ 2 ≤ (refs children).present.length + value.toList.length := by
  have member := mem_present closed
  rw [present_refs, List.length_map]
  constructor
  · rintro (⟨first, second, apart, presentFirst, presentSecond⟩ | ⟨valued, nibble, present⟩)
    · have both : [first, second].Subperm (present children) := by
        refine List.subperm_of_subset (by simp [apart]) fun nibble inside => ?_
        rcases List.mem_pair.mp inside with rfl | rfl
        · exact (member nibble).mpr presentFirst
        · exact (member nibble).mpr presentSecond
      have long := both.length_le
      simp only [List.length_cons, List.length_nil] at long
      omega
    · obtain ⟨found, rfl⟩ := Option.isSome_iff_exists.mp valued
      have some := List.length_pos_of_mem ((member nibble).mpr present)
      simp only [Option.toList_some, List.length_cons, List.length_nil]
      omega
  · intro many
    have distinct := nodup_present children
    match list : present children with
    | [] =>
      rw [list] at many
      cases value <;> simp at many
    | [nibble] =>
      rw [list] at many
      refine .inr ⟨?_, nibble, (member nibble).mp (by simp [list])⟩
      cases value with
      | none => simp at many
      | some found => rfl
    | first :: second :: rest =>
      rw [list] at distinct
      refine .inl ⟨first, second, ?_, (member first).mp (by simp [list]),
        (member second).mp (by simp [list])⟩
      rintro rfl
      simp at distinct

/-- Tries that are referred to just as the children of a branch are, are those children. -/
theorem refs_of_child? {trees : UInt8 → Tree} {children : Children}
    (same : ∀ nibble, (trees nibble).ref = children.child? nibble) :
    refs trees = children ∧ ∀ nibble, 16 ≤ nibble.toNat → trees nibble = empty := by
  constructor
  · apply Vector.ext
    intro index bound
    have within : (UInt8.ofNat index).toNat = index :=
      UInt8.toNat_ofNat_of_lt' (Nat.lt_trans bound (by decide))
    simp only [refs, Vector.getElem_ofFn, same, Children.child?, within]
    rw [Vector.getElem?_eq_getElem bound, Option.join_some]
  · intro nibble large
    have absent := same nibble
    rw [Children.child?, Vector.getElem?_eq_none large, Option.join_none, ref] at absent
    split at absent
    · next none => exact none
    · cases absent

end Tree

/-- Whatever can be read of the stored records is written as it is read. -/
def Keyspace.Encoded (space : Keyspace) (content : Content) : Prop :=
  ∀ record ∈ space.records content, ∀ node, Node.decode record = .ok node → node.encode = record

namespace Trie

/-! The nodes below a node. -/

/-- A child of a node that can be loaded, with the nibbles that lead to it. -/
inductive Child (loads : Hash → Except TrieError Node) : Node → Path → Node → Prop
  | along {lead : Path} {hash : Hash} {child : Node} (loaded : loads hash = .ok child) :
      Child loads (.extension lead hash) lead child
  | under {children : Children} {value : Option Bytes} {nibble : UInt8} {hash : Hash} {child : Node}
      (present : children.child? nibble = some hash) (loaded : loads hash = .ok child) :
      Child loads (.branch children value) [nibble] child

/-- A node that is found on the way down from another, with the nibbles that lead there. -/
inductive Descends (loads : Hash → Except TrieError Node) : Node → Path → Node → Prop
  | here {node : Node} : Descends loads node [] node
  | further {node child last : Node} {lead rest : Path} (below : Child loads node lead child)
      (descends : Descends loads child rest last) : Descends loads node (lead ++ rest) last

/-- A value that is found on the way down from a node, with its path. -/
inductive Holds (loads : Hash → Except TrieError Node) : Node → Path → Bytes → Prop
  | leaf {path : Path} {value : Bytes} : Holds loads (.leaf path value) path value
  | branch {children : Children} {value : Bytes} : Holds loads (.branch children (some value)) [] value
  | further {node child : Node} {lead rest : Path} {value : Bytes} (below : Child loads node lead child)
      (holds : Holds loads child rest value) : Holds loads node (lead ++ rest) value

/-- What a node at some depth is to be like, its children being told from the hashes that it has. -/
def Shaped (loads : Hash → Except TrieError Node) (depth : Nat) : Node → Prop
  | .empty => False
  | .leaf path value => path.Nibbles ∧ value ≠ [] ∧ Even (depth + path.length)
  | .extension lead hash =>
    lead.Nibbles ∧ lead ≠ [] ∧ hash ≠ Node.emptyRoot ∧
      ∃ children value, loads hash = .ok (.branch children value)
  | .branch children value =>
    2 ≤ children.present.length + value.toList.length ∧ value ≠ some [] ∧
      (value.isSome → Even depth) ∧
      ∀ nibble hash, children.child? nibble = some hash →
        hash ≠ Node.emptyRoot ∧ ∃ child, loads hash = .ok child ∧ child ≠ .empty

/-- A part of a trie below a node at some depth: it has an end on every way down, and every node in it is
as it should be at its own depth. -/
structure Regular (loads : Hash → Except TrieError Node) (depth : Nat) (node : Node) : Prop where
  finite : Acc (fun child node => ∃ lead, Child loads node lead child) node
  shaped : ∀ path last, Descends loads node path last → Shaped loads (depth + path.length) last

/-! The values below each kind of node. -/

section Values

variable {loads : Hash → Except TrieError Node} {path rest lead : Path} {value found : Bytes}
  {children : Children} {slot : Option Bytes} {hash : Hash} {nibble : UInt8}

theorem not_holds_empty : ¬Holds loads .empty path value := by
  intro holds
  cases holds with
  | further below holds => cases below

theorem holds_leaf : Holds loads (.leaf rest found) path value ↔ rest = path ∧ found = value := by
  constructor
  · intro holds
    cases holds with
    | leaf => exact ⟨rfl, rfl⟩
    | further below holds => cases below
  · rintro ⟨rfl, rfl⟩
    exact .leaf

theorem holds_extension : Holds loads (.extension lead hash) path value ↔
    ∃ rest child, path = lead ++ rest ∧ loads hash = .ok child ∧ Holds loads child rest value := by
  constructor
  · intro holds
    cases holds with
    | further below holds =>
      cases below with
      | along loaded => exact ⟨_, _, rfl, loaded, holds⟩
  · rintro ⟨rest, child, rfl, loaded, holds⟩
    exact .further (.along loaded) holds

theorem holds_branch_nil : Holds loads (.branch children slot) [] value ↔ slot = some value := by
  constructor
  · intro holds
    generalize same : ([] : Path) = path at holds
    cases holds with
    | branch => rfl
    | further below holds =>
      cases below
      cases same
  · rintro rfl
    exact .branch

theorem holds_branch_cons : Holds loads (.branch children slot) (nibble :: rest) value ↔
    ∃ hash child, children.child? nibble = some hash ∧ loads hash = .ok child ∧
      Holds loads child rest value := by
  constructor
  · intro holds
    generalize same : nibble :: rest = path at holds
    cases holds with
    | branch => cases same
    | further below holds =>
      cases below with
      | under present loaded =>
        obtain ⟨rfl, rfl⟩ := List.cons.inj same
        exact ⟨_, _, present, loaded, holds⟩
  · rintro ⟨hash, child, present, loaded, holds⟩
    exact .further (.under present loaded) holds

end Values

section Parts

variable {loads larger : Hash → Except TrieError Node} {depth : Nat} {node child : Node} {lead : Path}

namespace Regular

theorem intro (shaped : Shaped loads depth node)
    (below : ∀ lead child, Child loads node lead child → Regular loads (depth + lead.length) child) :
    Regular loads depth node := by
  constructor
  · refine .intro node fun child isChild => ?_
    obtain ⟨lead, isChild⟩ := isChild
    exact (below lead child isChild).finite
  · intro path last descends
    cases descends with
    | here => exact shaped
    | further isChild descends =>
      rw [List.length_append, ← Nat.add_assoc]
      exact (below _ _ isChild).shaped _ _ descends

theorem top (regular : Regular loads depth node) : Shaped loads depth node :=
  regular.shaped [] node .here

theorem below (regular : Regular loads depth node) (isChild : Child loads node lead child) :
    Regular loads (depth + lead.length) child := by
  constructor
  · exact regular.finite.inv ⟨lead, isChild⟩
  · intro path last descends
    rw [Nat.add_assoc, ← List.length_append]
    exact regular.shaped _ _ (.further isChild descends)

end Regular

theorem Shaped.mono (shaped : Shaped loads depth node)
    (more : ∀ hash node, loads hash = .ok node → larger hash = .ok node) :
    Shaped larger depth node := by
  cases node with
  | empty => exact shaped
  | leaf path value => exact shaped
  | extension lead hash =>
    obtain ⟨nibbles, some, full, children, value, loaded⟩ := shaped
    exact ⟨nibbles, some, full, children, value, more _ _ loaded⟩
  | branch children value =>
    obtain ⟨many, notEmpty, even, below⟩ := shaped
    refine ⟨many, notEmpty, even, fun nibble hash present => ?_⟩
    obtain ⟨full, child, loaded, some⟩ := below nibble hash present
    exact ⟨full, child, more _ _ loaded, some⟩

/-- Where all children can be loaded, no other ones can be loaded where more can. -/
theorem Shaped.child_of_larger (shaped : Shaped loads depth node)
    (more : ∀ hash node, loads hash = .ok node → larger hash = .ok node)
    (isChild : Child larger node lead child) : Child loads node lead child := by
  cases isChild with
  | along loaded =>
    obtain ⟨-, -, -, children, value, known⟩ := shaped
    obtain rfl := Except.ok.inj ((more _ _ known).symm.trans loaded)
    exact .along known
  | under present loaded =>
    obtain ⟨-, -, -, below⟩ := shaped
    obtain ⟨-, found, known, -⟩ := below _ _ present
    obtain rfl := Except.ok.inj ((more _ _ known).symm.trans loaded)
    exact .under present known

theorem Regular.mono (regular : Regular loads depth node)
    (more : ∀ hash node, loads hash = .ok node → larger hash = .ok node) :
    Regular larger depth node := by
  have finite := regular.finite
  induction finite generalizing depth with
  | intro node _ ih =>
    refine .intro (regular.top.mono more) fun lead child isChild => ?_
    have known := regular.top.child_of_larger more isChild
    exact ih child ⟨lead, known⟩ (regular.below known)

end Parts

/-! Parts of a trie as resolved tries. -/

section Resolved

variable {data : Set Bytes} {mounted : Mounted Content} {tree sub : Tree} {lead path : Path}
  {children : UInt8 → Tree} {slot : Option Bytes} {value : Bytes} {depth : Nat} {child node : Node}
  {hash : Hash}

theorem loads_tree (faithful : Faithful data) (orderly : mounted.trie.Orderly data mounted.store)
    (canonical : tree.Canonical) (stored : tree.Stored mounted.records) :
    mounted.loads tree.hash = .ok tree.node :=
  loads_of_load (load_tree faithful orderly canonical stored)

theorem child_extension (loaded : mounted.loads sub.hash = .ok sub.node) :
    Child mounted.loads (Tree.extension lead sub).node path child ↔ path = lead ∧ child = sub.node := by
  constructor
  · intro isChild
    cases isChild with
    | along found => exact ⟨rfl, Except.ok.inj (found.symm.trans loaded)⟩
  · rintro ⟨rfl, rfl⟩
    exact .along loaded

/-- A branch refers to a hash just if that is the hash of a child that is not empty. -/
theorem child?_eq_some (canonical : (Tree.branch children slot).Canonical) {nibble : UInt8} :
    (Tree.refs children).child? nibble = some hash ↔
      children nibble ≠ .empty ∧ (children nibble).hash = hash := by
  rw [child?_branch canonical, Tree.ref]
  split <;> simp [*]

theorem child_branch (canonical : (Tree.branch children slot).Canonical)
    (loaded : ∀ nibble, mounted.loads (children nibble).hash = .ok (children nibble).node) :
    Child mounted.loads (Tree.branch children slot).node path child ↔
      ∃ nibble, path = [nibble] ∧ children nibble ≠ .empty ∧ child = (children nibble).node := by
  constructor
  · intro isChild
    cases isChild with
    | @under _ _ nibble hash _ present found =>
      obtain ⟨full, rfl⟩ := (child?_eq_some canonical).mp present
      exact ⟨nibble, rfl, full, Except.ok.inj (found.symm.trans (loaded nibble))⟩
  · rintro ⟨nibble, rfl, full, rfl⟩
    exact .under ((child?_eq_some canonical).mpr ⟨full, rfl⟩) (loaded nibble)

/-- The top of a canonical trie that is all there, with its values an even way down, is regular. -/
theorem regular_tree (faithful : Faithful data) (orderly : mounted.trie.Orderly data mounted.store)
    (canonical : tree.Canonical) (rooted : tree.Rooted mounted.records) (some : tree ≠ .empty)
    (even : ∀ path found, tree.get path = Option.some found → Even (depth + path.length)) :
    Regular mounted.loads depth tree.node := by
  induction tree generalizing depth with
  | empty => exact absurd rfl some
  | leaf rest value =>
    refine .intro ⟨canonical.1, canonical.2, even rest value (by simp [Tree.get])⟩ ?_
    intro path child isChild
    cases isChild
  | extension lead sub ih =>
    obtain ⟨nibbles, leadSome, isBranch, canonicalSub⟩ := canonical
    have stored := Tree.rooted_extension.mp rooted
    have loaded := loads_tree faithful orderly canonicalSub stored
    have present := ((Tree.stored_of_ne_empty isBranch.ne_empty).mp stored).1
    have full := canonicalSub.hash_ne_emptyRoot faithful (orderly.records_subset present)
      isBranch.ne_empty
    refine .intro ?_ fun path child isChild => ?_
    · obtain ⟨children, slot, rfl⟩ := Tree.exists_branch_of_isBranch isBranch
      exact ⟨nibbles, leadSome, full, _, _, loaded⟩
    · obtain ⟨rfl, rfl⟩ := (child_extension loaded).mp isChild
      refine ih canonicalSub stored.rooted isBranch.ne_empty fun rest found entry => ?_
      rw [Nat.add_assoc, ← List.length_append]
      exact even (path ++ rest) found (by rw [Tree.get_extension, entry])
  | branch children slot ih =>
    have stored := Tree.rooted_branch.mp rooted
    have loaded (nibble : UInt8) := loads_tree faithful orderly (canonical.1 nibble) (stored nibble)
    refine .intro ⟨(Tree.crowded_iff canonical.2.1).mp canonical.2.2.2, canonical.2.2.1, ?_, ?_⟩
      fun path child isChild => ?_
    · intro valued
      obtain ⟨found, rfl⟩ := Option.isSome_iff_exists.mp valued
      exact even [] found rfl
    · intro nibble hash present
      obtain ⟨full, rfl⟩ := (child?_eq_some canonical).mp present
      have member := ((Tree.stored_of_ne_empty full).mp (stored nibble)).1
      exact ⟨(canonical.1 nibble).hash_ne_emptyRoot faithful (orderly.records_subset member) full, _,
        loaded nibble, mt Tree.node_eq_empty.mp full⟩
    · obtain ⟨nibble, rfl, full, rfl⟩ := (child_branch canonical loaded).mp isChild
      refine ih nibble (canonical.1 nibble) (stored nibble).rooted full fun rest found entry => ?_
      rw [Nat.add_assoc, ← List.length_append]
      exact even (nibble :: rest) found entry

/-- The values on the way down are the entries of the resolved trie. -/
theorem holds_tree (faithful : Faithful data) (orderly : mounted.trie.Orderly data mounted.store)
    (canonical : tree.Canonical) (rooted : tree.Rooted mounted.records) :
    Holds mounted.loads tree.node path value ↔ tree.get path = some value := by
  induction tree generalizing path with
  | empty => exact ⟨fun holds => absurd holds not_holds_empty, nofun⟩
  | leaf rest found =>
    rw [Tree.node, holds_leaf, Tree.get]
    split <;> simp [*]
  | extension lead sub ih =>
    obtain ⟨_, _, _, canonicalSub⟩ := canonical
    have stored := Tree.rooted_extension.mp rooted
    rw [Tree.node_extension, holds_extension, Tree.get_extension_eq_some]
    refine exists_congr fun rest => ?_
    rw [loads_tree faithful orderly canonicalSub stored]
    simp [ih canonicalSub stored.rooted]
  | branch children slot ih =>
    have stored := Tree.rooted_branch.mp rooted
    rw [Tree.node_branch]
    cases path with
    | nil => exact holds_branch_nil
    | cons nibble rest =>
      have loaded := loads_tree faithful orderly (canonical.1 nibble) (stored nibble)
      have below := @ih nibble rest (canonical.1 nibble) (stored nibble).rooted
      simp only [holds_branch_cons, child?_eq_some canonical, Tree.get]
      constructor
      · rintro ⟨_, child, ⟨full, rfl⟩, found, holds⟩
        obtain rfl := Except.ok.inj (found.symm.trans loaded)
        exact below.mp holds
      · intro entry
        refine ⟨_, _, ⟨fun none => ?_, rfl⟩, loaded, below.mpr entry⟩
        rw [none] at entry
        cases entry

/-- What is loaded is read from a record that the hash is the digest of. -/
theorem exists_record_of_loads (orderly : mounted.trie.Orderly data mounted.store)
    (full : hash ≠ Node.emptyRoot) (loaded : mounted.loads hash = .ok node) :
    ∃ record ∈ mounted.records, hash = Keccak.digest record ∧ Node.decode record = .ok node := by
  have reads {record : Bytes} (read : answer ((readNode record : TrieM Content Node) mounted) = .ok node) :
      Node.decode record = .ok node := by
    rw [readNode] at read
    cases decoded : Node.decode record with
    | ok found =>
      rw [decoded] at read
      exact congrArg _ (Except.ok.inj read)
    | error error =>
      rw [decoded] at read
      cases read
  rw [Mounted.loads, load, if_neg full, Step.bind_ok (Step.get_apply mounted)] at loaded
  cases pending : mounted.trie.overlay.lookup hash with
  | some record =>
    simp only [pending] at loaded
    have entry := Overlay.mem_of_lookup pending
    exact ⟨record, .inl (List.mem_map.mpr ⟨_, entry, rfl⟩), orderly.made.named entry, reads loaded⟩
  | none =>
    simp only [pending] at loaded
    have read : onStore (mounted.trie.keyspace.read hash.bytes) mounted =
        .ok (mounted.trie.keyspace.held mounted.store hash) mounted := by
      rw [onStore, Keyspace.read_content _ orderly.space.column]
    rw [Step.bind_ok read] at loaded
    cases held : mounted.trie.keyspace.held mounted.store hash with
    | none =>
      rw [held] at loaded
      cases loaded
    | some record =>
      rw [held] at loaded
      obtain ⟨rfl, -⟩ := orderly.space.named hash record held
      exact ⟨record, .inr held, rfl, reads loaded⟩

/-- What is loaded is named by its digest and has its record there. -/
theorem encode_of_loads (faithful : Faithful data)
    (orderly : mounted.trie.Orderly data mounted.store)
    (encoded : mounted.trie.keyspace.Encoded mounted.store) (full : hash ≠ Node.emptyRoot)
    (loaded : mounted.loads hash = .ok node) :
    hash = Keccak.digest node.encode ∧ node.encode ∈ mounted.records := by
  obtain ⟨record, present, rfl, decoded⟩ := exists_record_of_loads orderly full loaded
  have exact : node.encode = record := by
    rcases present with pending | stored
    · obtain ⟨entry, inside, rfl⟩ := List.mem_map.mp pending
      obtain ⟨tree, canonical, -, rfl⟩ := orderly.made entry inside
      have short := faithful.short _ (orderly.within pending)
      have again := Node.decode_encode (canonical.readable short)
      rw [Except.ok.inj (decoded.symm.trans again)]
      rfl
    · exact encoded record stored node decoded
  rw [exact]
  exact ⟨rfl, present⟩

/-- A resolved trie of a node at some depth: what is below it is all there, and its values are an even way
down. -/
structure Resolves (mounted : Mounted Content) (depth : Nat) (node : Node) (tree : Tree) : Prop where
  node : tree.node = node
  canonical : tree.Canonical
  rooted : tree.Rooted mounted.records
  even : ∀ path found, tree.get path = some found → Even (depth + path.length)

private theorem Resolves.referred (faithful : Faithful data)
    (orderly : mounted.trie.Orderly data mounted.store)
    (encoded : mounted.trie.keyspace.Encoded mounted.store)
    (resolves : Resolves mounted depth child tree) (some : tree ≠ .empty) (full : hash ≠ Node.emptyRoot)
    (loaded : mounted.loads hash = .ok child) : tree.hash = hash ∧ tree.Stored mounted.records := by
  obtain ⟨named, present⟩ := encode_of_loads faithful orderly encoded full loaded
  obtain rfl := resolves.node
  exact ⟨(Tree.hash_of_ne_empty some).trans named.symm,
    (Tree.stored_of_ne_empty some).mpr ⟨present, resolves.rooted⟩⟩

private theorem resolves_leaf (shaped : Shaped mounted.loads depth (.leaf path value)) :
    Resolves mounted depth (.leaf path value) (.leaf path value) := by
  obtain ⟨nibbles, notEmpty, even⟩ := shaped
  refine ⟨rfl, ⟨nibbles, notEmpty⟩, trivial, fun other found entry => ?_⟩
  rw [Tree.get] at entry
  split at entry
  · next same => rwa [← same]
  · cases entry

private theorem resolves_extension
    (shaped : Shaped mounted.loads depth (.extension lead sub.hash))
    (resolves : Resolves mounted (depth + lead.length) child sub)
    (loaded : mounted.loads sub.hash = .ok child) (stored : sub.Stored mounted.records) :
    Resolves mounted depth (.extension lead sub.hash) (.extension lead sub) := by
  obtain ⟨nibbles, leadSome, -, children, value, known⟩ := shaped
  obtain rfl := Except.ok.inj (known.symm.trans loaded)
  have isBranch : sub.IsBranch := by
    have same := resolves.node
    cases sub with
    | branch children value => trivial
    | _ => cases same
  refine ⟨rfl, ⟨nibbles, leadSome, isBranch, resolves.canonical⟩, stored, fun path found entry => ?_⟩
  obtain ⟨rest, rfl, entryBelow⟩ := Tree.get_extension_eq_some.mp entry
  rw [List.length_append, ← Nat.add_assoc]
  exact resolves.even rest found entryBelow

private theorem exists_resolves_branch {children : Children} {slot : Option Bytes}
    (shaped : Shaped mounted.loads depth (.branch children slot))
    (below : ∀ nibble hash, children.child? nibble = some hash → ∃ child tree,
      Resolves mounted (depth + 1) child tree ∧ tree ≠ .empty ∧ tree.hash = hash ∧
        tree.Stored mounted.records) :
    ∃ tree, Resolves mounted depth (.branch children slot) tree ∧ tree ≠ .empty := by
  obtain ⟨many, notEmpty, evenHere, -⟩ := shaped
  have each (nibble : UInt8) : ∃ tree : Tree, tree.ref = children.child? nibble ∧ tree.Canonical ∧
      tree.Stored mounted.records ∧
      ∀ path found, tree.get path = some found → Even (depth + 1 + path.length) := by
    cases present : children.child? nibble with
    | none => exact ⟨.empty, rfl, trivial, trivial, nofun⟩
    | some hash =>
      obtain ⟨child, tree, resolves, some, rfl, stored⟩ := below nibble hash present
      exact ⟨tree, if_neg some, resolves.canonical, stored, resolves.even⟩
  choose trees refs canonical stored even using each
  obtain ⟨same, closed⟩ := Tree.refs_of_child? refs
  have crowded : Tree.Crowded trees slot := (Tree.crowded_iff closed).mpr (by rwa [same])
  refine ⟨.branch trees slot, ⟨?_, ⟨canonical, closed, notEmpty, crowded⟩, stored, ?_⟩, nofun⟩
  · rw [Tree.node_branch, same]
  · intro path found entry
    cases path with
    | nil =>
      rw [Tree.get] at entry
      exact evenHere (Option.isSome_iff_exists.mpr ⟨found, entry⟩)
    | cons nibble rest =>
      rw [List.length_cons, Nat.add_comm rest.length, ← Nat.add_assoc]
      exact even nibble rest found entry

/-- A regular part of a trie is the top of a canonical one. The induction is on the ways down. -/
theorem Regular.exists_tree (faithful : Faithful data)
    (orderly : mounted.trie.Orderly data mounted.store)
    (encoded : mounted.trie.keyspace.Encoded mounted.store)
    (regular : Regular mounted.loads depth node) :
    ∃ tree, Resolves mounted depth node tree ∧ tree ≠ .empty := by
  have finite := regular.finite
  induction finite generalizing depth with
  | intro node _ ih =>
    have below {lead : Path} {hash : Hash} {child : Node} (full : hash ≠ Node.emptyRoot)
        (loaded : mounted.loads hash = .ok child) (isChild : Child mounted.loads node lead child) :
        ∃ tree, Resolves mounted (depth + lead.length) child tree ∧ tree ≠ .empty ∧ tree.hash = hash ∧
          tree.Stored mounted.records := by
      obtain ⟨tree, resolves, some⟩ := ih child ⟨lead, isChild⟩ (regular.below isChild)
      exact ⟨tree, resolves, some, resolves.referred faithful orderly encoded some full loaded⟩
    have top := regular.top
    cases node with
    | empty => exact top.elim
    | leaf path value => exact ⟨_, resolves_leaf top, by simp⟩
    | extension lead hash =>
      obtain ⟨-, -, full, children, value, loaded⟩ := top
      obtain ⟨tree, resolves, -, rfl, stored⟩ := below full loaded (.along loaded)
      exact ⟨_, resolves_extension regular.top resolves loaded stored, by simp⟩
    | branch children value =>
      refine exists_resolves_branch top fun nibble hash present => ?_
      obtain ⟨full, child, loaded, -⟩ := top.2.2.2 nibble hash present
      exact ⟨child, below full loaded (.under present loaded)⟩

/-- A part of a trie, which may be empty. -/
def Part (loads : Hash → Except TrieError Node) (depth : Nat) (node : Node) : Prop :=
  node = .empty ∨ Regular loads depth node

theorem part_tree (faithful : Faithful data) (orderly : mounted.trie.Orderly data mounted.store)
    (canonical : tree.Canonical) (rooted : tree.Rooted mounted.records)
    (even : ∀ path found, tree.get path = some found → Even (depth + path.length)) :
    Part mounted.loads depth tree.node := by
  by_cases none : tree = .empty
  · exact .inl (Tree.node_eq_empty.mpr none)
  · exact .inr (regular_tree faithful orderly canonical rooted none even)

theorem Part.exists_tree (faithful : Faithful data)
    (orderly : mounted.trie.Orderly data mounted.store)
    (encoded : mounted.trie.keyspace.Encoded mounted.store) (part : Part mounted.loads depth node) :
    ∃ tree, Resolves mounted depth node tree := by
  rcases part with rfl | regular
  · exact ⟨.empty, rfl, trivial, trivial, nofun⟩
  · obtain ⟨tree, resolves, -⟩ := regular.exists_tree faithful orderly encoded
    exact ⟨tree, resolves⟩

theorem Orderly.adding (orderly : mounted.trie.Orderly data mounted.store) {fresh : Overlay}
    (made : fresh.Made) (within : (mounted.adding fresh).trie.overlay.records ⊆ data) :
    (mounted.adding fresh).trie.Orderly data (mounted.adding fresh).store :=
  ⟨orderly.space, made.append orderly.made, within⟩

theorem Part.insertAt (faithful : Faithful data)
    (orderly : mounted.trie.Orderly data mounted.store)
    (encoded : mounted.trie.keyspace.Encoded mounted.store) (part : Part mounted.loads depth node)
    (nibbles : path.Nibbles) (even : Even (depth + path.length)) (notEmpty : value ≠ []) {steps : Nat}
    (enough : path.length < steps)
    (within : (ending (insertAt steps node path value mounted)).trie.overlay.records ⊆ data) :
    ∃ result after, Trie.insertAt steps node path value mounted = .ok result after ∧
      Regular after.loads depth result := by
  obtain ⟨tree, rfl, canonical, rooted, evenBefore⟩ := part.exists_tree faithful orderly encoded
  obtain ⟨result, fresh, ran, made, rfl, rootedAfter⟩ :=
    insertAt_tree faithful orderly canonical rooted nibbles notEmpty enough
  rw [ran] at within
  refine ⟨_, _, ran, regular_tree faithful (orderly.adding made within)
    (Tree.canonical_insert canonical nibbles notEmpty) rootedAfter (Tree.insert_ne_empty _ _ _)
    fun other found entry => ?_⟩
  rw [Tree.get_insert] at entry
  split at entry
  · next same => rwa [same]
  · exact evenBefore other found entry

/-- Removing from a part of a trie leaves a part: none if the path holds no value, and the empty one just
if it holds the only value that there was. -/
theorem Part.removeAt (faithful : Faithful data)
    (orderly : mounted.trie.Orderly data mounted.store)
    (encoded : mounted.trie.keyspace.Encoded mounted.store) (part : Part mounted.loads depth node)
    (nibbles : path.Nibbles) {steps : Nat} (enough : path.length < steps)
    (within : (ending (removeAt steps node path mounted)).trie.overlay.records ⊆ data) :
    ∃ result after, Trie.removeAt steps node path mounted = .ok result after ∧
      (result = none ↔ ∀ value, ¬Holds mounted.loads node path value) ∧
      (result = some .empty ↔ (∃ value, Holds mounted.loads node path value) ∧
        ∀ other value, Holds mounted.loads node other value → other = path) ∧
      ∀ left, result = some left → Part after.loads depth left := by
  obtain ⟨tree, rfl, canonical, rooted, evenBefore⟩ := part.exists_tree faithful orderly encoded
  obtain ⟨result, fresh, ran, made, leaves⟩ :=
    removeAt_tree faithful orderly canonical rooted nibbles enough
  have absent := Tree.remove_eq_none_iff tree path
  simp only [holds_tree faithful orderly canonical rooted]
  rw [ran] at within
  refine ⟨result, _, ran, ?_⟩
  generalize later : mounted.adding fresh = after at leaves within ⊢
  cases removed : tree.remove path with
  | none =>
    rw [removed] at leaves
    have noEntry := absent.mp removed
    cases leaves
    simp [noEntry]
  | some left =>
    rw [removed] at leaves
    have canonicalLeft := Tree.canonical_remove canonical nibbles removed
    have entries := Tree.get_remove canonical nibbles removed
    have present : ∃ value, tree.get path = some value := by
      rw [← Option.ne_none_iff_exists', ne_eq, ← absent, removed]
      nofun
    cases leaves with
    | left yields _ =>
      obtain ⟨rfl, rootedLeft⟩ := yields
      refine ⟨by simpa using present, ?_, ?_⟩
      · rw [Option.some_inj, Tree.node_eq_empty, canonicalLeft.eq_empty_iff, and_iff_right present]
        refine forall_congr' fun other => ?_
        rw [entries other]
        split
        · next same => simp [same]
        · next apart => simp [apart, Option.eq_none_iff_forall_ne_some]
      · rintro _ ⟨⟩
        subst later
        refine part_tree faithful (orderly.adding made within) canonicalLeft rootedLeft
          fun other found entry => ?_
        rw [entries other] at entry
        split at entry
        · cases entry
        · exact evenBefore other found entry

end Resolved

theorem loads_of_alone {σ : Type} [ByteStore σ] {mounted : Mounted σ} {hash : Hash} {node : Node}
    (loaded : mounted.alone.loads hash = .ok node) : mounted.loads hash = .ok node := by
  have ran := ((nodewise_spares.load hash).same mounted node _ (load_of_loads loaded)).1
  exact congrArg answer ran

/-- The root of a trie that was new is a part of it from the top. -/
theorem Mounted.Bears.part {σ : Type} [ByteStore σ] {data : Set Bytes} {mounted : Mounted σ}
    {map : Bytes → Option Bytes} (faithful : Faithful data) (bears : mounted.Bears data map) :
    ∃ top, mounted.loads mounted.trie.root = .ok top ∧ Part mounted.loads 0 top := by
  obtain ⟨tree, spells, root, stored⟩ := bears.resolved
  have loaded := loads_tree faithful bears.orderly spells.canonical stored
  rw [← root] at loaded
  refine ⟨tree.node, loads_of_alone loaded, ?_⟩
  have part : Part mounted.alone.loads 0 tree.node :=
    part_tree faithful bears.orderly spells.canonical stored.rooted fun path found entry => by
      obtain ⟨key, rfl, -⟩ := (spells.entry path found).mp entry
      rw [Nat.zero_add, Path.length_ofBytes]
      exact ⟨key.length, Nat.two_mul _⟩
  exact part.imp_right fun regular => regular.mono fun _ _ => loads_of_alone

/-- The shape of a trie. Whatever changes are made of a new one, over whatever store, what its root loads
is empty or has all nodes below it as they should be. So it is below any node of any trie whose records
are in order: inserting a value that is not empty an even way down leaves such a part, and so does removing
a path, unless the path holds no value; and removing leaves the empty node just if it takes the only value. -/
theorem shape_kept {σ τ : Type} [ByteStore σ] [ByteStore τ] [ReliableStore τ] :
    (∀ (keyspace : Keyspace) (store : σ) (changes : List Change),
      Faithful { record | record ∈ Change.made changes ⟨Trie.empty keyspace, store⟩ } →
        ∃ after top,
          Change.run changes ⟨Trie.empty keyspace, store⟩ = .ok (Change.replies [] changes) after ∧
          after.loads after.trie.root = .ok top ∧ Part after.loads 0 top) ∧
    (∀ (data : Set Bytes) (mounted : Mounted τ) (depth : Nat) (node : Node) (path : Path) (steps : Nat),
      Faithful data → mounted.trie.Orderly data (content mounted.store) →
        mounted.trie.keyspace.Encoded (content mounted.store) → Part mounted.loads depth node →
        path.Nibbles → path.length < steps →
      (∀ value, value ≠ [] → Even (depth + path.length) →
        (ending (insertAt steps node path value mounted)).trie.overlay.records ⊆ data →
        ∃ result after, insertAt steps node path value mounted = .ok result after ∧
          Regular after.loads depth result) ∧
      ((ending (removeAt steps node path mounted)).trie.overlay.records ⊆ data →
        ∃ result after, removeAt steps node path mounted = .ok result after ∧
          (result = none ↔ ∀ value, ¬Holds mounted.loads node path value) ∧
          (result = some .empty ↔ (∃ value, Holds mounted.loads node path value) ∧
            ∀ other value, Holds mounted.loads node other value → other = path) ∧
          ∀ left, result = some left → Part after.loads depth left)) := by
  constructor
  · intro keyspace store changes faithful
    have bears := Mounted.Bears.empty { record | record ∈ Change.made changes ⟨Trie.empty keyspace, store⟩ }
      keyspace store
    obtain ⟨after, ran, bearsAfter⟩ :=
      @Change.run_bears _ _ _ _ [] faithful bears changes fun _ member => member
    obtain ⟨top, loaded, part⟩ := bearsAfter.part faithful
    exact ⟨after, top, ran, loaded, part⟩
  · intro data mounted depth node path steps faithful orderly encoded part nibbles enough
    rw [← loads_view mounted] at part ⊢
    constructor
    · intro value notEmpty even within
      have same := (nodewise_agree.insertAt steps node path value).same mounted
      have viewed : (ending (insertAt steps node path value mounted.view)).trie.overlay.records ⊆ data := by
        rw [← same, ending_through]
        exact within
      obtain ⟨result, last, ran, regular⟩ := part.insertAt faithful orderly encoded nibbles even notEmpty
        enough viewed
      obtain ⟨after, ranHere, rfl⟩ := through_eq_ok (same.trans ran)
      rw [loads_view] at regular
      exact ⟨result, after, ranHere, regular⟩
    · intro within
      have same := (nodewise_agree.removeAt steps node path).same mounted
      have viewed : (ending (removeAt steps node path mounted.view)).trie.overlay.records ⊆ data := by
        rw [← same, ending_through]
        exact within
      obtain ⟨result, last, ran, rest⟩ := part.removeAt faithful orderly encoded nibbles enough viewed
      obtain ⟨after, ranHere, rfl⟩ := through_eq_ok (same.trans ran)
      rw [loads_view after] at rest
      exact ⟨result, after, ranHere, rest⟩

set_option maxRecDepth 100000 in
/-- A new trie after changes, and a leaf beside an empty store, below which a value is inserted that
parts from it at the second nibble, and which is removed. -/
theorem shape_kept_nested :
    let alone : Mounted Content := ⟨Trie.empty (.ofColumn Column.accounts), .empty⟩
    (∃ after top, Change.run Change.nested ⟨Trie.empty (.ofColumn Column.accounts), Memory.empty⟩ =
        .ok [none, none, some true, none] after ∧
      after.loads after.trie.root = .ok top ∧ Part after.loads 0 top) ∧
    (∃ result after, insertAt 3 (.leaf [1, 2] [9]) [1, 3] [7] alone = .ok result after ∧
      Regular after.loads 0 result) ∧
    ∃ after, removeAt 3 (.leaf [1, 2] [9]) [1, 2] alone = .ok (some .empty) after := by
  intro alone
  obtain ⟨run, below⟩ := @shape_kept Memory Content _ _ _
  have made := run (.ofColumn Column.accounts) Memory.empty Change.nested
    (.of_nodup (by decide +kernel) (by decide +kernel))
  have absent (hash : Hash) (record : Bytes) :
      alone.trie.keyspace.held (content alone.store) hash ≠ some record := by
    intro held
    cases held
  have orderly (data : Set Bytes) : alone.trie.Orderly data (content alone.store) :=
    ⟨⟨Nat.zero_lt_succ _, fun hash record held => absurd held (absent hash record)⟩,
      fun _ member => absurd member List.not_mem_nil, fun _ member => absurd member List.not_mem_nil⟩
  have encoded : alone.trie.keyspace.Encoded (content alone.store) :=
    fun record held => absurd held (absent _ record)
  have leaf : Part alone.loads 0 (.leaf [1, 2] [9]) := by
    refine .inr (.intro ⟨by simp [Path.Nibbles], List.cons_ne_nil _ _, ⟨1, rfl⟩⟩ fun path child below => ?_)
    cases below
  have kept := below
    { record | record ∈
      (ending (insertAt 3 (.leaf [1, 2] [9]) [1, 3] [7] alone)).trie.overlay.map (·.2) }
    alone 0 (.leaf [1, 2] [9]) [1, 3] 3 (.of_nodup (by decide +kernel) (by decide +kernel)) (orderly _)
    encoded leaf (by simp [Path.Nibbles]) (by decide)
  have gone := below ∅ alone 0 (.leaf [1, 2] [9]) [1, 2] 3
    ⟨by simp, fun _ member => absurd member (Set.notMem_empty _)⟩ (orderly _) encoded leaf
    (by simp [Path.Nibbles]) (by decide)
  obtain ⟨result, after, ran, -, last, -⟩ := gone.2 fun _ member => absurd member List.not_mem_nil
  refine ⟨made, kept.1 [7] (List.cons_ne_nil _ _) ⟨1, rfl⟩ fun _ member => member, after, ?_⟩
  rw [ran, last.mpr ⟨⟨[9], .leaf⟩, fun other value holds => ?_⟩]
  cases holds with
  | leaf => rfl
  | further below holds => cases below

end Trie

end ContractLedger
