import ContractLedger.Proofs.Trie.Backing
import ContractLedger.Proofs.Trie.Descent
import ContractLedger.Proofs.Trie.History
import ContractLedger.Proofs.Trie.Pending
import ContractLedger.Proofs.Trie.View

/-!
What becomes of a trie over batches and commits. Whatever it goes through, the root and every root that
it may return to is that of a map whose records are pending or were written by a commit, and a
commit writes no record before those below it. So a flush schedules what the root leads to and the
store lacks, and nothing else; and what a commit has left can be read without anything that is pending.
-/

namespace ContractLedger.Trie

section Steps

variable {σ : Type} [ByteStore σ]

/-- Flushes a trie, writes what was scheduled, and takes the root for committed. -/
def commit : TrieM σ Unit := do
  match (← getThe (Mounted σ)).trie.flush with
  | .error error => throw error
  | .ok ops =>
    onStore (ByteStore.write ops)
    modify fun mounted => { mounted with trie := mounted.trie.markCommitted }

/-- What may be done with a trie. -/
inductive Turn where
  | change (update : Change)
  | revertTo (root : Hash)
  | rollback
  | setRoot (root : Hash)
  | commit
deriving DecidableEq

def Turn.step : Turn → TrieM σ Unit
  | change update => (fun _ => ()) <$> update.step
  | revertTo root => modify fun mounted => { mounted with trie := mounted.trie.revertTo root }
  | rollback => modify fun mounted => { mounted with trie := mounted.trie.rollback }
  | setRoot root => Trie.setRoot root
  | commit => Trie.commit

end Steps

/-- A trie beside its store, with the roots that it has had in the batch and those that were
committed. -/
structure Course (σ : Type) where
  mounted : Mounted σ
  batch : List Hash
  committed : List Hash

namespace Course

variable {σ : Type}

def start (keyspace : Keyspace) (store : σ) : Course σ :=
  ⟨⟨Trie.empty keyspace, store⟩, [Node.emptyRoot], [Node.emptyRoot]⟩

/-- A trie returns to roots of the batch, and is repointed at committed ones. -/
def Allows (course : Course σ) : Turn → Prop
  | .revertTo root => root ∈ course.batch
  | .setRoot root => root ∈ course.committed
  | _ => True

instance (course : Course σ) (turn : Turn) : Decidable (course.Allows turn) := by
  cases turn <;> unfold Allows <;> infer_instance

/-- What is remembered of the roots after a move that ends with a mounted trie. -/
def leave (course : Course σ) (mounted : Mounted σ) : Turn → Course σ
  | .change _ | .revertTo _ => ⟨mounted, mounted.trie.root :: course.batch, course.committed⟩
  | .rollback | .setRoot _ => ⟨mounted, [mounted.trie.root], course.committed⟩
  | .commit => ⟨mounted, [mounted.trie.root], mounted.trie.root :: course.committed⟩

variable [ByteStore σ]

def after (course : Course σ) (turn : Turn) : Course σ :=
  match turn.step course.mounted with
  | .ok _ mounted => course.leave mounted turn
  | .error _ mounted => { course with mounted }

theorem after_ok {course : Course σ} {turn : Turn} {mounted : Mounted σ}
    (ran : turn.step course.mounted = .ok () mounted) : course.after turn = course.leave mounted turn := by
  rw [after, ran]

def run (course : Course σ) : List Turn → Course σ
  | [] => course
  | turn :: turns => (course.after turn).run turns

/-- The records that were pending after one of a sequence of moves. -/
def seen (course : Course σ) : List Turn → List Bytes
  | [] => []
  | turn :: turns =>
    (course.after turn).mounted.trie.overlay.map (·.2) ++ (course.after turn).seen turns

/-- Whether every move of a sequence may be made in its turn. -/
def Permits (course : Course σ) : List Turn → Prop
  | [] => True
  | turn :: turns => course.Allows turn ∧ (course.after turn).Permits turns

end Course

/-- The hashes that a hash leads to, node by node. -/
inductive Reaches (loads : Hash → Except TrieError Node) : Hash → Hash → Prop
  | self {hash : Hash} : Reaches loads hash hash
  | child {hash child other : Hash} {node : Node} (loaded : loads hash = .ok node)
      (member : child ∈ node.childHashes) (below : Reaches loads child other) :
      Reaches loads hash other

theorem Reaches.mono {loads larger : Hash → Except TrieError Node} {hash other : Hash}
    (reaches : Reaches loads hash other)
    (within : ∀ hash node, loads hash = .ok node → larger hash = .ok node) :
    Reaches larger hash other := by
  induction reaches with
  | self => exact .self
  | child loaded member _ ih => exact .child (within _ _ loaded) member ih

section Scheduled

variable {data records : Set Bytes} {mounted : Mounted Content} {tree : Tree}
  {loads : Hash → Except TrieError Node}

/-- What a list of actions answers is what one of them answers. -/
theorem mem_of_mapM_ok {α β ε : Type} {step : α → Except ε β} {items : List α}
    {values : List β} (mapped : items.mapM step = .ok values) :
    ∀ value ∈ values, ∃ item ∈ items, step item = .ok value := by
  induction items generalizing values with
  | nil =>
    cases mapped
    nofun
  | cons item items ih =>
    rw [List.mapM_cons] at mapped
    cases first : step item with
    | error error =>
      rw [first] at mapped
      cases mapped
    | ok value =>
      cases rest : items.mapM step with
      | error error =>
        rw [first, rest] at mapped
        cases mapped
      | ok others =>
        rw [first, rest] at mapped
        cases mapped
        rintro other (_ | ⟨_, member⟩)
        · exact ⟨item, List.mem_cons_self, first⟩
        · obtain ⟨found, inside, ran⟩ := ih rest other member
          exact ⟨found, List.mem_cons_of_mem _ inside, ran⟩

/-- What is gathered below a hash: nothing if no record of it is pending, else that record and what is
gathered below the children of its node. -/
theorem pendingFrom_cases {overlay found : Overlay} {steps : Nat} {hash : Hash}
    (gathered : pendingFrom overlay (steps + 1) hash = .ok found) :
    found = [] ∨ ∃ record node parts, overlay.lookup hash = some record ∧
      Node.decode record = .ok node ∧ found = (hash, record) :: List.flatten parts ∧
      ∀ part ∈ parts, ∃ child ∈ node.childHashes, pendingFrom overlay steps child = .ok part := by
  rw [pendingFrom] at gathered
  cases pending : overlay.lookup hash with
  | none =>
    rw [pending] at gathered
    cases gathered
    exact .inl rfl
  | some record =>
    rw [pending] at gathered
    cases decoded : Node.decode record with
    | error error =>
      simp only [decoded] at gathered
      cases gathered
    | ok node =>
      simp only [decoded, Except.mapError, bind, Except.bind] at gathered
      cases below : node.childHashes.reverse.mapM (pendingFrom overlay steps) with
      | error error =>
        rw [below] at gathered
        cases gathered
      | ok parts =>
        rw [below] at gathered
        cases gathered
        refine .inr ⟨record, node, parts, rfl, decoded, rfl, fun part inside => ?_⟩
        obtain ⟨child, kid, ran⟩ := mem_of_mapM_ok below part inside
        exact ⟨child, List.mem_reverse.mp kid, ran⟩

/-- What is gathered are the newest pending records of their hashes, and they can be read. -/
theorem lookup_of_pendingFrom {overlay found : Overlay} {steps : Nat} {hash : Hash}
    (gathered : pendingFrom overlay steps hash = .ok found) : ∀ entry ∈ found,
      overlay.lookup entry.1 = some entry.2 ∧ ∃ node, Node.decode entry.2 = .ok node := by
  induction steps generalizing hash found with
  | zero => cases gathered
  | succ steps ih =>
    obtain rfl | ⟨record, node, parts, pending, decoded, rfl, below⟩ := pendingFrom_cases gathered
    · nofun
    · rintro entry (_ | ⟨_, member⟩)
      · exact ⟨pending, node, decoded⟩
      · obtain ⟨part, inside, present⟩ := List.mem_flatten.mp member
        obtain ⟨child, _, ran⟩ := below part inside
        exact ih ran entry present

/-- The hash leads to what is gathered below it wherever what was gathered can be loaded. -/
theorem reaches_gathered {overlay found : Overlay} {steps : Nat} {hash : Hash}
    (gathered : pendingFrom overlay steps hash = .ok found)
    (loaded : ∀ entry ∈ found, ∀ node, Node.decode entry.2 = .ok node → loads entry.1 = .ok node) :
    ∀ entry ∈ found, Reaches loads hash entry.1 := by
  induction steps generalizing hash found with
  | zero => cases gathered
  | succ steps ih =>
    obtain rfl | ⟨record, node, parts, _, decoded, rfl, below⟩ := pendingFrom_cases gathered
    · nofun
    · rintro entry (_ | ⟨_, member⟩)
      · exact .self
      · obtain ⟨part, inside, present⟩ := List.mem_flatten.mp member
        obtain ⟨child, kid, ran⟩ := below part inside
        refine .child (loaded _ List.mem_cons_self node decoded) kid
          (ih ran (fun other member => ?_) entry present)
        exact loaded other (List.mem_cons_of_mem _ (List.mem_flatten.mpr ⟨part, inside, member⟩))

/-- What is found pending below a hash is what the hash leads to. -/
theorem reaches_of_pendingFrom (blank : mounted.trie.overlay.lookup Node.emptyRoot = none)
    {steps : Nat} {hash : Hash} {found : Overlay}
    (gathered : pendingFrom mounted.trie.overlay steps hash = .ok found) :
    ∀ entry ∈ found, Reaches mounted.loads hash entry.1 := by
  refine reaches_gathered gathered fun entry member node decoded => ?_
  have pending := (lookup_of_pendingFrom gathered entry member).1
  have full : entry.1 ≠ Node.emptyRoot := by
    intro same
    rw [same, blank] at pending
    cases pending
  rw [Mounted.loads, load, if_neg full, Step.bind_ok (Step.get_apply mounted)]
  simp only [pending, readNode, decoded]
  rfl

/-- What the hash of a stored trie leads to are the hashes of stored tries. -/
theorem Reaches.exists_tree
    (loaded : ∀ tree : Tree, tree.Canonical → tree.Stored records → loads tree.hash = .ok tree.node)
    {other : Hash} (canonical : tree.Canonical) (stored : tree.Stored records)
    (reaches : Reaches loads tree.hash other) :
    ∃ inner : Tree, inner.Canonical ∧ inner.Stored records ∧ inner.hash = other := by
  generalize same : tree.hash = hash at reaches
  induction reaches generalizing tree with
  | self => exact ⟨tree, canonical, stored, same⟩
  | child found member below ih =>
    subst same
    cases (loaded tree canonical stored).symm.trans found
    rw [Tree.childHashes_node] at member
    obtain ⟨kid, kidOf, rfl⟩ := List.mem_map.mp member
    exact ih (canonical.of_kid kidOf) (canonical.rooted_iff.mp stored.rooted kid kidOf) rfl

end Scheduled

namespace Course

/-- A course whose records are in order beside what its own commits have written, which the store has
and which is closed. Every root of the batch is that of a map, and every committed one is that of a map
that was written. -/
structure Sound (data : Set Bytes) (own : Content) (course : Course Content) : Prop where
  backed : course.mounted.trie.keyspace.Within own course.mounted.store
  orderly : course.mounted.trie.Orderly data own
  closed : course.mounted.trie.keyspace.Closed own
  root : course.mounted.trie.root ∈ course.batch
  batch : ∀ root ∈ course.batch, ∃ map, Keeps (course.mounted.trie.records own) root map
  committedRoot : course.mounted.trie.committedRoot ∈ course.committed
  committed : ∀ root ∈ course.committed, ∃ map,
    Keeps (course.mounted.trie.keyspace.records own) root map

variable {data : Set Bytes} {own : Content} {course : Course Content} {root : Hash}

private theorem held_empty (space : Keyspace) (hash : Hash) : space.held .empty hash = none :=
  rfl

theorem sound_start {keyspace : Keyspace} (column : keyspace.column < Column.count)
    (data : Set Bytes) (store : Content) : Sound data .empty (start keyspace store) where
  backed hash record held := nomatch (held_empty keyspace hash).symm.trans held
  orderly := ⟨⟨column, fun hash record held => nomatch (held_empty keyspace hash).symm.trans held⟩,
    nofun, nofun⟩
  closed record held := nomatch (held_empty keyspace (Keccak.digest record)).symm.trans held
  root := List.mem_singleton_self _
  batch root member := by
    obtain rfl := List.mem_singleton.mp member
    exact ⟨_, .empty⟩
  committedRoot := List.mem_singleton_self _
  committed root member := by
    obtain rfl := List.mem_singleton.mp member
    exact ⟨_, .empty⟩

/-- The trie of a course beside what its own commits have written. -/
private def beside (course : Course Content) (own : Content) : Mounted Content :=
  ⟨course.mounted.trie, own⟩

namespace Sound

/-- The root of a course is that of a map whose records are all there. -/
theorem exists_tree (sound : course.Sound data own) : ∃ map, ∃ tree : Tree, tree.Spells map ∧
    course.mounted.trie.root = tree.hash ∧ tree.Stored (course.mounted.trie.records own) := by
  obtain ⟨map, tree, spells, hash, stored⟩ := sound.batch _ sound.root
  exact ⟨map, tree, spells, hash.symm, stored⟩

private theorem leave_change {update : Change} {value : Option Bool} {tree : Tree}
    {map : Bytes → Option Bytes} (sound : course.Sound data own) (spells : tree.Spells map)
    (same : Suffices update.step update.step)
    (roots : Roots (beside course own) update.step value tree)
    (within : (course.after (.change update)).mounted.trie.overlay.records ⊆ data) :
    (course.after (.change update)).Sound data own := by
  obtain ⟨fresh, ran, made, stored⟩ := roots
  have ranHere : update.step course.mounted = .ok value (course.mounted.moved fresh tree.hash) :=
    (same (beside course own) course.mounted.store _ _ sound.backed ran).2.2
  have left : course.after (.change update) =
      course.leave (course.mounted.moved fresh tree.hash) (.change update) :=
    after_ok (Step.map_ok ranHere _)
  rw [left] at within ⊢
  refine ⟨sound.backed, ⟨sound.orderly.space, made.append sound.orderly.made, within⟩, sound.closed,
    List.mem_cons_self, ?_, sound.committedRoot, sound.committed⟩
  rintro root (_ | ⟨_, member⟩)
  · exact ⟨map, tree, spells, rfl, stored⟩
  · obtain ⟨map, keeps⟩ := sound.batch root member
    refine ⟨map, keeps.mono (Set.union_subset_union_left _ ?_)⟩
    exact Overlay.records_mono fun entry inside => List.mem_append_right _ inside

private theorem change (faithful : Faithful data) (sound : course.Sound data own) (update : Change)
    (within : (course.after (.change update)).mounted.trie.overlay.records ⊆ data) :
    (course.after (.change update)).Sound data own := by
  obtain ⟨map, tree, spells, root, stored⟩ := sound.exists_tree
  cases update with
  | insert key value =>
    obtain ⟨fresh, ran, made, storedAfter⟩ := @insert_tree data (beside course own) tree faithful
      sound.orderly spells.canonical stored root key value
    exact leave_change sound (spells.put key value)
      (nodewise_suffices.map _ (nodewise_suffices.insert key value))
      ⟨fresh, Step.map_ok ran _, made, storedAfter⟩ within
  | remove key =>
    obtain ⟨fresh, ran, made, storedAfter⟩ := @remove_tree data (beside course own) tree faithful
      sound.orderly spells.canonical stored root key
    exact leave_change sound (spells.put key []) (nodewise_suffices.map _ (nodewise_suffices.remove key))
      ⟨fresh, Step.map_ok ran _, made, storedAfter⟩ within

private theorem leave_committed (sound : course.Sound data own) (member : root ∈ course.committed)
    {committedRoot : Hash} (memberCommitted : committedRoot ∈ course.committed) :
    Sound data own ⟨⟨{ course.mounted.trie with overlay := [], root, committedRoot },
      course.mounted.store⟩, [root], course.committed⟩ := by
  refine ⟨sound.backed, ⟨sound.orderly.space, nofun, nofun⟩, sound.closed, List.mem_singleton_self _, ?_,
    memberCommitted, sound.committed⟩
  intro other memberOther
  obtain rfl := List.mem_singleton.mp memberOther
  obtain ⟨map, keeps⟩ := sound.committed other member
  exact ⟨map, keeps.mono Set.subset_union_right⟩

private theorem revertTo (sound : course.Sound data own) (member : root ∈ course.batch) :
    (course.after (.revertTo root)).Sound data own := by
  have left : course.after (.revertTo root) = course.leave
      { course.mounted with trie := course.mounted.trie.revertTo root } (.revertTo root) := after_ok rfl
  rw [left]
  refine ⟨sound.backed, ⟨sound.orderly.space, sound.orderly.made, sound.orderly.within⟩, sound.closed,
    List.mem_cons_self, ?_, sound.committedRoot, sound.committed⟩
  rintro other (_ | ⟨_, memberOther⟩)
  · exact sound.batch root member
  · exact sound.batch other memberOther

private theorem setRoot_ok (sound : course.Sound data own) (member : root ∈ course.committed) :
    Trie.setRoot root course.mounted =
      .ok () ⟨{ course.mounted.trie with overlay := [], root, committedRoot := root },
        course.mounted.store⟩ := by
  unfold Trie.setRoot
  rw [Step.bind_ok (Step.getThe_apply _)]
  split
  · next full =>
    obtain ⟨map, tree, spells, rfl, stored⟩ := sound.committed root member
    have present : tree ≠ .empty := by
      rintro rfl
      exact full rfl
    have known := sound.backed _ _ ((Tree.stored_of_ne_empty present).mp stored).1
    rw [← Tree.hash_of_ne_empty present] at known
    have read : onStore (course.mounted.trie.keyspace.read tree.hash.bytes) course.mounted =
        .ok (some tree.record) course.mounted := by
      rw [onStore, Keyspace.read_content _ sound.orderly.space.column, known]
    rw [Step.bind_ok read]
    rfl
  · rfl

private theorem gathers (faithful : Faithful data) (sound : course.Sound data own) :
    ∃ map, ∃ tree : Tree, ∃ found, tree.Spells map ∧ course.mounted.trie.root = tree.hash ∧
      course.mounted.trie.pending = .ok found ∧ course.mounted.trie.Gathers own tree found := by
  obtain ⟨map, tree, spells, root, stored⟩ := sound.exists_tree
  obtain ⟨found, pending, gathers⟩ :=
    pending_tree faithful sound.orderly sound.closed spells.canonical stored root
  exact ⟨map, tree, found, spells, root, pending, gathers⟩

private structure Written (data : Set Bytes) (own : Content) (course : Course Content)
    (found : Overlay) : Prop where
  backed : course.mounted.trie.keyspace.Within
    (own.applyAll (course.mounted.trie.keyspace.puts found))
    (course.mounted.store.applyAll (course.mounted.trie.keyspace.puts found))
  orderly : course.mounted.trie.keyspace.Orderly data
    (own.applyAll (course.mounted.trie.keyspace.puts found))
  records : course.mounted.trie.keyspace.records
    (own.applyAll (course.mounted.trie.keyspace.puts found)) =
      found.records ∪ course.mounted.trie.keyspace.records own
  closed : course.mounted.trie.keyspace.Closed
    (own.applyAll (course.mounted.trie.keyspace.puts found))

private theorem written {tree : Tree} {found : Overlay} (faithful : Faithful data)
    (sound : course.Sound data own) (gathers : course.mounted.trie.Gathers own tree found) :
    Written data own course found := by
  have each : ∀ entry ∈ found, entry.1 = Keccak.digest entry.2 ∧ entry.2 ∈ data := by
    intro entry member
    have pending := gathers.within entry member
    exact ⟨sound.orderly.made.named pending,
      sound.orderly.within (List.mem_map.mpr ⟨entry, pending, rfl⟩)⟩
  obtain ⟨orderly, records⟩ := sound.orderly.space.puts faithful each
  refine ⟨sound.backed.puts sound.orderly.space.column found, orderly, records, ?_⟩
  intro record member
  rw [records] at member ⊢
  rcases member with member | member
  · obtain ⟨entry, inside, rfl⟩ := List.mem_map.mp member
    obtain ⟨tree, canonical, some, rfl, stored⟩ := gathers.completes entry inside
    exact ⟨tree, canonical, some, rfl, stored⟩
  · obtain ⟨tree, canonical, some, same, stored⟩ := sound.closed record member
    exact ⟨tree, canonical, some, same, stored.mono Set.subset_union_right⟩

private theorem flush_of_pending {trie : Trie} {found : Overlay} (pending : trie.pending = .ok found) :
    trie.flush = .ok (trie.keyspace.puts found) := by
  rw [Trie.flush, pending]
  rfl

private theorem commit (faithful : Faithful data) (sound : course.Sound data own) :
    ∃ own, (course.after .commit).Sound data own := by
  obtain ⟨map, tree, found, spells, root, pending, gathers⟩ := sound.gathers faithful
  have written := sound.written faithful gathers
  have left : course.after .commit = course.leave ⟨course.mounted.trie.markCommitted,
      course.mounted.store.applyAll (course.mounted.trie.keyspace.puts found)⟩ .commit := by
    refine after_ok ?_
    rw [Turn.step, Trie.commit, Step.bind_ok (Step.getThe_apply _), flush_of_pending pending]
    rfl
  have keeps : Keeps (course.mounted.trie.keyspace.records
      (own.applyAll (course.mounted.trie.keyspace.puts found))) course.mounted.trie.root map := by
    refine ⟨tree, spells, root.symm, ?_⟩
    rw [written.records]
    exact gathers.stored
  rw [left]
  refine ⟨_, written.backed, ⟨written.orderly, nofun, nofun⟩, written.closed,
    List.mem_singleton_self _, ?_, List.mem_cons_self, ?_⟩
  · intro other member
    obtain rfl := List.mem_singleton.mp member
    exact ⟨map, keeps.mono Set.subset_union_right⟩
  · rintro other (_ | ⟨_, member⟩)
    · exact ⟨map, keeps⟩
    · obtain ⟨map, keeps⟩ := sound.committed other member
      refine ⟨map, keeps.mono ?_⟩
      change course.mounted.trie.keyspace.records own ⊆ course.mounted.trie.keyspace.records _
      rw [written.records]
      exact Set.subset_union_right

theorem step {turn : Turn} (faithful : Faithful data) (sound : course.Sound data own)
    (allowed : course.Allows turn)
    (within : (course.after turn).mounted.trie.overlay.records ⊆ data) :
    ∃ own, (course.after turn).Sound data own := by
  cases turn with
  | change update => exact ⟨own, sound.change faithful update within⟩
  | revertTo root => exact ⟨own, sound.revertTo allowed⟩
  | rollback => exact ⟨own, sound.leave_committed sound.committedRoot sound.committedRoot⟩
  | setRoot root =>
    have left : course.after (.setRoot root) = course.leave _ (.setRoot root) :=
      after_ok (sound.setRoot_ok allowed)
    exact ⟨own, left ▸ sound.leave_committed allowed allowed⟩
  | commit => exact sound.commit faithful

/-- What a sequence of moves leaves of a sound course is sound. -/
theorem run {turns : List Turn} (faithful : Faithful data) (sound : course.Sound data own)
    (permits : course.Permits turns) (seen : ∀ record ∈ course.seen turns, record ∈ data) :
    ∃ own, (course.run turns).Sound data own := by
  induction turns generalizing course own with
  | nil => exact ⟨own, sound⟩
  | cons turn turns ih =>
    obtain ⟨own, soundAfter⟩ := sound.step faithful permits.1 fun record member =>
      seen record (List.mem_append_left _ member)
    exact ih soundAfter permits.2 fun record member => seen record (List.mem_append_right _ member)

end Sound

/-! Over a reliable store a course is what it is over the content. -/

section View

variable {σ : Type} [ByteStore σ] [ReliableStore σ]

def view (course : Course σ) : Course Content :=
  ⟨course.mounted.view, course.batch, course.committed⟩

private theorem agree_turn (turn : Turn) :
    Agree Mounted.view unmeasured (turn.step : TrieM σ Unit) turn.step := by
  cases turn with
  | change update =>
    cases update with
    | insert key value => exact .map _ (.map _ (agree_insert key value).forget)
    | remove key => exact .map _ (.map _ (nodewise_agree.remove key).forget)
  | revertTo root => exact .of_same fun _ => rfl
  | rollback => exact .of_same fun _ => rfl
  | setRoot root => exact agree_setRoot root
  | commit =>
    refine .reading fun mounted => ?_
    have trie : mounted.view.trie = mounted.trie := rfl
    rw [trie]
    cases mounted.trie.flush with
    | error error => exact .failed error
    | ok ops =>
      exact .bind (agree_onStore (.of_same (ReliableStore.write_content ops))).forget fun _ =>
        .of_same fun _ => rfl

theorem view_after (course : Course σ) (turn : Turn) :
    (course.after turn).view = course.view.after turn := by
  have same := (agree_turn turn).same course.mounted
  rw [after, after, show course.view.mounted = course.mounted.view from rfl, ← same]
  cases turn.step course.mounted with
  | ok value mounted => cases turn <;> rfl
  | error error mounted => rfl

theorem view_run (course : Course σ) (turns : List Turn) :
    (course.run turns).view = course.view.run turns := by
  induction turns generalizing course with
  | nil => rfl
  | cons turn turns ih => rw [run, run, ih, view_after]

theorem seen_view (course : Course σ) (turns : List Turn) :
    course.view.seen turns = course.seen turns := by
  induction turns generalizing course with
  | nil => rfl
  | cons turn turns ih =>
    rw [seen, seen, ← view_after, ih]
    rfl

theorem permits_view {course : Course σ} {turns : List Turn} (permits : course.Permits turns) :
    course.view.Permits turns := by
  induction turns generalizing course with
  | nil => trivial
  | cons turn turns ih =>
    obtain ⟨allowed, rest⟩ := permits
    refine ⟨?_, ?_⟩
    · cases turn <;> exact allowed
    · rw [← view_after]
      exact ih rest

end View

end Course

/-- What a flush schedules: pending records that the root leads to, each under its own digest, and with
them everything that the root leads to and the store lacks. -/
structure Flushes {σ : Type} [ByteStore σ] [ReliableStore σ] (mounted : Mounted σ)
    (scheduled : Overlay) : Prop where
  ops : mounted.trie.flush = .ok (mounted.trie.keyspace.puts scheduled)
  pending : ∀ entry ∈ scheduled, entry ∈ mounted.trie.overlay
  named : ∀ entry ∈ scheduled, entry.1 = Keccak.digest entry.2
  needed : ∀ entry ∈ scheduled, Reaches mounted.loads mounted.trie.root entry.1
  complete : ∀ hash, Reaches mounted.loads mounted.trie.root hash → hash = Node.emptyRoot ∨
    ∃ record, (hash, record) ∈ scheduled ∨
      (hash = Keccak.digest record ∧ mounted.trie.keyspace.held (content mounted.store) hash = some record)

namespace Course

variable {data : Set Bytes} {own : Content} {course : Course Content}

private theorem get_backed {mounted : Mounted Content} {tree : Tree} {map : Bytes → Option Bytes}
    (faithful : Faithful data) (orderly : mounted.trie.Orderly data own)
    (backed : mounted.trie.keyspace.Within own mounted.store) (spells : tree.Spells map)
    (root : mounted.trie.root = tree.hash) (stored : tree.Stored (mounted.trie.records own))
    (key : Bytes) : get key mounted = .ok (map key) mounted := by
  have ran := @get_tree data ⟨mounted.trie, own⟩ tree faithful orderly spells.canonical stored root key
  rw [spells.get] at ran
  exact (nodewise_suffices.get key ⟨mounted.trie, own⟩ mounted.store _ _ backed ran).2.2

private theorem get_ofRoot {space : Keyspace} {store : Content} {root : Hash}
    {map : Bytes → Option Bytes} (faithful : Faithful data) (orderly : space.Orderly data own)
    (backed : space.Within own store) (keeps : Keeps (space.records own) root map) (key : Bytes) :
    get key ⟨.ofRoot space root, store⟩ = .ok (map key) ⟨.ofRoot space root, store⟩ := by
  obtain ⟨tree, spells, rfl, stored⟩ := keeps
  refine @get_backed data own ⟨.ofRoot space tree.hash, store⟩ tree map faithful ⟨orderly, nofun, nofun⟩
    backed spells rfl (stored.mono Set.subset_union_right) key

private theorem loads_backed {tree : Tree} (faithful : Faithful data) (sound : course.Sound data own)
    (canonical : tree.Canonical) (stored : tree.Stored (course.mounted.trie.records own)) :
    course.mounted.loads tree.hash = .ok tree.node := by
  have ran := @load_tree data (beside course own) tree faithful sound.orderly canonical stored
  exact loads_of_load
    (nodewise_suffices.load tree.hash (beside course own) course.mounted.store _ _ sound.backed ran).2.2

/-- A flush of a sound course schedules what its root leads to and its store lacks. -/
theorem Sound.flushes {tree : Tree} {found : Overlay} {map : Bytes → Option Bytes}
    (faithful : Faithful data) (sound : course.Sound data own) (spells : tree.Spells map)
    (root : course.mounted.trie.root = tree.hash) (pending : course.mounted.trie.pending = .ok found)
    (gathers : course.mounted.trie.Gathers own tree found) : Flushes course.mounted found := by
  have named : ∀ entry ∈ found, entry.1 = Keccak.digest entry.2 := fun entry member =>
    sound.orderly.made.named (gathers.within entry member)
  refine ⟨flush_of_pending pending, gathers.within, named,
    reaches_of_pendingFrom (sound.orderly.lookup_emptyRoot faithful) pending, fun hash reaches => ?_⟩
  rw [root] at reaches
  have within : found.records ∪ course.mounted.trie.keyspace.records own ⊆
      course.mounted.trie.records own :=
    Set.union_subset_union_left _ (Overlay.records_mono gathers.within)
  obtain ⟨inner, canonical, stored, rfl⟩ := reaches.exists_tree
    (fun tree canonical stored => loads_backed faithful sound canonical (stored.mono within))
    spells.canonical gathers.stored
  by_cases none : inner = .empty
  · exact .inl (by rw [none]; rfl)
  · have hash := Tree.hash_of_ne_empty none
    refine .inr ⟨inner.record, ?_⟩
    rcases ((Tree.stored_of_ne_empty none).mp stored).1 with member | member
    · obtain ⟨entry, inside, same⟩ := List.mem_map.mp member
      refine .inl ?_
      rw [hash, ← same, ← named entry inside]
      exact inside
    · rw [hash]
      exact .inr ⟨rfl, sound.backed _ _ member⟩

/-- What can be read of a sound course can be read after a commit without what was pending, and before
one if the root is that of the last. -/
theorem Sound.flushes_whole (faithful : Faithful data) (sound : course.Sound data own) :
    ∃ (found : Overlay) (map : Bytes → Option Bytes), Flushes course.mounted found ∧
      (∀ key, get key course.mounted = .ok (map key) course.mounted) ∧
      (∀ key, let after := ⟨.ofRoot course.mounted.trie.keyspace course.mounted.trie.root,
          course.mounted.store.applyAll (course.mounted.trie.keyspace.puts found)⟩
        get key after = .ok (map key) after) ∧
      (course.mounted.trie.isDirty = false →
        ∀ key, let after := ⟨.ofRoot course.mounted.trie.keyspace course.mounted.trie.root,
            course.mounted.store⟩
          get key after = .ok (map key) after) := by
  obtain ⟨map, tree, found, spells, root, pending, gathers⟩ := sound.gathers faithful
  have written := sound.written faithful gathers
  have stored := gathers.stored
  rw [← written.records] at stored
  have within : Overlay.records found ∪ course.mounted.trie.keyspace.records own ⊆
      course.mounted.trie.records own :=
    Set.union_subset_union_left _ (Overlay.records_mono gathers.within)
  refine ⟨found, map, sound.flushes faithful spells root pending gathers, ?_, ?_, fun clean => ?_⟩
  · exact get_backed faithful sound.orderly sound.backed spells root (gathers.stored.mono within)
  · exact get_ofRoot faithful written.orderly written.backed ⟨tree, spells, root.symm, stored⟩
  · have committed : course.mounted.trie.root ∈ course.committed := by
      rw [show course.mounted.trie.root = course.mounted.trie.committedRoot by
        simpa [isDirty] using clean]
      exact sound.committedRoot
    obtain ⟨mapCommitted, keeps⟩ := sound.committed _ committed
    have same : mapCommitted = map := keeps.map_unique faithful sound.orderly.space.records_subset
      ⟨tree, spells, root.symm, gathers.stored.mono within⟩ sound.orderly.records_subset
    rw [← same]
    exact get_ofRoot faithful sound.orderly.space sound.backed keeps

section

variable {σ : Type} [ByteStore σ] [ReliableStore σ]

private theorem flushes_view {mounted : Mounted σ} {scheduled : Overlay}
    (flushes : Flushes mounted.view scheduled) : Flushes mounted scheduled where
  ops := flushes.ops
  pending := flushes.pending
  named := flushes.named
  needed entry member := by
    rw [← loads_view]
    exact flushes.needed entry member
  complete hash reaches := by
    rw [← loads_view] at reaches
    exact flushes.complete hash reaches

/-- Whatever is done with a new trie over any store, a flush schedules nothing but pending records that
the root leads to, and everything that it leads to and the store lacks. Once that is written, a new
trie at the root reads under every key what the trie reads; and if the root is that of the latest
commit, it does so at once. -/
theorem flush_complete {keyspace : Keyspace} (column : keyspace.column < Column.count) (store : σ)
    {turns : List Turn} (permits : (start keyspace store).Permits turns)
    (faithful : Faithful { record | record ∈ (start keyspace store).seen turns }) :
    let mounted := ((start keyspace store).run turns).mounted
    ∃ scheduled after, Flushes mounted scheduled ∧
      ByteStore.write (mounted.trie.keyspace.puts scheduled) mounted.store = .ok () after ∧
      (∀ key, ∃ value, answer (get key mounted) = .ok value ∧
        answer (get key ⟨.ofRoot mounted.trie.keyspace mounted.trie.root, after⟩) = .ok value) ∧
      (mounted.trie.isDirty = false → ∀ key,
        answer (get key ⟨.ofRoot mounted.trie.keyspace mounted.trie.root, mounted.store⟩) =
          answer (get key mounted)) := by
  intro mounted
  have blank := sound_start column { record | record ∈ (start keyspace store).seen turns }
    (content store)
  obtain ⟨own, sound⟩ : ∃ own, ((start keyspace (content store)).run turns).Sound
      { record | record ∈ (start keyspace store).seen turns } own :=
    blank.run faithful (permits_view permits) fun record member =>
      (seen_view (start keyspace store) turns) ▸ member
  have viewed : (start keyspace (content store)).run turns = ((start keyspace store).run turns).view :=
    (view_run (start keyspace store) turns).symm
  rw [viewed] at sound
  obtain ⟨scheduled, map, flushes, here, later, clean⟩ := sound.flushes_whole faithful
  obtain ⟨after, wrote, same⟩ := through_eq_ok
    (ReliableStore.write_content (mounted.trie.keyspace.puts scheduled) mounted.store)
  have reads (mounted : Mounted σ) {value : Option Bytes} {key : Bytes}
      (ran : get key mounted.view = .ok value mounted.view) : answer (get key mounted) = .ok value := by
    rw [← answer_view (agree_get key), ran]
    rfl
  refine ⟨scheduled, after, flushes_view flushes, wrote, fun key => ⟨map key, reads mounted (here key), ?_⟩,
    fun unchanged key => ?_⟩
  · refine reads ⟨_, after⟩ ?_
    rw [Mounted.view, same]
    exact later key
  · exact (reads ⟨_, mounted.store⟩ (clean unchanged key)).trans (reads mounted (here key)).symm

end

/-- A store in memory that keeps something else under the digest of a leaf. -/
def misled : Memory :=
  Memory.empty.apply ((Keyspace.ofColumn Column.accounts).put
    (Keccak.digest (Node.leaf (Path.ofBytes [18]) [1]).encode).bytes [0x80])

abbrev crowded : Course Memory :=
  start (.ofColumn Column.accounts) misled

/-- An entry that is committed, a second one, and a third that is given up. -/
def returning : List Turn :=
  let second := [.change (.insert [7] [3]), .commit, .change (.insert [18] [1])]
  second ++ [.change (.insert [19] [2]), .revertTo (crowded.run second).mounted.trie.root]

set_option maxRecDepth 100000 in
theorem flush_complete_returning :
    ∃ scheduled, ∃ after : Memory, Flushes (crowded.run returning).mounted scheduled ∧
      scheduled.length < (crowded.run returning).mounted.trie.overlay.length ∧
      answer (get [18] ⟨.ofRoot (crowded.run returning).mounted.trie.keyspace
        (crowded.run returning).mounted.trie.root, after⟩) = .ok (some [1]) := by
  have permits : crowded.Permits returning := by
    refine ⟨trivial, trivial, trivial, trivial, ?_, trivial⟩
    change _ ∈ Course.batch _
    decide +kernel
  obtain ⟨scheduled, after, flushes, _, reads, _⟩ := flush_complete (by decide) misled
    permits (.of_nodup (by decide +kernel) (by decide +kernel))
  have ends : answer (get [18] (crowded.run returning).mounted) = .ok (some [1]) ∧
      (crowded.run returning).mounted.trie.flush.toOption.map List.length = some 3 ∧
      (crowded.run returning).mounted.trie.overlay.length = 7 := by decide +kernel
  obtain ⟨read, few, many⟩ := ends
  obtain ⟨value, here, later⟩ := reads [18]
  obtain rfl : value = some [1] := Except.ok.inj (here.symm.trans read)
  refine ⟨scheduled, after, flushes, ?_, later⟩
  rw [flushes.ops] at few
  have length : scheduled.length = 3 := by simpa [Except.toOption, Keyspace.puts] using few
  rw [length, many]
  decide

end Course

end ContractLedger.Trie
