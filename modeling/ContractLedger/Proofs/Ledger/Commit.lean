import ContractLedger.Proofs.Ledger.Sound

/-!
The commit of a sound ledger. It writes what is pending below the roots of the batch and leaves out
a storage trie at the root where it was opened, since the store has that one already. Afterwards the
store alone shows the book of the batch, and goes on to show all that it showed before.
-/

namespace ContractLedger.Ledger

/-- What a commit leaves: a ledger with nothing pending, over a store that shows the book of the
batch and names its root as the latest. -/
structure Commits (data : Set Bytes) (before after : Mounted Content) (book : Book)
    (roots : Address → Hash) : Prop where
  ledger : after.ledger = .ofRoot before.ledger.root
  store : after.store.Orderly data
  within : before.store.shelves.Within after.store.shelves
  lists : after.store.shelves.Lists before.ledger.root book roots
  latest : after.store Column.accounts latestRootKey = some before.ledger.root.bytes

variable {data : Set Bytes} {content after : Content} {mounted : Mounted Content} {book : Book}
  {roots : Address → Hash} {address : Address} {trie : Trie} {tree : Tree} {found : Overlay}

private theorem flush_ok (gathered : trie.pending = .ok found) :
    trie.flush = .ok (trie.keyspace.puts found) := by
  rw [Trie.flush, gathered]
  rfl

/-- A part of what a commit writes: the records that the store lacks of a storage trie of the
batch. -/
private def Flushes (mounted : Mounted Content) (book : Book) (roots : Address → Hash) (trie : Trie)
    (part : Keyspace × Overlay) : Prop :=
  ∃ owner tree, mounted.ledger.storage.get? owner = some trie ∧ part.1 = .ofOwner owner ∧
    tree.Spells (book.holding owner).storage ∧ tree.hash = roots owner ∧
    trie.Gathers mounted.store tree part.2

private theorem flush_trie (faithful : Faithful data) (sound : Sound data mounted book roots)
    (cached : mounted.ledger.storage.get? address = some trie) :
    ∃ part, trie.flush = .ok (part.1.puts part.2) ∧ Flushes mounted book roots trie part := by
  have orderly := sound.orderly
  have space := orderly.storageSpace address trie cached
  have closed : trie.keyspace.Closed mounted.store := by
    rw [space]
    exact orderly.store.storageClosed address
  obtain ⟨tree, spells, root, stored⟩ := sound.lists.storage address
  rw [Mounted.shelves, ← orderly.trie_records cached] at stored
  obtain ⟨found, gathered, gathers⟩ := Trie.pending_tree faithful (orderly.trie cached) closed
    spells.canonical stored ((sound.cached address trie cached).trans root.symm)
  exact ⟨(trie.keyspace, found), flush_ok gathered, address, tree, cached, space, spells, root,
    gathers⟩

private theorem flush_storage (faithful : Faithful data) (sound : Sound data mounted book roots) :
    ∃ parts : List (Keyspace × Overlay),
      mounted.ledger.storage.flush = .ok (parts.flatMap fun part => part.1.puts part.2) ∧
      (∀ owner trie, mounted.ledger.storage.get? owner = some trie → trie.isDirty = true →
        ∃ part ∈ parts, Flushes mounted book roots trie part) ∧
      ∀ part ∈ parts, ∃ trie, Flushes mounted book roots trie part := by
  have each (trie : Trie) (inside : trie ∈ mounted.ledger.storage.values.filter Trie.isDirty) :
      ∃ part : Keyspace × Overlay, trie.flush = .ok (part.1.puts part.2) ∧
        Flushes mounted book roots trie part := by
    obtain ⟨owner, cached⟩ := (OrderedMap.mem_values _ trie).mp (List.mem_filter.mp inside).1
    exact flush_trie faithful sound cached
  obtain ⟨parts, ran, covers, covered⟩ := Trie.mapM_ok id Trie.flush
    (fun part : Keyspace × Overlay => part.1.puts part.2) (Flushes mounted book roots) each
  refine ⟨parts, ?_, fun owner trie cached dirty => ?_, fun part member => ?_⟩
  · rw [List.map_id] at ran
    rw [StorageCache.flush, ran, List.flatMap_def]
    rfl
  · exact covers trie (List.mem_filter.mpr ⟨(OrderedMap.mem_values _ trie).mpr ⟨owner, cached⟩, dirty⟩)
  · obtain ⟨trie, _, flushes⟩ := covered part member
    exact ⟨trie, flushes⟩

/-- What a commit writes, keyspace by keyspace: parts of the storage, the pending code, and the
records that the store lacks of the account trie. -/
private structure Writes (mounted : Mounted Content) (book : Book) (roots : Address → Hash)
    (parts : List (Keyspace × Overlay)) : Prop where
  each : ∀ part ∈ parts, (∃ trie, Flushes mounted book roots trie part) ∨
    part = (.ofColumn Column.code, mounted.ledger.pendingCode) ∨
    (part.1 = .ofColumn Column.accounts ∧
      ∃ tree, mounted.ledger.accounts.Gathers mounted.store tree part.2)
  storage : ∀ owner trie, mounted.ledger.storage.get? owner = some trie → trie.isDirty = true →
    ∃ part ∈ parts, Flushes mounted book roots trie part
  code : (.ofColumn Column.code, mounted.ledger.pendingCode) ∈ parts
  accounts : ∃ tree found, (.ofColumn Column.accounts, found) ∈ parts ∧
    tree.Spells (book.entries roots) ∧ tree.hash = mounted.ledger.root ∧
    mounted.ledger.accounts.Gathers mounted.store tree found

private def writing (mounted : Mounted Content) (parts : List (Keyspace × Overlay)) : Content :=
  mounted.store.applyAll ((parts.flatMap fun part => part.1.puts part.2) ++
    [.put Column.accounts latestRootKey mounted.ledger.root.bytes])

private theorem commit_apply (faithful : Faithful data) (sound : Sound data mounted book roots) :
    ∃ parts, Writes mounted book roots parts ∧ ∃ journal,
      commit mounted = .ok () ⟨.ofRoot mounted.ledger.root, writing mounted parts, journal⟩ := by
  have orderly := sound.orderly
  obtain ⟨storage, flushed, covers, covered⟩ := flush_storage faithful sound
  obtain ⟨tree, spells, root, stored⟩ := sound.lists.accounts
  have closed : mounted.ledger.accounts.keyspace.Closed mounted.store := by
    rw [orderly.space]
    exact orderly.store.accountsClosed
  rw [Mounted.shelves, ← orderly.accounts_records] at stored
  obtain ⟨found, gathered, gathers⟩ := Trie.pending_tree faithful orderly.accounts closed
    spells.canonical stored root.symm
  have flushedAccounts := flush_ok gathered
  rw [orderly.space] at flushedAccounts
  let parts := storage ++ [(.ofColumn Column.code, mounted.ledger.pendingCode),
    (.ofColumn Column.accounts, found)]
  have writes : Writes mounted book roots parts := by
    refine ⟨fun part member => ?_, fun owner trie cached dirty => ?_, by simp [parts], tree, found,
      by simp [parts], spells, root, gathers⟩
    · simp only [parts, List.mem_append, List.mem_cons, List.not_mem_nil, or_false] at member
      rcases member with inside | rfl | rfl
      · exact .inl (covered part inside)
      · exact .inr (.inl rfl)
      · exact .inr (.inr ⟨rfl, tree, gathers⟩)
    · obtain ⟨part, member, flushes⟩ := covers owner trie cached dirty
      exact ⟨part, List.mem_append_left _ member, flushes⟩
  have settled : (⟨mounted.ledger.accounts.markCommitted, .empty, []⟩ : Ledger) =
      .ofRoot mounted.ledger.root := by
    rw [Trie.markCommitted, orderly.space]
    rfl
  have ops : storage.flatMap (fun part => part.1.puts part.2) ++
      (mounted.ledger.pendingCode.map fun entry =>
        StoreOp.put Column.code entry.1.bytes entry.2) ++
      (Keyspace.ofColumn Column.accounts).puts found =
        parts.flatMap fun part => part.1.puts part.2 := by
    simp only [parts, List.flatMap_append, List.flatMap_cons, List.flatMap_nil, List.append_nil,
      List.append_assoc]
    rfl
  refine ⟨parts, writes, ?_⟩
  rw [commit, Step.bind_ok (Step.get_apply mounted), flushed, flushedAccounts, ← settled, writing,
    ← ops]
  exact ⟨_, rfl⟩

variable {parts : List (Keyspace × Overlay)}

private theorem ofOwner_injective {first second : Address}
    (same : Keyspace.ofOwner first = .ofOwner second) : first = second :=
  Option.some.inj (congrArg Keyspace.owner same)

private theorem Writes.gains (writes : Writes mounted book roots parts) (faithful : Faithful data)
    (orderly : mounted.ledger.Orderly data mounted.store) :
    Content.Gains data mounted.store (writing mounted parts)
      fun space => { record | ∃ overlay, (space, overlay) ∈ parts ∧ record ∈ overlay.records } := by
  have named {trie : Trie} {tree : Tree} {found : Overlay}
      (inOrder : trie.Orderly data mounted.store) (gathers : trie.Gathers mounted.store tree found)
      (entry : Hash × Bytes) (member : entry ∈ found) :
      entry.1 = Keccak.digest entry.2 ∧ entry.2 ∈ data :=
    have inside := gathers.within entry member
    ⟨inOrder.made.named inside, inOrder.within (List.mem_map.mpr ⟨entry, inside, rfl⟩)⟩
  have put := Content.gains_applyAll faithful parts orderly.store.used fun part member => by
    rcases writes.each part member with
      ⟨trie, owner, tree, cached, space, _, _, gathers⟩ | rfl | ⟨space, tree, gathers⟩
    · exact ⟨space ▸ Keyspace.used_ofOwner owner, named (orderly.trie cached) gathers⟩
    · exact ⟨Keyspace.used_code, fun entry inside => ⟨orderly.code _ _ inside,
        orderly.pending (.inr (.inr (List.mem_map.mpr ⟨entry, inside, rfl⟩)))⟩⟩
    · exact ⟨space ▸ Keyspace.used_accounts, named orderly.accounts gathers⟩
  have latest := Content.gains_latest put.orderly mounted.ledger.root.bytes
  rw [writing, Content.applyAll_append]
  exact (put.trans latest).congr fun space _ => (Set.union_empty _).symm

private theorem Writes.within (writes : Writes mounted book roots parts) (faithful : Faithful data)
    (orderly : mounted.ledger.Orderly data mounted.store) :
    mounted.store.shelves.Within (writing mounted parts).shelves := by
  have gains := writes.gains faithful orderly
  have kept (space : Keyspace) (used : space.Used) :
      space.records mounted.store ⊆ space.records (writing mounted parts) := by
    rw [gains.records space used]
    exact Set.subset_union_right
  exact ⟨kept _ Keyspace.used_accounts, fun owner => kept _ (Keyspace.used_ofOwner owner),
    kept _ Keyspace.used_code⟩

private theorem Writes.written (writes : Writes mounted book roots parts) (faithful : Faithful data)
    (orderly : mounted.ledger.Orderly data mounted.store) {space : Keyspace} (used : space.Used)
    (member : (space, found) ∈ parts) :
    found.records ∪ space.records mounted.store ⊆ space.records (writing mounted parts) := by
  rw [(writes.gains faithful orderly).records space used]
  exact Set.union_subset_union_left _ fun record inside => ⟨found, member, inside⟩

private theorem closed_gains {space : Keyspace} {added : Set Bytes} (closed : space.Closed content)
    (records : space.records after = added ∪ space.records content)
    (complete : ∀ record ∈ added, ∃ tree : Tree, tree.Canonical ∧ tree ≠ .empty ∧
      tree.record = record ∧ tree.Stored (space.records after)) : space.Closed after := by
  intro record member
  rw [records] at member
  rcases member with gained | kept
  · exact complete record gained
  · obtain ⟨tree, canonical, some, same, stored⟩ := closed record kept
    refine ⟨tree, canonical, some, same, stored.mono ?_⟩
    rw [records]
    exact Set.subset_union_right

private theorem complete_gathers {record : Bytes} {larger : Set Bytes}
    (gathers : trie.Gathers content tree found) (member : record ∈ found.records)
    (whole : found.records ∪ trie.keyspace.records content ⊆ larger) :
    ∃ tree : Tree, tree.Canonical ∧ tree ≠ .empty ∧ tree.record = record ∧ tree.Stored larger := by
  obtain ⟨entry, inside, rfl⟩ := List.mem_map.mp member
  obtain ⟨tree, canonical, some, same, stored⟩ := gathers.completes entry inside
  exact ⟨tree, canonical, some, by rw [same], stored.mono whole⟩

private theorem Writes.orderly (writes : Writes mounted book roots parts) (faithful : Faithful data)
    (orderly : mounted.ledger.Orderly data mounted.store) :
    (writing mounted parts).Orderly data := by
  have gains := writes.gains faithful orderly
  refine ⟨gains.orderly _ Keyspace.used_accounts,
    fun owner => gains.orderly _ (Keyspace.used_ofOwner owner),
    gains.orderly _ Keyspace.used_code,
    closed_gains orderly.store.accountsClosed (gains.records _ Keyspace.used_accounts) ?_,
    fun owner => closed_gains (orderly.store.storageClosed owner)
      (gains.records _ (Keyspace.used_ofOwner owner)) ?_⟩
  · rintro record ⟨overlay, inside, member⟩
    have whole := writes.written faithful orderly Keyspace.used_accounts inside
    rcases writes.each _ inside with
      ⟨_, _, _, _, space, _⟩ | same | ⟨_, tree, gathers⟩
    · cases space
    · cases same
    · rw [← orderly.space] at whole ⊢
      exact complete_gathers gathers member whole
  · rintro record ⟨overlay, inside, member⟩
    have whole := writes.written faithful orderly (Keyspace.used_ofOwner owner) inside
    rcases writes.each _ inside with
      ⟨trie, other, tree, cached, space, _, _, gathers⟩ | same | ⟨space, _⟩
    · obtain rfl := ofOwner_injective space
      rw [← orderly.storageSpace owner trie cached] at whole ⊢
      exact complete_gathers gathers member whole
    · cases same
    · cases space

private theorem Writes.lists (writes : Writes mounted book roots parts) (faithful : Faithful data)
    (sound : Sound data mounted book roots) :
    (writing mounted parts).shelves.Lists mounted.ledger.root book roots := by
  have orderly := sound.orderly
  have within := writes.within faithful orderly
  refine ⟨?_, fun owner => ?_, fun owner code held => ?_⟩
  · obtain ⟨tree, found, inside, spells, root, gathers⟩ := writes.accounts
    have whole := writes.written faithful orderly Keyspace.used_accounts inside
    refine ⟨tree, spells, root, gathers.stored.mono ?_⟩
    rwa [orderly.space]
  · cases cached : mounted.ledger.storage.get? owner with
    | none =>
      have stored := sound.lists.storage owner
      rw [Mounted.shelves, storage_of_not_cached cached] at stored
      exact stored.mono (within.storage owner)
    | some trie =>
      have space := orderly.storageSpace owner trie cached
      by_cases dirty : trie.isDirty = true
      · obtain ⟨part, inside, other, tree, again, spaceOther, spells, root, gathers⟩ :=
          writes.storage owner trie cached dirty
        obtain rfl : other = owner :=
          ofOwner_injective ((orderly.storageSpace other trie again).symm.trans space)
        have whole := writes.written faithful orderly (Keyspace.used_ofOwner other)
          (show (Keyspace.ofOwner other, part.2) ∈ parts from spaceOther ▸ inside)
        refine ⟨tree, spells, root, gathers.stored.mono ?_⟩
        rwa [space]
      · have root : trie.root = trie.committedRoot := by simpa [Trie.isDirty] using dirty
        obtain ⟨map, keeps⟩ := orderly.opened owner trie cached
        rw [← root, sound.cached owner trie cached] at keeps
        have same : map = (book.holding owner).storage := keeps.map_unique faithful
          (orderly.store.among.storage owner) (sound.lists.storage owner) (orderly.among.storage owner)
        rw [← same]
        exact keeps.mono (within.storage owner)
  · have whole := writes.written faithful orderly Keyspace.used_code writes.code
    exact whole (sound.lists.code owner code held)

theorem commit_sound (faithful : Faithful data) (sound : Sound data mounted book roots) :
    ∃ after, commit mounted = .ok () after ∧ Commits data mounted after book roots := by
  obtain ⟨parts, writes, journal, ran⟩ := commit_apply faithful sound
  refine ⟨_, ran, rfl, writes.orderly faithful sound.orderly,
    writes.within faithful sound.orderly, writes.lists faithful sound, ?_⟩
  rw [writing, Content.applyAll_append]
  have column : Column.accounts < Column.count := by decide
  exact (Content.apply_put _ column _ _ _ _).trans (if_pos ⟨rfl, rfl⟩)

end ContractLedger.Ledger
