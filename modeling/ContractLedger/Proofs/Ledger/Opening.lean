import ContractLedger.Proofs.Ledger.Commit

/-!
Ledgers with nothing pending. A root that the store holds may be loaded or opened, one that it lacks
is refused and nothing changes, and dropping a batch leads back to the root that was committed last.
A store that has grown shows what it showed, to every ledger that uses it.
-/

namespace ContractLedger

def Content.Blank (content : Content) : Prop :=
  ∀ column < Column.count, ∀ key, content column key = none

theorem Content.blank_empty : Content.empty.Blank :=
  fun _ _ _ => rfl

theorem Memory.blank_empty : (content Memory.empty).Blank := by
  rw [Memory.content_empty]
  exact Content.blank_empty

theorem Content.Blank.orderly {content : Content} (blank : content.Blank) (data : Set Bytes) :
    content.Orderly data := by
  have absent (space : Keyspace) (used : space.Used) (hash : Hash) : space.held content hash = none :=
    blank _ used.column _
  have named (space : Keyspace) (used : space.Used) : space.Orderly data content :=
    ⟨used.column, fun hash record held => by
      rw [absent space used] at held
      cases held⟩
  have closed (space : Keyspace) (used : space.Used) : space.Closed content := fun record held => by
    rw [Keyspace.records, Set.mem_ofPred_eq, absent space used] at held
    cases held
  exact ⟨named _ Keyspace.used_accounts, fun owner => named _ (Keyspace.used_ofOwner owner),
    named _ Keyspace.used_code, closed _ Keyspace.used_accounts,
    fun owner => closed _ (Keyspace.used_ofOwner owner)⟩

/-- Whether a store has a root: it is that of the empty trie, or names a record. -/
def Content.Knows (content : Content) (root : Hash) : Prop :=
  root = Node.emptyRoot ∨ ((Keyspace.ofColumn Column.accounts).held content root).isSome = true

theorem Shelves.Lists.knows {content : Content} {root : Hash} {book : Book} {roots : Address → Hash}
    (lists : content.shelves.Lists root book roots) : content.Knows root := by
  obtain ⟨tree, _, rfl, stored⟩ := lists.accounts
  by_cases none : tree = .empty
  · exact .inl (by rw [none]; rfl)
  · have present := ((Tree.stored_of_ne_empty none).mp stored).1
    rw [Tree.hash_of_ne_empty none]
    exact .inr (Option.isSome_of_eq_some present)

namespace Ledger

variable {data : Set Bytes} {content larger : Content} {ledger : Ledger} {mounted : Mounted Content}
  {book : Book} {roots : Address → Hash} {root : Hash} {journal : Journal}

theorem pending_ofRoot : (ofRoot root).pending = ∅ := by
  refine Set.eq_empty_of_subset_empty ?_
  rintro bytes (inAccounts | ⟨owner, trie, cached, _⟩ | inCode)
  · cases inAccounts
  · cases cached
  · cases inCode

/-- A ledger with nothing pending at a root that its store shows. -/
theorem sound_ofRoot (orderly : content.Orderly data)
    (lists : content.shelves.Lists root book roots) (journal : Journal) :
    Sound data ⟨.ofRoot root, content, journal⟩ book roots := by
  refine ⟨⟨orderly, rfl, nofun, nofun, nofun, nofun, nofun, ?_⟩, lists.mono shelves_within, nofun⟩
  rw [pending_ofRoot]
  exact Set.empty_subset data

theorem Commits.sound {after : Mounted Content} (commits : Commits data mounted after book roots) :
    Sound data after book roots := by
  obtain ⟨ledger, store, journal⟩ := after
  obtain rfl := commits.ledger
  exact sound_ofRoot commits.store commits.lists journal

theorem shelves_grow (within : content.shelves.Within larger.shelves) :
    (ledger.shelves content).Within (ledger.shelves larger) :=
  ⟨Set.union_subset_union_right _ within.accounts,
    fun owner => Set.union_subset_union_right _ (within.storage owner),
    Set.union_subset_union_right _ within.code⟩

theorem Sound.grow (sound : Sound data ⟨ledger, content, journal⟩ book roots)
    (orderly : larger.Orderly data) (within : content.shelves.Within larger.shelves)
    (after : Journal) : Sound data ⟨ledger, larger, after⟩ book roots := by
  have before := sound.orderly
  refine ⟨⟨orderly, before.space, before.made, before.storageSpace, before.storageMade,
    fun owner trie cached => ?_, before.code, before.pending⟩, sound.lists.mono (shelves_grow within),
    sound.cached⟩
  obtain ⟨map, keeps⟩ := before.opened owner trie cached
  exact ⟨map, keeps.mono (within.storage owner)⟩

theorem rollback_apply (space : mounted.ledger.accounts.keyspace = .ofColumn Column.accounts) :
    ∃ journal, rollback mounted =
      .ok () ⟨.ofRoot mounted.ledger.accounts.committedRoot, mounted.store, journal⟩ := by
  have settled : (⟨mounted.ledger.accounts.rollback, .empty, []⟩ : Ledger) =
      .ofRoot mounted.ledger.accounts.committedRoot := by
    rw [Trie.rollback, space]
    rfl
  rw [← settled]
  exact ⟨_, rfl⟩

/-- Reading the record of a hash in the keyspace of accounts. -/
theorem read_accounts (trie : Trie.Mounted Content)
    (space : trie.trie.keyspace = .ofColumn Column.accounts) (root : Hash) :
    Trie.onStore (trie.trie.keyspace.read root.bytes) trie =
      .ok ((Keyspace.ofColumn Column.accounts).held trie.store root) trie := by
  rw [Trie.onStore, space, Keyspace.read_content _ (by decide)]

theorem setRoot_known {trie : Trie.Mounted Content}
    (space : trie.trie.keyspace = .ofColumn Column.accounts) (known : trie.store.Knows root) :
    Trie.setRoot root trie =
      .ok () { trie with trie := Trie.ofRoot (.ofColumn Column.accounts) root } := by
  have read := read_accounts trie space root
  have settled : (⟨trie.trie.keyspace, [], root, root⟩ : Trie) =
      Trie.ofRoot (.ofColumn Column.accounts) root := congrArg (Trie.mk · [] root root) space
  rw [← settled, Trie.setRoot, Step.bind_ok (Step.getThe_apply trie)]
  by_cases none : root = Node.emptyRoot
  · rw [if_neg (not_not_intro none)]
    rfl
  · obtain ⟨record, held⟩ := Option.isSome_iff_exists.mp (known.resolve_left none)
    rw [held] at read
    rw [if_pos none, Step.bind_ok read]
    rfl

theorem setRoot_unknown {trie : Trie.Mounted Content}
    (space : trie.trie.keyspace = .ofColumn Column.accounts) (unknown : ¬trie.store.Knows root) :
    Trie.setRoot root trie = .error (.unknownRoot root) trie := by
  have read := read_accounts trie space root
  obtain ⟨some, absent⟩ := not_or.mp unknown
  rw [Option.not_isSome_iff_eq_none.mp absent] at read
  rw [Trie.setRoot, Step.bind_ok (Step.getThe_apply trie), if_pos some, Step.bind_ok read]
  rfl

theorem loadSnapshot_known (space : mounted.ledger.accounts.keyspace = .ofColumn Column.accounts)
    (known : mounted.store.Knows root) :
    ∃ journal, loadSnapshot root mounted = .ok () ⟨.ofRoot root, mounted.store, journal⟩ := by
  have loaded := @setRoot_known root ⟨mounted.ledger.accounts, mounted.store⟩ space known
  rw [loadSnapshot, Step.bind_apply, onAccounts, loaded]
  exact ⟨_, rfl⟩

theorem loadSnapshot_unknown (space : mounted.ledger.accounts.keyspace = .ofColumn Column.accounts)
    (unknown : ¬mounted.store.Knows root) :
    loadSnapshot root mounted = .error (.trie (.unknownRoot root)) mounted := by
  have refused := @setRoot_unknown root ⟨mounted.ledger.accounts, mounted.store⟩ space unknown
  rw [loadSnapshot, Step.bind_apply, onAccounts, refused]

theorem openAt_known (known : mounted.store.Knows root) :
    ∃ journal, openAt root mounted = .ok () ⟨.ofRoot root, mounted.store, journal⟩ := by
  have loaded := @setRoot_known root ⟨Trie.empty (.ofColumn Column.accounts), mounted.store⟩ rfl known
  have opening : openAt root mounted = _ := Step.bind_apply _ _ mounted
  rw [opening, loaded]
  exact ⟨_, rfl⟩

theorem openAt_unknown (unknown : ¬mounted.store.Knows root) :
    openAt root mounted = .error (.trie (.unknownRoot root)) mounted := by
  have refused :=
    @setRoot_unknown root ⟨Trie.empty (.ofColumn Column.accounts), mounted.store⟩ rfl unknown
  have opening : openAt root mounted = _ := Step.bind_apply _ _ mounted
  rw [opening, refused]

private theorem readLatest_apply (mounted : Mounted Content) :
    onStore (ByteStore.read Column.accounts latestRootKey) mounted =
      .ok (mounted.store Column.accounts latestRootKey) mounted := by
  rw [onStore]
  simp only [ByteStore.read]
  rw [if_pos (by decide)]

theorem openLatest_none (absent : mounted.store Column.accounts latestRootKey = none) :
    ∃ journal, openLatest mounted = .ok () ⟨.ofRoot Node.emptyRoot, mounted.store, journal⟩ := by
  have read := readLatest_apply mounted
  rw [absent] at read
  rw [openLatest, Step.bind_ok read]
  exact openAt_known (.inl rfl)

theorem openLatest_some (latest : mounted.store Column.accounts latestRootKey = some root.bytes)
    (known : mounted.store.Knows root) :
    ∃ journal, openLatest mounted = .ok () ⟨.ofRoot root, mounted.store, journal⟩ := by
  have read := readLatest_apply mounted
  rw [latest] at read
  have spelled : Hash.ofBytes? root.bytes = some root := by rw [Hash.ofBytes?, dif_pos root.size]
  rw [openLatest, Step.bind_ok read]
  simp only [spelled]
  exact openAt_known known

private theorem blank_clearColumns (content : Content) :
    (content.applyAll clearColumns).Blank := by
  intro column bound key
  rcases column with _ | _ | _ | column
  · simp [Content.applyAll, clearColumns, Column.count, List.range, List.range.loop, Content.apply,
      Content.updateColumn]
  · simp [Content.applyAll, clearColumns, Column.count, List.range, List.range.loop, Content.apply,
      Content.updateColumn]
  · simp [Content.applyAll, clearColumns, Column.count, List.range, List.range.loop, Content.apply,
      Content.updateColumn]
  · exact absurd bound (by simp [Column.count])

theorem refresh_apply (mounted : Mounted Content) :
    ∃ after, refresh mounted = .ok () after ∧ after.ledger = .ofRoot Node.emptyRoot ∧
      after.store.Blank :=
  ⟨_, rfl, rfl, blank_clearColumns mounted.store⟩

end Ledger

end ContractLedger
