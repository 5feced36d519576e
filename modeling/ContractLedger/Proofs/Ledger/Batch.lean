import ContractLedger.Proofs.Ledger.Sound

/-!
Steps of a batch. On a sound ledger each of them succeeds and leaves a sound ledger whose book is
changed as the step says. The store stays as it is, and all that was found before is still found, so
that a root which showed a book goes on to show it until the batch ends.
-/

namespace ContractLedger.Ledger

/-- What a step of a batch leaves of the state before it. -/
structure Leads (before after : Mounted Content) : Prop where
  store : after.store = before.store
  committed : after.ledger.accounts.committedRoot = before.ledger.accounts.committedRoot
  within : before.shelves.Within after.shelves

theorem Leads.refl (mounted : Mounted Content) : Leads mounted mounted :=
  ⟨rfl, rfl, .refl _⟩

theorem Leads.trans {first second third : Mounted Content} (before : Leads first second)
    (after : Leads second third) : Leads first third :=
  ⟨after.store.trans before.store, after.committed.trans before.committed,
    before.within.trans after.within⟩

/-- A step that succeeds with a value and leaves a sound ledger of a book, provided that what it
leaves pending is among the data. -/
def Succeeds {α : Type} (data : Set Bytes) (mounted : Mounted Content) (step : LedgerM Content α)
    (value : α) (book : Book) : Prop :=
  (ending (step mounted)).pending ⊆ data →
    ∃ after roots, step mounted = .ok value after ∧ Leads mounted after ∧
      Sound data after book roots

variable {data : Set Bytes} {content : Content} {ledger : Ledger} {mounted : Mounted Content}
  {book : Book} {roots : Address → Hash} {address : Address} {trie : Trie}

theorem Succeeds.of_read {α : Type} {step : LedgerM Content α} {value : α}
    (sound : Sound data mounted book roots) (ran : step mounted = .ok value mounted) :
    Succeeds data mounted step value book :=
  fun _ => ⟨mounted, roots, ran, .refl mounted, sound⟩

theorem Succeeds.after {α β : Type} {first : LedgerM Content α} {next : α → LedgerM Content β}
    {value : α} {result : β} {after : Mounted Content} (ran : first mounted = .ok value after)
    (leads : Leads mounted after) (succeeds : Succeeds data after (next value) result book) :
    Succeeds data mounted (first >>= next) result book := by
  intro pending
  rw [Step.bind_ok ran] at pending
  obtain ⟨last, roots, ranNext, leadsNext, sound⟩ := succeeds pending
  exact ⟨last, roots, (Step.bind_ok ran _).trans ranNext, leads.trans leadsNext, sound⟩

/-- A sequence of steps, of which the second keeps what the first leaves pending. -/
theorem Succeeds.bind {α β : Type} {first : LedgerM Content α} {next : α → LedgerM Content β}
    {value : α} {result : β} {last : Book} (succeeds : Succeeds data mounted first value book)
    (grows : ∀ value after, after.pending ⊆ (ending (next value after)).pending)
    (rest : ∀ after roots, Sound data after book roots →
      Succeeds data after (next value) result last) :
    Succeeds data mounted (first >>= next) result last := by
  intro pending
  have before : (ending (first mounted)).pending ⊆ data := by
    rw [Step.bind_apply] at pending
    cases ran : first mounted with
    | ok value after =>
      rw [ran] at pending
      exact (grows value after).trans pending
    | error error after =>
      rw [ran] at pending
      exact pending
  obtain ⟨after, roots, ran, leads, sound⟩ := succeeds before
  exact Succeeds.after ran leads (rest after roots sound) pending

theorem Succeeds.map {α β : Type} {step : LedgerM Content α} {value : α}
    (succeeds : Succeeds data mounted step value book) (change : α → β) :
    Succeeds data mounted (change <$> step) (change value) book := by
  intro pending
  rw [ending_map] at pending
  obtain ⟨last, roots, ran, leads, sound⟩ := succeeds pending
  exact ⟨last, roots, Step.map_ok ran change, leads, sound⟩

theorem Succeeds.answering {α β : Type} {step : LedgerM Content α} {value : α}
    (succeeds : Succeeds data mounted step value book) (result : β) :
    Succeeds data mounted (step >>= fun _ => pure result) result book := by
  have same : (step >>= fun _ => pure result) = (fun _ => result) <$> step :=
    bind_pure_comp (fun _ => result) step
  rw [same]
  exact succeeds.map fun _ => result

/-! Cached storage tries. -/

theorem get?_keepStorage (owner : Address) :
    (ledger.keepStorage address trie).storage.get? owner =
      if owner = address then some trie else ledger.storage.get? owner :=
  OrderedMap.get?_insert ..

private theorem shelves_keepStorage
    (kept : ∀ old, ledger.storage.get? address = some old →
      old.overlay.records ⊆ trie.overlay.records) :
    (ledger.shelves content).Within ((ledger.keepStorage address trie).shelves content) := by
  refine ⟨Set.Subset.refl _, fun owner => Set.union_subset_union_left _ ?_, Set.Subset.refl _⟩
  rintro record ⟨old, cached, member⟩
  by_cases same : owner = address
  · subst owner
    exact ⟨trie, by rw [get?_keepStorage, if_pos rfl], kept old cached member⟩
  · exact ⟨old, by rwa [get?_keepStorage, if_neg same], member⟩

private theorem pending_keepStorage_subset (pending : ledger.pending ⊆ data)
    (within : trie.overlay.records ⊆ data) : (ledger.keepStorage address trie).pending ⊆ data := by
  rintro bytes (inAccounts | ⟨owner, found, cached, inStorage⟩ | inCode)
  · exact pending (.inl inAccounts)
  · rw [get?_keepStorage] at cached
    split at cached
    · cases cached
      exact within inStorage
    · exact pending (.inr (.inl ⟨owner, found, cached, inStorage⟩))
  · exact pending (.inr (.inr inCode))

/-- A storage trie in order may take the place of a cached one. -/
theorem Orderly.keepStorage (orderly : ledger.Orderly data content)
    (space : trie.keyspace = .ofOwner address) (made : trie.overlay.Made)
    (opened : ∃ map, Keeps (content.shelves.storage address) trie.committedRoot map)
    (within : trie.overlay.records ⊆ data) :
    (ledger.keepStorage address trie).Orderly data content := by
  have split (property : Address → Trie → Prop) (here : property address trie)
      (others : ∀ owner found, ledger.storage.get? owner = some found → property owner found)
      (owner : Address) (found : Trie)
      (cached : (ledger.keepStorage address trie).storage.get? owner = some found) :
      property owner found := by
    rw [get?_keepStorage] at cached
    split at cached
    · next same =>
      cases cached
      exact same ▸ here
    · exact others owner found cached
  exact ⟨orderly.store, orderly.space, orderly.made, split _ space orderly.storageSpace,
    split (fun _ trie => trie.overlay.Made) made orderly.storageMade,
    split _ opened orderly.opened, orderly.code,
    pending_keepStorage_subset orderly.pending within⟩

/-- The state with a storage trie kept in the cache. -/
def Mounted.keeping (mounted : Mounted Content) (address : Address) (trie : Trie) :
    Mounted Content :=
  { mounted with ledger := mounted.ledger.keepStorage address trie }

theorem leads_keeping
    (kept : ∀ old, mounted.ledger.storage.get? address = some old →
      old.overlay.records ⊆ trie.overlay.records) :
    Leads mounted (mounted.keeping address trie) :=
  ⟨rfl, rfl, shelves_keepStorage kept⟩

/-- Keeping a trie at the root of its owner, with at least the records of the one before it. -/
theorem Sound.keeping (sound : Sound data mounted book roots)
    (space : trie.keyspace = .ofOwner address) (made : trie.overlay.Made)
    (opened : ∃ map, Keeps (mounted.store.shelves.storage address) trie.committedRoot map)
    (within : trie.overlay.records ⊆ data)
    (kept : ∀ old, mounted.ledger.storage.get? address = some old →
      old.overlay.records ⊆ trie.overlay.records) (root : trie.root = roots address) :
    Sound data (mounted.keeping address trie) book roots := by
  refine ⟨sound.orderly.keepStorage space made opened within,
    sound.lists.mono (leads_keeping kept).within, fun owner found cached => ?_⟩
  rw [Mounted.keeping, get?_keepStorage] at cached
  split at cached
  · next same =>
    cases cached
    exact same ▸ root
  · exact sound.cached owner found cached

theorem storageTrie_sound (faithful : Faithful data) (sound : Sound data mounted book roots)
    (address : Address) :
    ∃ trie after, storageTrie address mounted = .ok trie after ∧ Leads mounted after ∧
      Sound data after book roots ∧ after.ledger.storage.get? address = some trie := by
  rw [storageTrie_apply]
  cases cached : mounted.ledger.storage.get? address with
  | some trie => exact ⟨trie, mounted, rfl, .refl mounted, sound, cached⟩
  | none =>
    rw [storageRoot_apply faithful sound.orderly sound.lists]
    have stored := sound.lists.storage address
    rw [Mounted.shelves, storage_of_not_cached cached] at stored
    have free (old : Trie) (found : mounted.ledger.storage.get? address = some old) :
        old.overlay.records ⊆ (Trie.ofRoot (.ofOwner address) (roots address)).overlay.records := by
      rw [cached] at found
      cases found
    refine ⟨_, mounted.keeping address (.ofRoot (.ofOwner address) (roots address)), rfl,
      leads_keeping free, sound.keeping rfl nofun ⟨_, stored⟩ ?_ free rfl, ?_⟩
    · rintro record member
      cases member
    · rw [Mounted.keeping, get?_keepStorage, if_pos rfl]

private theorem onStorage_ok {α : Type} {step : TrieM Content α} {value : α}
    {after : Mounted Content} {last : Trie.Mounted Content}
    (opened : storageTrie address mounted = .ok trie after)
    (ran : step ⟨trie, after.store⟩ = .ok value last) (same : last.store = after.store) :
    onStorage address step mounted = .ok value (after.keeping address last.trie) := by
  have opening : onStorage address step mounted = _ := Step.bind_ok opened _
  rw [opening]
  simp only [ran, same]
  rfl

/-- A step that reads the storage trie of an address finds a trie that spells the storage. -/
theorem onStorage_sound {α : Type} {step : TrieM Content α} {motive : α → Prop}
    (faithful : Faithful data) (sound : Sound data mounted book roots) (address : Address)
    (reads : ∀ (opened : Trie.Mounted Content) (tree : Tree),
      opened.trie.Orderly data opened.store → tree.Spells (book.holding address).storage →
      tree.Stored opened.records → opened.trie.root = tree.hash →
      ∃ value, step opened = .ok value opened ∧ motive value) :
    ∃ value after, onStorage address step mounted = .ok value after ∧ motive value ∧
      Leads mounted after ∧ Sound data after book roots := by
  obtain ⟨trie, after, opened, leads, soundAfter, cached⟩ := storageTrie_sound faithful sound address
  have orderly := soundAfter.orderly
  obtain ⟨tree, spells, root, stored⟩ := soundAfter.lists.storage address
  obtain ⟨value, read, holds⟩ := reads ⟨trie, after.store⟩ tree (orderly.trie cached) spells
    (by rwa [Trie.Mounted.records, orderly.trie_records cached])
    ((soundAfter.cached address trie cached).trans root.symm)
  have kept (old : Trie) (found : after.ledger.storage.get? address = some old) :
      old.overlay.records ⊆ trie.overlay.records := by
    obtain rfl := Option.some.inj (cached.symm.trans found)
    exact Set.Subset.refl _
  exact ⟨value, after.keeping address trie, onStorage_ok opened read rfl, holds,
    leads.trans (leads_keeping kept), soundAfter.keeping (orderly.storageSpace _ _ cached)
      (orderly.storageMade _ _ cached) (orderly.opened _ _ cached) (orderly.trie cached).within kept
      (soundAfter.cached _ _ cached)⟩

theorem getObject_sound (faithful : Faithful data) (sound : Sound data mounted book roots)
    (address : Address) (key : Bytes) :
    ∃ after, getObject address key mounted = .ok ((book.holding address).storage key) after ∧
      Leads mounted after ∧ Sound data after book roots := by
  obtain ⟨_, after, read, rfl, leads, soundAfter⟩ := onStorage_sound
    (motive := (· = (book.holding address).storage key)) faithful sound address
    fun opened tree orderly spells stored root =>
      ⟨_, Trie.get_tree faithful orderly spells.canonical stored root key, spells.get key⟩
  exact ⟨after, read, leads, soundAfter⟩

theorem getObject_succeeds (faithful : Faithful data) (sound : Sound data mounted book roots)
    (address : Address) (key : Bytes) :
    Succeeds data mounted (getObject address key) ((book.holding address).storage key) book := by
  obtain ⟨after, read, leads, soundAfter⟩ := getObject_sound faithful sound address key
  exact fun _ => ⟨after, roots, read, leads, soundAfter⟩

theorem getBalance_succeeds (faithful : Faithful data) (sound : Sound data mounted book roots)
    (address : Address) :
    Succeeds data mounted (getBalance address) (book.holding address).balance book :=
  .of_read sound (getBalance_apply faithful sound.orderly sound.lists address)

theorem getCode_succeeds (faithful : Faithful data) (sound : Sound data mounted book roots)
    (address : Address) : Succeeds data mounted (getCode address) (book.holding address).code book :=
  .of_read sound (getCode_apply faithful sound.orderly sound.lists address)

/-! Account records. -/

/-- Writing the record of a holding whose storage and code are found. -/
theorem writeAccount_lists (faithful : Faithful data)
    (orderly : mounted.ledger.Orderly data mounted.store)
    (lists : mounted.shelves.Lists mounted.ledger.root book roots) {holding : Holding} {root : Hash}
    (storage : Keeps (mounted.shelves.storage address) root holding.storage)
    (code : ∀ code, holding.code = some code → code ∈ mounted.shelves.code) :
    ∃ after, writeAccount address (holding.account root) mounted = .ok () after ∧
      Leads mounted after ∧ after.ledger.storage = mounted.ledger.storage ∧
      (after.pending ⊆ data → after.ledger.Orderly data after.store) ∧
      after.shelves.Lists after.ledger.root (book.set address holding)
        (Function.update roots address root) := by
  obtain ⟨tree, spells, top, stored⟩ := lists.accounts
  have present : tree.Stored (Trie.Mounted.records ⟨mounted.ledger.accounts, mounted.store⟩) := by
    rwa [Trie.Mounted.records, orderly.accounts_records]
  obtain ⟨fresh, ran, made, storedAfter⟩ := Trie.insert_tree faithful orderly.accounts
    spells.canonical present top.symm address.bytes (holding.account root).encode
  let accounts : Trie := { mounted.ledger.accounts with
    overlay := fresh ++ mounted.ledger.accounts.overlay
    root := (tree.put (Path.ofBytes address.bytes) (holding.account root).encode).hash }
  let after : Mounted Content := { mounted with ledger := { mounted.ledger with accounts } }
  have within : mounted.shelves.Within after.shelves := by
    refine ⟨Set.union_subset_union_left _ ?_, fun _ => Set.Subset.refl _, Set.Subset.refl _⟩
    exact Overlay.records_mono fun _ member => List.mem_append_right _ member
  refine ⟨after, ?_, ⟨rfl, rfl, within⟩, rfl, fun pending => ?_, ?_⟩
  · rw [writeAccount, onAccounts, ran]
    rfl
  · exact ⟨orderly.store, orderly.space, made.append orderly.made, orderly.storageSpace,
      orderly.storageMade, orderly.opened, orderly.code, pending⟩
  · refine lists.set within storage (fun bytes held => code bytes held) ⟨_, spells.put _ _, rfl, ?_⟩
    have records : after.shelves.accounts = accounts.records mounted.store := by
      rw [Trie.records, show accounts.keyspace = _ from orderly.space]
      rfl
    rw [records]
    exact storedAfter

private theorem writeAccount_sound (faithful : Faithful data)
    (orderly : mounted.ledger.Orderly data mounted.store)
    (lists : mounted.shelves.Lists mounted.ledger.root book roots) {holding : Holding} {root : Hash}
    (storage : Keeps (mounted.shelves.storage address) root holding.storage)
    (code : ∀ code, holding.code = some code → code ∈ mounted.shelves.code)
    (cached : ∀ owner trie, mounted.ledger.storage.get? owner = some trie →
      trie.root = Function.update roots address root owner) :
    Succeeds data mounted (writeAccount address (holding.account root)) ()
      (book.set address holding) := by
  intro pending
  obtain ⟨after, ran, leads, same, orderlyAfter, listsAfter⟩ :=
    writeAccount_lists faithful orderly lists storage code
  rw [ran] at pending
  refine ⟨after, _, ran, leads, orderlyAfter pending, listsAfter, ?_⟩
  rwa [same]

theorem setBalance_sound (faithful : Faithful data) (sound : Sound data mounted book roots)
    (address : Address) (balance : Amount) :
    Succeeds data mounted (setBalance address balance) ()
      (book.set address { book.holding address with balance }) := by
  have read := accountOrFresh_apply faithful sound.orderly sound.lists address
  have write := @writeAccount_sound data mounted book roots address faithful sound.orderly
    sound.lists { book.holding address with balance } (roots address)
    (sound.lists.storage address) (sound.lists.code address) fun owner trie cached => by
      rw [Function.update_eq_self]
      exact sound.cached owner trie cached
  exact .after read (.refl mounted) write

/-- The state of a batch in which the cached trie of an address, if there is one, is repointed. -/
theorem revertStorage_apply (address : Address) (root : Hash) :
    revertStorage address root mounted =
      .ok () (match mounted.ledger.storage.get? address with
        | some trie => mounted.keeping address (trie.revertTo root)
        | none => mounted) := rfl

private theorem revertStorage_orderly (orderly : mounted.ledger.Orderly data mounted.store)
    (address : Address) (root : Hash) :
    ∃ after, revertStorage address root mounted = .ok () after ∧ Leads mounted after ∧
      after.ledger.accounts = mounted.ledger.accounts ∧
      after.ledger.Orderly data after.store ∧
      ∀ owner trie, after.ledger.storage.get? owner = some trie →
        ∃ old, mounted.ledger.storage.get? owner = some old ∧
          trie.root = if owner = address then root else old.root := by
  rw [revertStorage_apply]
  cases cached : mounted.ledger.storage.get? address with
  | none =>
    refine ⟨mounted, rfl, .refl mounted, rfl, orderly, fun owner trie found => ⟨trie, found, ?_⟩⟩
    rw [if_neg]
    rintro rfl
    rw [cached] at found
    cases found
  | some trie =>
    have kept (old : Trie) (found : mounted.ledger.storage.get? address = some old) :
        old.overlay.records ⊆ (trie.revertTo root).overlay.records := by
      obtain rfl := Option.some.inj (cached.symm.trans found)
      exact Set.Subset.refl _
    have space : (trie.revertTo root).keyspace = .ofOwner address :=
      orderly.storageSpace address trie cached
    have made : (trie.revertTo root).overlay.Made := orderly.storageMade address trie cached
    have opened : ∃ map, Keeps (mounted.store.shelves.storage address)
        (trie.revertTo root).committedRoot map := orderly.opened address trie cached
    have within : (trie.revertTo root).overlay.records ⊆ data := (orderly.trie cached).within
    refine ⟨mounted.keeping address (trie.revertTo root), rfl, leads_keeping kept, rfl,
      orderly.keepStorage space made opened within, fun owner found stored => ?_⟩
    rw [Mounted.keeping, get?_keepStorage] at stored
    split at stored
    · next same =>
      cases stored
      exact ⟨trie, same ▸ cached, by rw [if_pos same]; rfl⟩
    · next apart => exact ⟨found, stored, by rw [if_neg apart]⟩

theorem createAccount_sound (faithful : Faithful data) (sound : Sound data mounted book roots)
    (address : Address) :
    Succeeds data mounted (createAccount address) .fresh (book.set address .fresh) := by
  obtain ⟨after, ran, leads, accounts, orderly, roots'⟩ :=
    revertStorage_orderly sound.orderly address Node.emptyRoot
  have lists := sound.lists.mono leads.within
  rw [show mounted.ledger.root = after.ledger.root from congrArg Trie.root accounts.symm] at lists
  have write := @writeAccount_sound data after book roots address faithful orderly lists .fresh
    Node.emptyRoot .empty nofun fun owner trie cached => by
      obtain ⟨old, before, root⟩ := roots' owner trie cached
      rw [root]
      by_cases same : owner = address
      · rw [if_pos same, same, Function.update_self]
      · rw [if_neg same, Function.update_of_ne same, sound.cached owner old before]
  exact .after ran leads (write.answering Account.fresh)

private theorem pending_before {α : Type} {step : LedgerM Content α}
    (agree : Agree Mounted.view Mounted.pending step step)
    (pending : (ending (step mounted)).pending ⊆ data) : mounted.pending ⊆ data :=
  (agree.grows mounted).trans pending

theorem setObject_sound (faithful : Faithful data) (sound : Sound data mounted book roots)
    (address : Address) (key value : Bytes) :
    Succeeds data mounted (setObject address key value) ()
      (book.set address { book.holding address with
        storage := Tree.written (book.holding address).storage key value }) := by
  have read := accountOrFresh_apply faithful sound.orderly sound.lists address
  obtain ⟨trie, opened, opening, leads, soundOpened, cached⟩ :=
    storageTrie_sound faithful sound address
  have orderly := soundOpened.orderly
  obtain ⟨tree, spells, root, stored⟩ := soundOpened.lists.storage address
  have present : tree.Stored (Trie.Mounted.records ⟨trie, opened.store⟩) := by
    rwa [Trie.Mounted.records, orderly.trie_records cached]
  have top : trie.root = tree.hash := by rw [soundOpened.cached address trie cached, root]
  obtain ⟨fresh, ran, made, storedAfter⟩ := Trie.insert_tree faithful (orderly.trie cached)
    spells.canonical present top key value
  let last : Trie := { trie with
    overlay := fresh ++ trie.overlay
    root := (tree.put (Path.ofBytes key) value).hash }
  let kept := opened.keeping address last
  have inserted : (do
      Trie.insert key value
      return (← getThe (Trie.Mounted Content)).trie.root : TrieM Content Hash)
        ⟨trie, opened.store⟩ = .ok last.root ⟨last, opened.store⟩ := Step.bind_ok ran _
  have wrote := onStorage_ok opening inserted rfl
  have held : kept.ledger.storage.get? address = some last :=
    (get?_keepStorage address).trans (if_pos rfl)
  have leadsKept : Leads opened kept := leads_keeping fun old found => by
    obtain rfl := Option.some.inj (cached.symm.trans found)
    exact Overlay.records_mono fun _ member => List.mem_append_right _ member
  unfold setObject
  refine .after read (.refl mounted) ?_
  refine .after wrote (leads.trans leadsKept) fun pending => ?_
  have within : last.overlay.records ⊆ data := fun record member =>
    pending_before (agree_writeAccount _ _) pending (.inr (.inl ⟨address, last, held, member⟩))
  have orderlyKept : kept.ledger.Orderly data kept.store :=
    orderly.keepStorage (orderly.storageSpace address trie cached)
      (made.append (orderly.storageMade address trie cached)) (orderly.opened address trie cached)
      within
  have keeps : Keeps (kept.shelves.storage address) last.root
      (Tree.written (book.holding address).storage key value) := by
    refine ⟨_, spells.put key value, rfl, ?_⟩
    rw [show kept.shelves.storage address = _ from (orderlyKept.trie_records held).symm]
    exact storedAfter
  have lists := soundOpened.lists.mono leadsKept.within
  let holding : Holding :=
    { book.holding address with storage := Tree.written (book.holding address).storage key value }
  have write := @writeAccount_sound data kept book roots address faithful orderlyKept lists
    holding last.root keeps (lists.code address)
  refine write (fun owner found stored => ?_) pending
  replace stored := (get?_keepStorage owner).symm.trans stored
  split at stored
  · next same =>
    cases stored
    rw [same, Function.update_self]
  · next apart => rw [Function.update_of_ne apart, soundOpened.cached owner found stored]

/-! Code. -/

private theorem setCode_staged (faithful : Faithful data) (sound : Sound data mounted book roots)
    (address : Address) {code : Bytes} (member : code ∈ data) :
    ∃ staged, setCode address code mounted =
        (do
          writeAccount address { (book.holding address).account (roots address) with
            codeHash := some (Keccak.digest code) }
          return Keccak.digest code : LedgerM Content Hash) staged ∧
      Leads mounted staged ∧ Sound data staged book roots ∧ code ∈ staged.shelves.code := by
  have orderly := sound.orderly
  have read := accountOrFresh_apply faithful orderly sound.lists address
  rw [setCode, Step.bind_ok read, Step.bind_ok (Step.get_apply mounted)]
  cases looked : mounted.ledger.pendingCode.lookup (Keccak.digest code) with
  | some found =>
    have pending : found ∈ Overlay.records mounted.ledger.pendingCode :=
      List.mem_map.mpr ⟨_, Overlay.mem_of_lookup looked, rfl⟩
    obtain rfl := orderly.eq_of_lookup_code faithful member looked
    exact ⟨mounted, rfl, .refl mounted, sound, .inl pending⟩
  | none =>
    have stored : onStore (ByteStore.read Column.code (Keccak.digest code).bytes) mounted =
        .ok (mounted.store Column.code (Keccak.digest code).bytes) mounted := by
      rw [onStore]
      simp only [ByteStore.read]
      rw [if_pos (by decide)]
    rw [Option.isNone_none, if_pos rfl, Step.bind_ok stored]
    cases found : mounted.store Column.code (Keccak.digest code).bytes with
    | some record =>
      obtain ⟨named, inside⟩ := orderly.store.code.named _ record found
      have same : record = code := faithful.apart (.inr inside) (.inr member) named.symm
      subst record
      exact ⟨mounted, rfl, .refl mounted, sound, .inr found⟩
    | none =>
      let ledger := { mounted.ledger with
        pendingCode := (Keccak.digest code, code) :: mounted.ledger.pendingCode }
      have within : mounted.shelves.Within (ledger.shelves mounted.store) :=
        ⟨Set.Subset.refl _, fun _ => Set.Subset.refl _, Set.union_subset_union_left _
          (Overlay.records_mono fun _ member => List.mem_cons_of_mem _ member)⟩
      rw [Option.isNone_none, if_pos rfl]
      refine ⟨{ mounted with ledger }, Step.bind_ok (Step.modify_apply _ mounted) _,
        ⟨rfl, rfl, within⟩, ⟨⟨orderly.store, orderly.space, orderly.made, orderly.storageSpace,
          orderly.storageMade, orderly.opened, ?_, ?_⟩, sound.lists.mono within, sound.cached⟩,
        .inl (List.mem_map.mpr ⟨_, List.mem_cons_self, rfl⟩)⟩
      · rintro hash bytes (_ | ⟨_, inside⟩)
        · rfl
        · exact orderly.code hash bytes inside
      · rintro bytes (inAccounts | inStorage | inCode)
        · exact orderly.pending (.inl inAccounts)
        · exact orderly.pending (.inr (.inl inStorage))
        · obtain ⟨entry, inside, rfl⟩ := List.mem_map.mp inCode
          rcases inside with _ | ⟨_, inside⟩
          · exact member
          · exact orderly.pending (.inr (.inr (List.mem_map.mpr ⟨entry, inside, rfl⟩)))

theorem setCode_sound (faithful : Faithful data) (sound : Sound data mounted book roots)
    (address : Address) {code : Bytes} (member : code ∈ data) :
    Succeeds data mounted (setCode address code) (Keccak.digest code)
      (book.set address { book.holding address with code := some code }) := by
  obtain ⟨staged, ran, leads, soundStaged, present⟩ := setCode_staged faithful sound address member
  have write := @writeAccount_sound data staged book roots address faithful soundStaged.orderly
    soundStaged.lists { book.holding address with code := some code } (roots address)
    (soundStaged.lists.storage address) (by rintro _ ⟨⟩; exact present) fun owner trie cached => by
      rw [Function.update_eq_self]
      exact soundStaged.cached owner trie cached
  intro pending
  rw [ran] at pending ⊢
  obtain ⟨last, newRoots, wrote, leadsLast, soundLast⟩ :=
    write.answering (Keccak.digest code) pending
  exact ⟨last, newRoots, wrote, leads.trans leadsLast, soundLast⟩

/-! Checkpoints. -/

private theorem revertAll_orderly (faithful : Faithful data) (owners : List Address)
    {mounted : Mounted Content} (orderly : mounted.ledger.Orderly data mounted.store)
    (lists : mounted.shelves.Lists mounted.ledger.root book roots) :
    ∃ after, (owners.forM fun address => do revertStorage address (← storageRoot address) :
        LedgerM Content Unit) mounted = .ok () after ∧ Leads mounted after ∧
      after.ledger.accounts = mounted.ledger.accounts ∧
      after.ledger.Orderly data after.store ∧
      ∀ owner trie, after.ledger.storage.get? owner = some trie →
        ∃ old, mounted.ledger.storage.get? owner = some old ∧
          trie.root = if owner ∈ owners then roots owner else old.root := by
  induction owners generalizing mounted with
  | nil => exact ⟨mounted, rfl, .refl mounted, rfl, orderly, fun owner trie cached =>
      ⟨trie, cached, by rw [if_neg (List.not_mem_nil)]⟩⟩
  | cons address owners ih =>
    have read := storageRoot_apply faithful orderly lists address
    obtain ⟨middle, ran, leads, accounts, orderlyMiddle, rootsMiddle⟩ :=
      revertStorage_orderly orderly address (roots address)
    have first : (do revertStorage address (← storageRoot address) : LedgerM Content Unit) mounted =
        .ok () middle := (Step.bind_ok read _).trans ran
    have listsMiddle := lists.mono leads.within
    rw [show mounted.ledger.root = middle.ledger.root from congrArg Trie.root accounts.symm]
      at listsMiddle
    obtain ⟨last, ranRest, leadsRest, accountsRest, orderlyLast, rootsLast⟩ :=
      ih orderlyMiddle listsMiddle
    refine ⟨last, (Step.bind_ok first _).trans ranRest, leads.trans leadsRest,
      accountsRest.trans accounts, orderlyLast, fun owner trie cached => ?_⟩
    obtain ⟨between, cachedBetween, rootLast⟩ := rootsLast owner trie cached
    obtain ⟨old, cachedOld, rootBetween⟩ := rootsMiddle owner between cachedBetween
    refine ⟨old, cachedOld, ?_⟩
    rw [rootLast, rootBetween]
    by_cases same : owner = address
    · simp [same]
    · simp [same]

theorem revertTo_sound (faithful : Faithful data) (sound : Sound data mounted book roots)
    {checkpoint : Hash} {earlier : Book} (shows : mounted.shelves.Shows checkpoint earlier) :
    ∃ after newRoots, revertTo checkpoint mounted = .ok () after ∧ Leads mounted after ∧
      Sound data after earlier newRoots := by
  obtain ⟨earlierRoots, lists⟩ := shows
  have orderly := sound.orderly
  let moved : Mounted Content := { mounted with
    ledger := { mounted.ledger with accounts := mounted.ledger.accounts.revertTo checkpoint } }
  have orderlyMoved : moved.ledger.Orderly data moved.store :=
    ⟨orderly.store, orderly.space, orderly.made, orderly.storageSpace, orderly.storageMade,
      orderly.opened, orderly.code, orderly.pending⟩
  have leadsMoved : Leads mounted moved := ⟨rfl, rfl, .refl _⟩
  obtain ⟨after, ran, leads, accounts, orderlyAfter, rootsAfter⟩ :=
    revertAll_orderly faithful mounted.ledger.storage.keys orderlyMoved lists
  refine ⟨after, earlierRoots, ran, leadsMoved.trans leads, orderlyAfter, ?_, ?_⟩
  · rw [show after.ledger.root = checkpoint from congrArg Trie.root accounts]
    exact lists.mono leads.within
  · intro owner trie cached
    obtain ⟨old, cachedOld, root⟩ := rootsAfter owner trie cached
    rw [root, if_pos]
    exact (OrderedMap.mem_keys _ owner).mpr (Option.isSome_of_eq_some cachedOld)

end ContractLedger.Ledger
