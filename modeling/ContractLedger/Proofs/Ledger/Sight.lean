import ContractLedger.Proofs.Ledger.Site

/-!
What can be seen of a ledger: its root, and what it answers about every address. A sound ledger
answers everything, and what it answers is determined by its root and its book.
-/

namespace ContractLedger

/-- The root of a ledger with all its answers. -/
@[ext]
structure Sight where
  root : Hash
  account : Address → Except LedgerError (Option Account)
  code : Address → Except LedgerError (Option Bytes)
  balance : Address → Except LedgerError Amount
  object : Address → Bytes → Except LedgerError (Option Bytes)

/-- What an address holds as far as accounts can tell: a code hash, a balance, and what reading the
storage answers. -/
@[ext]
structure Entry where
  codeHash : Option Hash
  balance : Amount
  object : Bytes → Except LedgerError (Option Bytes)

namespace Sight

/-- The state of the ledger as a map; nothing where there is no record. -/
def entry (sight : Sight) (address : Address) : Except LedgerError (Option Entry) :=
  (sight.account address).map fun found =>
    found.map fun account => ⟨account.codeHash, account.balance, sight.object address⟩

structure Complete (sight : Sight) : Prop where
  account : ∀ address, ∃ account, sight.account address = .ok account
  code : ∀ address, ∃ code, sight.code address = .ok code
  balance : ∀ address, ∃ balance, sight.balance address = .ok balance
  object : ∀ address key, ∃ value, sight.object address key = .ok value

/-- What a ledger at a root answers if it holds a book. -/
noncomputable def ofBook (root : Hash) (book : Book) : Sight where
  root
  account address := .ok ((book address).map fun holding => holding.account holding.storageRoot)
  code address := .ok (book.holding address).code
  balance address := .ok (book.holding address).balance
  object address key := .ok ((book.holding address).storage key)

theorem complete_ofBook (root : Hash) (book : Book) : (ofBook root book).Complete :=
  ⟨fun _ => ⟨_, rfl⟩, fun _ => ⟨_, rfl⟩, fun _ => ⟨_, rfl⟩, fun _ _ => ⟨_, rfl⟩⟩

theorem entry_ofBook (root : Hash) (book : Book) (address : Address) :
    (ofBook root book).entry address = .ok ((book address).map fun holding =>
      ⟨holding.code.map Keccak.digest, holding.balance, fun key => .ok (holding.storage key)⟩) := by
  rw [entry, ofBook]
  simp only [Except.map, Option.map_map, Book.holding]
  cases book address <;> rfl

/-- The hash of the code of an address; nothing where there is no record. -/
theorem codeHash_ofBook (root : Hash) (book : Book) (address : Address) :
    ((ofBook root book).account address).map (·.bind Account.codeHash) =
      .ok ((book.holding address).code.map Keccak.digest) := by
  simp only [ofBook, Except.map, Book.holding]
  cases book address <;> rfl

end Sight

namespace Ledger

def Mounted.sight {σ : Type} [ByteStore σ] (mounted : Mounted σ) : Sight where
  root := mounted.ledger.root
  account address := answer (account address mounted)
  code address := answer (getCode address mounted)
  balance address := answer (getBalance address mounted)
  object address key := answer (getObject address key mounted)

/-- What is seen of a ledger over a reliable store is seen over its content. -/
theorem sight_view {σ : Type} [ByteStore σ] [ReliableStore σ] (mounted : Mounted σ) :
    mounted.view.sight = mounted.sight := by
  have seen {α : Type} {step : LedgerM σ α} {stepContent : LedgerM Content α}
      (agree : Agree Mounted.view Mounted.pending step stepContent) :
      answer (stepContent mounted.view) = answer (step mounted) := by
    rw [← agree.same, answer_through]
  ext address : 2
  · rfl
  · exact seen (agree_account address)
  · exact seen (agree_getCode address)
  · exact seen (agree_getBalance address)
  · funext key
    exact seen (agree_getObject address key)

variable {data : Set Bytes} {mounted other : Mounted Content} {book : Book}
  {roots otherRoots : Address → Hash}

theorem Sound.sight (faithful : Faithful data) (sound : Sound data mounted book roots) :
    mounted.sight = .ofBook mounted.ledger.root book := by
  have orderly := sound.orderly
  have lists := sound.lists
  ext address : 2
  · rfl
  · simp only [Mounted.sight, account_apply faithful orderly lists, answer, Sight.ofBook,
      lists.map_account]
  · simp only [Mounted.sight, getCode_apply faithful orderly lists, answer, Sight.ofBook]
  · simp only [Mounted.sight, getBalance_apply faithful orderly lists, answer, Sight.ofBook]
  · funext key
    obtain ⟨after, read, _⟩ := getObject_sound faithful sound address key
    simp only [Mounted.sight, read, answer, Sight.ofBook]

/-- Every read of a sound ledger succeeds. -/
theorem Sound.complete (faithful : Faithful data) (sound : Sound data mounted book roots) :
    mounted.sight.Complete := by
  rw [sound.sight faithful]
  exact Sight.complete_ofBook _ _

theorem Sound.root_eq (sound : Sound data mounted book roots)
    (again : Sound data other book otherRoots) : mounted.ledger.root = other.ledger.root := by
  refine sound.lists.root_unique again.lists fun address => ?_
  rw [sound.lists.map_account, again.lists.map_account]

/-- Sound ledgers of the same book cannot be told apart. -/
theorem Sound.sight_eq (faithful : Faithful data) (sound : Sound data mounted book roots)
    (again : Sound data other book otherRoots) : mounted.sight = other.sight := by
  rw [sound.sight faithful, again.sight faithful, sound.root_eq again]

/-- A ledger that an opening turns into one of which a given sight is seen. -/
def Mounted.Gives {σ : Type} [ByteStore σ] (mounted : Mounted σ) (opening : LedgerM σ Unit)
    (sight : Sight) : Prop :=
  ∃ opened, opening mounted = .ok () opened ∧ opened.sight = sight

theorem Mounted.Gives.of_shows (faithful : Faithful data) (orderly : mounted.store.Orderly data)
    {root : Hash} (shows : mounted.store.shelves.Shows root book) {opening : LedgerM Content Unit}
    (ran : ∃ journal, opening mounted = .ok () ⟨.ofRoot root, mounted.store, journal⟩) :
    mounted.Gives opening (.ofBook root book) := by
  obtain ⟨roots, lists⟩ := shows
  obtain ⟨journal, ran⟩ := ran
  exact ⟨_, ran, (sound_ofRoot orderly lists journal).sight faithful⟩

/-- An opening over a reliable store gives what it gives over the content. -/
theorem Mounted.Gives.of_view {σ : Type} [ByteStore σ] [ReliableStore σ] {mounted : Mounted σ}
    {opening : LedgerM σ Unit} {openingContent : LedgerM Content Unit} {sight : Sight}
    (agree : Agree Mounted.view unmeasured opening openingContent)
    (gives : mounted.view.Gives openingContent sight) : mounted.Gives opening sight := by
  obtain ⟨_, ran, seen⟩ := gives
  obtain ⟨opened, ranHere, rfl⟩ := through_eq_ok ((agree.same mounted).trans ran)
  rw [sight_view] at seen
  exact ⟨opened, ranHere, seen⟩

/-- A ledger that cannot be told from what an opening of its store gives. -/
def Mounted.Reopens {σ : Type} [ByteStore σ] (mounted : Mounted σ) (opening : LedgerM σ Unit) :
    Prop :=
  ∀ ledger journal, ∃ opened, opening ⟨ledger, mounted.store, journal⟩ = .ok () opened ∧
    opened.sight = mounted.sight

private theorem Sound.reopens (faithful : Faithful data) (sound : Sound data mounted book roots)
    (shows : mounted.store.shelves.Shows mounted.ledger.root book) {opening : LedgerM Content Unit}
    (opens : ∀ ledger journal, ∃ journalAfter, opening ⟨ledger, mounted.store, journal⟩ =
      .ok () ⟨.ofRoot mounted.ledger.root, mounted.store, journalAfter⟩) :
    mounted.Reopens opening := by
  intro ledger journal
  rw [sound.sight faithful]
  exact @Mounted.Gives.of_shows data ⟨ledger, mounted.store, journal⟩ book faithful
    sound.orderly.store _ shows opening (opens ledger journal)

/-- A sound ledger of a book that its store shows is opened again at its root. -/
theorem Sound.reopens_openAt (faithful : Faithful data) (sound : Sound data mounted book roots)
    (shows : mounted.store.shelves.Shows mounted.ledger.root book) :
    mounted.Reopens (openAt mounted.ledger.root) :=
  sound.reopens faithful shows fun ledger journal =>
    @openAt_known ⟨ledger, mounted.store, journal⟩ _ shows.choose_spec.knows

/-- After a commit a ledger is opened again without telling its root. -/
theorem Sound.reopens_openLatest (faithful : Faithful data) (sound : Sound data mounted book roots)
    (shows : mounted.store.shelves.Shows mounted.ledger.root book)
    (latest : mounted.store Column.accounts latestRootKey = some mounted.ledger.root.bytes) :
    mounted.Reopens openLatest :=
  sound.reopens faithful shows fun ledger journal =>
    @openLatest_some ⟨ledger, mounted.store, journal⟩ _ latest shows.choose_spec.knows

/-- What a commit leaves is opened again, at its root and without telling it. -/
theorem Commits.reopens {before after : Mounted Content} (faithful : Faithful data)
    (commits : Commits data before after book roots) :
    after.Reopens openLatest ∧ after.Reopens (openAt before.ledger.root) := by
  have sound := commits.sound
  have root : after.ledger.root = before.ledger.root := by
    rw [commits.ledger]
    rfl
  have shows : after.store.shelves.Shows before.ledger.root book := ⟨roots, commits.lists⟩
  have latest := commits.latest
  rw [← root] at shows latest ⊢
  exact ⟨sound.reopens_openLatest faithful shows latest, sound.reopens_openAt faithful shows⟩

/-- A ledger over a reliable store is opened again if it is over the content. -/
theorem Mounted.Reopens.of_view {σ : Type} [ByteStore σ] [ReliableStore σ] {mounted : Mounted σ}
    {opening : LedgerM σ Unit} {openingContent : LedgerM Content Unit}
    (agree : Agree Mounted.view unmeasured opening openingContent)
    (reopens : mounted.view.Reopens openingContent) : mounted.Reopens opening := by
  intro ledger journal
  have gives := reopens ledger journal
  rw [sight_view] at gives
  exact Mounted.Gives.of_view agree gives

end Ledger

end ContractLedger
