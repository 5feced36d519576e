import ContractLedger.Proofs.Ledger.Book
import ContractLedger.Proofs.Ledger.View
import ContractLedger.Proofs.Trie.Written

/-!
Sound ledgers. The records of a sound ledger are in order, in memory and in the store; its root
shows a book; and every cached storage trie is at the root that the record of its owner gives, so
that the two places which tell the storage of an address never disagree. Reading a sound ledger
finds what its book says.
-/

namespace ContractLedger

namespace Content

/-- What is found in a store alone. -/
def shelves (content : Content) : Shelves :=
  ⟨(Keyspace.ofColumn Column.accounts).records content,
    fun owner => (Keyspace.ofOwner owner).records content,
    (Keyspace.ofColumn Column.code).records content⟩

/-- A store whose records are in order and complete: with each record there is all that it names. -/
structure Orderly (data : Set Bytes) (content : Content) : Prop where
  accounts : (Keyspace.ofColumn Column.accounts).Orderly data content
  storage : ∀ owner, (Keyspace.ofOwner owner).Orderly data content
  code : (Keyspace.ofColumn Column.code).Orderly data content
  accountsClosed : (Keyspace.ofColumn Column.accounts).Closed content
  storageClosed : ∀ owner, (Keyspace.ofOwner owner).Closed content

theorem Orderly.among {data : Set Bytes} {content : Content} (orderly : content.Orderly data) :
    content.shelves.Among data :=
  ⟨orderly.accounts.records_subset, fun owner => (orderly.storage owner).records_subset,
    orderly.code.records_subset⟩

theorem Orderly.used {data : Set Bytes} {content : Content} (orderly : content.Orderly data)
    (space : Keyspace) (used : space.Used) : space.Orderly data content := by
  rcases used with rfl | rfl | ⟨owner, rfl⟩
  · exact orderly.accounts
  · exact orderly.code
  · exact orderly.storage owner

end Content

namespace Ledger

/-- What is found in memory or in the store. -/
def shelves (ledger : Ledger) (content : Content) : Shelves :=
  ⟨ledger.accounts.overlay.records ∪ content.shelves.accounts,
    fun owner =>
      { record | ∃ trie, ledger.storage.get? owner = some trie ∧ record ∈ trie.overlay.records } ∪
        content.shelves.storage owner,
    Overlay.records ledger.pendingCode ∪ content.shelves.code⟩

def Mounted.shelves (mounted : Mounted Content) : Shelves :=
  mounted.ledger.shelves mounted.store

/-- A ledger whose records are in order, over a store of which that holds too. Every cached storage
trie was opened at a root that the store holds. -/
structure Orderly (data : Set Bytes) (content : Content) (ledger : Ledger) : Prop where
  store : content.Orderly data
  space : ledger.accounts.keyspace = .ofColumn Column.accounts
  made : ledger.accounts.overlay.Made
  storageSpace : ∀ owner trie, ledger.storage.get? owner = some trie →
    trie.keyspace = .ofOwner owner
  storageMade : ∀ owner trie, ledger.storage.get? owner = some trie → trie.overlay.Made
  opened : ∀ owner trie, ledger.storage.get? owner = some trie →
    ∃ map, Keeps (content.shelves.storage owner) trie.committedRoot map
  code : ∀ hash code, (hash, code) ∈ ledger.pendingCode → hash = Keccak.digest code
  pending : ledger.pending ⊆ data

/-- A ledger in order whose root shows a book, with every cached storage trie at the root of its
owner. -/
structure Sound (data : Set Bytes) (mounted : Mounted Content) (book : Book)
    (roots : Address → Hash) : Prop where
  orderly : mounted.ledger.Orderly data mounted.store
  lists : mounted.shelves.Lists mounted.ledger.root book roots
  cached : ∀ owner trie, mounted.ledger.storage.get? owner = some trie → trie.root = roots owner

variable {data : Set Bytes} {content : Content} {ledger : Ledger} {mounted : Mounted Content}
  {book : Book} {roots : Address → Hash} {address : Address}

theorem shelves_within : content.shelves.Within (ledger.shelves content) :=
  ⟨Set.subset_union_right, fun _ => Set.subset_union_right, Set.subset_union_right⟩

theorem Orderly.among (orderly : ledger.Orderly data content) :
    (ledger.shelves content).Among data := by
  have store := orderly.store.among
  refine ⟨Set.union_subset (fun _ member => orderly.pending (.inl member)) store.accounts,
    fun owner => Set.union_subset ?_ (store.storage owner),
    Set.union_subset (fun _ member => orderly.pending (.inr (.inr member))) store.code⟩
  rintro record ⟨trie, cached, member⟩
  exact orderly.pending (.inr (.inl ⟨owner, trie, cached, member⟩))

theorem Orderly.accounts (orderly : ledger.Orderly data content) :
    ledger.accounts.Orderly data content := by
  refine ⟨?_, orderly.made, fun _ member => orderly.pending (.inl member)⟩
  rw [orderly.space]
  exact orderly.store.accounts

theorem Orderly.trie (orderly : ledger.Orderly data content) {trie : Trie}
    (cached : ledger.storage.get? address = some trie) : trie.Orderly data content := by
  refine ⟨?_, orderly.storageMade address trie cached,
    fun _ member => orderly.pending (.inr (.inl ⟨address, trie, cached, member⟩))⟩
  rw [orderly.storageSpace address trie cached]
  exact orderly.store.storage address

theorem Orderly.accounts_records (orderly : ledger.Orderly data content) :
    ledger.accounts.records content = (ledger.shelves content).accounts := by
  rw [Trie.records, orderly.space]
  rfl

theorem Orderly.trie_records (orderly : ledger.Orderly data content) {trie : Trie}
    (cached : ledger.storage.get? address = some trie) :
    trie.records content = (ledger.shelves content).storage address := by
  rw [Trie.records, orderly.storageSpace address trie cached]
  ext record
  constructor
  · exact Or.imp_left fun member => ⟨trie, cached, member⟩
  · refine Or.imp_left ?_
    rintro ⟨other, again, member⟩
    obtain rfl := Option.some.inj (cached.symm.trans again)
    exact member

/-- Where no trie is cached, storage is found in the store alone. -/
theorem storage_of_not_cached (absent : ledger.storage.get? address = none) :
    (ledger.shelves content).storage address = content.shelves.storage address := by
  ext record
  constructor
  · rintro (⟨trie, cached, _⟩ | stored)
    · rw [absent] at cached
      cases cached
    · exact stored
  · exact .inr

/-! Reading. -/

theorem account_apply (faithful : Faithful data)
    (orderly : mounted.ledger.Orderly data mounted.store)
    (lists : mounted.shelves.Lists mounted.ledger.root book roots) (address : Address) :
    account address mounted = .ok ((book address).map (·.account (roots address))) mounted := by
  obtain ⟨tree, spells, root, stored⟩ := lists.accounts
  have read : Trie.get address.bytes ⟨mounted.ledger.accounts, mounted.store⟩ =
      .ok (book.entries roots address.bytes) ⟨mounted.ledger.accounts, mounted.store⟩ := by
    rw [← spells.get]
    apply Trie.get_tree faithful orderly.accounts spells.canonical _ root.symm
    rwa [Trie.Mounted.records, orderly.accounts_records]
  have found : onAccounts (Trie.get address.bytes) mounted =
      .ok (book.entries roots address.bytes) mounted := by
    rw [onAccounts, read]
  rw [account, Step.bind_ok found, Book.entries_address]
  cases book address with
  | none => rfl
  | some holding =>
    simp only [Option.map_some, Step.map_apply, readAccount, Account.decode_encode, Step.pure_apply]

theorem accountOrFresh_apply (faithful : Faithful data)
    (orderly : mounted.ledger.Orderly data mounted.store)
    (lists : mounted.shelves.Lists mounted.ledger.root book roots) (address : Address) :
    accountOrFresh address mounted =
      .ok ((book.holding address).account (roots address)) mounted := by
  rw [accountOrFresh, Step.bind_ok (account_apply faithful orderly lists address), Step.pure_apply]
  have storage := lists.storage address
  rw [Book.holding] at storage ⊢
  cases held : book address with
  | some holding => rfl
  | none =>
    rw [held] at storage
    have fresh : roots address = Node.emptyRoot :=
      storage.root_unique (Keeps.empty : Keeps (mounted.shelves.storage address) _ _)
    rw [fresh]
    rfl

theorem storageRoot_apply (faithful : Faithful data)
    (orderly : mounted.ledger.Orderly data mounted.store)
    (lists : mounted.shelves.Lists mounted.ledger.root book roots) (address : Address) :
    storageRoot address mounted = .ok (roots address) mounted := by
  rw [storageRoot, Step.bind_ok (accountOrFresh_apply faithful orderly lists address)]
  rfl

theorem getBalance_apply (faithful : Faithful data)
    (orderly : mounted.ledger.Orderly data mounted.store)
    (lists : mounted.shelves.Lists mounted.ledger.root book roots) (address : Address) :
    getBalance address mounted = .ok (book.holding address).balance mounted := by
  rw [getBalance, Step.bind_ok (accountOrFresh_apply faithful orderly lists address)]
  rfl

/-- The code that is pending under the hash of given code is that code. -/
theorem Orderly.eq_of_lookup_code {ledger : Ledger} {content : Content} (faithful : Faithful data)
    (orderly : ledger.Orderly data content) {code found : Bytes} (member : code ∈ data)
    (looked : ledger.pendingCode.lookup (Keccak.digest code) = some found) : found = code :=
  Overlay.eq_of_lookup faithful orderly.code (fun _ inside => orderly.pending (.inr (.inr inside)))
    member looked

theorem code_found (faithful : Faithful data) (orderly : mounted.ledger.Orderly data mounted.store)
    {code : Bytes} (present : code ∈ mounted.shelves.code) :
    (∃ found, mounted.ledger.pendingCode.lookup (Keccak.digest code) = some found ∧ found = code) ∨
      (mounted.ledger.pendingCode.lookup (Keccak.digest code) = none ∧
        onStore (ByteStore.read Column.code (Keccak.digest code).bytes) mounted =
          .ok (some code) mounted) := by
  have member : code ∈ data := orderly.among.code present
  cases found : mounted.ledger.pendingCode.lookup (Keccak.digest code) with
  | some other =>
    exact .inl ⟨other, rfl, orderly.eq_of_lookup_code faithful member found⟩
  | none =>
    refine .inr ⟨rfl, ?_⟩
    have stored : mounted.store Column.code (Keccak.digest code).bytes = some code := by
      exact present.resolve_left (Overlay.not_mem_of_lookup orderly.code found)
    rw [onStore]
    simp only [ByteStore.read]
    rw [if_pos (by decide), stored]

theorem getCode_apply (faithful : Faithful data)
    (orderly : mounted.ledger.Orderly data mounted.store)
    (lists : mounted.shelves.Lists mounted.ledger.root book roots) (address : Address) :
    getCode address mounted = .ok (book.holding address).code mounted := by
  have code := lists.code address
  rw [getCode, Step.bind_ok (account_apply faithful orderly lists address)]
  rw [Book.holding] at code ⊢
  cases held : book address with
  | none => rfl
  | some holding =>
    rw [held] at code
    simp only [Option.map_some, Option.bind_some, Holding.account, Option.getD_some] at code ⊢
    cases which : holding.code with
    | none => rfl
    | some bytes =>
      simp only [Option.map_some]
      rw [Step.bind_ok (Step.get_apply mounted)]
      rcases code_found faithful orderly (code bytes which) with
        ⟨found, looked, rfl⟩ | ⟨looked, read⟩
      · simp only [looked]
        rfl
      · simp only [looked]
        rw [Step.bind_ok read]
        rfl

end Ledger

end ContractLedger
