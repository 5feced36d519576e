import ContractLedger.Proofs.Ledger.Record
import ContractLedger.Proofs.Trie.Changes
import ContractLedger.Proofs.Trie.Pending

/-!
The state of a ledger as a map: a book gives the holding of every address that was ever written. A
root shows a book if the account trie of that root, the storage tries that its records name and the
code that they point at can all be found. A book has one root only, and where digests tell the data
apart, a root shows one book only.
-/

namespace ContractLedger

/-- What an account holds: its code if any was set, its balance, and the values of its storage. -/
structure Holding where
  code : Option Bytes
  balance : Amount
  storage : Bytes → Option Bytes

namespace Holding

def fresh : Holding := ⟨none, 0, fun _ => none⟩

/-- The account record of a holding, given the root of its storage. -/
def account (holding : Holding) (root : Hash) : Account :=
  ⟨holding.code.map Keccak.digest, root, holding.balance⟩

end Holding

/-- The holding of every address that was ever written. -/
abbrev Book := Address → Option Holding

namespace Book

def empty : Book := fun _ => none

/-- The holding of an address, a fresh one standing for an absent one. -/
def holding (book : Book) (address : Address) : Holding :=
  (book address).getD .fresh

def set (book : Book) (address : Address) (holding : Holding) : Book :=
  Function.update book address (some holding)

/-- The records of the account trie, given the roots of the storage tries. -/
def entries (book : Book) (roots : Address → Hash) : Bytes → Option Bytes := fun key =>
  (Address.ofBytes? key).bind fun address =>
    (book address).map fun holding => (holding.account (roots address)).encode

variable (book : Book) (roots : Address → Hash) (address : Address) (holding : Holding) (root : Hash)

theorem ofBytes?_bytes (address : Address) : Address.ofBytes? address.bytes = some address := by
  rw [Address.ofBytes?, dif_pos address.size]

theorem entries_address : book.entries roots address.bytes =
    (book address).map fun holding => (holding.account (roots address)).encode := by
  rw [entries, ofBytes?_bytes, Option.bind_some]

theorem set_same : book.set address holding address = some holding :=
  Function.update_self ..

theorem set_other {other : Address} (apart : other ≠ address) :
    book.set address holding other = book other :=
  Function.update_of_ne apart ..

theorem holding_set_same : (book.set address holding).holding address = holding := by
  rw [Book.holding, set_same, Option.getD_some]

theorem holding_set_other {other : Address} (apart : other ≠ address) :
    (book.set address holding).holding other = book.holding other := by
  rw [Book.holding, set_other book address holding apart, Book.holding]

private theorem bytes_injective {first second : Address} (same : first.bytes = second.bytes) :
    first = second := by
  cases first
  cases second
  cases same
  rfl

theorem entries_set : (book.set address holding).entries (Function.update roots address root) =
    Tree.written (book.entries roots) address.bytes (holding.account root).encode := by
  funext key
  rw [Tree.written, if_neg (Account.encode_ne_nil _)]
  cases spelled : Address.ofBytes? key with
  | none =>
    have apart : key ≠ address.bytes := by
      rintro rfl
      rw [ofBytes?_bytes] at spelled
      cases spelled
    rw [Function.update_of_ne apart, entries, entries, spelled]
    rfl
  | some other =>
    have bytes : key = other.bytes := by
      rw [Address.ofBytes?] at spelled
      split at spelled <;> cases spelled
      rfl
    subst bytes
    by_cases same : other = address
    · subst other
      rw [entries_address, set_same, Function.update_self, Function.update_self, Option.map_some]
    · rw [entries_address, set_other book address holding same, Function.update_of_ne same,
        Function.update_of_ne (mt bytes_injective same), entries_address]

end Book

noncomputable def Holding.storageRoot (holding : Holding) : Hash :=
  Tree.rootOf holding.storage

/-- Where a ledger finds what it needs: records of the account trie, records of the storage trie of
each address, and code. -/
structure Shelves where
  accounts : Set Bytes
  storage : Address → Set Bytes
  code : Set Bytes

namespace Shelves

structure Within (first second : Shelves) : Prop where
  accounts : first.accounts ⊆ second.accounts
  storage : ∀ address, first.storage address ⊆ second.storage address
  code : first.code ⊆ second.code

theorem Within.refl (shelves : Shelves) : shelves.Within shelves :=
  ⟨Set.Subset.refl _, fun _ => Set.Subset.refl _, Set.Subset.refl _⟩

theorem Within.trans {first second third : Shelves} (before : first.Within second)
    (after : second.Within third) : first.Within third :=
  ⟨before.accounts.trans after.accounts,
    fun address => (before.storage address).trans (after.storage address),
    before.code.trans after.code⟩

/-- Everything there is belongs to given data. -/
structure Among (shelves : Shelves) (data : Set Bytes) : Prop where
  accounts : shelves.accounts ⊆ data
  storage : ∀ address, shelves.storage address ⊆ data
  code : shelves.code ⊆ data

/-- A root under which a book is found, the roots of the storage tries being given. -/
structure Lists (shelves : Shelves) (root : Hash) (book : Book) (roots : Address → Hash) : Prop where
  accounts : Keeps shelves.accounts root (book.entries roots)
  storage : ∀ address, Keeps (shelves.storage address) (roots address) (book.holding address).storage
  code : ∀ address code, (book.holding address).code = some code → code ∈ shelves.code

/-- A root under which a book is found. -/
def Shows (shelves : Shelves) (root : Hash) (book : Book) : Prop :=
  ∃ roots, shelves.Lists root book roots

variable {shelves larger : Shelves} {root : Hash} {book other : Book} {roots : Address → Hash}
  {data : Set Bytes}

theorem Lists.mono (lists : shelves.Lists root book roots) (within : shelves.Within larger) :
    larger.Lists root book roots :=
  ⟨lists.accounts.mono within.accounts,
    fun address => (lists.storage address).mono (within.storage address),
    fun address code held => within.code (lists.code address code held)⟩

theorem Shows.mono (shows : shelves.Shows root book) (within : shelves.Within larger) :
    larger.Shows root book := by
  obtain ⟨roots, lists⟩ := shows
  exact ⟨roots, lists.mono within⟩

theorem shows_empty : shelves.Shows Node.emptyRoot Book.empty := by
  have none : Book.empty.entries (fun _ => Node.emptyRoot) = fun _ => none := by
    funext key
    cases spelled : Address.ofBytes? key <;> simp [Book.entries, Book.empty, spelled]
  refine ⟨fun _ => Node.emptyRoot, ?_, fun address => .empty, nofun⟩
  rw [none]
  exact .empty

theorem Lists.map_account (lists : shelves.Lists root book roots) (address : Address) :
    (book address).map (·.account (roots address)) =
      (book address).map fun holding => holding.account holding.storageRoot := by
  have storage := lists.storage address
  rw [Book.holding] at storage
  cases held : book address with
  | none => rfl
  | some holding =>
    rw [held] at storage
    exact congrArg (fun root => some (holding.account root)) storage.eq_rootOf

theorem Lists.set (lists : shelves.Lists root book roots) (within : shelves.Within larger)
    {address : Address} {holding : Holding} {storageRoot newRoot : Hash}
    (storage : Keeps (larger.storage address) storageRoot holding.storage)
    (code : ∀ code, holding.code = some code → code ∈ larger.code)
    (accounts : Keeps larger.accounts newRoot
      (Tree.written (book.entries roots) address.bytes (holding.account storageRoot).encode)) :
    larger.Lists newRoot (book.set address holding) (Function.update roots address storageRoot) := by
  refine ⟨by rwa [Book.entries_set], fun other => ?_, fun other bytes held => ?_⟩
  · by_cases same : other = address
    · subst other
      rwa [Function.update_self, Book.holding_set_same]
    · rw [Function.update_of_ne same, Book.holding_set_other book address holding same]
      exact (lists.storage other).mono (within.storage other)
  · by_cases same : other = address
    · subst other
      rw [Book.holding_set_same] at held
      exact code bytes held
    · rw [Book.holding_set_other book address holding same] at held
      exact within.code (lists.code other bytes held)

/-- Books with the same records have the same root. -/
theorem Lists.root_unique {roots' : Address → Hash} {root' : Hash}
    (lists : shelves.Lists root book roots) (again : larger.Lists root' other roots')
    (same : ∀ address, (book address).map (·.account (roots address)) =
      (other address).map (·.account (roots' address))) : root = root' := by
  have entries : book.entries roots = other.entries roots' := by
    funext key
    simp only [Book.entries]
    congr 1
    funext address
    have mapped := congrArg (Option.map Account.encode) (same address)
    simpa only [Option.map_map, Function.comp_def] using mapped
  have accounts := lists.accounts
  rw [entries] at accounts
  exact accounts.root_unique again.accounts

theorem Lists.accounts_unique (faithful : Faithful data) {roots' : Address → Hash}
    (lists : shelves.Lists root book roots) (among : shelves.Among data)
    (again : larger.Lists root other roots') (amongAgain : larger.Among data) (address : Address) :
    (book address).map (·.account (roots address)) =
      (other address).map (·.account (roots' address)) := by
  have entries := lists.accounts.map_unique faithful among.accounts again.accounts
    amongAgain.accounts
  have records := congrFun entries address.bytes
  rw [Book.entries_address, Book.entries_address] at records
  cases one : book address <;> cases two : other address <;> simp [one, two] at records ⊢
  exact Account.encode_injective records

/-- A root has one book only. -/
theorem Shows.book_unique (faithful : Faithful data) (shows : shelves.Shows root book)
    (among : shelves.Among data) (again : larger.Shows root other)
    (amongAgain : larger.Among data) : book = other := by
  obtain ⟨roots, lists⟩ := shows
  obtain ⟨roots', lists'⟩ := again
  funext address
  have accounts := lists.accounts_unique faithful among lists' amongAgain address
  have storage := lists.storage address
  have storage' := lists'.storage address
  have code := lists.code address
  have code' := lists'.code address
  simp only [Book.holding] at storage storage' code code'
  cases one : book address with
  | none =>
    cases two : other address with
    | none => rfl
    | some held => simp [one, two] at accounts
  | some holding =>
    cases two : other address with
    | none => simp [one, two] at accounts
    | some held =>
      simp only [one, two, Option.map_some, Option.some.injEq, Holding.account, Account.mk.injEq,
        Option.getD_some] at accounts storage storage' code code'
      obtain ⟨hashes, sameRoot, balances⟩ := accounts
      rw [← sameRoot] at storage'
      have maps := storage.map_unique faithful (among.storage address) storage'
        (amongAgain.storage address)
      have codes : holding.code = held.code := by
        cases first : holding.code <;> cases second : held.code <;> simp [first, second] at hashes ⊢
        exact faithful.apart (.inr (among.code (code _ first)))
          (.inr (amongAgain.code (code' _ second))) hashes
      cases holding
      cases held
      cases maps
      cases codes
      cases balances
      rfl

end Shelves

end ContractLedger
