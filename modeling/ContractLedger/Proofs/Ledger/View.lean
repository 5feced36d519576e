import ContractLedger.Ledger.Basic
import ContractLedger.Proofs.OrderedMap
import ContractLedger.Proofs.Trie.View

/-!
Ledgers over a reliable store do what they do over its content. What waits for the next commit stays
there whatever is read, written, checked or reverted; only the steps that end a batch drop it.
-/

namespace ContractLedger.Ledger

section Opening

variable {σ : Type} [ByteStore σ]

/-- Reading an account leaves the cached storage tries alone. -/
theorem storage_account (address : Address) (mounted : Mounted σ) :
    (ending (account address mounted)).ledger.storage = mounted.ledger.storage := by
  rw [account, Step.bind_apply, onAccounts]
  cases Trie.get address.bytes ⟨mounted.ledger.accounts, mounted.store⟩ with
  | error error after => rfl
  | ok record after =>
    cases record with
    | none => rfl
    | some record =>
      simp only [Step.map_apply, readAccount]
      cases Account.decode record <;> rfl

theorem storage_storageRoot (address : Address) (mounted : Mounted σ) :
    (ending (storageRoot address mounted)).ledger.storage = mounted.ledger.storage := by
  have read := storage_account address mounted
  rw [storageRoot, accountOrFresh, Step.bind_apply, Step.bind_apply]
  cases ran : account address mounted <;> rw [ran] at read <;> exact read

/-- Opening a storage trie: the cached one, or one at the root that the account gives, which is
then cached. -/
theorem storageTrie_apply (address : Address) (mounted : Mounted σ) :
    storageTrie address mounted =
      match mounted.ledger.storage.get? address with
      | some trie => .ok trie mounted
      | none =>
        match storageRoot address mounted with
        | .ok root after =>
          let trie := Trie.ofRoot (.ofOwner address) root
          .ok trie { after with ledger := after.ledger.keepStorage address trie }
        | .error error after => .error error after := by
  rw [storageTrie, Step.bind_ok (Step.get_apply mounted), Step.bind_apply]
  unfold StorageCache.getOrOpen
  cases mounted.ledger.storage.get? address with
  | some trie => rfl
  | none =>
    have kept := storage_storageRoot address mounted
    simp only [Step.bind_apply]
    cases ran : storageRoot address mounted with
    | error error after => rfl
    | ok root after =>
      rw [ran] at kept
      simp only [Step.pure_apply, Step.modify_apply, keepStorage]
      rw [← kept]
      rfl

end Opening

variable {σ : Type} [ByteStore σ] [ReliableStore σ]

/-- The byte strings that wait for the next commit: records of the account trie and of the storage
tries of the batch, and code. -/
def pending (ledger : Ledger) : Set Bytes :=
  { bytes | bytes ∈ ledger.accounts.overlay.records ∨
    (∃ owner trie, ledger.storage.get? owner = some trie ∧ bytes ∈ trie.overlay.records) ∨
    bytes ∈ Overlay.records ledger.pendingCode }

/-- What waits for the next commit, in a list. -/
def pendingList (ledger : Ledger) : List Bytes :=
  ledger.accounts.overlay.map (·.2) ++
    ledger.storage.values.flatMap (fun trie => trie.overlay.map (·.2)) ++
      ledger.pendingCode.map (·.2)

theorem mem_pendingList {ledger : Ledger} {bytes : Bytes} :
    bytes ∈ ledger.pendingList ↔ bytes ∈ ledger.pending := by
  rw [pendingList, List.append_assoc, List.mem_append, List.mem_append, List.mem_flatMap]
  refine or_congr Iff.rfl (or_congr ?_ Iff.rfl)
  simp only [OrderedMap.mem_values]
  constructor
  · rintro ⟨trie, ⟨owner, cached⟩, member⟩
    exact ⟨owner, trie, cached, member⟩
  · rintro ⟨owner, trie, cached, member⟩
    exact ⟨trie, ⟨owner, cached⟩, member⟩

/-- Keeping a trie in the cache loses nothing if it has what the one before it had. -/
theorem pending_keepStorage {ledger : Ledger} {address : Address} {trie : Trie}
    (within : ∀ old, ledger.storage.get? address = some old →
      old.overlay.records ⊆ trie.overlay.records) :
    ledger.pending ⊆ (ledger.keepStorage address trie).pending := by
  rintro bytes (inAccounts | ⟨owner, old, found, inStorage⟩ | inCode)
  · exact .inl inAccounts
  · by_cases same : owner = address
    · subst owner
      exact .inr (.inl ⟨address, trie, by rw [keepStorage, OrderedMap.get?_insert, if_pos rfl],
        within old found inStorage⟩)
    · exact .inr (.inl ⟨owner, old, by rwa [keepStorage, OrderedMap.get?_insert, if_neg same],
        inStorage⟩)
  · exact .inr (.inr inCode)

theorem pending_accounts {ledger : Ledger} {trie : Trie}
    (within : ledger.accounts.overlay.records ⊆ trie.overlay.records) :
    ledger.pending ⊆ { ledger with accounts := trie }.pending :=
  fun _ member => member.imp_left (within ·)

def Mounted.pending (mounted : Mounted Content) : Set Bytes :=
  mounted.ledger.pending

/-- A mounted ledger over the content of its store. -/
def Mounted.view (mounted : Mounted σ) : Mounted Content :=
  ⟨mounted.ledger, content mounted.store, mounted.journal⟩

theorem agree_tell (severity : Severity) (text : String) :
    Agree Mounted.view Mounted.pending (tell severity text : LedgerM σ Unit) (tell severity text) :=
  .changed (fun _ => rfl) fun _ => Set.Subset.refl _

theorem agree_onStore {α : Type} {access : EStateM StoreError σ α}
    {accessContent : EStateM StoreError Content α}
    (agree : Agree content unmeasured access accessContent) :
    Agree Mounted.view Mounted.pending (onStore access) (onStore accessContent) := by
  constructor
  · intro mounted
    simp only [onStore, Mounted.view, ← agree.same mounted.store]
    cases access mounted.store <;> rfl
  · intro mounted
    unfold onStore
    cases accessContent mounted.view.store <;> exact Set.Subset.refl _

theorem agree_readStore (column : Nat) (key : Bytes) :
    Agree Mounted.view Mounted.pending (onStore (ByteStore.read column key) : LedgerM σ _)
      (onStore (ByteStore.read column key)) :=
  agree_onStore (.of_same (ReliableStore.read_content column key))

theorem agree_writeStore (ops : List StoreOp) :
    Agree Mounted.view Mounted.pending (onStore (ByteStore.write ops) : LedgerM σ _)
      (onStore (ByteStore.write ops)) :=
  agree_onStore (.of_same (ReliableStore.write_content ops))

private theorem same_onAccounts {α γ : Type} {measure : Trie.Mounted Content → Set γ}
    {step : TrieM σ α} {stepContent : TrieM Content α}
    (agree : Agree Trie.Mounted.view measure step stepContent) (mounted : Mounted σ) :
    through Mounted.view (onAccounts step mounted) = onAccounts stepContent mounted.view := by
  have same := agree.same ⟨mounted.ledger.accounts, mounted.store⟩
  simp only [Trie.Mounted.view] at same
  simp only [onAccounts, Mounted.view, ← same]
  cases step ⟨mounted.ledger.accounts, mounted.store⟩ <;> rfl

theorem agree_onAccounts {α : Type} {step : TrieM σ α} {stepContent : TrieM Content α}
    (agree : Agree Trie.Mounted.view Trie.Mounted.pending step stepContent) :
    Agree Mounted.view Mounted.pending (onAccounts step) (onAccounts stepContent) := by
  refine ⟨same_onAccounts agree, fun mounted => ?_⟩
  have grows := agree.grows ⟨mounted.ledger.accounts, mounted.store⟩
  simp only [Trie.Mounted.view] at grows
  simp only [onAccounts, Mounted.view]
  cases ran : stepContent ⟨mounted.ledger.accounts, content mounted.store⟩ with
  | ok value after =>
    rw [ran] at grows
    exact pending_accounts grows
  | error error after =>
    rw [ran] at grows
    exact pending_accounts grows

theorem agree_readAccount (record : Bytes) :
    Agree Mounted.view Mounted.pending (readAccount record : LedgerM σ _) (readAccount record) := by
  unfold readAccount
  cases Account.decode record with
  | ok account => exact .done account
  | error error => exact .failed _

theorem agree_account (address : Address) :
    Agree Mounted.view Mounted.pending (account address : LedgerM σ _) (account address) := by
  unfold account
  refine .bind (agree_onAccounts (Trie.agree_get _)) fun record => ?_
  cases record with
  | some record => exact .map _ (agree_readAccount record)
  | none => exact .done _

theorem agree_accountOrFresh (address : Address) :
    Agree Mounted.view Mounted.pending (accountOrFresh address : LedgerM σ _)
      (accountOrFresh address) :=
  .bind (agree_account address) fun _ => .done _

theorem agree_writeAccount (address : Address) (account : Account) :
    Agree Mounted.view Mounted.pending (writeAccount address account : LedgerM σ _)
      (writeAccount address account) :=
  agree_onAccounts (Trie.agree_insert _ _)

theorem agree_storageRoot (address : Address) :
    Agree Mounted.view Mounted.pending (storageRoot address : LedgerM σ _) (storageRoot address) :=
  .bind (agree_accountOrFresh address) fun _ => .done _

theorem agree_getOrOpen (cache : StorageCache) (owner : Address) {create : LedgerM σ Trie}
    {createContent : LedgerM Content Trie}
    (agree : Agree Mounted.view Mounted.pending create createContent) :
    Agree Mounted.view Mounted.pending (cache.getOrOpen owner create)
      (cache.getOrOpen owner createContent) := by
  unfold StorageCache.getOrOpen
  cases cache.get? owner with
  | some trie => exact .done _
  | none => exact .bind agree fun _ => .done _

theorem agree_storageTrie (address : Address) :
    Agree Mounted.view unmeasured (storageTrie address : LedgerM σ _) (storageTrie address) := by
  unfold storageTrie
  refine .reading fun mounted => .bind (agree_getOrOpen _ _ ?_).forget fun opened =>
    .bind (.of_same fun _ => rfl) fun _ => .done _
  exact .bind (agree_storageRoot address) fun _ => .done _

private theorem storageTrie_cached {address : Address} {mounted after : Mounted Content} {trie : Trie}
    (ran : storageTrie address mounted = .ok trie after) :
    after.ledger.storage.get? address = some trie := by
  rw [storageTrie_apply] at ran
  cases found : mounted.ledger.storage.get? address with
  | some cached =>
    rw [found] at ran
    cases ran
    exact found
  | none =>
    rw [found] at ran
    cases read : storageRoot address mounted with
    | error error middle =>
      rw [read] at ran
      cases ran
    | ok root middle =>
      rw [read] at ran
      cases ran
      rw [keepStorage, OrderedMap.get?_insert, if_pos rfl]

private theorem storageTrie_grows (address : Address) (mounted : Mounted Content) :
    mounted.pending ⊆ (ending (storageTrie address mounted)).pending := by
  rw [storageTrie_apply]
  cases found : mounted.ledger.storage.get? address with
  | some cached => exact Set.Subset.refl _
  | none =>
    have grows : mounted.pending ⊆ (ending (storageRoot address mounted)).pending :=
      (@agree_storageRoot Content _ _ address).grows mounted
    have kept := storage_storageRoot address mounted
    simp only
    cases read : storageRoot address mounted with
    | error error middle =>
      rw [read] at grows
      exact grows
    | ok root middle =>
      rw [read] at grows kept
      have empty : middle.ledger.storage.get? address = none :=
        (congrArg (OrderedMap.get? · address) kept).trans found
      refine grows.trans (pending_keepStorage fun old present => ?_)
      cases empty.symm.trans present

theorem agree_onStorage {α : Type} (address : Address) {step : TrieM σ α}
    {stepContent : TrieM Content α}
    (agree : Agree Trie.Mounted.view Trie.Mounted.pending step stepContent) :
    Agree Mounted.view Mounted.pending (onStorage address step)
      (onStorage address stepContent) := by
  constructor
  · refine (Agree.bind (agree_storageTrie address) fun trie => .of_same fun mounted => ?_).same
    have same := agree.same ⟨trie, mounted.store⟩
    simp only [Trie.Mounted.view] at same
    simp only [Mounted.view, ← same]
    cases step ⟨trie, mounted.store⟩ <;> rfl
  · intro state
    have opening := storageTrie_grows address state.view
    have viewed := (agree_storageTrie address).same state
    cases opened : storageTrie address state with
    | error error middle =>
      rw [opened] at viewed
      rw [← viewed] at opening
      have ran : onStorage address stepContent state.view = .error error middle.view :=
        Step.bind_error viewed.symm _
      rw [ran]
      exact opening
    | ok trie middle =>
      rw [opened] at viewed
      rw [← viewed] at opening
      have cached := storageTrie_cached viewed.symm
      have grows := agree.grows ⟨trie, middle.store⟩
      have kept {after : Trie.Mounted Content}
          (within : trie.overlay.records ⊆ after.trie.overlay.records) :
          state.view.pending ⊆ (middle.view.ledger.keepStorage address after.trie).pending := by
        refine opening.trans (pending_keepStorage fun old present => ?_)
        obtain rfl := Option.some.inj (cached.symm.trans present)
        exact within
      have ran : onStorage address stepContent state.view = _ := Step.bind_ok viewed.symm _
      rw [ran]
      simp only [Trie.Mounted.view] at grows
      simp only [Mounted.view]
      cases step : stepContent ⟨trie, content middle.store⟩ with
      | ok value after =>
        rw [step] at grows
        exact kept grows
      | error error after =>
        rw [step] at grows
        exact kept grows

theorem agree_setCode (address : Address) (code : Bytes) :
    Agree Mounted.view Mounted.pending (setCode address code : LedgerM σ _)
      (setCode address code) := by
  unfold setCode
  refine .bind (agree_accountOrFresh address) fun account => .reading fun mounted => ?_
  have finish : Agree Mounted.view Mounted.pending
      (do
        writeAccount address { account with codeHash := some (Keccak.digest code) }
        return Keccak.digest code : LedgerM σ Hash)
      (do
        writeAccount address { account with codeHash := some (Keccak.digest code) }
        return Keccak.digest code) :=
    .bind (agree_writeAccount _ _) fun _ => .done _
  refine .ite (.bind (agree_readStore _ _) fun stored => ?_) finish
  refine .ite (.bind (.changed (fun _ => rfl) fun mounted => ?_) fun _ => finish) finish
  rintro bytes (inAccounts | inStorage | inCode)
  · exact .inl inAccounts
  · exact .inr (.inl inStorage)
  · exact .inr (.inr (Overlay.records_mono (fun _ member => List.mem_cons_of_mem _ member) inCode))

theorem agree_getCode (address : Address) :
    Agree Mounted.view Mounted.pending (getCode address : LedgerM σ _) (getCode address) := by
  unfold getCode
  refine .bind (agree_account address) fun account => ?_
  cases account.bind Account.codeHash with
  | none => exact .done _
  | some hash =>
    refine .reading fun mounted => ?_
    have ledger : mounted.view.ledger = mounted.ledger := rfl
    simp only [ledger]
    cases mounted.ledger.pendingCode.lookup hash with
    | some code => exact .done _
    | none =>
      exact .bind (agree_readStore _ _) fun code =>
        .ite (.bind (agree_tell _ _) fun _ => .done _) (.done _)

theorem agree_revertStorage (address : Address) (root : Hash) :
    Agree Mounted.view Mounted.pending (revertStorage address root : LedgerM σ _)
      (revertStorage address root) := by
  refine .changed (fun mounted => ?_) fun mounted => ?_
  · change Mounted.view (match mounted.ledger.storage.get? address with
      | some trie => _ | none => _) = match mounted.ledger.storage.get? address with
      | some trie => _ | none => _
    cases mounted.ledger.storage.get? address <;> rfl
  · cases found : mounted.view.ledger.storage.get? address with
    | none => exact Set.Subset.refl _
    | some trie =>
      refine pending_keepStorage fun old present => ?_
      obtain rfl := Option.some.inj (found.symm.trans present)
      exact Set.Subset.refl _

theorem agree_createAccount (address : Address) :
    Agree Mounted.view Mounted.pending (createAccount address : LedgerM σ _)
      (createAccount address) :=
  .bind (agree_revertStorage _ _) fun _ => .bind (agree_writeAccount _ _) fun _ => .done _

theorem agree_setObject (address : Address) (key value : Bytes) :
    Agree Mounted.view Mounted.pending (setObject address key value : LedgerM σ _)
      (setObject address key value) :=
  .bind (agree_accountOrFresh address) fun _ =>
    .bind (agree_onStorage address
      (.bind (Trie.agree_insert key value) fun _ => .reading fun _ => .done _)) fun _ =>
      agree_writeAccount _ _

theorem agree_getObject (address : Address) (key : Bytes) :
    Agree Mounted.view Mounted.pending (getObject address key : LedgerM σ _)
      (getObject address key) :=
  agree_onStorage address (Trie.agree_get key)

theorem agree_setBalance (address : Address) (balance : Amount) :
    Agree Mounted.view Mounted.pending (setBalance address balance : LedgerM σ _)
      (setBalance address balance) :=
  .bind (agree_accountOrFresh address) fun _ => agree_writeAccount _ _

theorem agree_getBalance (address : Address) :
    Agree Mounted.view Mounted.pending (getBalance address : LedgerM σ _) (getBalance address) :=
  .bind (agree_accountOrFresh address) fun _ => .done _

theorem agree_liftTrie {α : Type} (result : Except TrieError α) :
    Agree Mounted.view Mounted.pending (liftTrie result : LedgerM σ _) (liftTrie result) := by
  cases result with
  | ok value => exact .done value
  | error error => exact .failed _

theorem agree_commit : Agree Mounted.view unmeasured (commit : LedgerM σ _) commit := by
  unfold commit
  refine .reading fun mounted => .bind (agree_liftTrie _).forget fun storageOps =>
    .bind (agree_liftTrie _).forget fun accountOps => ?_
  exact .bind (agree_writeStore _).forget fun _ => .bind (agree_tell _ _).forget fun _ =>
    .of_same fun _ => rfl

theorem agree_rollback : Agree Mounted.view unmeasured (rollback : LedgerM σ _) rollback := by
  unfold rollback
  exact .reading fun mounted => .bind (agree_tell _ _).forget fun _ => .of_same fun _ => rfl

theorem agree_loadSnapshot (root : Hash) :
    Agree Mounted.view unmeasured (loadSnapshot root : LedgerM σ _) (loadSnapshot root) :=
  .bind (.of_same (same_onAccounts (Trie.agree_setRoot root))) fun _ =>
    .bind (.of_same fun _ => rfl) fun _ => (agree_tell _ _).forget

theorem agree_checkpoint : Agree Mounted.view Mounted.pending (checkpoint : LedgerM σ _) checkpoint :=
  .reading fun _ => .done _

theorem agree_revertTo (checkpoint : Hash) :
    Agree Mounted.view Mounted.pending (revertTo checkpoint : LedgerM σ _)
      (revertTo checkpoint) := by
  unfold revertTo
  refine .bind (.changed (fun _ => rfl) fun mounted => pending_accounts (Set.Subset.refl _))
    fun _ => .reading fun mounted => .forM _ fun address => ?_
  exact .bind (agree_storageRoot address) fun root => agree_revertStorage address root

theorem agree_refresh : Agree Mounted.view unmeasured (refresh : LedgerM σ _) refresh :=
  .bind (agree_writeStore _).forget fun _ => .of_same fun _ => rfl

theorem agree_openAt (root : Hash) :
    Agree Mounted.view unmeasured (openAt root : LedgerM σ _) (openAt root) := by
  unfold openAt
  refine .bind (.of_same fun mounted => ?_) fun _ => (agree_tell _ _).forget
  have same := (Trie.agree_setRoot root).same
    (⟨Trie.empty (.ofColumn Column.accounts), mounted.store⟩ : Trie.Mounted σ)
  simp only [Trie.Mounted.view] at same
  simp only [Mounted.view, ← same]
  cases Trie.setRoot root
    (⟨Trie.empty (.ofColumn Column.accounts), mounted.store⟩ : Trie.Mounted σ) <;> rfl

theorem agree_openLatest : Agree Mounted.view unmeasured (openLatest : LedgerM σ _) openLatest := by
  unfold openLatest
  refine .bind (agree_readStore _ _).forget fun bytes => ?_
  cases bytes with
  | none => exact agree_openAt _
  | some bytes =>
    dsimp only
    cases Hash.ofBytes? bytes with
    | some root => exact agree_openAt root
    | none => exact .failed _

end ContractLedger.Ledger
