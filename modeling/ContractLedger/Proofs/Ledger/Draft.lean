import ContractLedger.Ledger.Basic
import ContractLedger.Proofs.Along
import ContractLedger.Proofs.Trie.Nodewise

/-!
Batches over any store, however its accesses fail. A relation that holds across reading the store, across
what is done to the accounts and to a storage trie, and across changes of what waits beside them holds
across everything that is done to a ledger short of a commit. In this way a rollback leads back to the same
ledger whatever was done; and a commit that fails leaves the batch as it was.
-/

namespace ContractLedger

variable {σ α : Type} [ByteStore σ]

namespace Trie

section Loading

variable {rel : Mounted σ → Mounted σ → Prop} [IsPreorder (Mounted σ) rel]

omit [ByteStore σ] in
private theorem along_readNode (record : Bytes) : Along rel (readNode record) := by
  unfold readNode
  cases Node.decode record with
  | ok node => exact .done node
  | error error => exact .failed _

theorem along_load (reads : ∀ space key, Along rel (onStore (Keyspace.read space key) : TrieM σ _))
    (hash : Hash) : Along rel (load hash : TrieM σ Node) := by
  unfold load
  refine .ite (.done _) (.reading fun mounted => ?_)
  dsimp only
  cases mounted.trie.overlay.lookup hash with
  | some record => exact along_readNode record
  | none =>
    refine .bind (reads _ _) fun record => ?_
    cases record with
    | some record => exact along_readNode record
    | none => exact .failed _

theorem readwise_along (reads : ∀ space key, Along rel (onStore (Keyspace.read space key) : TrieM σ _)) :
    Readwise fun (step _ : TrieM σ _) => Along rel step where
  done := .done
  failed := .failed
  bind := .bind
  load := along_load reads
  loadTop := .reading fun _ => along_load reads _

theorem nodewise_along (reads : ∀ space key, Along rel (onStore (Keyspace.read space key) : TrieM σ _))
    (keeps : ∀ mounted entry, rel mounted
      { mounted with trie := { mounted.trie with overlay := entry :: mounted.trie.overlay } })
    (becomes : ∀ mounted root, rel mounted { mounted with trie := { mounted.trie with root } }) :
    Nodewise fun (step _ : TrieM σ _) => Along rel step where
  toReadwise := readwise_along reads
  keep _ := .ite (.done _) (.bind (.changed fun mounted => keeps mounted _) fun _ => .done _)
  become root := .changed fun mounted => becomes mounted root

end Loading

/-- The trie beside a store with its overlay dropped. -/
def Mounted.dropped (mounted : Mounted σ) : Trie :=
  mounted.trie.rollback

omit [ByteStore σ] in
theorem keeping_onStore (access : EStateM StoreError σ α) :
    Along (Keeping Mounted.trie) (onStore access) := by
  intro mounted
  rw [onStore]
  cases access mounted.store <;> rfl

theorem readwise_keeping : Readwise fun (step _ : TrieM σ _) => Along (Keeping Mounted.trie) step :=
  readwise_along fun _ _ => keeping_onStore _

theorem nodewise_keeping : Nodewise fun (step _ : TrieM σ _) => Along (Keeping Mounted.dropped) step :=
  nodewise_along (fun _ _ mounted => congrArg rollback (keeping_onStore _ mounted)) (fun _ _ => rfl)
    fun _ _ => rfl

end Trie

namespace Ledger

/-- Runs a step on a storage trie that was opened. -/
def onOpened (address : Address) (trie : Trie) (step : TrieM σ α) : LedgerM σ α := fun mounted =>
  match step ⟨trie, mounted.store⟩ with
  | .ok value after =>
    .ok value
      { mounted with ledger := mounted.ledger.keepStorage address after.trie, store := after.store }
  | .error error after =>
    .error (.trie error)
      { mounted with ledger := mounted.ledger.keepStorage address after.trie, store := after.store }

/-- A relation that holds across what looking something up does, given one for what it does to a trie. -/
structure Lookups (trieRel : Trie.Mounted σ → Trie.Mounted σ → Prop)
    (rel : Mounted σ → Mounted σ → Prop) : Prop where
  nodes : Trie.Readwise fun (step _ : TrieM σ _) => Along trieRel step
  accounts : ∀ {α : Type} {step : TrieM σ α}, Along trieRel step → Along rel (onAccounts step)
  store : ∀ column key, Along rel (onStore (ByteStore.read column key) : LedgerM σ _)
  tell : ∀ severity text, Along rel (tell severity text : LedgerM σ Unit)

namespace Lookups

variable {trieRel : Trie.Mounted σ → Trie.Mounted σ → Prop} {rel : Mounted σ → Mounted σ → Prop}
  [IsPreorder (Mounted σ) rel]

theorem account (lookups : Lookups trieRel rel) (address : Address) :
    Along rel (account address : LedgerM σ _) := by
  refine .bind (lookups.accounts (lookups.nodes.get _)) fun record => ?_
  cases record with
  | none => exact .done _
  | some record =>
    refine .bind ?_ fun _ => .done _
    unfold readAccount
    cases Account.decode record with
    | ok account => exact .done _
    | error error => exact .failed _

theorem accountOrFresh (lookups : Lookups trieRel rel) (address : Address) :
    Along rel (accountOrFresh address : LedgerM σ _) :=
  .bind (lookups.account address) fun _ => .done _

theorem storageRoot (lookups : Lookups trieRel rel) (address : Address) :
    Along rel (storageRoot address : LedgerM σ _) :=
  .bind (lookups.accountOrFresh address) fun _ => .done _

theorem getBalance (lookups : Lookups trieRel rel) (address : Address) :
    Along rel (getBalance address : LedgerM σ _) :=
  .bind (lookups.accountOrFresh address) fun _ => .done _

theorem getCode (lookups : Lookups trieRel rel) (address : Address) :
    Along rel (getCode address : LedgerM σ _) := by
  refine .bind (lookups.account address) fun account => ?_
  cases account.bind Account.codeHash with
  | none => exact .done _
  | some hash =>
    refine .reading fun mounted => ?_
    dsimp only
    cases mounted.ledger.pendingCode.lookup hash with
    | some code => exact .done _
    | none =>
      exact .bind (lookups.store _ _) fun code => .ite (.bind (lookups.tell _ _) fun _ => .done _) (.done _)

end Lookups

/-- A relation that holds across everything a batch does, given one for what it does to a trie. -/
structure Batchwise (trieRel : Trie.Mounted σ → Trie.Mounted σ → Prop)
    (rel : Mounted σ → Mounted σ → Prop) : Prop extends Lookups trieRel rel where
  updates : Trie.Nodewise fun (step _ : TrieM σ _) => Along trieRel step
  opened : ∀ {α : Type} (address : Address) (trie : Trie) {step : TrieM σ α}, Along trieRel step →
    Along rel (onOpened address trie step)
  staged : ∀ mounted storage pendingCode,
    rel mounted { mounted with ledger := { mounted.ledger with storage, pendingCode } }
  reverted : ∀ mounted root, rel mounted
    { mounted with ledger := { mounted.ledger with accounts := mounted.ledger.accounts.revertTo root } }

namespace Batchwise

variable {trieRel : Trie.Mounted σ → Trie.Mounted σ → Prop} {rel : Mounted σ → Mounted σ → Prop}
  [IsPreorder (Mounted σ) rel]

omit [IsPreorder (Mounted σ) rel] in
theorem writeAccount (batchwise : Batchwise trieRel rel) (address : Address) (account : Account) :
    Along rel (writeAccount address account : LedgerM σ Unit) :=
  batchwise.accounts (batchwise.updates.insert _ _)

theorem storageTrie (batchwise : Batchwise trieRel rel) (address : Address) :
    Along rel (storageTrie address : LedgerM σ Trie) := by
  refine .reading fun mounted => .bind ?_ fun _ =>
    .bind (.changed fun mounted => batchwise.staged mounted _ _) fun _ => .done _
  unfold StorageCache.getOrOpen
  cases mounted.ledger.storage.get? address with
  | some trie => exact .done _
  | none => exact .bind (.bind (batchwise.storageRoot address) fun _ => .done _) fun _ => .done _

theorem onStorage (batchwise : Batchwise trieRel rel) (address : Address) {step : TrieM σ α}
    (along : Along trieRel step) : Along rel (onStorage address step) :=
  .bind (batchwise.storageTrie address) fun trie => batchwise.opened address trie along

theorem getObject (batchwise : Batchwise trieRel rel) (address : Address) (key : Bytes) :
    Along rel (getObject address key : LedgerM σ _) :=
  batchwise.onStorage address (batchwise.nodes.get key)

theorem setObject [IsPreorder (Trie.Mounted σ) trieRel] (batchwise : Batchwise trieRel rel)
    (address : Address) (key value : Bytes) :
    Along rel (setObject address key value : LedgerM σ Unit) := by
  have inserting : Along trieRel (do
      Trie.insert key value
      return (← getThe (Trie.Mounted σ)).trie.root : TrieM σ Hash) :=
    .bind (batchwise.updates.insert key value) fun _ => .reading fun _ => .done _
  exact .bind (batchwise.accountOrFresh address) fun _ =>
    .bind (batchwise.onStorage address inserting) fun _ => batchwise.writeAccount address _

theorem setBalance (batchwise : Batchwise trieRel rel) (address : Address) (balance : Amount) :
    Along rel (setBalance address balance : LedgerM σ Unit) :=
  .bind (batchwise.accountOrFresh address) fun _ => batchwise.writeAccount address _

theorem setCode (batchwise : Batchwise trieRel rel) (address : Address) (code : Bytes) :
    Along rel (setCode address code : LedgerM σ Hash) := by
  have write (account : Account) : Along rel (do
      Ledger.writeAccount address { account with codeHash := some (Keccak.digest code) }
      return Keccak.digest code : LedgerM σ Hash) :=
    .bind (batchwise.writeAccount address _) fun _ => .done _
  refine .bind (batchwise.accountOrFresh address) fun account => .reading fun mounted => ?_
  refine .ite (.bind (batchwise.store _ _) fun found => ?_) (write account)
  exact .ite (.bind (.changed fun mounted => batchwise.staged mounted _ _) fun _ => write account)
    (write account)

private theorem revertStorage (batchwise : Batchwise trieRel rel)
    (address : Address) (root : Hash) : Along rel (revertStorage address root : LedgerM σ Unit) := by
  refine .changed fun mounted => ?_
  cases mounted.ledger.storage.get? address with
  | none => exact refl_of rel mounted
  | some trie => exact batchwise.staged mounted _ _

theorem createAccount (batchwise : Batchwise trieRel rel) (address : Address) :
    Along rel (createAccount address : LedgerM σ Account) :=
  .bind (batchwise.revertStorage address _) fun _ =>
    .bind (batchwise.writeAccount address _) fun _ => .done _

theorem revertTo (batchwise : Batchwise trieRel rel) (checkpoint : Hash) :
    Along rel (revertTo checkpoint : LedgerM σ Unit) :=
  .bind (.changed fun mounted => batchwise.reverted mounted checkpoint) fun _ =>
    .reading fun _ => .forM _ fun address =>
      .bind (batchwise.storageRoot address) fun _ => batchwise.revertStorage address _

end Batchwise

omit [ByteStore σ] in
theorem keeping_onStore (access : EStateM StoreError σ α) :
    Along (Keeping Mounted.ledger) (onStore access) := by
  intro mounted
  rw [onStore]
  cases access mounted.store <;> rfl

theorem lookups_keeping :
    Lookups (Keeping Trie.Mounted.trie) (Keeping (Mounted.ledger : Mounted σ → Ledger)) where
  nodes := Trie.readwise_keeping
  accounts {_ step} along mounted := by
    have same := along ⟨mounted.ledger.accounts, mounted.store⟩
    rw [onAccounts]
    cases ran : step ⟨mounted.ledger.accounts, mounted.store⟩ with
    | ok value after =>
      rw [ran] at same
      exact congrArg (fun accounts => { mounted.ledger with accounts }) same
    | error error after =>
      rw [ran] at same
      exact congrArg (fun accounts => { mounted.ledger with accounts }) same
  store _ _ := keeping_onStore _
  tell _ _ := .changed fun _ => rfl

/-- The ledger that a rollback leads back to. -/
def dropped (ledger : Ledger) : Ledger :=
  ⟨ledger.accounts.rollback, .empty, []⟩

/-- The ledger that a rollback of a mounted one leads back to. -/
def Mounted.dropped (mounted : Mounted σ) : Ledger :=
  mounted.ledger.dropped

/-- Whatever a batch does, a rollback leads back to the same ledger. -/
theorem batchwise_dropping :
    Batchwise (Keeping Trie.Mounted.dropped) (Keeping (Mounted.dropped : Mounted σ → Ledger)) where
  nodes := Trie.nodewise_keeping.toReadwise
  accounts {_ step} along mounted := by
    have same := along ⟨mounted.ledger.accounts, mounted.store⟩
    rw [onAccounts]
    cases ran : step ⟨mounted.ledger.accounts, mounted.store⟩ with
    | ok value after =>
      rw [ran] at same
      exact congrArg (fun accounts => Ledger.mk accounts .empty []) same
    | error error after =>
      rw [ran] at same
      exact congrArg (fun accounts => Ledger.mk accounts .empty []) same
  store _ _ mounted := congrArg Ledger.dropped (keeping_onStore _ mounted)
  tell _ _ := .changed fun _ => rfl
  updates := Trie.nodewise_keeping
  opened {_} address trie {step} _ mounted := by
    unfold onOpened
    cases step ⟨trie, mounted.store⟩ <;> rfl
  staged _ _ _ := rfl
  reverted _ _ := rfl

/-! Commits that fail. -/

omit [ByteStore σ] in
private theorem keeping_liftTrie (result : Except TrieError α) :
    Along (Keeping Mounted.ledger) (liftTrie result : LedgerM σ α) := by
  cases result with
  | ok value => exact .done value
  | error error => exact .failed _

/-- A commit that fails leaves the batch as it was. -/
theorem commit_error {mounted after : Mounted σ} {reason : LedgerError}
    (refused : commit mounted = .error reason after) : after.ledger = mounted.ledger := by
  change Keeping Mounted.ledger mounted after
  unfold commit at refused
  refine Along.before (.of_same fun _ => rfl) (fun _ => ?_) mounted reason after refused
  refine Along.before (keeping_liftTrie _) fun _ => Along.before (keeping_liftTrie _) fun _ =>
    Along.before (keeping_onStore _) fun _ => ?_
  -- What comes after the write does not fail.
  exact fun _ _ _ ran => nomatch ran

end Ledger

end ContractLedger
