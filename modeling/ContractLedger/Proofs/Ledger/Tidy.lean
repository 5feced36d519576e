import ContractLedger.Proofs.Ledger.Reading
import ContractLedger.Proofs.Ledger.Site

/-!
What a ledger is careful of over any content, whatever it holds or lacks. Its tries keep to the keyspaces
that are theirs, and all that is pending is named by its digest. However a move ends, a ledger that was
careful so far is careful afterwards; and every move but a commit and the emptying of the store leaves the
store alone.
-/

namespace ContractLedger

namespace Trie

/-- A trie of a keyspace in which every pending record is named by its digest. -/
structure Tidy (space : Keyspace) (trie : Trie) : Prop where
  space : trie.keyspace = space
  named : ∀ entry ∈ trie.overlay, entry.1 = Keccak.digest entry.2

theorem tidy_ofRoot (space : Keyspace) (root : Hash) : (ofRoot space root).Tidy space :=
  ⟨rfl, nofun⟩

/-- Tries beside the same content, the second of them tidy if the first is. -/
structure Mounted.Tidies (before after : Mounted Content) : Prop where
  store : after.store = before.store
  tidy : ∀ space, before.trie.Tidy space → after.trie.Tidy space

instance : IsPreorder (Mounted Content) Mounted.Tidies where
  refl _ := ⟨rfl, fun _ => id⟩
  trans _ _ _ first second :=
    ⟨second.store.trans first.store, fun space tidy => second.tidy space (first.tidy space tidy)⟩

theorem tidies_read (space : Keyspace) (key : Bytes) :
    Along Mounted.Tidies (onStore (space.read key) : TrieM Content _) :=
  .of_same fun mounted => (along_read space key mounted).symm

theorem nodewise_tidies : Nodewise fun (step _ : TrieM Content _) => Along Mounted.Tidies step where
  toReadwise := readwise_along tidies_read
  keep _ := .ite (.done _) (.bind (.changed fun _ =>
    ⟨rfl, fun _ tidy => ⟨tidy.space, List.forall_mem_cons.mpr ⟨rfl, tidy.named⟩⟩⟩) fun _ => .done _)
  become _ := .changed fun _ => ⟨rfl, fun _ tidy => ⟨tidy.space, tidy.named⟩⟩

theorem tidies_setRoot (root : Hash) : Along Mounted.Tidies (setRoot root : TrieM Content Unit) := by
  unfold setRoot
  refine .reading fun mounted => ?_
  have repoint : Along Mounted.Tidies
      (modify fun mounted : Mounted Content =>
        { mounted with trie := { mounted.trie with overlay := [], root, committedRoot := root } } :
          TrieM Content PUnit) := .changed fun _ => ⟨rfl, fun _ tidy => ⟨tidy.space, nofun⟩⟩
  refine .ite (.bind (tidies_read _ _) fun record => ?_) repoint
  exact .ite (.bind (.failed _) fun _ => repoint) repoint

end Trie

namespace Ledger

/-- A ledger whose tries keep to their keyspaces, in which all that is pending is named by its digest. -/
structure Tidy (ledger : Ledger) : Prop where
  accounts : ledger.accounts.Tidy (.ofColumn Column.accounts)
  storage : ∀ owner trie, ledger.storage.get? owner = some trie → trie.Tidy (.ofOwner owner)
  code : ∀ entry ∈ ledger.pendingCode, entry.1 = Keccak.digest entry.2

theorem Tidy.fresh {accounts : Trie} (tidy : accounts.Tidy (.ofColumn Column.accounts)) :
    (Ledger.mk accounts .empty []).Tidy :=
  ⟨tidy, nofun, nofun⟩

theorem tidy_ofRoot (root : Hash) : (ofRoot root).Tidy :=
  .fresh (Trie.tidy_ofRoot _ root)

/-- Ledgers beside the same content, the second of them tidy if the first is. -/
structure Mounted.Tidies (before after : Mounted Content) : Prop where
  store : after.store = before.store
  tidy : before.ledger.Tidy → after.ledger.Tidy

instance : IsPreorder (Mounted Content) Mounted.Tidies where
  refl _ := ⟨rfl, id⟩
  trans _ _ _ first second :=
    ⟨second.store.trans first.store, fun tidy => second.tidy (first.tidy tidy)⟩

variable {α : Type} {mounted after : Mounted Content} {address : Address} {trie : Trie}

theorem tidies_of_same {step : LedgerM Content α} (same : Along Eq step) : Along Mounted.Tidies step :=
  .of_same fun mounted => (same mounted).symm

theorem tidies_tell (severity : Severity) (text : String) :
    Along Mounted.Tidies (tell severity text : LedgerM Content Unit) :=
  .changed fun _ => ⟨rfl, id⟩

theorem tidies_read (column : Nat) (key : Bytes) :
    Along Mounted.Tidies (onStore (ByteStore.read column key) : LedgerM Content _) := by
  refine .of_same fun mounted => ?_
  simp only [onStore, ByteStore.read]
  by_cases bound : column < Column.count <;> simp [bound, ending]

theorem tidies_onAccounts {step : TrieM Content α} (tidies : Along Trie.Mounted.Tidies step) :
    Along Mounted.Tidies (onAccounts step) := by
  intro mounted
  have left := tidies ⟨mounted.ledger.accounts, mounted.store⟩
  rw [onAccounts]
  cases ran : step ⟨mounted.ledger.accounts, mounted.store⟩ with
  | ok value after =>
    rw [ran] at left
    exact ⟨left.store, fun tidy => ⟨left.tidy _ tidy.accounts, tidy.storage, tidy.code⟩⟩
  | error error after =>
    rw [ran] at left
    exact ⟨left.store, fun tidy => ⟨left.tidy _ tidy.accounts, tidy.storage, tidy.code⟩⟩

theorem tidies_writeAccount (address : Address) (account : Account) :
    Along Mounted.Tidies (writeAccount address account : LedgerM Content Unit) :=
  tidies_onAccounts (Trie.nodewise_tidies.insert _ _)

/-- Putting a tidy trie in the place of the storage trie of its owner. -/
theorem Mounted.Replaces.tidies (replaces : mounted.Replaces address trie after)
    (tidy : mounted.ledger.Tidy → trie.Tidy (.ofOwner address)) : mounted.Tidies after := by
  refine ⟨replaces.store, fun before => ⟨?_, fun owner found cached => ?_, ?_⟩⟩
  · rw [replaces.accounts]
    exact before.accounts
  · by_cases same : owner = address
    · subst owner
      cases replaces.here.symm.trans cached
      exact tidy before
    · exact before.storage owner found ((replaces.others owner same).symm.trans cached)
  · rw [replaces.pendingCode]
    exact before.code

theorem Tidy.storageTrie (tidy : mounted.ledger.Tidy)
    (found : answer (storageTrie address mounted) = .ok trie) : trie.Tidy (.ofOwner address) := by
  cases cached : mounted.ledger.storage.get? address with
  | some old =>
    rw [storageTrie_open cached] at found
    cases found
    exact tidy.storage address _ cached
  | none =>
    rw [storageTrie_closed cached] at found
    cases read : answer (storageRoot address mounted) <;> rw [read] at found <;> cases found
    exact Trie.tidy_ofRoot ..

theorem tidies_onStorage {step : TrieM Content α} (tidies : Along Trie.Mounted.Tidies step) :
    Along Mounted.Tidies (onStorage address step) := by
  intro mounted
  cases found : answer (storageTrie address mounted) with
  | error error =>
    rw [onStorage_unfound step found]
    exact refl_of Mounted.Tidies mounted
  | ok trie =>
    have left := onStorage_found (fun mounted => (tidies mounted).store) found
    have kept := tidies ⟨trie, mounted.store⟩
    cases ran : step ⟨trie, mounted.store⟩ with
    | ok value last =>
      rw [ran] at left kept
      obtain ⟨after, same, replaces⟩ := left
      rw [same]
      exact replaces.tidies fun tidy => kept.tidy _ (tidy.storageTrie found)
    | error error last =>
      rw [ran] at left kept
      obtain ⟨after, same, replaces⟩ := left
      rw [same]
      exact replaces.tidies fun tidy => kept.tidy _ (tidy.storageTrie found)

theorem tidies_revertStorage (address : Address) (root : Hash) :
    Along Mounted.Tidies (revertStorage address root : LedgerM Content Unit) := by
  refine .changed fun mounted => ?_
  cases cached : mounted.ledger.storage.get? address with
  | none => exact refl_of Mounted.Tidies mounted
  | some trie =>
    refine ⟨rfl, fun tidy => ⟨tidy.accounts, fun owner found stored => ?_, tidy.code⟩⟩
    have before := tidy.storage address trie cached
    rw [get?_keepStorage] at stored
    split at stored
    · next same =>
      cases stored
      exact same ▸ ⟨before.space, before.named⟩
    · exact tidy.storage owner found stored

theorem tidies_createAccount (address : Address) :
    Along Mounted.Tidies (createAccount address : LedgerM Content Account) :=
  .bind (tidies_revertStorage address _) fun _ => .bind (tidies_writeAccount address _) fun _ => .done _

theorem tidies_accountOrFresh (address : Address) :
    Along Mounted.Tidies (accountOrFresh address : LedgerM Content Account) :=
  tidies_of_same (along_accountOrFresh address)

theorem tidies_setBalance (address : Address) (balance : Amount) :
    Along Mounted.Tidies (setBalance address balance : LedgerM Content Unit) :=
  .bind (tidies_accountOrFresh address) fun _ => tidies_writeAccount address _

theorem tidies_setCode (address : Address) (code : Bytes) :
    Along Mounted.Tidies (setCode address code : LedgerM Content Hash) := by
  have write (account : Account) : Along Mounted.Tidies (do
      writeAccount address { account with codeHash := some (Keccak.digest code) }
      return Keccak.digest code : LedgerM Content Hash) :=
    .bind (tidies_writeAccount address _) fun _ => .done _
  refine .bind (tidies_accountOrFresh address) fun account => .reading fun mounted => ?_
  refine .ite (.bind (tidies_read _ _) fun found => ?_) (write account)
  refine .ite (.bind (.changed fun mounted => ⟨rfl, fun tidy => ?_⟩) fun _ => write account) (write account)
  exact ⟨tidy.accounts, tidy.storage, List.forall_mem_cons.mpr ⟨rfl, tidy.code⟩⟩

theorem tidies_setObject (address : Address) (key value : Bytes) :
    Along Mounted.Tidies (setObject address key value : LedgerM Content Unit) := by
  refine .bind (tidies_accountOrFresh address) fun _ => .bind (tidies_onStorage ?_) fun _ =>
    tidies_writeAccount address _
  exact .bind (Trie.nodewise_tidies.insert key value) fun _ => .reading fun _ => .done _

theorem tidies_getCode (address : Address) :
    Along Mounted.Tidies (getCode address : LedgerM Content _) := by
  refine .bind (tidies_of_same (along_account address)) fun account => ?_
  cases account.bind Account.codeHash with
  | none => exact .done _
  | some hash =>
    refine .reading fun mounted => ?_
    dsimp only
    cases mounted.ledger.pendingCode.lookup hash with
    | some code => exact .done _
    | none =>
      exact .bind (tidies_read _ _) fun code =>
        .ite (.bind (tidies_tell _ _) fun _ => .done _) (.done _)

theorem tidies_revertTo (checkpoint : Hash) :
    Along Mounted.Tidies (revertTo checkpoint : LedgerM Content Unit) := by
  refine .bind (.changed fun mounted => ⟨rfl, fun tidy => ?_⟩) fun _ => .reading fun _ =>
    .forM _ fun address => .bind (tidies_of_same (along_storageRoot address)) fun _ =>
      tidies_revertStorage address _
  exact ⟨⟨tidy.accounts.space, tidy.accounts.named⟩, tidy.storage, tidy.code⟩

theorem tidies_rollback : Along Mounted.Tidies (rollback : LedgerM Content Unit) :=
  .reading fun _ => .bind (tidies_tell _ _) fun _ => .changed fun _ =>
    ⟨rfl, fun tidy => .fresh ⟨tidy.accounts.space, nofun⟩⟩

theorem tidies_loadSnapshot (root : Hash) :
    Along Mounted.Tidies (loadSnapshot root : LedgerM Content Unit) :=
  .bind (tidies_onAccounts (Trie.tidies_setRoot root)) fun _ =>
    .bind (.changed fun _ => ⟨rfl, fun tidy => .fresh tidy.accounts⟩) fun _ => tidies_tell _ _

theorem tidies_openAt (root : Hash) : Along Mounted.Tidies (openAt root : LedgerM Content Unit) := by
  refine .bind (fun mounted => ?_) fun _ => tidies_tell _ _
  have left := Trie.tidies_setRoot root ⟨Trie.empty (.ofColumn Column.accounts), mounted.store⟩
  cases ran : Trie.setRoot root ⟨Trie.empty (.ofColumn Column.accounts), mounted.store⟩ with
  | ok value after =>
    rw [ran] at left
    exact ⟨left.store, fun _ => .fresh (left.tidy _ (Trie.tidy_ofRoot ..))⟩
  | error error after =>
    rw [ran] at left
    exact ⟨left.store, id⟩

theorem tidies_openLatest : Along Mounted.Tidies (openLatest : LedgerM Content Unit) := by
  refine .bind (tidies_read _ _) fun bytes => ?_
  cases bytes with
  | none => exact tidies_openAt _
  | some bytes =>
    dsimp only
    cases Hash.ofBytes? bytes with
    | some root => exact tidies_openAt root
    | none => exact .failed _

end Ledger

open Ledger in
theorem Command.tidies_run (command : Command) :
    Along Mounted.Tidies (command.run : LedgerM Content Reply) := by
  cases command with
  | createAccount address => exact .bind (tidies_createAccount address) fun _ => .done _
  | setCode address code => exact .bind (tidies_setCode address code) fun _ => .done _
  | setObject address key value => exact .bind (tidies_setObject address key value) fun _ => .done _
  | setBalance address balance => exact .bind (tidies_setBalance address balance) fun _ => .done _
  | account address => exact .bind (tidies_of_same (along_account address)) fun _ => .done _
  | getCode address => exact .bind (tidies_getCode address) fun _ => .done _
  | getObject address key =>
    exact .bind (tidies_onStorage (Trie.nodewise_tidies.get key)) fun _ => .done _
  | getBalance address =>
    exact .bind (.bind (tidies_accountOrFresh address) fun _ => .done _) fun _ => .done _

open Ledger in
/-- However a move ends, a tidy ledger stays tidy and the store is left alone, unless the move is a
commit or empties the store. -/
theorem Move.tidies_step {move : Move} (commits : move ≠ .commit) (empties : move ≠ .refresh) :
    Along Mounted.Tidies (move.step : LedgerM Content Unit) := by
  cases move with
  | run command => exact .bind command.tidies_run fun _ => .done _
  | checkpoint => exact .of_same fun _ => rfl
  | revertTo root => exact tidies_revertTo root
  | commit => exact absurd rfl commits
  | rollback => exact tidies_rollback
  | loadSnapshot root => exact tidies_loadSnapshot root
  | openAt root => exact tidies_openAt root
  | openLatest => exact tidies_openLatest
  | refresh => exact absurd rfl empties

end ContractLedger
