import ContractLedger.Proofs.Ledger.Record
import ContractLedger.Proofs.Ledger.Sight
import ContractLedger.Proofs.Trie.Failing

/-!
What is seen of a ledger over any content, whatever its store holds or lacks. An account is read from the
account trie alone, code also from what is pending, and storage from the trie that is cached for its owner
or is opened at the root that the owner's record gives. So ledgers are seen alike, down to the reads that
fail, if they have the same accounts and code and the same storage tries, opened already or not.
-/

namespace ContractLedger

namespace Trie

theorem nodewise_keeping_store :
    Nodewise fun (step _ : TrieM Content _) => Along (Keeping Mounted.store) step :=
  nodewise_along (fun space key mounted => congrArg Mounted.store (along_read space key mounted).symm)
    (fun _ _ => rfl) fun _ _ => rfl

end Trie

namespace Ledger

variable {α : Type} {mounted other after : Mounted Content} {address : Address}

/-! Reading an account changes nothing. -/

theorem along_onAccounts {step : TrieM Content α} (along : Along Eq step) : Along Eq (onAccounts step) := by
  intro mounted
  have same := along ⟨mounted.ledger.accounts, mounted.store⟩
  rw [onAccounts]
  cases ran : step ⟨mounted.ledger.accounts, mounted.store⟩ with
  | ok value after =>
    rw [ran] at same
    cases same
    rfl
  | error error after =>
    rw [ran] at same
    cases same
    rfl

theorem along_account (address : Address) : Along Eq (account address : LedgerM Content _) := by
  refine .bind (along_onAccounts (Trie.readwise_same.get _)) fun record => ?_
  cases record with
  | none => exact .done none
  | some record =>
    refine .bind ?_ fun _ => .done _
    unfold readAccount
    cases Account.decode record with
    | ok account => exact .done account
    | error error => exact .failed _

theorem along_accountOrFresh (address : Address) : Along Eq (accountOrFresh address : LedgerM Content _) :=
  .bind (along_account address) fun _ => .done _

theorem along_storageRoot (address : Address) : Along Eq (storageRoot address : LedgerM Content _) :=
  .bind (along_accountOrFresh address) fun _ => .done _

/-! What an answer depends on. -/

theorem answer_account_congr (accounts : other.ledger.accounts = mounted.ledger.accounts)
    (store : other.store = mounted.store) :
    answer (account address other) = answer (account address mounted) := by
  unfold account
  rw [Step.bind_apply, Step.bind_apply, onAccounts, onAccounts, accounts, store]
  cases Trie.get address.bytes ⟨mounted.ledger.accounts, mounted.store⟩ with
  | error error after => rfl
  | ok record after =>
    cases record with
    | none => rfl
    | some record =>
      simp only [Step.map_apply, readAccount]
      cases Account.decode record <;> rfl

/-- Two runs of a step after which the same is done answer the same if that only depends on the value. -/
theorem answer_bind_pure {ε τ β : Type} {step : EStateM ε τ α} (finish : α → β) {state next : τ}
    (same : answer (step next) = answer (step state)) :
    answer ((step >>= fun value => pure (finish value)) next) =
      answer ((step >>= fun value => pure (finish value)) state) := by
  rw [Step.bind_apply, Step.bind_apply]
  cases ran : step next <;> cases ranToo : step state <;> rw [ran, ranToo] at same <;> cases same <;> rfl

theorem answer_accountOrFresh_congr (accounts : other.ledger.accounts = mounted.ledger.accounts)
    (store : other.store = mounted.store) :
    answer (accountOrFresh address other) = answer (accountOrFresh address mounted) :=
  answer_bind_pure _ (answer_account_congr accounts store)

theorem answer_storageRoot_congr (accounts : other.ledger.accounts = mounted.ledger.accounts)
    (store : other.store = mounted.store) :
    answer (storageRoot address other) = answer (storageRoot address mounted) :=
  answer_bind_pure _ (answer_accountOrFresh_congr accounts store)

theorem answer_getBalance_congr (accounts : other.ledger.accounts = mounted.ledger.accounts)
    (store : other.store = mounted.store) :
    answer (getBalance address other) = answer (getBalance address mounted) :=
  answer_bind_pure _ (answer_accountOrFresh_congr accounts store)

theorem answer_getCode_congr (accounts : other.ledger.accounts = mounted.ledger.accounts)
    (pendingCode : other.ledger.pendingCode = mounted.ledger.pendingCode)
    (store : other.store = mounted.store) :
    answer (getCode address other) = answer (getCode address mounted) := by
  have same : answer (account address other) = answer (account address mounted) :=
    answer_account_congr accounts store
  unfold getCode
  cases read : answer (account address mounted) with
  | error error =>
    rw [Step.bind_error ((along_account address).error_of_answer read),
      Step.bind_error ((along_account address).error_of_answer (same.trans read))]
    rfl
  | ok found =>
    rw [Step.bind_ok ((along_account address).ok_of_answer read),
      Step.bind_ok ((along_account address).ok_of_answer (same.trans read))]
    cases found.bind Account.codeHash with
    | none => rfl
    | some hash =>
      dsimp only
      rw [Step.bind_ok (Step.get_apply other), Step.bind_ok (Step.get_apply mounted), pendingCode]
      cases mounted.ledger.pendingCode.lookup hash with
      | some code => rfl
      | none =>
        dsimp only
        rw [Step.bind_apply, Step.bind_apply, onStore, onStore, store]
        cases ByteStore.read Column.code hash.bytes mounted.store with
        | error error after => rfl
        | ok code after => cases code <;> rfl

/-! Opening a storage trie. -/

theorem storageTrie_open {trie : Trie} (cached : mounted.ledger.storage.get? address = some trie) :
    storageTrie address mounted = .ok trie mounted := by
  rw [storageTrie_apply, cached]

/-- A storage trie that is not open is opened at the root that the owner's record gives. -/
theorem storageTrie_closed (closed : mounted.ledger.storage.get? address = none) :
    storageTrie address mounted =
      match answer (storageRoot address mounted) with
      | .ok root =>
        .ok (.ofRoot (.ofOwner address) root)
          { mounted with
            ledger := mounted.ledger.keepStorage address (.ofRoot (.ofOwner address) root) }
      | .error error => .error error mounted := by
  rw [storageTrie_apply, closed]
  cases read : answer (storageRoot address mounted) with
  | ok root => rw [(along_storageRoot address).ok_of_answer read]
  | error error => rw [(along_storageRoot address).error_of_answer read]

theorem storageTrie_error {error : LedgerError} (ran : storageTrie address mounted = .error error after) :
    after = mounted := by
  cases cached : mounted.ledger.storage.get? address with
  | some trie => cases (storageTrie_open cached).symm.trans ran
  | none =>
    rw [storageTrie_closed cached] at ran
    cases read : answer (storageRoot address mounted) <;> rw [read] at ran <;> cases ran
    rfl

/-- A ledger with a trie as the open storage trie of an address, in the place of whatever was there. -/
structure Mounted.Replaces (mounted : Mounted Content) (address : Address) (trie : Trie)
    (after : Mounted Content) : Prop where
  accounts : after.ledger.accounts = mounted.ledger.accounts
  pendingCode : after.ledger.pendingCode = mounted.ledger.pendingCode
  store : after.store = mounted.store
  here : after.ledger.storage.get? address = some trie
  others : ∀ owner, owner ≠ address →
    after.ledger.storage.get? owner = mounted.ledger.storage.get? owner

theorem Mounted.Replaces.keep {first : Trie} (replaces : mounted.Replaces address first after)
    (trie : Trie) (store : Content) (same : store = after.store) :
    mounted.Replaces address trie { after with ledger := after.ledger.keepStorage address trie, store } where
  accounts := replaces.accounts
  pendingCode := replaces.pendingCode
  store := same.trans replaces.store
  here := by rw [get?_keepStorage, if_pos rfl]
  others owner apart := by
    rw [get?_keepStorage, if_neg apart]
    exact replaces.others owner apart

/-- Opening a storage trie changes nothing but that it is open. -/
theorem storageTrie_ok {trie : Trie} (ran : storageTrie address mounted = .ok trie after) :
    mounted.Replaces address trie after := by
  cases cached : mounted.ledger.storage.get? address with
  | some found =>
    cases (storageTrie_open cached).symm.trans ran
    exact ⟨rfl, rfl, rfl, cached, fun _ _ => rfl⟩
  | none =>
    rw [storageTrie_closed cached] at ran
    cases read : answer (storageRoot address mounted) with
    | error error =>
      rw [read] at ran
      cases ran
    | ok root =>
      rw [read] at ran
      cases ran
      refine ⟨rfl, rfl, rfl, ?_, fun owner apart => ?_⟩
      · rw [get?_keepStorage, if_pos rfl]
      · rw [get?_keepStorage, if_neg apart]

/-- The storage trie that is found for an owner is the open one, or depends on accounts alone. -/
theorem answer_storageTrie_congr (accounts : other.ledger.accounts = mounted.ledger.accounts)
    (store : other.store = mounted.store)
    (cached : other.ledger.storage.get? address = mounted.ledger.storage.get? address) :
    answer (storageTrie address other) = answer (storageTrie address mounted) := by
  have roots : answer (storageRoot address other) = answer (storageRoot address mounted) :=
    answer_storageRoot_congr accounts store
  cases found : mounted.ledger.storage.get? address with
  | some trie => rw [storageTrie_open found, storageTrie_open (cached.trans found)]; rfl
  | none =>
    rw [storageTrie_closed found, storageTrie_closed (cached.trans found), roots]
    cases answer (storageRoot address mounted) <;> rfl

theorem onStorage_unfound {error : LedgerError} (step : TrieM Content α)
    (failed : answer (storageTrie address mounted) = .error error) :
    onStorage address step mounted = .error error mounted := by
  cases ran : storageTrie address mounted with
  | ok trie after =>
    rw [ran] at failed
    cases failed
  | error cause after =>
    rw [ran] at failed
    cases failed
    rw [storageTrie_error ran] at ran
    exact Step.bind_error ran _

/-- What a step does on the storage trie that is found for an owner. -/
theorem onStorage_found {trie : Trie} {step : TrieM Content α}
    (keeps : Along (Keeping Trie.Mounted.store) step)
    (found : answer (storageTrie address mounted) = .ok trie) :
    match step ⟨trie, mounted.store⟩ with
    | .ok value last => ∃ after, onStorage address step mounted = .ok value after ∧
        mounted.Replaces address last.trie after
    | .error error last => ∃ after, onStorage address step mounted = .error (.trie error) after ∧
        mounted.Replaces address last.trie after := by
  cases opened : storageTrie address mounted with
  | error error after =>
    rw [opened] at found
    cases found
  | ok trie after =>
    rw [opened] at found
    cases found
    have replaces := storageTrie_ok opened
    have goes : onStorage address step mounted = onOpened address trie step after :=
      Step.bind_ok opened _
    have stored : (ending (step ⟨trie, after.store⟩)).store = after.store := keeps _
    rw [goes, onOpened, ← replaces.store]
    cases ran : step ⟨trie, after.store⟩ with
    | ok value last =>
      rw [ran] at stored
      exact ⟨_, rfl, replaces.keep last.trie last.store stored⟩
    | error error last =>
      rw [ran] at stored
      exact ⟨_, rfl, replaces.keep last.trie last.store stored⟩

/-- A step on a storage trie answers as it does on the trie that is found for the owner. -/
theorem answer_onStorage {step : TrieM Content α} (keeps : Along (Keeping Trie.Mounted.store) step) :
    answer (onStorage address step mounted) =
      (answer (storageTrie address mounted)).bind fun trie =>
        (answer (step ⟨trie, mounted.store⟩)).mapError LedgerError.trie := by
  cases found : answer (storageTrie address mounted) with
  | error error => rw [onStorage_unfound step found]; rfl
  | ok trie =>
    have left := onStorage_found keeps found
    change _ = (answer (step ⟨trie, mounted.store⟩)).mapError LedgerError.trie
    cases ran : step ⟨trie, mounted.store⟩ with
    | ok value last =>
      rw [ran] at left
      obtain ⟨after, same, _⟩ := left
      rw [same]
      rfl
    | error error last =>
      rw [ran] at left
      obtain ⟨after, same, _⟩ := left
      rw [same]
      rfl

theorem answer_getObject (address : Address) (key : Bytes) (mounted : Mounted Content) :
    answer (getObject address key mounted) =
      (answer (storageTrie address mounted)).bind fun trie =>
        (answer (Trie.get key ⟨trie, mounted.store⟩)).mapError LedgerError.trie :=
  answer_onStorage (Trie.nodewise_keeping_store.get key)

theorem answer_getObject_open {trie : Trie} (key : Bytes)
    (cached : mounted.ledger.storage.get? address = some trie) :
    answer (getObject address key mounted) =
      (answer (Trie.get key ⟨trie, mounted.store⟩)).mapError LedgerError.trie := by
  rw [answer_getObject, storageTrie_open cached, answer, Except.bind]

theorem answer_getObject_congr (key : Bytes) (store : other.store = mounted.store)
    (found : answer (storageTrie address other) = answer (storageTrie address mounted)) :
    answer (getObject address key other) = answer (getObject address key mounted) := by
  rw [answer_getObject, answer_getObject, found, store]

/-! Ledgers that are seen alike. -/

/-- Whether the same accounts, code and storage tries are found in two ledgers over the same content. -/
structure Mounted.Alike (mounted other : Mounted Content) : Prop where
  accounts : other.ledger.accounts = mounted.ledger.accounts
  pendingCode : other.ledger.pendingCode = mounted.ledger.pendingCode
  store : other.store = mounted.store
  storage : ∀ owner, answer (storageTrie owner other) = answer (storageTrie owner mounted)

theorem Mounted.Alike.refl (mounted : Mounted Content) : mounted.Alike mounted :=
  ⟨rfl, rfl, rfl, fun _ => rfl⟩

/-- Opening the storage trie that is found for an owner cannot be seen. -/
theorem Mounted.Replaces.alike {trie : Trie} (replaces : mounted.Replaces address trie after)
    (found : answer (storageTrie address mounted) = .ok trie) : mounted.Alike after where
  accounts := replaces.accounts
  pendingCode := replaces.pendingCode
  store := replaces.store
  storage owner := by
    by_cases same : owner = address
    · subst owner
      rw [storageTrie_open replaces.here, found]
      rfl
    · exact answer_storageTrie_congr replaces.accounts replaces.store (replaces.others owner same)

/-- Ledgers that are alike answer all reads alike, also those that fail. -/
theorem Mounted.Alike.sight (alike : mounted.Alike other) : other.sight = mounted.sight := by
  obtain ⟨accounts, pendingCode, store, storage⟩ := alike
  ext address : 2
  · exact congrArg Trie.root accounts
  · exact answer_account_congr accounts store
  · exact answer_getCode_congr accounts pendingCode store
  · exact answer_getBalance_congr accounts store
  · funext key
    exact answer_getObject_congr key store (storage address)

end Ledger

end ContractLedger
