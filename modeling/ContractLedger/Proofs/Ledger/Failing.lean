import ContractLedger.Proofs.Ledger.Reading

/-!
Writes to a ledger over any store, whatever it holds or lacks. A record can be written wherever it can be
read, because an insertion loads what the lookup loads. So a write that first reads the account, and changes
something else only then, fails before it changed anything; and the storage of an account never goes further
without the record that gives its root.
-/

namespace ContractLedger.Ledger

variable {mounted other after : Mounted Content} {address : Address} {error : LedgerError}

theorem get_of_accountOrFresh {account : Account}
    (read : answer (accountOrFresh address mounted) = .ok account) :
    ∃ record, answer (Trie.get address.bytes ⟨mounted.ledger.accounts, mounted.store⟩) = .ok record := by
  rw [accountOrFresh, Step.bind_apply, Ledger.account, Step.bind_apply, onAccounts] at read
  cases found : Trie.get address.bytes ⟨mounted.ledger.accounts, mounted.store⟩ with
  | ok record last => exact ⟨record, rfl⟩
  | error error last =>
    rw [found] at read
    cases read

/-- A record is written just where the account trie answers; otherwise nothing is changed. -/
theorem writeAccount_follows (address : Address) (account : Account) (mounted : Mounted Content) :
    match answer (Trie.get address.bytes ⟨mounted.ledger.accounts, mounted.store⟩) with
    | .error error => writeAccount address account mounted = .error (.trie error) mounted
    | .ok _ => ∃ accounts,
      Trie.insert address.bytes account.encode ⟨mounted.ledger.accounts, mounted.store⟩ =
        .ok () ⟨accounts, mounted.store⟩ ∧
      writeAccount address account mounted =
        .ok () { mounted with ledger := { mounted.ledger with accounts } } := by
  have follows := Trie.insert_follows address.bytes (Account.encode_ne_nil account)
    ⟨mounted.ledger.accounts, mounted.store⟩
  have stays := Trie.nodewise_keeping_store.insert address.bytes account.encode
    ⟨mounted.ledger.accounts, mounted.store⟩
  rw [writeAccount, onAccounts]
  cases gets : answer (Trie.get address.bytes ⟨mounted.ledger.accounts, mounted.store⟩) with
  | error error =>
    rw [gets] at follows
    simp only [follows]
  | ok record =>
    rw [gets] at follows
    obtain ⟨⟨accounts, store⟩, ran⟩ := follows
    rw [ran] at stays
    obtain rfl : store = mounted.store := stays
    exact ⟨accounts, ran, by simp only [ran]⟩

/-- A record is written where the account is read, whatever else was changed in between. -/
theorem writeAccount_ok {found : Account} (read : answer (accountOrFresh address mounted) = .ok found)
    (account : Account) (accounts : other.ledger.accounts = mounted.ledger.accounts)
    (store : other.store = mounted.store) :
    ∃ trie, Trie.insert address.bytes account.encode ⟨mounted.ledger.accounts, mounted.store⟩ =
        .ok () ⟨trie, mounted.store⟩ ∧
      writeAccount address account other =
        .ok () { other with ledger := { other.ledger with accounts := trie } } := by
  obtain ⟨record, gets⟩ := get_of_accountOrFresh read
  have getsHere : answer (Trie.get address.bytes ⟨other.ledger.accounts, other.store⟩) = .ok record := by
    rw [accounts, store]
    exact gets
  have follows := writeAccount_follows address account other
  rw [getsHere] at follows
  obtain ⟨trie, inserted, wrote⟩ := follows
  rw [accounts, store] at inserted
  exact ⟨trie, inserted, wrote⟩

/-- What follows the reading of an account changes nothing if only the reading can fail. -/
theorem error_of_accountOrFresh {α : Type} {next : Account → LedgerM Content α}
    (succeeds : ∀ account, answer (accountOrFresh address mounted) = .ok account →
      ∃ value last, next account mounted = .ok value last)
    (failed : (accountOrFresh address >>= next) mounted = .error error after) : after = mounted := by
  cases read : answer (accountOrFresh address mounted) with
  | error cause =>
    rw [Step.bind_error ((along_accountOrFresh address).error_of_answer read)] at failed
    cases failed
    rfl
  | ok account =>
    obtain ⟨value, last, ran⟩ := succeeds account read
    rw [Step.bind_ok ((along_accountOrFresh address).ok_of_answer read), ran] at failed
    cases failed

theorem setBalance_error {balance : Amount}
    (failed : setBalance address balance mounted = .error error after) : after = mounted := by
  refine error_of_accountOrFresh (fun account read => ?_) failed
  obtain ⟨trie, _, wrote⟩ := writeAccount_ok read { account with balance } rfl rfl
  exact ⟨_, _, wrote⟩

theorem setCode_error {code : Bytes} (failed : setCode address code mounted = .error error after) :
    after = mounted := by
  refine error_of_accountOrFresh (fun account read => ?_) failed
  have finish (other : Mounted Content) (accounts : other.ledger.accounts = mounted.ledger.accounts)
      (store : other.store = mounted.store) : ∃ value last,
      (do
        writeAccount address { account with codeHash := some (Keccak.digest code) }
        return Keccak.digest code : LedgerM Content Hash) other = .ok value last := by
    obtain ⟨trie, _, wrote⟩ := writeAccount_ok read _ accounts store
    exact ⟨_, _, Step.bind_ok wrote _⟩
  rw [Step.bind_ok (Step.get_apply mounted)]
  split
  · have stored : onStore (ByteStore.read Column.code (Keccak.digest code).bytes) mounted =
        .ok (mounted.store Column.code (Keccak.digest code).bytes) mounted := rfl
    rw [Step.bind_ok stored]
    split
    · rw [Step.bind_ok (Step.modify_apply ..)]
      exact finish _ rfl rfl
    · exact finish _ rfl rfl
  · exact finish _ rfl rfl

theorem loadSnapshot_error {root : Hash} (failed : loadSnapshot root mounted = .error error after) :
    after = mounted := by
  rw [loadSnapshot] at failed
  rcases Trie.setRoot_follows root ⟨mounted.ledger.accounts, mounted.store⟩ with ⟨last, ran⟩ | ⟨cause, ran⟩
  · have loaded : ∃ middle, onAccounts (Trie.setRoot root) mounted = .ok () middle :=
      ⟨_, by simp only [onAccounts, ran]; rfl⟩
    obtain ⟨middle, loaded⟩ := loaded
    rw [Step.bind_ok loaded] at failed
    cases failed
  · have refused : onAccounts (Trie.setRoot root) mounted = .error (.trie cause) mounted := by
      simp only [onAccounts, ran]
    rw [Step.bind_error refused] at failed
    cases failed
    rfl

theorem storageTrie_found {account : Account}
    (read : answer (accountOrFresh address mounted) = .ok account) :
    ∃ trie, answer (storageTrie address mounted) = .ok trie := by
  cases cached : mounted.ledger.storage.get? address with
  | some trie => exact ⟨trie, congrArg answer (storageTrie_open cached)⟩
  | none =>
    have root : answer (storageRoot address mounted) = .ok account.storageRoot :=
      congrArg answer (Step.bind_ok ((along_accountOrFresh address).ok_of_answer read) _)
    rw [storageTrie_closed cached, root]
    exact ⟨_, rfl⟩

/-- The storage trie of an address, if it is found, keeps nothing in a removal of the key that is under
the digest of the empty node or not held in memory. -/
def RemovesApart {σ : Type} [ByteStore σ] (address : Address) (key : Bytes) (mounted : Mounted σ) : Prop :=
  ∀ trie, answer (storageTrie address mounted) = .ok trie → Trie.RemovesApart key ⟨trie, mounted.store⟩

/-- How a write to storage ends. Either nothing that can be seen is changed; or the storage trie goes
further, and the record is written with the root that it comes to. -/
inductive SetsObject (mounted : Mounted Content) (address : Address) (key value : Bytes) :
    EStateM.Result LedgerError (Mounted Content) Unit → Prop
  | failed {error : LedgerError} {after : Mounted Content}
      (alike : (value = [] → RemovesApart address key mounted) → mounted.Alike after) :
      SetsObject mounted address key value (.error error after)
  | stored {account : Account} {trie accounts : Trie} {after : Mounted Content}
      (read : answer (accountOrFresh address mounted) = .ok account)
      (replaces : { mounted with ledger := { mounted.ledger with accounts } }.Replaces address trie after)
      (recorded : Trie.insert address.bytes { account with storageRoot := trie.root }.encode
        ⟨mounted.ledger.accounts, mounted.store⟩ = .ok () ⟨accounts, mounted.store⟩) :
      SetsObject mounted address key value (.ok () after)

theorem setObject_cases (mounted : Mounted Content) (address : Address) (key value : Bytes) :
    SetsObject mounted address key value (setObject address key value mounted) := by
  cases read : answer (accountOrFresh address mounted) with
  | error error =>
    rw [setObject, Step.bind_error ((along_accountOrFresh address).error_of_answer read)]
    exact .failed fun _ => .refl mounted
  | ok account =>
    rw [setObject, Step.bind_ok ((along_accountOrFresh address).ok_of_answer read)]
    obtain ⟨trie, found⟩ := storageTrie_found read
    have keeps : Along (Keeping Trie.Mounted.store) (do
        Trie.insert key value
        return (← getThe (Trie.Mounted Content)).trie.root : TrieM Content Hash) :=
      .bind (Trie.nodewise_keeping_store.insert key value) fun _ => .reading fun _ => .done _
    have left := onStorage_found keeps found
    cases ran : Trie.insert key value ⟨trie, mounted.store⟩ with
    | error cause last =>
      rw [Step.bind_error ran] at left
      obtain ⟨after, failed, replaces⟩ := left
      rw [Step.bind_error failed]
      refine .failed fun apart => ?_
      -- the insertion has changed nothing, so that at most the trie was opened
      obtain rfl := Trie.insert_error (fun empty => apart empty trie found) ran
      exact replaces.alike found
    | ok value last =>
      rw [Step.bind_ok ran] at left
      obtain ⟨middle, inserted, replaces⟩ := left
      rw [Step.bind_ok inserted]
      obtain ⟨accounts, recorded, wrote⟩ := writeAccount_ok read
        { account with storageRoot := last.trie.root } replaces.accounts replaces.store
      rw [wrote]
      exact .stored read ⟨rfl, replaces.pendingCode, replaces.store, replaces.here, replaces.others⟩ recorded

/-! The same over any store that answers as its content does. -/

variable {σ : Type} [ByteStore σ] [ReliableStore σ]

/-- Nothing that is read is changed, nor any trie or code, except that a storage trie may have been opened. -/
structure Mounted.Untouched (before after : Mounted σ) : Prop where
  accounts : after.ledger.accounts = before.ledger.accounts
  pendingCode : after.ledger.pendingCode = before.ledger.pendingCode
  content : content after.store = content before.store
  storage : ∀ owner, answer (storageTrie owner after) = answer (storageTrie owner before)
  sight : after.sight = before.sight

theorem answer_storageTrie_view (owner : Address) (mounted : Mounted σ) :
    answer (storageTrie owner mounted.view) = answer (storageTrie owner mounted) := by
  rw [← (agree_storageTrie owner).same, answer_through]

theorem Mounted.untouched_iff {before after : Mounted σ} :
    before.Untouched after ↔ before.view.Alike after.view := by
  constructor
  · intro untouched
    refine ⟨untouched.accounts, untouched.pendingCode, untouched.content, fun owner => ?_⟩
    rw [answer_storageTrie_view, answer_storageTrie_view, untouched.storage]
  · intro alike
    refine ⟨alike.accounts, alike.pendingCode, alike.store, fun owner => ?_, ?_⟩
    · rw [← answer_storageTrie_view, alike.storage, answer_storageTrie_view]
    · rw [← sight_view, alike.sight, sight_view]

theorem Mounted.Untouched.of_agree {α γ : Type} {step : LedgerM σ α} {stepView : LedgerM Content α}
    {measure : Mounted Content → Set γ} {before after : Mounted σ} {error : LedgerError}
    (agree : Agree Mounted.view measure step stepView) (failed : step before = .error error after)
    (alike : ∀ last, stepView before.view = .error error last → before.view.Alike last) :
    before.Untouched after := by
  have ran := agree.same before
  rw [failed] at ran
  exact Mounted.untouched_iff.mpr (alike _ ran.symm)

theorem removesApart_view {key : Bytes} {mounted : Mounted σ} :
    RemovesApart address key mounted.view ↔ RemovesApart address key mounted := by
  simp only [RemovesApart, answer_storageTrie_view]
  exact forall₂_congr fun trie _ => @Trie.removesApart_view σ _ _ key ⟨trie, mounted.store⟩

/-- A write that fails leaves nothing half made: root, accounts, balances, code and storage are read as
before, down to the reads that fail. In particular the storage of an account goes further only together
with its record, which is then written with the root that the storage has come to. -/
theorem failing_write_changes_nothing (mounted : Mounted σ) (address : Address) :
    (∀ code error after, setCode address code mounted = .error error after → mounted.Untouched after) ∧
    (∀ key value error after, (value = [] → RemovesApart address key mounted) →
      setObject address key value mounted = .error error after → mounted.Untouched after) ∧
    (∀ balance error after, setBalance address balance mounted = .error error after →
      mounted.Untouched after) ∧
    (∀ root error after, loadSnapshot root mounted = .error error after → mounted.Untouched after) ∧
    (∀ key value after, setObject address key value mounted = .ok () after →
      ∃ account trie, answer (accountOrFresh address mounted) = .ok account ∧
        after.ledger.storage.get? address = some trie ∧
        (∀ owner, owner ≠ address →
          after.ledger.storage.get? owner = mounted.ledger.storage.get? owner) ∧
        Trie.insert address.bytes { account with storageRoot := trie.root }.encode
            ⟨mounted.ledger.accounts, content mounted.store⟩ =
          .ok () ⟨after.ledger.accounts, content mounted.store⟩) := by
  refine ⟨fun code error after failed => ?_, fun key value error after apart failed => ?_,
    fun balance error after failed => ?_, fun root error after failed => ?_,
    fun key value after ran => ?_⟩
  · exact .of_agree (agree_setCode address code) failed fun last ran => setCode_error ran ▸ .refl _
  · refine .of_agree (agree_setObject address key value) failed fun last ran => ?_
    have cases := setObject_cases mounted.view address key value
    rw [ran] at cases
    cases cases with
    | failed alike => exact alike fun empty => removesApart_view.mpr (apart empty)
  · exact .of_agree (agree_setBalance address balance) failed fun last ran =>
      setBalance_error ran ▸ .refl _
  · exact .of_agree (agree_loadSnapshot root) failed fun last ran => loadSnapshot_error ran ▸ .refl _
  · have cases := setObject_cases mounted.view address key value
    rw [← (agree_setObject address key value).same, ran] at cases
    cases cases with
    | @stored account trie accounts _ read replaces recorded =>
      refine ⟨account, trie, ?_, replaces.here, replaces.others, ?_⟩
      · rw [← read, ← (agree_accountOrFresh address).same, answer_through]
      · rw [show after.ledger.accounts = accounts from replaces.accounts]
        exact recorded

/-- An account whose storage is a branch over two leaves, of which the store has only the first. -/
def damaged : Mounted Memory :=
  let owner := Address.ofNat 1
  let space := Keyspace.ofOwner owner
  let first := Node.leaf [0] [7]
  let top := Node.branch ((Children.none.put 1 (some (Keccak.digest first.encode))).put 2
    (some (Keccak.digest (Node.leaf [0] [8]).encode))) none
  let root := Keccak.digest top.encode
  let accounts := Node.leaf (Path.ofBytes owner.bytes) (Account.mk none root 5).encode
  let accountsRoot := Keccak.digest accounts.encode
  ⟨⟨⟨.ofColumn Column.accounts, [(accountsRoot, accounts.encode)], accountsRoot, Node.emptyRoot⟩, .empty, []⟩,
    (Memory.empty.apply (space.put (Keccak.digest first.encode).bytes first.encode)).apply
      (space.put root.bytes top.encode), []⟩

theorem failing_write_changes_nothing_damaged :
    RemovesApart (.ofNat 1) [0x10] damaged ∧
      (∃ error after, setObject (.ofNat 1) [0x10] [] damaged = .error error after ∧
        damaged.Untouched after) ∧
      answer (getObject (.ofNat 1) [0x10] damaged) = .ok (some [7]) := by
  obtain ⟨-, writes, -⟩ := failing_write_changes_nothing damaged (.ofNat 1)
  have apart : RemovesApart (.ofNat 1) [0x10] damaged := by
    intro trie found
    have same : trie = (answer (storageTrie (.ofNat 1) damaged)).toOption.getD
        (.empty (.ofColumn Column.accounts)) := by
      rw [found]
      rfl
    have overlay :
        (ending (Trie.remove [0x10] ⟨trie, damaged.store⟩)).trie.overlay = trie.overlay := by
      rw [same]
      decide +kernel
    rw [Trie.RemovesApart, overlay]
    simp [Overlay.since, Overlay.Apart]
  refine ⟨apart, ?_, by decide +kernel⟩
  have failed : (answer (setObject (.ofNat 1) [0x10] [] damaged)).toOption = none := by decide +kernel
  obtain ⟨error, ran⟩ := error_of_toOption failed
  exact ⟨error, _, ran, writes [0x10] [] error _ (fun _ => apart) ran⟩

end ContractLedger.Ledger
