import ContractLedger.Proofs.Ledger.Failing

/-!
Resets that fail, over any store. A creation empties the storage trie that is open for its address before
it writes the record, and a return to a checkpoint first repoints the accounts and then one open storage
trie after another, each to the root that its owner's record gives. What was done before the failure stays
done: so much is changed and no more, and nothing where there was nothing to reset.
-/

namespace ContractLedger

namespace Trie

theorem get_emptied (trie : Trie) (key : Bytes) (store : Content) :
    answer (get key ⟨trie.revertTo Node.emptyRoot, store⟩) = .ok none := by
  obtain ⟨steps, limit⟩ : ∃ steps, walkLimit (Path.ofBytes key) = steps + 1 :=
    Nat.exists_eq_add_one.mpr (Nat.zero_lt_of_lt (length_lt_walkLimit _))
  rw [get, limit]
  rfl

theorem revertTo_eq_self {trie : Trie} {root : Hash} : trie.revertTo root = trie ↔ root = trie.root :=
  ⟨fun same => congrArg Trie.root same, fun same => by rw [same]; rfl⟩

end Trie

/-- A sight with nothing in the storage of an address. -/
def Sight.emptied (sight : Sight) (address : Address) : Sight :=
  { sight with
    object := fun owner key => if owner = address then .ok none else sight.object owner key }

namespace Ledger

section Repointing

variable {σ : Type} [ByteStore σ] [ReliableStore σ]

/-- A ledger with other accounts, and with the open storage tries of some owners at other roots. -/
structure Mounted.Repoints (mounted : Mounted σ) (accounts : Trie) (owners : List Address)
    (root : Address → Hash) (after : Mounted σ) : Prop where
  accounts : after.ledger.accounts = accounts
  pendingCode : after.ledger.pendingCode = mounted.ledger.pendingCode
  content : content after.store = content mounted.store
  storage : ∀ owner, after.ledger.storage.get? owner =
    if owner ∈ owners then (mounted.ledger.storage.get? owner).map (·.revertTo (root owner))
    else mounted.ledger.storage.get? owner

end Repointing

variable {mounted middle after : Mounted Content} {address owner : Address} {accounts : Trie}
  {owners : List Address} {root : Address → Hash} {error : LedgerError}

namespace Mounted.Repoints

theorem cons (first : mounted.Repoints mounted.ledger.accounts [owner] root middle)
    (rest : middle.Repoints middle.ledger.accounts owners root after) :
    mounted.Repoints mounted.ledger.accounts (owner :: owners) root after where
  accounts := rest.accounts.trans first.accounts
  pendingCode := rest.pendingCode.trans first.pendingCode
  content := rest.content.trans first.content
  storage other := by
    rw [rest.storage, first.storage]
    by_cases again : other ∈ owners
    · rw [if_pos again, if_pos (List.mem_cons_of_mem _ again)]
      split
      · rw [Option.map_map]
        rfl
      · rfl
    · simp only [again, List.mem_cons, List.not_mem_nil, or_false, if_false]

/-- Repointing cannot be seen just if accounts and storage tries stand where they are repointed to. -/
theorem alike_iff (repoints : mounted.Repoints accounts owners root after) :
    mounted.Alike after ↔ accounts = mounted.ledger.accounts ∧
      ∀ owner ∈ owners, ∀ trie, mounted.ledger.storage.get? owner = some trie → trie.root = root owner := by
  constructor
  · intro alike
    refine ⟨repoints.accounts.symm.trans alike.accounts, fun owner member trie cached => ?_⟩
    have repointed := repoints.storage owner
    rw [if_pos member, cached] at repointed
    have same := alike.storage owner
    rw [storageTrie_open cached, storageTrie_open repointed] at same
    exact (Trie.revertTo_eq_self.mp (Except.ok.inj same)).symm
  · rintro ⟨same, stand⟩
    have kept : after.ledger.accounts = mounted.ledger.accounts := repoints.accounts.trans same
    refine ⟨kept, repoints.pendingCode, repoints.content, fun owner =>
      answer_storageTrie_congr kept repoints.content ?_⟩
    rw [repoints.storage]
    split
    · next member =>
      cases cached : mounted.ledger.storage.get? owner with
      | none => rfl
      | some trie =>
        exact congrArg some (Trie.revertTo_eq_self.mpr (stand owner member trie cached).symm)
    · rfl

end Mounted.Repoints

theorem revertStorage_repoints (address : Address) (root : Address → Hash) (mounted : Mounted Content) :
    ∃ after, revertStorage address (root address) mounted = .ok () after ∧
      mounted.Repoints mounted.ledger.accounts [address] root after := by
  rw [revertStorage_apply]
  refine ⟨_, rfl, ?_⟩
  cases cached : mounted.ledger.storage.get? address with
  | none =>
    refine ⟨rfl, rfl, rfl, fun owner => ?_⟩
    by_cases same : owner = address
    · rw [same, cached, if_pos (List.mem_singleton_self _)]
      rfl
    · rw [if_neg (by simpa using same)]
  | some trie =>
    refine ⟨rfl, rfl, rfl, fun owner => ?_⟩
    change (mounted.keeping address (trie.revertTo (root address))).ledger.storage.get? owner = _
    rw [Mounted.keeping, get?_keepStorage]
    by_cases same : owner = address
    · rw [same, cached, if_pos rfl, if_pos (List.mem_singleton_self _)]
      rfl
    · rw [if_neg same, if_neg (by simpa using same)]

/-- A creation that fails has emptied the storage trie that is open for its address. -/
theorem createAccount_error (failed : createAccount address mounted = .error error after) :
    mounted.Repoints mounted.ledger.accounts [address] (fun _ => Node.emptyRoot) after := by
  obtain ⟨emptied, ran, repoints⟩ := revertStorage_repoints address (fun _ => Node.emptyRoot) mounted
  rw [createAccount, Step.bind_ok ran] at failed
  have follows := writeAccount_follows address .fresh emptied
  cases gets : answer (Trie.get address.bytes ⟨emptied.ledger.accounts, emptied.store⟩) with
  | error cause =>
    rw [gets] at follows
    rw [Step.bind_error follows] at failed
    cases failed
    exact repoints
  | ok record =>
    rw [gets] at follows
    obtain ⟨_, _, wrote⟩ := follows
    rw [Step.bind_ok wrote] at failed
    cases failed

/-- The root that an owner's record gives; that of the empty node where there is none or it is not read. -/
def recorded {σ : Type} [ByteStore σ] (mounted : Mounted σ) (owner : Address) : Hash :=
  (answer (storageRoot owner mounted)).toOption.getD Node.emptyRoot

theorem recorded_congr {other : Mounted Content} (accounts : other.ledger.accounts = mounted.ledger.accounts)
    (store : other.store = mounted.store) : recorded other = recorded mounted := by
  funext owner
  rw [recorded, recorded, answer_storageRoot_congr accounts store]

/-- Reverting one storage trie after another fails at the first owner whose record cannot be read. -/
theorem forM_revertStorage_error
    (failed : (owners.forM fun address => do revertStorage address (← storageRoot address) :
      LedgerM Content Unit) mounted = .error error after) :
    ∃ earlier owner later, owners = earlier ++ owner :: later ∧
      (∀ before ∈ earlier, ∃ root, answer (storageRoot before mounted) = .ok root) ∧
      answer (storageRoot owner mounted) = .error error ∧
      mounted.Repoints mounted.ledger.accounts earlier (recorded mounted) after := by
  induction owners generalizing mounted with
  | nil => cases failed
  | cons head rest ih =>
    cases read : answer (storageRoot head mounted) with
    | error cause =>
      have ran := (along_storageRoot head).error_of_answer read
      have stops : (do revertStorage head (← storageRoot head) : LedgerM Content Unit) mounted =
        .error cause mounted := Step.bind_error ran _
      cases (Step.bind_error stops _).symm.trans failed
      exact ⟨[], head, rest, rfl, nofun, read, rfl, rfl, rfl, fun _ => (if_neg List.not_mem_nil).symm⟩
    | ok root =>
      have ran := (along_storageRoot head).ok_of_answer read
      obtain ⟨middle, reverted, first⟩ := revertStorage_repoints head (recorded mounted) mounted
      have here : recorded mounted head = root := by
        rw [recorded, read]
        rfl
      rw [here] at reverted
      have goes : (do revertStorage head (← storageRoot head) : LedgerM Content Unit) mounted =
        .ok () middle := (Step.bind_ok ran _).trans reverted
      obtain ⟨earlier, owner, later, split, readable, unreadable, repoints⟩ :=
        ih ((Step.bind_ok goes _).symm.trans failed)
      have same {owner : Address} : answer (storageRoot owner middle) = answer (storageRoot owner mounted) :=
        answer_storageRoot_congr first.accounts first.content
      rw [recorded_congr first.accounts first.content] at repoints
      refine ⟨head :: earlier, owner, later, congrArg (head :: ·) split, fun before member => ?_,
        same.symm.trans unreadable, first.cons repoints⟩
      rcases List.mem_cons.mp member with rfl | member
      · exact ⟨root, read⟩
      · obtain ⟨root, read⟩ := readable before member
        exact ⟨root, same.symm.trans read⟩

/-- A return to a checkpoint that fails has repointed the accounts, and the open storage tries of all
owners before one whose record cannot be read there. -/
theorem revertTo_error {checkpoint : Hash} (failed : revertTo checkpoint mounted = .error error after) :
    ∃ earlier owner later, mounted.ledger.storage.keys = earlier ++ owner :: later ∧
      (∀ before ∈ earlier, ∃ root, answer (storageRoot before after) = .ok root) ∧
      answer (storageRoot owner after) = .error error ∧
      mounted.Repoints (mounted.ledger.accounts.revertTo checkpoint) earlier (recorded after) after := by
  rw [revertTo, Step.bind_ok (Step.modify_apply ..), Step.bind_ok (Step.get_apply _)] at failed
  obtain ⟨earlier, owner, later, split, readable, unreadable, repoints⟩ := forM_revertStorage_error failed
  have same {owner : Address} : answer (storageRoot owner after) = _ :=
    answer_storageRoot_congr repoints.accounts repoints.content
  rw [← recorded_congr repoints.accounts repoints.content] at repoints
  exact ⟨earlier, owner, later, split, fun before member => same ▸ readable before member,
    same ▸ unreadable, repoints.accounts, repoints.pendingCode, repoints.content, repoints.storage⟩

/-- What is seen after a creation that failed: storage that was open for the address is empty. -/
theorem sight_repoints
    (repoints : mounted.Repoints mounted.ledger.accounts [address] (fun _ => Node.emptyRoot) after) :
    after.sight =
      if (mounted.ledger.storage.get? address).isSome then mounted.sight.emptied address
      else mounted.sight := by
  cases cached : mounted.ledger.storage.get? address with
  | none =>
    refine (repoints.alike_iff.mpr ⟨rfl, fun owner member trie found => ?_⟩).sight
    rw [List.mem_singleton.mp member, cached] at found
    cases found
  | some trie =>
    ext owner : 2
    · exact congrArg Trie.root repoints.accounts
    · exact answer_account_congr repoints.accounts repoints.content
    · exact answer_getCode_congr repoints.accounts repoints.pendingCode repoints.content
    · exact answer_getBalance_congr repoints.accounts repoints.content
    · funext key
      have here := repoints.storage owner
      change answer (getObject owner key after) =
        if owner = address then .ok none else answer (getObject owner key mounted)
      split
      · next same =>
        rw [same, if_pos (List.mem_singleton_self _), cached] at here
        rw [same, answer_getObject_open key here, Trie.get_emptied]
        rfl
      · next other =>
        rw [if_neg (mt List.mem_singleton.mp other)] at here
        exact answer_getObject_congr key repoints.content
          (answer_storageTrie_congr repoints.accounts repoints.content here)

/-! The same over any store that answers as its content does. -/

section Reliable

variable {σ : Type} [ByteStore σ] [ReliableStore σ]

theorem Mounted.repoints_view {before after : Mounted σ} :
    before.view.Repoints accounts owners root after.view ↔ before.Repoints accounts owners root after :=
  ⟨fun ⟨trie, code, store, storage⟩ => ⟨trie, code, store, storage⟩,
    fun ⟨trie, code, store, storage⟩ => ⟨trie, code, store, storage⟩⟩

theorem answer_storageRoot_view (owner : Address) (mounted : Mounted σ) :
    answer (storageRoot owner mounted.view) = answer (storageRoot owner mounted) := by
  rw [← (agree_storageRoot owner).same, answer_through]

theorem recorded_view (mounted : Mounted σ) : recorded mounted.view = recorded mounted := by
  funext owner
  rw [recorded, recorded, answer_storageRoot_view]

/-- What a reset that fails leaves. A creation leaves the storage that was open for its address empty, so
that it changes nothing just if that was so before. A return to a checkpoint leaves the accounts there,
whatever the checkpoint is, and all open storage tries before the first owner whose record cannot be read
there at the roots that are recorded there; so it changes nothing just if all of them stood there. -/
theorem failing_reset_leaves (mounted : Mounted σ) :
    (∀ address error after, createAccount address mounted = .error error after →
      mounted.Repoints mounted.ledger.accounts [address] (fun _ => Node.emptyRoot) after ∧
      after.sight =
        (if (mounted.ledger.storage.get? address).isSome then mounted.sight.emptied address
        else mounted.sight) ∧
      (mounted.Untouched after ↔
        ∀ trie, mounted.ledger.storage.get? address = some trie → trie.root = Node.emptyRoot)) ∧
    (∀ checkpoint error after, revertTo checkpoint mounted = .error error after →
      ∃ earlier owner later, mounted.ledger.storage.keys = earlier ++ owner :: later ∧
        (∀ before ∈ earlier, ∃ root, answer (storageRoot before after) = .ok root) ∧
        answer (storageRoot owner after) = .error error ∧
        mounted.Repoints (mounted.ledger.accounts.revertTo checkpoint) earlier (recorded after) after ∧
        (mounted.Untouched after ↔ checkpoint = mounted.ledger.root ∧
          ∀ before ∈ earlier, ∀ trie, mounted.ledger.storage.get? before = some trie →
            trie.root = recorded after before)) := by
  refine ⟨fun address error after failed => ?_, fun checkpoint error after failed => ?_⟩
  · have ran := (agree_createAccount address).same mounted
    rw [failed] at ran
    have repoints := createAccount_error ran.symm
    refine ⟨Mounted.repoints_view.mp repoints, ?_, ?_⟩
    · rw [← sight_view, ← sight_view mounted]
      exact sight_repoints repoints
    · rw [Mounted.untouched_iff, repoints.alike_iff]
      simp only [List.mem_singleton, forall_eq, true_and]
      exact Iff.rfl
  · have ran := (agree_revertTo checkpoint).same mounted
    rw [failed] at ran
    obtain ⟨earlier, owner, later, split, readable, unreadable, repoints⟩ := revertTo_error ran.symm
    rw [recorded_view] at repoints
    refine ⟨earlier, owner, later, split, fun before member => ?_, ?_, Mounted.repoints_view.mp repoints, ?_⟩
    · rw [← answer_storageRoot_view]
      exact readable before member
    · rw [← answer_storageRoot_view]
      exact unreadable
    · rw [Mounted.untouched_iff, repoints.alike_iff]
      exact and_congr_left' Trie.revertTo_eq_self

end Reliable

/-- An address that is apart from all short ones in its first nibble. -/
def distant : Address := .ofNat (15 * 16 ^ 39)

/-- A ledger of two accounts, in which the storage of the first was read after they were committed. -/
def begun : Mounted Memory :=
  let steps : LedgerM Memory Unit := do
    setObject (.ofNat 1) [0x6b] [0x76]
    setBalance distant 5
    commit
    let _ ← getObject (.ofNat 1) [0x6b]
  ending (steps ⟨.ofRoot Node.emptyRoot, Memory.empty, []⟩)

/-- The digest of the leaf with the record of the first of the two. -/
def lost : Hash :=
  Keccak.digest (Node.leaf ((Path.ofBytes (Address.ofNat 1).bytes).drop 1)
    (Account.mk none (recorded begun (.ofNat 1)) 0).encode).encode

/-- The same ledger after its store lost that leaf and the balance of the second account was changed. -/
def bereft : Mounted Memory :=
  ending (setBalance distant 6
    { begun with store := begun.store.apply (.delete Column.accounts lost.bytes) })

theorem failing_reset_leaves_bereft :
    (∃ error after, createAccount (.ofNat 2) bereft = .error error after ∧ bereft.Untouched after) ∧
      ∃ error after, revertTo bereft.ledger.root bereft = .error error after ∧ bereft.Untouched after := by
  obtain ⟨creation, reversion⟩ := failing_reset_leaves bereft
  obtain ⟨keys, refused, stays⟩ : bereft.ledger.storage.keys = [.ofNat 1] ∧
      (answer (createAccount (.ofNat 2) bereft)).toOption = none ∧
      (answer (revertTo bereft.ledger.root bereft)).toOption = none := by decide +kernel
  obtain ⟨error, created⟩ := error_of_toOption refused
  obtain ⟨cause, reverted⟩ := error_of_toOption stays
  refine ⟨⟨error, _, created, (creation _ _ _ created).2.2.mpr fun trie cached => ?_⟩, cause, _, reverted, ?_⟩
  · have member : Address.ofNat 2 ∈ bereft.ledger.storage.keys := by
      rw [OrderedMap.mem_keys, cached]
      rfl
    rw [keys] at member
    exact absurd member (by decide)
  · obtain ⟨earlier, owner, later, split, -, -, -, untouched⟩ := reversion _ _ _ reverted
    have first : earlier = [] := by
      rw [keys] at split
      cases earlier with
      | nil => rfl
      | cons head rest => simp at split
    exact untouched.mpr ⟨rfl, by simp [first]⟩

/-- A creation that fails has emptied the storage that was open; a return to the root that the batch began
with fails and has undone what was changed since, though not all of it can be read. -/
theorem failing_reset_strays :
    (∃ error after, createAccount (.ofNat 1) bereft = .error error after ∧
      after.sight.object (.ofNat 1) [0x6b] ≠ bereft.sight.object (.ofNat 1) [0x6b]) ∧
    ∃ error after, revertTo begun.ledger.root bereft = .error error after ∧
      after.sight.root ≠ bereft.sight.root ∧ after.sight.balance distant ≠ bereft.sight.balance distant := by
  obtain ⟨creation, emptied, reversion, moved⟩ :
      (answer (createAccount (.ofNat 1) bereft)).toOption = none ∧
      (ending (createAccount (.ofNat 1) bereft)).sight.object (.ofNat 1) [0x6b] ≠
        bereft.sight.object (.ofNat 1) [0x6b] ∧
      (answer (revertTo begun.ledger.root bereft)).toOption = none ∧
      let after := ending (revertTo begun.ledger.root bereft)
      after.sight.root ≠ bereft.sight.root ∧
        after.sight.balance distant ≠ bereft.sight.balance distant := by decide +kernel
  obtain ⟨error, created⟩ := error_of_toOption creation
  obtain ⟨cause, reverted⟩ := error_of_toOption reversion
  exact ⟨⟨error, _, created, emptied⟩, cause, _, reverted, moved⟩

end Ledger

end ContractLedger
