import ContractLedger.Proofs.Ledger.Checkpoint
import ContractLedger.Proofs.Trie.Fresh

/-!
Storage roots and storage. The root of an account's storage is told twice, by the record of the
account and by the cached storage trie. Whatever moves a session was reached by, both are the root of
a new trie of exactly the entries that are read of the address.
-/

namespace ContractLedger

namespace Ledger

variable {data : Set Bytes} {mounted : Mounted Content} {book : Book} {roots : Address → Hash}

/-- The storage trie of an address lists the storage that the book gives. -/
theorem Sound.lists_storage (faithful : Faithful data) (sound : Sound data mounted book roots)
    (address : Address) :
    ∃ entries, answer (onStorage address Trie.pairs mounted) = .ok entries ∧
      Enumerates entries (book.holding address).storage := by
  obtain ⟨entries, after, ran, enumerates, _⟩ := onStorage_sound
    (motive := (Enumerates · (book.holding address).storage)) faithful sound address
    fun _ _ orderly spells stored root => Trie.pairs_tree faithful orderly spells stored root
  rw [ran]
  exact ⟨entries, rfl, enumerates⟩

/-- The root of the storage of an address is that of its record, or of nothing without one. -/
theorem Sound.root_recorded (sound : Sound data mounted book roots) (address : Address) :
    roots address =
      (((book address).map (·.account (roots address))).map Account.storageRoot).getD
        Node.emptyRoot := by
  have storage := sound.lists.storage address
  rw [Book.holding] at storage
  cases held : book address with
  | some holding => rfl
  | none =>
    rw [held] at storage
    exact storage.root_unique (Keeps.empty : Keeps (mounted.shelves.storage address) _ _)

end Ledger

namespace Site

variable {σ : Type} [ByteStore σ] [ReliableStore σ] {data : Set Bytes} {site : Site σ}

/-- In a session that is reached, what is read of an address can be listed. A record of the address
has the root of a new trie of exactly these entries, and a cached storage trie has the root of the
record, or that of the empty trie if there is no record. -/
theorem Reached.storageRoot_fresh (faithful : Faithful data) (reached : Reached data site)
    (index : Nat) (address : Address) :
    ∃ found entries shown,
      (site.mounted index).sight.account address = .ok found ∧
      answer (Ledger.onStorage address Trie.pairs (site.mounted index)) = .ok entries ∧
      Enumerates entries shown ∧
      (∀ key, (site.mounted index).sight.object address key = .ok (shown key)) ∧
      (∀ account ∈ found, Trie.FreshRoot account.storageRoot shown) ∧
      ∀ trie, (site.mounted index).ledger.storage.get? address = some trie →
        trie.root = (found.map Account.storageRoot).getD Node.emptyRoot := by
  obtain ⟨book, roots, sound⟩ := reached.mounted_sound faithful index
  obtain ⟨entries, listed, enumerates⟩ := sound.lists_storage faithful address
  have agree := Ledger.agree_onStorage address (Trie.nodewise_agree (σ := σ)).pairs
  rw [← agree.same, answer_through] at listed
  have seen := sound.sight faithful
  rw [Ledger.sight_view] at seen
  refine ⟨(book address).map (·.account (roots address)), entries, (book.holding address).storage,
    ?_, listed, enumerates, fun key => ?_, fun account member => ?_, fun trie cached => ?_⟩
  · rw [seen, sound.lists.map_account]
    rfl
  · rw [seen]
    rfl
  · have storage := sound.lists.storage address
    obtain ⟨holding, _, rfl⟩ := Option.map_eq_some_iff.mp member
    exact storage.freshRoot
  · exact (sound.cached address trie cached).trans (sound.root_recorded address)

/-- A value that is written and, after its account was replaced, there again. A second session opens
what was committed and adds another value. -/
def returning : List (Nat × Move) :=
  let checkpoint := ((unused.run stored).mounted 0).ledger.root
  stored ++ [(0, .checkpoint), (0, .run (.createAccount (.ofNat 1))), (0, .revertTo checkpoint),
    (0, .commit), (1, .openLatest), (1, .run (.setObject (.ofNat 1) [1, 2] [9]))]

set_option maxRecDepth 100000 in
theorem storageRoot_fresh_returning :
    ∃ account replies after trie,
      ((unused.run returning).mounted 1).sight.account (.ofNat 1) = .ok (some account) ∧
      Trie.Change.run [.insert [1] [7], .insert [1, 2] [9]]
        ⟨Trie.empty (.ofOwner (.ofNat 1)), Memory.empty⟩ = .ok replies after ∧
      ((unused.run returning).mounted 1).ledger.storage.get? (.ofNat 1) = some trie ∧
      after.trie.root = account.storageRoot ∧ trie.root = account.storageRoot := by
  have faithful : Faithful { bytes | bytes ∈ unused.seen returning } :=
    .of_nodup (by decide +kernel) (by decide +kernel)
  have permits : unused.Permits returning := by
    refine ⟨trivial, trivial, trivial, ?_, trivial, trivial, trivial, trivial⟩
    change _ ∈ Session.checkpoints _
    decide +kernel
  have reached := (reached_unused _).run returning permits fun bytes member => member
  obtain ⟨found, entries, shown, read, listed, enumerates, _, fresh, cached⟩ :=
    Reached.storageRoot_fresh faithful reached 1 (.ofNat 1)
  have kept : answer (Ledger.onStorage (.ofNat 1) Trie.pairs ((unused.run returning).mounted 1)) =
      .ok [([1], [7]), ([1, 2], [9])] := by decide +kernel
  obtain rfl : entries = [([1], [7]), ([1, 2], [9])] := Except.ok.inj (listed.symm.trans kept)
  have recorded : (((unused.run returning).mounted 1).sight.account (.ofNat 1)).toOption.join.isSome ∧
      (((unused.run returning).mounted 1).ledger.storage.get? (.ofNat 1)).isSome := by decide +kernel
  rw [read] at recorded
  obtain ⟨account, rfl⟩ := Option.isSome_iff_exists.mp recorded.1
  obtain ⟨trie, present⟩ := Option.isSome_iff_exists.mp recorded.2
  obtain ⟨replies, after, ran, root⟩ := fresh account rfl Memory (.ofOwner (.ofNat 1)) Memory.empty _
    enumerates.entry (.of_nodup (by decide +kernel) (by decide +kernel))
  exact ⟨account, replies, after, trie, read, ran, present, root, cached trie present⟩

end Site

end ContractLedger
