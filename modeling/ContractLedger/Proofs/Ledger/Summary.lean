import ContractLedger.Proofs.Ledger.Sight

/-!
The root as a summary of the state. Two ledgers that are reached by any moves, over stores of any
kind, have the same root if and only if they hold the same records with the same storage.
-/

namespace ContractLedger

private theorem account_eq {first second : Holding}
    (hashes : first.code.map Keccak.digest = second.code.map Keccak.digest)
    (balances : first.balance = second.balance) (storages : first.storage = second.storage) :
    first.account first.storageRoot = second.account second.storageRoot := by
  have roots : first.storageRoot = second.storageRoot := congrArg Tree.rootOf storages
  rw [Holding.account, Holding.account, hashes, balances, roots]

private theorem map_account_eq {book other : Book} {root otherRoot : Hash}
    (same : (Sight.ofBook root book).entry = (Sight.ofBook otherRoot other).entry)
    (address : Address) :
    (book address).map (fun holding => holding.account holding.storageRoot) =
      (other address).map fun holding => holding.account holding.storageRoot := by
  have entries := congrFun same address
  rw [Sight.entry_ofBook, Sight.entry_ofBook, Except.ok.injEq] at entries
  cases first : book address with
  | none =>
    cases second : other address with
    | none => rfl
    | some held => simp [first, second] at entries
  | some holding =>
    cases second : other address with
    | none => simp [first, second] at entries
    | some held =>
      simp only [first, second, Option.map_some, Option.some.injEq, Entry.mk.injEq] at entries ⊢
      obtain ⟨hashes, balances, objects⟩ := entries
      refine account_eq hashes balances (funext fun key => ?_)
      exact Except.ok.inj (congrFun objects key)

namespace Ledger

variable {data : Set Bytes} {mounted other : Mounted Content} {book another : Book}
  {roots otherRoots : Address → Hash}

/-- Sound ledgers have the same root if and only if they have the same entries. -/
theorem Sound.root_iff_entry (faithful : Faithful data) (sound : Sound data mounted book roots)
    (again : Sound data other another otherRoots) :
    mounted.sight.root = other.sight.root ↔ mounted.sight.entry = other.sight.entry := by
  have seen := sound.sight faithful
  have seenAgain := again.sight faithful
  constructor
  · intro same
    have shows : other.shelves.Shows mounted.ledger.root another := by
      rw [show mounted.ledger.root = other.ledger.root from same]
      exact ⟨otherRoots, again.lists⟩
    have books : book = another := Shelves.Shows.book_unique faithful ⟨roots, sound.lists⟩
      sound.orderly.among shows again.orderly.among
    subst another
    rw [sound.sight_eq faithful again]
  · intro same
    rw [seen, seenAgain] at same
    refine sound.lists.root_unique again.lists fun address => ?_
    rw [sound.lists.map_account, again.lists.map_account]
    exact map_account_eq same address

end Ledger

namespace Site

variable {σ τ : Type} [ByteStore σ] [ReliableStore σ] [ByteStore τ] [ReliableStore τ]
  {data : Set Bytes} {site : Site σ} {other : Site τ}

/-- Whatever moves two sessions were reached by, every read of theirs succeeds, and their roots are
the same if and only if their entries are. -/
theorem Reached.root_eq_iff (faithful : Faithful data) (reached : Reached data site)
    (reachedOther : Reached data other) (index indexOther : Nat) :
    (site.mounted index).sight.Complete ∧ (other.mounted indexOther).sight.Complete ∧
      ((site.mounted index).sight.root = (other.mounted indexOther).sight.root ↔
        (site.mounted index).sight.entry = (other.mounted indexOther).sight.entry) := by
  obtain ⟨book, roots, sound⟩ := reached.mounted_sound faithful index
  obtain ⟨another, otherRoots, again⟩ := reachedOther.mounted_sound faithful indexOther
  have complete := sound.complete faithful
  have completeOther := again.complete faithful
  have same := sound.root_iff_entry faithful again
  rw [Ledger.sight_view] at complete completeOther
  rw [Ledger.sight_view, Ledger.sight_view] at same
  exact ⟨complete, completeOther, same⟩

def direct : List (Nat × Move) :=
  [(0, .run (.setObject (.ofNat 1) [1] [7]))]

/-- The same write, after another one was committed and its value removed by a second session. -/
def roundabout : List (Nat × Move) :=
  [(0, .run (.setObject (.ofNat 1) [1] [9])), (0, .commit), (1, .openLatest),
    (1, .run (.setObject (.ofNat 1) [1] [])), (1, .run (.setObject (.ofNat 1) [1] [7]))]

set_option maxRecDepth 100000 in
theorem root_eq_iff_roundabout :
    ((unused.run direct).mounted 0).sight.entry = ((unused.run roundabout).mounted 1).sight.entry := by
  have faithful : Faithful { bytes | bytes ∈ unused.seen direct ++ unused.seen roundabout } :=
    .of_nodup (by decide +kernel) (by decide +kernel)
  have first := (reached_unused _).run direct ⟨trivial, trivial⟩
    fun bytes member => List.mem_append_left (unused.seen roundabout) member
  have second := (reached_unused _).run roundabout
    ⟨trivial, trivial, trivial, trivial, trivial, trivial⟩
    fun bytes member => List.mem_append_right (unused.seen direct) member
  exact (Reached.root_eq_iff faithful first second 0 1).2.2.mp (by decide +kernel)

end Site

end ContractLedger
