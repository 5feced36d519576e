import ContractLedger.Proofs.Engine.Sound
import ContractLedger.Proofs.Settlement.Exits

/-!
Settled transactions. A transaction either is refused before it touched anything, or its batch is
dropped, or its batch is committed. In the first two cases store and ledger are as they were, and in
the last one the store alone gives the ledger again.
-/

namespace ContractLedger

def TransactionAction.code : TransactionAction → List Bytes
  | create code => [code]
  | call _ => []

namespace Settlement

section Batches

variable {σ : Type} [ByteStore σ]

/-- The batch of a transaction before it is settled. -/
def unsettled (engine : Engine) (transaction : Transaction) (block : Block) : SettleM σ Unit := do
  let result ← execute engine transaction (contextOf transaction block)
  if result.isSuccess then
    applyTransfers transaction result.transfers

/-- Whether a transaction was executed with success. -/
def succeeded : EStateM.Result Refusal (Host σ) ExecutionResult → Bool
  | .ok result _ => result.isSuccess
  | .error _ _ => false

theorem agree_unsettled [ReliableStore σ] (engine : Engine) (transaction : Transaction)
    (block : Block) :
    Agree Host.view Host.pending (unsettled engine transaction block : SettleM σ Unit)
      (unsettled engine transaction block) :=
  .bind (agree_execute _ _ _) fun _ => .ite (agree_applyTransfers _ _) (.done _)

theorem ending_unsettled_view [ReliableStore σ] (engine : Engine) (transaction : Transaction)
    (block : Block) (host : Host σ) : (ending (unsettled engine transaction block host)).view =
      ending (unsettled engine transaction block host.view) := by
  rw [← ending_through Host.view, (agree_unsettled engine transaction block).same]

end Batches

/-! Going on with the batch of the ledger. -/

variable {data : Set Bytes}

private theorem onward_tell (host : Host Content) (severity : Severity) (topic text : String) :
    Host.Onward data host (host.tell severity topic text) :=
  ⟨Set.Subset.refl _, fun book roots sound _ =>
    ⟨⟨rfl, rfl, .refl _⟩, book, roots, sound.grow sound.orderly.store (.refl _) _⟩⟩

private theorem along_onLedger {α : Type} {step : LedgerM Content α}
    (along : Along (Ledger.Onward data) step) : Along (Host.Onward data) (onLedger step) :=
  Host.along_run _ along

variable (faithful : Faithful data)
include faithful

private theorem followed_onward : Followed (Host.Onward data) data where
  create _ := along_onLedger (Ledger.along_createAccount faithful _)
  write _ _ member := along_onLedger (Ledger.along_setCode faithful _ member)
  code _ := along_onLedger (Ledger.along_getCode faithful _)
  balance _ := along_onLedger (Ledger.along_getBalance faithful _)
  fund _ _ := along_onLedger (Ledger.along_setBalance faithful _ _)
  tell := onward_tell
  run engine context program meter host :=
    (respected_onward faithful).runOutermost engine context program (Engine.startWorld host meter)

/-! The ends of a transaction. -/

/-- How a transaction leaves the ledger: untouched, with its batch dropped, or with it committed. -/
inductive Ends (data : Set Bytes) (before : Ledger.Mounted Content) :
    Bool → Ledger.Mounted Content → Prop
  | refused : Ends data before false before
  | dropped (journal : Journal) : Ends data before false
      ⟨.ofRoot before.ledger.accounts.committedRoot, before.store, journal⟩
  | committed {batch after : Ledger.Mounted Content} {book : Book} {roots : Address → Hash}
      (commits : Ledger.Commits data batch after book roots) : Ends data before true after

variable {host batch : Host Content} {book : Book} {roots : Address → Hash}

omit faithful in
private theorem rolledBack_onward (sound : Ledger.Sound data host.ledger book roots)
    (onward : Host.Onward data host batch) (pending : batch.pending ⊆ data) :
    Ends data host.ledger false (rolledBack batch).ledger := by
  obtain ⟨leads, _, _, soundBatch⟩ := onward.sound book roots sound pending
  obtain ⟨journal, ran⟩ := Ledger.rollback_apply soundBatch.orderly.space
  rw [leads.committed, leads.store] at ran
  rw [rolledBack, onLedger, Host.run, ran]
  exact .dropped journal

private theorem commit_onward (sound : Ledger.Sound data host.ledger book roots)
    (onward : Host.Onward data host batch) (pending : batch.pending ⊆ data) :
    ∃ after, onLedger Ledger.commit batch = .ok () after ∧
      Ends data host.ledger true after.ledger := by
  obtain ⟨_, _, _, soundBatch⟩ := onward.sound book roots sound pending
  obtain ⟨after, ran, commits⟩ := Ledger.commit_sound faithful soundBatch
  refine ⟨{ batch with ledger := after }, ?_, .committed commits⟩
  rw [onLedger, Host.run, ran]

/-- Every transaction on a sound ledger ends in one of these ways. -/
theorem transact_ends (engine : Engine) (transaction : Transaction) (block : Block)
    (sound : Ledger.Sound data host.ledger book roots)
    (within : ∀ code ∈ transaction.action.code, code ∈ data)
    (pending : (ending (unsettled engine transaction block host)).pending ⊆ data) :
    Ends data host.ledger (succeeded (transact engine transaction block host))
      (ending (transact engine transaction block host)).ledger := by
  have known : onLedger (Ledger.getBalance transaction.sender) host =
      .ok (book.holding transaction.sender).balance host := by
    rw [onLedger, Host.run, Ledger.getBalance_apply faithful sound.orderly sound.lists]
  have followed := followed_onward faithful
  have ran := followed.execute engine transaction (contextOf transaction block)
    (fun code creates => within code (by rw [creates]; exact List.mem_cons_self)) host
  -- The batch of a run that succeeded, its transfers carried out as far as they go.
  have applied {result : ExecutionResult} {batch : Host Content}
      (executed : execute engine transaction (contextOf transaction block) host = .ok result batch)
      (success : result.isSuccess = true) :
      Host.Onward data host (ending (applyTransfers transaction result.transfers batch)) ∧
        (ending (applyTransfers transaction result.transfers batch)).pending ⊆ data := by
    rw [executed] at ran
    rw [unsettled, Step.bind_ok executed, if_pos success] at pending
    exact ⟨trans_of (Host.Onward data) ran (followed.applyTransfers transaction _ batch), pending⟩
  have exits : Exits engine transaction block host (transact engine transaction block host) :=
    transact_exits
  generalize transact engine transaction block host = ended at exits ⊢
  cases exits with
  | unread read => cases known.symm.trans read
  | uncovered read short =>
    cases known.symm.trans read
    exact .refused
  | unexecuted read executed =>
    cases known.symm.trans read
    rw [executed] at ran
    rw [unsettled, Step.bind_error executed] at pending
    exact rolledBack_onward sound ran pending
  | failed read executed failure =>
    cases known.symm.trans read
    rw [executed] at ran
    rw [unsettled, Step.bind_ok executed, failure] at pending
    rw [succeeded, failure]
    exact rolledBack_onward sound (trans_of (Host.Onward data) ran (onward_tell ..)) pending
  | unmoved read executed success moved =>
    cases known.symm.trans read
    obtain ⟨onward, inside⟩ := applied executed success
    rw [moved] at onward inside
    exact rolledBack_onward sound onward inside
  | uncommitted read executed success moved refused =>
    cases known.symm.trans read
    obtain ⟨onward, inside⟩ := applied executed success
    rw [moved] at onward inside
    obtain ⟨_, commits, _⟩ := commit_onward faithful sound onward inside
    cases commits.symm.trans refused
  | committed read covered executed success moved committed =>
    cases known.symm.trans read
    obtain ⟨onward, inside⟩ := applied executed success
    rw [moved] at onward inside
    obtain ⟨_, commits, ends⟩ := commit_onward faithful sound onward inside
    cases commits.symm.trans committed
    rw [succeeded, success]
    exact ends

/-- What a transaction leaves of the ledger before it: all that it did if it succeeded, and nothing
otherwise. In either case the ledger that is left cannot be told from one opened at its root, is one
if it was before, and nothing waits for a commit that did not wait before. -/
structure Settles {σ : Type} [ByteStore σ] [ReliableStore σ] (before : Ledger.Mounted σ)
    (success : Bool) (after : Ledger.Mounted σ) : Prop where
  undone : success = false →
    content after.store = content before.store ∧ after.sight = before.sight
  kept : success = true → after.Reopens Ledger.openLatest
  reopens : after.Reopens (Ledger.openAt after.ledger.root)
  complete : after.sight.Complete
  fresh : before.ledger = .ofRoot before.ledger.root → after.ledger = .ofRoot after.ledger.root
  committed : after.ledger.root = after.ledger.accounts.committedRoot
  pending : after.ledger.pending ⊆ before.ledger.pending

variable {before after : Ledger.Mounted Content} {success : Bool}

private theorem Ends.settles (sound : Ledger.Sound data before book roots)
    (shows : before.store.shelves.Shows before.ledger.accounts.committedRoot book)
    (settled : before.ledger.root = before.ledger.accounts.committedRoot)
    (ends : Ends data before success after) : Settles before success after := by
  cases ends with
  | refused =>
    have here : before.store.shelves.Shows before.ledger.root book := settled ▸ shows
    exact ⟨fun _ => ⟨rfl, rfl⟩, nofun, sound.reopens_openAt faithful here, sound.complete faithful, id,
      settled, Set.Subset.refl _⟩
  | dropped journal =>
    obtain ⟨rootsBefore, lists⟩ := shows
    have left := Ledger.sound_ofRoot sound.orderly.store lists journal
    refine ⟨fun _ => ⟨rfl, left.sight_eq faithful sound⟩, nofun,
      left.reopens_openAt faithful ⟨rootsBefore, lists⟩, left.complete faithful, fun _ => rfl, rfl, ?_⟩
    rw [Ledger.pending_ofRoot]
    exact Set.empty_subset _
  | @committed batch _ bookAfter rootsAfter commits =>
    have root : after.ledger.root = batch.ledger.root := by
      rw [commits.ledger]
      rfl
    obtain ⟨latest, here⟩ := commits.reopens faithful
    rw [← root] at here
    refine ⟨nofun, fun _ => latest, here, commits.sound.complete faithful, fun _ => ?_, ?_, ?_⟩
    · rw [root, commits.ledger]
    · rw [commits.ledger]
      rfl
    · rw [commits.ledger, Ledger.pending_ofRoot]
      exact Set.empty_subset _

omit faithful in
private theorem Settles.of_view {σ : Type} [ByteStore σ] [ReliableStore σ]
    {before after : Ledger.Mounted σ} (settles : Settles before.view success after.view) :
    Settles before success after := by
  obtain ⟨undone, kept, reopens, complete, fresh, committed, pending⟩ := settles
  rw [Ledger.sight_view, Ledger.sight_view] at undone
  rw [Ledger.sight_view] at complete
  exact ⟨undone, fun done => (kept done).of_view Ledger.agree_openLatest,
    reopens.of_view (Ledger.agree_openAt _), complete, fresh, committed, pending⟩

end Settlement

namespace Site

variable {σ : Type} [ByteStore σ] [ReliableStore σ] {data : Set Bytes} {site : Site σ} {index : Nat}

/-- A transaction on a session with no uncommitted change is carried out as a whole, or it leaves
store and ledger as they were. -/
theorem Reached.transact_atomic (faithful : Faithful data) (reached : Reached data site)
    (engine : Engine) (transaction : Transaction) (block : Block) (host : Host σ)
    (hosts : site.Hosts index host)
    (settled : host.ledger.ledger.root = host.ledger.ledger.accounts.committedRoot)
    (within : ∀ code ∈ transaction.action.code, code ∈ data)
    (pending : (ending (Settlement.unsettled engine transaction block host)).view.pending ⊆ data) :
    Settlement.Settles host.ledger
      (Settlement.succeeded (Settlement.transact engine transaction block host))
      (ending (Settlement.transact engine transaction block host)).ledger := by
  obtain ⟨book, roots, sound⟩ := reached.host_sound faithful hosts
  obtain ⟨bookBefore, shows⟩ : ∃ book, host.view.ledger.store.shelves.Shows
      host.view.ledger.ledger.accounts.committedRoot book := by
    obtain ⟨⟨ledger, store, journal⟩, observations⟩ := host
    obtain ⟨rfl, rfl⟩ := hosts
    exact (reached.view.sound faithful).committed index
  -- The root is the committed one, so what was committed is what the session holds.
  obtain rfl : bookBefore = book := by
    refine shows.book_unique faithful sound.orderly.store.among ?_ sound.orderly.among
    rw [show host.view.ledger.ledger.accounts.committedRoot = host.view.ledger.ledger.root from
      settled.symm]
    exact ⟨roots, sound.lists⟩
  have same := (Settlement.agree_transact engine transaction block).same host
  rw [Settlement.ending_unsettled_view] at pending
  have ends := Settlement.transact_ends faithful engine transaction block sound within pending
  have settles := ends.settles faithful sound shows settled
  rw [← same] at settles
  cases ran : Settlement.transact engine transaction block host <;>
    rw [ran] at settles <;> exact settles.of_view

/-- A contract whose constructor writes. -/
def founded : ContractType :=
  ContractType.start "Founded" "founded" (return [])
    |>.withConstructor [] (fun _ => do
      Code.write [1] [7]
      return [])

def founding : Transaction :=
  ⟨.ofNat 3, .ofNat 1, 0, 1000, .create [5], []⟩

def foundingEngine : Engine := ⟨fun _ => .ok [founded], .none, .standard⟩

def foundingHost : Host Memory := ⟨unused.mounted 0, []⟩

set_option maxRecDepth 100000 in
theorem transact_atomic_founding :
    (ending (Settlement.transact foundingEngine founding ⟨1, .ofNat 9⟩
      foundingHost)).ledger.Reopens Ledger.openLatest := by
  let left := (ending (Settlement.unsettled foundingEngine founding ⟨1, .ofNat 9⟩
    foundingHost)).ledger.ledger.pendingList
  obtain ⟨success, apart, inside, short⟩ :
      Settlement.succeeded (Settlement.transact foundingEngine founding ⟨1, .ofNat 9⟩
        foundingHost) = true ∧
      ((Node.empty.encode :: left).dedup.map Keccak.digest).Nodup ∧ [5] ∈ left ∧
      ∀ record ∈ left, record.length < 2 ^ 63 := by decide +kernel
  have hosts : unused.Hosts 0 foundingHost := ⟨rfl, rfl⟩
  have settles := Reached.transact_atomic (.of_nodup apart short) (reached_unused _) foundingEngine
    founding ⟨1, .ofNat 9⟩ foundingHost hosts rfl
    (fun code member => (List.mem_singleton.mp member).symm ▸ inside)
    fun bytes member => Host.mem_pendingList.mpr member
  exact settles.kept success

end Site

end ContractLedger
