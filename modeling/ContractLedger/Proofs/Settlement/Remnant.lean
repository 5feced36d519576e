import ContractLedger.Proofs.Engine.Drafting
import ContractLedger.Proofs.Engine.Settled

/-!
What a refused transaction leaves behind, over any store. Whatever the store refuses, a transaction that
is not executed drops its batch, unless it was the commit that failed: then the whole batch is still
pending, and goes into the store with the next commit.
-/

namespace ContractLedger

variable {σ ε α : Type} [ByteStore σ]

/-- The ledger that a rollback of a host leads back to. -/
def Host.dropped (host : Host σ) : Ledger :=
  host.ledger.dropped

/-- The ledger that a rollback of a world leads back to. -/
def World.dropped (world : World σ) : Ledger :=
  world.host.dropped

/-- Whatever an invocation does, a rollback leads back to the same ledger. -/
theorem respected_dropping : Respected (Keeping (World.dropped : World σ → Ledger)) :=
  Ledger.batchwise_dropping.respected

namespace Settlement

/-- Whatever a transaction does short of its commit, a rollback leads back to the same ledger. -/
theorem followed_dropping : Followed (Keeping (Host.dropped : Host σ → Ledger)) Set.univ where
  create _ := Host.drafts_run (Ledger.batchwise_dropping.createAccount _)
  write _ _ _ := Host.drafts_run (Ledger.batchwise_dropping.setCode _ _)
  code _ := Host.drafts_run (Ledger.batchwise_dropping.getCode _)
  balance _ := Host.drafts_run (Ledger.batchwise_dropping.getBalance _)
  fund _ _ := Host.drafts_run (Ledger.batchwise_dropping.setBalance _ _)
  tell _ _ _ _ := rfl
  run engine context program meter host :=
    respected_dropping.runOutermost engine context program (Engine.startWorld host meter)

theorem commit_remnant {last after : Host σ} {refusal : Refusal}
    (ran : onLedger Ledger.commit last = .error refusal after) :
    ∃ reason, Ledger.commit last.ledger = .error reason after.ledger ∧ refusal = .state reason ∧
      after.ledger.ledger = last.ledger.ledger := by
  rw [onLedger, Host.run] at ran
  cases committed : Ledger.commit last.ledger with
  | ok value final =>
    rw [committed] at ran
    cases ran
  | error reason final =>
    rw [committed] at ran
    cases ran
    exact ⟨reason, rfl, rfl, Ledger.commit_error committed⟩

/-- A transaction that is refused on a ledger without uncommitted changes leaves its root, and leaves the
ledger as it was or with its batch dropped, unless the commit failed: then everything that the
transaction did is pending still. -/
theorem transact_remnant (engine : Engine) (transaction : Transaction) (block : Block)
    {host after : Host σ}
    (clean : host.ledger.ledger.root = host.ledger.ledger.accounts.committedRoot)
    {refusal : Refusal} (ran : transact engine transaction block host = .error refusal after) :
    after.ledger.ledger.root = host.ledger.ledger.root ∧
      (after.ledger.ledger = host.ledger.ledger ∨ after.ledger.ledger = host.dropped) ∨
    ∃ start result batch last reason, start.ledger.ledger = host.ledger.ledger ∧
      execute engine transaction (contextOf transaction block) start = .ok result batch ∧
      result.isSuccess = true ∧
      applyTransfers transaction result.transfers batch = .ok () last ∧
      Ledger.commit last.ledger = .error reason after.ledger ∧ refusal = .state reason ∧
      after.ledger.ledger = last.ledger.ledger := by
  have exits : Exits engine transaction block host (transact engine transaction block host) :=
    transact_exits
  rw [ran] at exits
  have kept : (ending (onLedger (Ledger.getBalance transaction.sender) host)).ledger.ledger =
      host.ledger.ledger := by
    rw [onLedger, Host.ending_run]
    exact Ledger.lookups_keeping.getBalance transaction.sender host.ledger
  have along : Along (Keeping (Host.dropped : Host σ → Ledger))
      (execute engine transaction (contextOf transaction block)) :=
    followed_dropping.execute engine transaction _ fun _ _ => Set.mem_univ _
  have back {last : Host σ} (same : last.dropped = host.dropped) :
      (rolledBack last).ledger.ledger.root = host.ledger.ledger.root ∧
        ((rolledBack last).ledger.ledger = host.ledger.ledger ∨
          (rolledBack last).ledger.ledger = host.dropped) :=
    ⟨(congrArg Ledger.root same).trans clean.symm, .inr same⟩
  cases exits with
  | unread read =>
    rw [read] at kept
    exact .inl ⟨congrArg Ledger.root kept, .inl kept⟩
  | uncovered read short =>
    rw [read] at kept
    exact .inl ⟨congrArg Ledger.root kept, .inl kept⟩
  | @unexecuted _ start _ batch read executed =>
    rw [read] at kept
    have same := along start
    rw [executed] at same
    exact .inl (back (same.trans (congrArg Ledger.dropped kept)))
  | @unmoved _ start result batch _ last read executed success moved =>
    rw [read] at kept
    have same := along start
    have onward := followed_dropping.applyTransfers transaction result.transfers batch
    rw [executed] at same
    rw [moved] at onward
    exact .inl (back (onward.trans (same.trans (congrArg Ledger.dropped kept))))
  | @uncommitted _ start result batch last _ _ read executed success moved refused =>
    rw [read] at kept
    obtain ⟨reason, failed, told, left⟩ := commit_remnant refused
    exact .inr ⟨start, result, batch, last, reason, kept, executed, success, moved, failed, told, left⟩

end Settlement

/-- A store in memory that refuses so many writes, which leave it as it is. -/
structure Faltering where
  memory : Memory
  refusals : Nat

namespace Faltering

def onMemory (access : EStateM StoreError Memory α) : EStateM StoreError Faltering α := fun store =>
  match access store.memory with
  | .ok value memory => .ok value { store with memory }
  | .error error memory => .error error { store with memory }

instance : ByteStore Faltering where
  read column key := onMemory (ByteStore.read column key)
  write ops := fun store =>
    match store.refusals with
    | 0 => onMemory (ByteStore.write ops) store
    | refusals + 1 => .error (.refused "no space left") { store with refusals }

end Faltering

namespace Settlement

open Site (founding foundingEngine)

/-- An empty ledger over a store that refuses one write. -/
def falteringHost : Host Faltering := ⟨⟨.ofRoot Node.emptyRoot, ⟨.empty, 1⟩, []⟩, []⟩

def noSpace : LedgerError := .store (.refused "no space left")

set_option maxRecDepth 100000 in
theorem faltering_refuses :
    (answer (transact foundingEngine founding ⟨1, .ofNat 9⟩ falteringHost)).map (fun _ => ()) =
      .error (.state noSpace) ∧
    (ending (transact foundingEngine founding ⟨1, .ofNat 9⟩ falteringHost)).ledger.ledger.root ≠
      falteringHost.ledger.ledger.root := by
  decide +kernel

theorem transact_remnant_founding :
    ∃ (result : ExecutionResult) (batch last after : Host Faltering),
      transact foundingEngine founding ⟨1, .ofNat 9⟩ falteringHost = .error (.state noSpace) after ∧
      result.isSuccess = true ∧ applyTransfers founding result.transfers batch = .ok () last ∧
      Ledger.commit last.ledger = .error noSpace after.ledger ∧
      after.ledger.ledger = last.ledger.ledger := by
  obtain ⟨refused, differs⟩ := faltering_refuses
  obtain ⟨after, ran⟩ := error_of_answer_map refused
  rw [ran] at differs
  rcases transact_remnant foundingEngine founding ⟨1, .ofNat 9⟩ rfl ran with
    ⟨same, _⟩ | ⟨_, result, batch, last, reason, _, _, success, moved, failed, told, left⟩
  · exact absurd same differs
  · cases told
    exact ⟨result, batch, last, after, ran, success, moved, failed, left⟩

set_option maxRecDepth 100000 in
/-- A creation that is told as not executed, because its commit was refused, lasts after the next. -/
theorem founding_outlasts_refusal :
    ∃ after, transact foundingEngine founding ⟨1, .ofNat 9⟩ falteringHost =
        .error (.state noSpace) after ∧
      after.ledger.ledger.root ≠ falteringHost.ledger.ledger.root ∧
      answer ((do
        Ledger.commit
        Ledger.openLatest
        Ledger.getCode founding.contract : LedgerM Faltering _) after.ledger) = .ok (some [5]) := by
  obtain ⟨refused, differs⟩ := faltering_refuses
  have lasts : answer ((do
      Ledger.commit
      Ledger.openLatest
      Ledger.getCode founding.contract : LedgerM Faltering _)
      (ending (transact foundingEngine founding ⟨1, .ofNat 9⟩ falteringHost)).ledger) =
        .ok (some [5]) := by decide +kernel
  obtain ⟨after, ran⟩ := error_of_answer_map refused
  rw [ran] at differs lasts
  exact ⟨after, ran, differs, lasts⟩

end Settlement

end ContractLedger
