import ContractLedger.Proofs.Along
import ContractLedger.Settlement

/-!
The ends of a transaction, over any store. A transaction ends in one of seven ways, and each has one
constructor that says all that led there. Every part of it leads along a relation that the steps of the
ledger and the runs of the engine lead along.
-/

namespace ContractLedger

namespace Settlement

variable {σ α : Type}

def rolledBack (host : Host σ) : Host σ :=
  ending (onLedger Ledger.rollback host)

/-- Dropping a batch never fails. -/
theorem rollback_ok (host : Host σ) : onLedger Ledger.rollback host = .ok () (rolledBack host) :=
  rfl

/-- A part of a transaction that may be rolled back succeeds if it does without that. -/
theorem orRollback_eq_ok {step : SettleM σ α} {before after : Host σ} {value : α} :
    orRollback step before = .ok value after ↔ step before = .ok value after := by
  rw [orRollback]
  cases step before with
  | ok found last => exact Iff.rfl
  | error refusal last =>
    constructor
    · intro ran
      obtain ⟨_, _, _, thrown⟩ := Step.bind_eq_ok.mp ran
      cases thrown
    · intro ran
      cases ran

theorem orRollback_error {step : SettleM σ α} {before last : Host σ} {refusal : Refusal}
    (ran : step before = .error refusal last) :
    orRollback step before = .error refusal (rolledBack last) := by
  rw [orRollback, ran]
  exact Step.bind_ok (rollback_ok last) _

variable [ByteStore σ]

/-- A relation between hosts along which the parts of a transaction lead. -/
structure Followed (rel : Host σ → Host σ → Prop) (codes : Set Bytes) : Prop where
  create : ∀ address, Along rel (onLedger (Ledger.createAccount address) : SettleM σ _)
  write : ∀ address, ∀ code ∈ codes, Along rel (onLedger (Ledger.setCode address code) : SettleM σ _)
  code : ∀ address, Along rel (onLedger (Ledger.getCode address) : SettleM σ _)
  balance : ∀ address, Along rel (onLedger (Ledger.getBalance address) : SettleM σ _)
  fund : ∀ address amount, Along rel (onLedger (Ledger.setBalance address amount) : SettleM σ _)
  tell : ∀ host severity topic text, rel host (host.tell severity topic text)
  run : ∀ (engine : Engine) context (program : Program ExecutionError (Option Value)) meter host,
    rel host (ending (engine.runOutermost context program (Engine.startWorld host meter))).host

namespace Followed

variable {rel : Host σ → Host σ → Prop} [IsPreorder (Host σ) rel] {codes : Set Bytes}

theorem finish (followed : Followed rel codes) (engine : Engine) (operation : String)
    (context : Context) (program : Program ExecutionError (Option Value)) (meter : GasMeter)
    (host : Host σ) :
    rel host (Engine.finish operation context
      (engine.runOutermost context program (Engine.startWorld host meter))).2.host := by
  have ran := followed.run engine context program meter host
  cases result : engine.runOutermost context program (Engine.startWorld host meter) with
  | ok returned world =>
    rw [result] at ran
    exact ran
  | error failure world =>
    rw [result] at ran
    exact trans_of rel ran (followed.tell ..)

theorem executeMethod (followed : Followed rel codes) (engine : Engine) (code : Bytes)
    (method : String) (context : Context) (meter : GasMeter) (host : Host σ) :
    rel host (engine.executeMethod code (some method) context host meter).2.host := by
  unfold Engine.executeMethod
  simp only
  cases engine.loadType (engine.injector.prepareMethod code method) with
  | error reason => exact followed.tell ..
  | ok type =>
    cases type with
    | none => exact refl_of rel host
    | some type => exact followed.finish ..

theorem execute (followed : Followed rel codes) (engine : Engine) (transaction : Transaction)
    (context : Context) (within : ∀ code, transaction.action = .create code → code ∈ codes) :
    Along rel (execute engine transaction context) := by
  unfold Settlement.execute
  cases action : transaction.action with
  | create code =>
    exact .bind (followed.create _) fun _ => .bind (followed.write _ code (within code action)) fun _ host =>
      followed.finish ..
  | call method =>
    refine .bind (followed.code _) fun code => ?_
    cases code with
    | none => exact .failed _
    | some code => exact fun host => followed.executeMethod ..

theorem moveValue (followed : Followed rel codes) (sender recipient : Address) (value : Amount) :
    Along rel (moveValue sender recipient value) := by
  unfold Settlement.moveValue
  refine .ite (.done _) (.bind (followed.balance _) fun _ => ?_)
  have move (available : Amount) : Along rel (do
      onLedger (Ledger.setBalance sender (available - value))
      let balance ← onLedger (Ledger.getBalance recipient)
      onLedger (Ledger.setBalance recipient (Amount.plus balance value))) :=
    .bind (followed.fund _ _) fun _ => .bind (followed.balance _) fun _ => followed.fund _ _
  exact .ite (.bind (.failed _) fun _ => move _) (move _)

theorem applyTransfers (followed : Followed rel codes) (transaction : Transaction)
    (transfers : TransferList) : Along rel (applyTransfers transaction transfers) :=
  .bind (followed.moveValue _ _ _) fun _ => .forM _ fun _ => followed.moveValue _ _ _

end Followed

variable {engine : Engine} {transaction : Transaction} {block : Block} {host : Host σ}

/-- How a transaction ends: it is refused before it touched anything, or its run or its transfers are
refused or its run fails, and what it did is dropped; or what it did is committed, unless that fails. -/
inductive Exits (engine : Engine) (transaction : Transaction) (block : Block) (host : Host σ) :
    EStateM.Result Refusal (Host σ) ExecutionResult → Prop
  | unread {refusal start}
      (read : onLedger (Ledger.getBalance transaction.sender) host = .error refusal start) :
      Exits engine transaction block host (.error refusal start)
  | uncovered {available start}
      (read : onLedger (Ledger.getBalance transaction.sender) host = .ok available start)
      (short : available < transaction.value) :
      Exits engine transaction block host
        (.error (.insufficientBalance transaction.value available) start)
  | unexecuted {available start refusal batch}
      (read : onLedger (Ledger.getBalance transaction.sender) host = .ok available start)
      (executed : execute engine transaction (contextOf transaction block) start =
        .error refusal batch) :
      Exits engine transaction block host (.error refusal (rolledBack batch))
  | failed {available start result batch severity topic text}
      (read : onLedger (Ledger.getBalance transaction.sender) host = .ok available start)
      (executed : execute engine transaction (contextOf transaction block) start = .ok result batch)
      (failure : result.isSuccess = false) :
      Exits engine transaction block host
        (.ok result (rolledBack (batch.tell severity topic text)))
  | unmoved {available start result batch refusal last}
      (read : onLedger (Ledger.getBalance transaction.sender) host = .ok available start)
      (executed : execute engine transaction (contextOf transaction block) start = .ok result batch)
      (success : result.isSuccess = true)
      (moved : applyTransfers transaction result.transfers batch = .error refusal last) :
      Exits engine transaction block host (.error refusal (rolledBack last))
  | uncommitted {available start result batch last refusal after}
      (read : onLedger (Ledger.getBalance transaction.sender) host = .ok available start)
      (executed : execute engine transaction (contextOf transaction block) start = .ok result batch)
      (success : result.isSuccess = true)
      (moved : applyTransfers transaction result.transfers batch = .ok () last)
      (refused : onLedger Ledger.commit last = .error refusal after) :
      Exits engine transaction block host (.error refusal after)
  | committed {available start result batch last after}
      (read : onLedger (Ledger.getBalance transaction.sender) host = .ok available start)
      (covered : transaction.value ≤ available)
      (executed : execute engine transaction (contextOf transaction block) start = .ok result batch)
      (success : result.isSuccess = true)
      (moved : applyTransfers transaction result.transfers batch = .ok () last)
      (commits : onLedger Ledger.commit last = .ok () after) :
      Exits engine transaction block host (.ok result after)

/-- Every transaction ends in one of these ways. -/
theorem transact_exits :
    Exits engine transaction block host (transact engine transaction block host) := by
  unfold transact
  cases read : onLedger (Ledger.getBalance transaction.sender) host with
  | error refusal start =>
    rw [Step.bind_error read]
    exact .unread read
  | ok available start =>
    rw [Step.bind_ok read]
    by_cases short : available < transaction.value
    · rw [if_pos short]
      exact .uncovered read short
    rw [if_neg short]
    dsimp only
    cases executed : execute engine transaction (contextOf transaction block) start with
    | error refusal batch =>
      rw [Step.bind_error (orRollback_error executed)]
      exact .unexecuted read executed
    | ok result batch =>
      rw [Step.bind_ok (orRollback_eq_ok.mpr executed)]
      by_cases success : result.isSuccess = true
      · rw [if_pos success]
        cases moved : applyTransfers transaction result.transfers batch with
        | error refusal last =>
          rw [Step.bind_error (orRollback_error moved)]
          exact .unmoved read executed success moved
        | ok value last =>
          rw [Step.bind_ok (orRollback_eq_ok.mpr moved)]
          cases committed : onLedger Ledger.commit last with
          | error refusal after =>
            rw [Step.bind_error committed]
            exact .uncommitted read executed success moved committed
          | ok value after =>
            rw [Step.bind_ok committed]
            exact .committed read (UInt64.not_lt.mp short) executed success moved committed
      · rw [if_neg success]
        exact .failed read executed (Bool.eq_false_iff.mpr success)

end Settlement

end ContractLedger
