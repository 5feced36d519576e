import ContractLedger.Proofs.Admission.Inspection
import ContractLedger.Proofs.Engine.Fails
import ContractLedger.Proofs.Settlement.Exits

/-!
Deployments. Code that the inspection objects to is refused with what it found, and nothing but the
journal is touched; any other deployment is the transaction itself, which is never refused in that way.
-/

namespace ContractLedger

def Host.noted {σ : Type} (host : Host σ) (entries : Journal) : Host σ :=
  { host with ledger := { host.ledger with journal := host.ledger.journal ++ entries } }

theorem Host.noted_nil {σ : Type} (host : Host σ) : host.noted [] = host := by
  simp [noted]

theorem Host.noted_noted {σ : Type} (host : Host σ) (entries more : Journal) :
    (host.noted entries).noted more = host.noted (entries ++ more) := by
  simp [noted]

/-- Whether a refusal is none that an inspection leads to. -/
def Refusal.OfExecution (refusal : Refusal) : Prop :=
  ∀ violations, refusal ≠ .rejected violations

namespace Settlement

variable {σ α : Type}

/-- A step that is refused only for what its execution met. -/
abbrev Executes (step : SettleM σ α) : Prop :=
  Fails (fun refusal (_ : Host σ) => refusal.OfExecution) step

theorem executes_onLedger (step : LedgerM σ α) : Executes (onLedger step) := by
  intro host refusal after ran
  rw [onLedger, Host.run] at ran
  cases found : step host.ledger with
  | ok value ledger =>
    rw [found] at ran
    cases ran
  | error reason ledger =>
    rw [found] at ran
    cases ran
    intro violations same
    cases same

/-- The warning that a violation keeps code from being deployed. -/
def warning (transaction : Transaction) (violation : Violation) : JournalEntry :=
  ⟨.warning, "executive",
    "rejected code for " ++ transaction.contract.text ++ ": " ++ violation.text⟩

theorem forM_warn (transaction : Transaction) (violations : List Violation) (host : Host σ) :
    (violations.forM fun violation =>
        tell .warning
          ("rejected code for " ++ transaction.contract.text ++ ": " ++ violation.text) : SettleM σ _) host =
      .ok ⟨⟩ (host.noted (violations.map (warning transaction))) := by
  induction violations generalizing host with
  | nil => exact congrArg _ host.noted_nil.symm
  | cons violation rest ih =>
    exact (ih _).trans (congrArg _ (host.noted_noted [warning transaction violation] _))

variable [ByteStore σ]

theorem executes_execute (engine : Engine) (transaction : Transaction) (context : Context) :
    Executes (execute engine transaction context : SettleM σ _) := by
  have invoked (invocation : Host σ → ExecutionResult × World σ) : Executes (invoke invocation) :=
    Fails.never fun host => ⟨_, _, rfl⟩
  unfold execute
  cases transaction.action with
  | create code =>
    exact .bind (executes_onLedger _) fun _ => .bind (executes_onLedger _) fun _ => invoked _
  | call method =>
    refine .bind (executes_onLedger _) fun code => ?_
    cases code with
    | none => exact .failed fun _ => nofun
    | some code => exact invoked _

theorem executes_moveValue (sender recipient : Address) (value : Amount) :
    Executes (moveValue sender recipient value : SettleM σ _) := by
  have move (available : Amount) : Executes (σ := σ) (do
      onLedger (Ledger.setBalance sender (available - value))
      let balance ← onLedger (Ledger.getBalance recipient)
      onLedger (Ledger.setBalance recipient (Amount.plus balance value))) :=
    .bind (executes_onLedger _) fun _ => .bind (executes_onLedger _) fun _ => executes_onLedger _
  unfold moveValue
  refine .ite (.done _) (.bind (executes_onLedger _) fun _ => ?_)
  exact .ite (.bind (.failed fun _ => nofun) fun _ => move _) (move _)

theorem executes_applyTransfers (transaction : Transaction) (transfers : TransferList) :
    Executes (applyTransfers transaction transfers : SettleM σ _) :=
  .bind (executes_moveValue _ _ _) fun _ => .forM _ fun _ => executes_moveValue _ _ _

/-- A transaction is never refused as an inspection would refuse it. -/
theorem executes_transact (engine : Engine) (transaction : Transaction) (block : Block) :
    Executes (transact engine transaction block : SettleM σ _) := by
  intro host refusal after ran
  have exits : Exits engine transaction block host (.error refusal after) := ran ▸ transact_exits
  cases exits with
  | unread read => exact executes_onLedger _ host refusal _ read
  | uncovered => exact nofun
  | unexecuted read executed => exact executes_execute _ _ _ _ refusal _ executed
  | unmoved read executed success moved => exact executes_applyTransfers _ _ _ refusal _ moved
  | uncommitted read executed success moved refused => exact executes_onLedger _ _ refusal _ refused

variable {engine : Engine} {inspector : Inspector} {transaction : Transaction} {module : ModuleBody}
  {block : Block}

/-- Code in which the inspection finds anything is refused with all of that, which is journaled. -/
theorem deploy_rejected (found : inspector.inspect module ≠ []) (host : Host σ) :
    deploy engine inspector transaction module block host =
      .error (.rejected (inspector.inspect module))
        (host.noted ((inspector.inspect module).map Violation.entry ++
          (inspector.inspect module).map (warning transaction))) := by
  unfold deploy
  rw [Step.bind_ok (Step.modify_apply ..), if_neg (by simpa using found),
    Step.bind_ok (forM_warn ..), ← Host.noted_noted]
  rfl

/-- Code in which the inspection finds nothing is deployed by its transaction. -/
theorem deploy_admitted (clean : inspector.inspect module = []) (host : Host σ) :
    deploy engine inspector transaction module block host = transact engine transaction block host := by
  unfold deploy
  rw [Step.bind_ok (Step.modify_apply ..), clean]
  exact congrArg (transact engine transaction block) host.noted_nil

theorem answer_deploy_eq_rejected (host : Host σ) (violations : List Violation) :
    answer (deploy engine inspector transaction module block host) = .error (.rejected violations) ↔
      inspector.inspect module ≠ [] ∧ violations = inspector.inspect module := by
  by_cases clean : inspector.inspect module = []
  · rw [deploy_admitted clean]
    refine ⟨fun refused => ?_, fun found => absurd clean found.1⟩
    cases ran : transact engine transaction block host with
    | ok result after =>
      rw [ran] at refused
      cases refused
    | error refusal after =>
      rw [ran] at refused
      cases refused
      exact absurd rfl (executes_transact engine transaction block host _ after ran violations)
  · rw [deploy_rejected clean]
    exact ⟨fun refused => ⟨clean, by cases refused; rfl⟩, fun found => by rw [found.2]; rfl⟩

end Settlement

end ContractLedger
