import ContractLedger.Proofs.Engine.Twins
import ContractLedger.Proofs.Settlement.Conservation

/-!
Twin transactions. A call that is executed on two committed ledgers whose books agree at the addresses that
it touches comes to the same in both: the same answer, and the same changes at those addresses only.
-/

namespace ContractLedger

/-- A sound ledger of a book that was committed, so that dropping what is pending leaves that book. -/
structure Ledger.Rests (data : Set Bytes) (mounted : Mounted Content) (book : Book) : Prop where
  sound : ∃ roots, Sound data mounted book roots
  shows : mounted.store.shelves.Shows mounted.ledger.accounts.committedRoot book

/-- Results that are the same and leave hosts on twin ledgers. -/
abbrev Host.Mirrored {ε α : Type} (data : Set Bytes) (places : Finset Address) (base other : Book)
    (first second : EStateM.Result ε (Host Content) α) : Prop :=
  Twinned data Host.pending
    (fun host twin => Ledger.Twins data places base other host.ledger twin.ledger) first second

namespace Settlement

section Touched

variable {σ : Type} [ByteStore σ]

/-- What precedes the run of a transaction that its sender covers. -/
def approach (engine : Engine) (transaction : Transaction) (block : Block) : SettleM σ Task := do
  let available ← onLedger (Ledger.getBalance transaction.sender)
  if available < transaction.value then
    throw (.insufficientBalance transaction.value available)
  prepare engine transaction (contextOf transaction block)

/-- The addresses that a transaction touches: its sender, its contract, and what its run touches if it
comes to that. -/
def touched (engine : Engine) (transaction : Transaction) (block : Block) (host : Host σ) :
    List Address :=
  transaction.sender :: transaction.contract ::
    match approach engine transaction block host with
    | .error _ _ => []
    | .ok task ready =>
      engine.touched engine.limits.maxCallDepth (Frame.outermost (contextOf transaction block))
        task.program (opening transaction ready)

/-- What is touched is the same over the content of the store. -/
theorem touched_view [ReliableStore σ] (engine : Engine) (transaction : Transaction) (block : Block)
    (host : Host σ) :
    touched engine transaction block host = touched engine transaction block host.view := by
  have agree : Agree Host.view Host.pending (approach engine transaction block : SettleM σ Task)
      (approach engine transaction block) :=
    .bind (agree_onLedger (Ledger.agree_getBalance _)) fun _ =>
      .ite (.bind (.failed _) fun _ => agree_prepare _ _ _) (agree_prepare _ _ _)
  have same := agree.same host
  simp only [touched, ← same]
  cases approach engine transaction block host with
  | error refusal after => rfl
  | ok task ready => exact congrArg _ (congrArg _ (Engine.touched_view _ _ _ _ _))

end Touched

variable {data : Set Bytes} {places : Finset Address} {base other : Book} {host twin : Host Content}

section Payments

variable (faithful : Faithful data)
include faithful

theorem mirrored_shift {first second : Ledger.Mounted Content}
    (twins : Ledger.Twins data places base other first second) {sender recipient : Address}
    (sends : sender ∈ places) (receives : recipient ∈ places) (available value : Amount) :
    Twinned data Ledger.Mounted.pending (Ledger.Twins data places base other)
      (shift sender recipient available value first) (shift sender recipient available value second) :=
  .bind (twins.setBalance faithful sends _)
    (fun _ => ((Ledger.agree_getBalance recipient).bind fun _ => Ledger.agree_setBalance _ _).grows)
    fun _ _ _ _ paid => .bind (paid.getBalance faithful receives)
      (fun _ => (Ledger.agree_setBalance _ _).grows) fun _ _ _ _ read => read.setBalance faithful receives _

/-- A transfer between two of the places comes to the same on twin ledgers. -/
theorem mirrored_moveValue (twins : Ledger.Twins data places base other host.ledger twin.ledger)
    {sender recipient : Address} (sends : sender ∈ places) (receives : recipient ∈ places)
    (value : Amount) :
    Host.Mirrored data places base other (moveValue sender recipient value host)
      (moveValue sender recipient value twin) := by
  obtain ⟨laid, _, _, sound, soundTwin⟩ := id twins
  have read := read_balance faithful sound sender
  have readTwin := read_balance faithful soundTwin sender
  have same : Book.holding (places.piecewise laid other) sender =
      Book.holding (places.piecewise laid base) sender := by
    rw [Book.holding_piecewise sends, Book.holding_piecewise sends]
  by_cases none : value = 0
  · rw [moveValue, if_pos none]
    exact fun _ _ => ⟨rfl, twins⟩
  by_cases short : (Book.holding (places.piecewise laid base) sender).balance < value
  · have shortTwin := short
    rw [← same] at shortTwin
    rw [moveValue_short faithful sound short, moveValue_short faithful soundTwin shortTwin, same]
    exact fun _ _ => ⟨rfl, twins⟩
  · rw [same] at readTwin
    rw [moveValue_apply none read short, moveValue_apply none readTwin short]
    exact Host.twinned_run _ (mirrored_shift faithful twins sends receives _ _)

theorem mirrored_carry {transfers : TransferList}
    (twins : Ledger.Twins data places base other host.ledger twin.ledger)
    (within : ∀ transfer ∈ transfers, transfer.sender ∈ places ∧ transfer.recipient ∈ places) :
    Host.Mirrored data places base other (carry transfers host) (carry transfers twin) := by
  induction transfers generalizing host twin with
  | nil => exact fun _ _ => ⟨rfl, twins⟩
  | cons transfer transfers ih =>
    obtain ⟨sends, receives⟩ := within transfer List.mem_cons_self
    rw [carry_cons]
    exact .bind (mirrored_moveValue faithful twins sends receives _) (fun _ => carry_grows transfers)
      fun _ _ _ _ related => ih related fun transfer member =>
        within transfer (List.mem_cons_of_mem _ member)

end Payments

section Runs

variable {transaction : Transaction} {method : String}

/-- The code that a call runs is found alike on twin ledgers. -/
theorem mirrored_prepare (faithful : Faithful data) (engine : Engine) (block : Block)
    (calls : transaction.action = .call method)
    (twins : Ledger.Twins data places base other host.ledger twin.ledger)
    (contract : transaction.contract ∈ places) :
    Host.Mirrored data places base other (prepare engine transaction (contextOf transaction block) host)
      (prepare engine transaction (contextOf transaction block) twin) := by
  unfold prepare
  simp only [calls]
  refine .bind (Host.twinned_run _ (twins.getCode faithful contract)) (fun code host => ?_)
    fun code _ _ _ related => ?_
  · cases code <;> exact Set.Subset.refl _
  · cases code <;> exact fun _ _ => ⟨rfl, related⟩

/-- What is pending when a transaction is prepared is pending after its run. -/
theorem pending_prepare (engine : Engine) (transaction : Transaction) (block : Block)
    (host : Host Content) :
    (ending (prepare engine transaction (contextOf transaction block) host)).pending ⊆
      (ending (execute engine transaction (contextOf transaction block) host)).pending := by
  rw [execute_eq]
  refine Along.first (fun task ready => ?_ : ∀ task, Along Host.Grows _) host
  have ran := respected_grows.runOutermost engine (contextOf transaction block) task.program
    (opening transaction ready)
  simp only [invoke]
  cases ended : engine.runOutermost (contextOf transaction block) task.program (opening transaction ready) <;>
    rw [ended] at ran <;> exact ran

/-- A call whose run touches some places only is executed alike on ledgers that are twins there, and its
transfers stay within these places. -/
theorem execute_twins (faithful : Faithful data) (engine : Engine) (block : Block)
    (calls : transaction.action = .call method)
    (twins : Ledger.Twins data places base other host.ledger twin.ledger)
    (contract : transaction.contract ∈ places)
    (touched : ∀ task ready, prepare engine transaction (contextOf transaction block) host = .ok task ready →
      ∀ address ∈ engine.touched engine.limits.maxCallDepth (Frame.outermost (contextOf transaction block))
        task.program (opening transaction ready), address ∈ places)
    (pending : (ending (execute engine transaction (contextOf transaction block) host)).pending ⊆ data)
    (pendingTwin : (ending (execute engine transaction (contextOf transaction block) twin)).pending ⊆ data) :
    (∃ result batch last, execute engine transaction (contextOf transaction block) host = .ok result batch ∧
      execute engine transaction (contextOf transaction block) twin = .ok result last ∧
      Ledger.Twins data places base other batch.ledger last.ledger ∧
      ∀ transfer ∈ result.transfers, transfer.sender ∈ places ∧ transfer.recipient ∈ places) ∨
    ∃ refusal batch last,
      execute engine transaction (contextOf transaction block) host = .error refusal batch ∧
      execute engine transaction (contextOf transaction block) twin = .error refusal last := by
  rcases (mirrored_prepare faithful engine block calls twins contract).together
    ((pending_prepare _ _ _ _).trans pending) ((pending_prepare _ _ _ _).trans pendingTwin) with
    ⟨task, ready, readyTwin, prepared, preparedTwin, related⟩ |
      ⟨refusal, batch, last, refused, refusedTwin, _⟩
  · have start : World.Twins data places base other (opening transaction ready)
        (opening transaction readyTwin) := ⟨related, rfl, rfl, List.forall_mem_nil _⟩
    have ran : World.Mirrored data places base other
        (engine.runOutermost (contextOf transaction block) task.program (opening transaction ready))
        (engine.runOutermost (contextOf transaction block) task.program (opening transaction readyTwin)) :=
      Engine.mirrored_run faithful engine _ _ task.program _ _ start (touched task ready prepared)
    rw [pending_prepared prepared] at pending
    rw [pending_prepared preparedTwin] at pendingTwin
    rw [execute_eq, Step.bind_ok prepared, Step.bind_ok preparedTwin]
    rcases ran.together pending pendingTwin with
      ⟨returned, after, last, ended, endedTwin, related⟩ | ⟨failure, after, last, ended, endedTwin, related⟩
    all_goals
      simp only [invoke, ended, endedTwin, Engine.finish, ← related.meter, ← related.transfers]
      refine .inl ⟨_, _, _, rfl, rfl, ?_, ?_⟩
    · exact related.ledger
    · exact related.within
    · exact related.ledger.tell _ _
    · exact List.forall_mem_nil _
  · refine .inr ⟨refusal, batch, last, ?_, ?_⟩
    · rw [execute_eq, Step.bind_error refused]
    · rw [execute_eq, Step.bind_error refusedTwin]

end Runs

/-! The ends of a transaction. -/

/-- A ledger whose batch was not committed is at the book that was committed before it. -/
theorem Ends.rests {before after : Ledger.Mounted Content} {book : Book}
    (ends : Ends data before false after) (rests : Ledger.Rests data before book) :
    Ledger.Rests data after book := by
  cases ends with
  | refused => exact rests
  | dropped journal =>
    obtain ⟨⟨_, sound⟩, roots, lists⟩ := rests
    exact ⟨⟨roots, Ledger.sound_ofRoot sound.orderly.store lists journal⟩, roots, lists⟩

theorem rests_commit {before after : Ledger.Mounted Content} {book : Book} {roots : Address → Hash}
    (commits : Ledger.Commits data before after book roots) : Ledger.Rests data after book := by
  refine ⟨⟨roots, commits.sound⟩, roots, ?_⟩
  rw [commits.ledger]
  exact commits.lists

theorem succeeded_answer (ended : EStateM.Result Refusal (Host Content) ExecutionResult) :
    succeeded ended = (answer ended).toOption.any ExecutionResult.isSuccess := by
  cases ended <;> rfl

/-- Transactions that come to the same: the same answer, and the same laid over the books that were
committed. -/
structure Concur (data : Set Bytes) (places : Finset Address) (base other : Book)
    (first second : EStateM.Result Refusal (Host Content) ExecutionResult) : Prop where
  same : answer first = answer second
  rests : ∃ laid : Book, Ledger.Rests data (ending first).ledger (places.piecewise laid base) ∧
    Ledger.Rests data (ending second).ledger (places.piecewise laid other)

/-- Transactions that end alike concur, if what is laid over the books is the same when they succeed: when
they do not, each ledger is at the book that it started from. -/
theorem Concur.of_ends {first second : EStateM.Result Refusal (Host Content) ExecutionResult}
    (ends : Ends data host.ledger (succeeded first) (ending first).ledger)
    (endsTwin : Ends data twin.ledger (succeeded second) (ending second).ledger)
    (rests : Ledger.Rests data host.ledger base) (restsTwin : Ledger.Rests data twin.ledger other)
    (agree : ∀ address ∈ places, base address = other address)
    (known : answer first = answer second ∧ (succeeded first = true → ∃ laid : Book,
      Ledger.Rests data (ending first).ledger (places.piecewise laid base) ∧
        Ledger.Rests data (ending second).ledger (places.piecewise laid other))) :
    Concur data places base other first second := by
  refine ⟨known.1, ?_⟩
  rw [succeeded_answer, ← known.1, ← succeeded_answer] at endsTwin
  cases outcome : succeeded first with
  | true => exact known.2 outcome
  | false =>
    rw [outcome] at ends endsTwin
    have same : places.piecewise base other = other :=
      (Finset.piecewise_congr _ agree fun _ _ => rfl).trans (Finset.piecewise_same _ _)
    refine ⟨base, ?_, ?_⟩
    · rw [Finset.piecewise_same]
      exact ends.rests rests
    · rw [same]
      exact endsTwin.rests restsTwin

section Transactions

variable {engine : Engine} {transaction : Transaction} {block : Block} {method : String}
  (faithful : Faithful data)
include faithful

/-- Transfers that twin ledgers are given after the same run come to the same, and are committed in the
same way. -/
theorem concur_transfers {batch last : Host Content} {transfers : TransferList}
    (twins : Ledger.Twins data places base other batch.ledger last.ledger)
    (contract : transaction.contract ∈ places) (sender : transaction.sender ∈ places)
    (within : ∀ transfer ∈ transfers, transfer.sender ∈ places ∧ transfer.recipient ∈ places)
    (pending : (ending (applyTransfers transaction transfers batch)).pending ⊆ data)
    (pendingTwin : (ending (applyTransfers transaction transfers last)).pending ⊆ data)
    (result : ExecutionResult) :
    let settle : SettleM Content ExecutionResult := do
      orRollback (applyTransfers transaction transfers)
      onLedger Ledger.commit
      return result
    answer (settle batch) = answer (settle last) ∧
      (succeeded (settle batch) = true →
        ∃ laid : Book, Ledger.Rests data (ending (settle batch)).ledger (places.piecewise laid base) ∧
          Ledger.Rests data (ending (settle last)).ledger (places.piecewise laid other)) := by
  intro settle
  have inside : ∀ transfer ∈ transaction.payment :: transfers,
      transfer.sender ∈ places ∧ transfer.recipient ∈ places := by
    rintro transfer (_ | ⟨_, member⟩)
    · exact ⟨sender, contract⟩
    · exact within transfer member
  rcases (mirrored_carry faithful twins inside).together pending pendingTwin with
    ⟨_, paid, paidTwin, moved, movedTwin, laid, _, _, sound, soundTwin⟩ |
      ⟨refusal, after, afterTwin, refused, refusedTwin, _⟩
  · rw [← applyTransfers_eq] at moved movedTwin
    obtain ⟨final, wrote, commits⟩ := Ledger.commit_sound faithful sound
    obtain ⟨finalTwin, wroteTwin, commitsTwin⟩ := Ledger.commit_sound faithful soundTwin
    have committed : onLedger Ledger.commit paid = .ok () { paid with ledger := final } := by
      rw [onLedger, Host.run, wrote]
    have committedTwin : onLedger Ledger.commit paidTwin = .ok () { paidTwin with ledger := finalTwin } := by
      rw [onLedger, Host.run, wroteTwin]
    have ran : settle batch = .ok result { paid with ledger := final } :=
      (Step.bind_ok (orRollback_eq_ok.mpr moved) _).trans (Step.bind_ok committed _)
    have ranTwin : settle last = .ok result { paidTwin with ledger := finalTwin } :=
      (Step.bind_ok (orRollback_eq_ok.mpr movedTwin) _).trans (Step.bind_ok committedTwin _)
    rw [ran, ranTwin]
    exact ⟨rfl, fun _ => ⟨laid, rests_commit commits, rests_commit commitsTwin⟩⟩
  · rw [← applyTransfers_eq] at refused refusedTwin
    have ran : settle batch = .error refusal (rolledBack after) :=
      Step.bind_error (orRollback_error refused) _
    have ranTwin : settle last = .error refusal (rolledBack afterTwin) :=
      Step.bind_error (orRollback_error refusedTwin) _
    rw [ran, ranTwin]
    refine ⟨rfl, fun done => ?_⟩
    cases done

omit faithful in
/-- A call whose sender covers its value is prepared at once. -/
theorem approach_eq {available : Amount}
    (read : onLedger (Ledger.getBalance transaction.sender) host = .ok available host)
    (covered : ¬ available < transaction.value) :
    approach engine transaction block host =
      prepare engine transaction (contextOf transaction block) host := by
  rw [approach, Step.bind_ok read, if_neg covered]

omit faithful in
/-- A transaction whose sender does not cover its value is refused. -/
theorem transact_uncovered {available : Amount}
    (read : onLedger (Ledger.getBalance transaction.sender) host = .ok available host)
    (short : available < transaction.value) :
    transact engine transaction block host =
      .error (.insufficientBalance transaction.value available) host := by
  rw [transact, Step.bind_ok read, if_pos short]
  rfl

omit faithful in
theorem transact_unexecuted {available : Amount} {refusal : Refusal} {batch : Host Content}
    (read : onLedger (Ledger.getBalance transaction.sender) host = .ok available host)
    (covered : ¬ available < transaction.value)
    (refused : execute engine transaction (contextOf transaction block) host = .error refusal batch) :
    answer (transact engine transaction block host) = .error refusal := by
  unfold transact
  rw [Step.bind_ok read, if_neg covered]
  dsimp only
  rw [Step.bind_error (orRollback_error refused)]
  rfl

omit faithful in
/-- A transaction whose run fails has the result of that run. -/
theorem transact_failed {available : Amount} {result : ExecutionResult} {batch : Host Content}
    (read : onLedger (Ledger.getBalance transaction.sender) host = .ok available host)
    (covered : ¬ available < transaction.value)
    (executed : execute engine transaction (contextOf transaction block) host = .ok result batch)
    (failure : ¬ result.isSuccess = true) :
    answer (transact engine transaction block host) = .ok result := by
  unfold transact
  rw [Step.bind_ok read, if_neg covered]
  dsimp only
  rw [Step.bind_ok (orRollback_eq_ok.mpr executed), if_neg failure]
  rfl

/-- A call on committed ledgers whose books agree at the addresses that it touches comes to the same on
both, and changes nothing at any other address. -/
theorem transact_concur (calls : transaction.action = .call method)
    (rests : Ledger.Rests data host.ledger base) (restsTwin : Ledger.Rests data twin.ledger other)
    (agree : ∀ address ∈ places, base address = other address)
    (within : ∀ address ∈ touched engine transaction block host, address ∈ places)
    (pending : (ending (unsettled engine transaction block host)).pending ⊆ data)
    (pendingTwin : (ending (unsettled engine transaction block twin)).pending ⊆ data) :
    Concur data places base other (transact engine transaction block host)
      (transact engine transaction block twin) := by
  obtain ⟨roots, sound⟩ := rests.sound
  obtain ⟨rootsTwin, soundTwin⟩ := restsTwin.sound
  have code : ∀ code ∈ transaction.action.code, code ∈ data := by
    rw [Transaction.code_of_call calls]
    exact List.forall_mem_nil _
  have ends := transact_ends faithful engine transaction block sound code pending
  have endsTwin := transact_ends faithful engine transaction block soundTwin code pendingTwin
  refine .of_ends ends endsTwin rests restsTwin agree ?_
  have sender := within _ List.mem_cons_self
  have contract := within _ (List.mem_cons_of_mem _ List.mem_cons_self)
  have holding : other.holding transaction.sender = base.holding transaction.sender := by
    rw [Book.holding, Book.holding, agree _ sender]
  have read := read_balance faithful sound transaction.sender
  have readTwin := read_balance faithful soundTwin transaction.sender
  rw [holding] at readTwin
  by_cases short : (base.holding transaction.sender).balance < transaction.value
  · rw [transact_uncovered read short, transact_uncovered readTwin short]
    refine ⟨rfl, fun done => ?_⟩
    cases done
  have ran := execute_twins faithful engine block calls (.of_agree sound soundTwin agree) contract
    (fun task ready prepared address member => within address (by
      rw [touched, approach_eq read short, prepared]
      exact List.mem_cons_of_mem _ (List.mem_cons_of_mem _ member)))
    ((pending_execute engine transaction block host).trans pending)
    ((pending_execute engine transaction block twin).trans pendingTwin)
  rcases ran with ⟨result, batch, last, executed, executedTwin, related, inside⟩ |
    ⟨refusal, batch, last, refused, refusedTwin⟩
  · by_cases success : result.isSuccess = true
    · have covered := UInt64.not_lt.mp short
      rw [pending_applied executed success] at pending
      rw [pending_applied executedTwin success] at pendingTwin
      rw [transact_executed faithful sound covered executed success,
        transact_executed faithful soundTwin (holding ▸ covered) executedTwin success]
      exact concur_transfers faithful related contract sender inside pending pendingTwin result
    · have failed := transact_failed read short executed success
      refine ⟨failed.trans (transact_failed readTwin short executedTwin success).symm, fun done => ?_⟩
      rw [succeeded_answer, failed] at done
      exact absurd done success
  · have unexecuted := transact_unexecuted read short refused
    refine ⟨unexecuted.trans (transact_unexecuted readTwin short refusedTwin).symm, fun done => ?_⟩
    rw [succeeded_answer, unexecuted] at done
    cases done

end Transactions

end Settlement

end ContractLedger
