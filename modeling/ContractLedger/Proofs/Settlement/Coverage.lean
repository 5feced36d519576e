import ContractLedger.Proofs.Settlement.Conservation

/-!
What the engine's balance checks are worth. A transfer is checked against the balance that its sender
is shown, with the value of the transaction counted in where it arrives but not counted out where it
comes from. So everything that code was allowed to send is there to be carried out, unless it was
sent by the sender of the transaction itself.
-/

namespace ContractLedger

open TransferList

/-- What is received after the incoming value is received with the payment of a transaction. -/
theorem Balances.credit_inflow (balances : Balances) (transaction : Transaction)
    (transfers : TransferList) (address : Address) :
    balances.credit ⟨transaction.contract, transaction.value⟩ address + inflow transfers address =
      balances address + inflow (transaction.payment :: transfers) address := by
  rw [credit_apply, inflow_cons, Nat.add_assoc]
  rfl

/-- Transfers that start from the incoming value leave the sender of a transaction the value that its
payment takes. -/
theorem Balances.Covers.settle_credit {balances : Balances} {transaction : Transaction}
    {transfers : TransferList}
    (covers : (balances.credit ⟨transaction.contract, transaction.value⟩).Covers transfers)
    (address : Address) :
    let payments := transaction.payment :: transfers
    ((balances.credit ⟨transaction.contract, transaction.value⟩).settle transfers address : ℤ) =
      balances address + inflow payments address - outflow payments address +
        if address = transaction.sender then transaction.value.toNat else 0 := by
  intro payments
  have exact := covers.settle_apply address
  rw [credit_inflow] at exact
  simp only [payments, outflow_cons, Transaction.payment, eq_comm (a := address)] at exact ⊢
  split_ifs <;> omega

namespace Book.Backs

variable {book : Book} {transaction : Transaction} {transfers : TransferList}

/-- After the value of the transaction has left its sender, the transfers of others stay covered. -/
theorem covers_payments (backs : book.Backs ⟨transaction.contract, transaction.value⟩ transfers)
    (plain : (book.holding transaction.sender).code = none)
    (covered : transaction.value.toNat ≤ book.balances transaction.sender) :
    book.balances.Covers (transaction.payment :: transfers) := by
  refine ⟨covered, backs.covers.mono fun transfer member => ?_⟩
  have apart : transaction.payment.sender ≠ transfer.sender := by
    intro same
    have code := backs.senders transfer member
    rw [← same] at code
    exact code plain
  exact (Balances.move_apply_of_ne apart).ge

/-- Only the sender of a transaction may have sent more than there is. -/
theorem sender_of_short (backs : book.Backs ⟨transaction.contract, transaction.value⟩ transfers)
    {done rest : TransferList} {transfer : Transfer}
    (split : transaction.payment :: transfers = done ++ transfer :: rest)
    (covers : book.balances.Covers done)
    (short : book.balances.settle done transfer.sender < transfer.value.toNat) :
    transfer.sender = transaction.sender := by
  cases done with
  | nil =>
    obtain ⟨rfl, _⟩ := List.cons.inj split
    rfl
  | cons first done =>
    obtain ⟨rfl, rfl⟩ := List.cons.inj split
    by_contra apart
    -- Both replays of the transfers before this one give the same balance to any other sender.
    obtain ⟨coversDone, enough, _⟩ := Balances.covers_append.mp backs.covers
    have moved : book.balances.move transaction.payment transfer.sender = _ :=
      Balances.move_apply_of_ne (Ne.symm apart)
    have real := covers.2.settle_apply transfer.sender
    have shown := coversDone.settle_apply transfer.sender
    rw [moved] at real
    change (book.balances.move transaction.payment).settle done transfer.sender < _ at short
    simp only [Transaction.payment] at real short
    omega

end Book.Backs

namespace Settlement

variable {data : Set Bytes} {engine : Engine} {transaction : Transaction} {block : Block}
  {book : Book} {roots : Address → Hash} {result : ExecutionResult}

private theorem transact_content (faithful : Faithful data) {host batch : Host Content}
    (sound : Ledger.Sound data host.ledger book roots)
    (within : ∀ code ∈ transaction.action.code, code ∈ data)
    (bounded : (transaction.opening book).balances.Bounded)
    (pending : (ending (unsettled engine transaction block host)).pending ⊆ data)
    (covered : transaction.value ≤ (book.holding transaction.sender).balance)
    (executed : execute engine transaction (contextOf transaction block) host = .ok result batch)
    (success : result.isSuccess = true) :
    let held := (transaction.opening book).balances
    let payments := transaction.payment :: result.transfers
    (transaction.opening book).Backs ⟨transaction.contract, transaction.value⟩ result.transfers ∧
    (held.Covers payments → ∃ after, transact engine transaction block host = .ok result after ∧
      after.ledger.Reopens Ledger.openLatest) ∧
    (¬ held.Covers payments → ∃ done transfer rest available after,
      payments = done ++ transfer :: rest ∧ held.Covers done ∧
      available.toNat = held.settle done transfer.sender ∧ available < transfer.value ∧
      transact engine transaction block host =
        .error (.insufficientBalance transfer.value available) after) := by
  intro held payments
  have settled := pending_execute engine transaction block host
  rw [executed] at settled
  obtain ⟨⟨opened, rootsBatch, soundBatch, alike⟩, backs⟩ := execute_sound faithful sound within
    executed success (settled.trans pending)
  have balances : opened.balances = held := by
    funext address
    rw [Book.balances, alike.balance]
    rfl
  rw [pending_applied executed success, applyTransfers_eq] at pending
  rw [transact_executed faithful sound covered executed success, applyTransfers_eq]
  change held.Bounded at bounded
  rw [← balances] at bounded ⊢
  refine ⟨backs, fun covers => ?_, fun uncovered => ?_⟩
  · obtain ⟨carried, _, _, ran, soundCarried, _⟩ :=
      carry_covered faithful soundBatch bounded covers pending
    obtain ⟨after, wrote, commits⟩ := Ledger.commit_sound faithful soundCarried
    have committed : onLedger Ledger.commit carried = .ok () { carried with ledger := after } := by
      rw [onLedger, Host.run, wrote]
    refine ⟨{ carried with ledger := after }, ?_, (commits.reopens faithful).1⟩
    rw [Step.bind_ok (orRollback_eq_ok.mpr ran), Step.bind_ok committed]
    rfl
  · obtain ⟨done, transfer, rest, available, last, split, covers, left, short, ran, _⟩ :=
      carry_short faithful soundBatch bounded uncovered pending
    exact ⟨done, transfer, rest, available, rolledBack last, split, covers, left, short,
      Step.bind_error (orRollback_error ran) _⟩

/-- What becomes of a transaction after a run that succeeded: its transfers are backed, and it is
committed if they and its value are covered, and refused at the first that is not. -/
theorem transact_cases {σ : Type} [ByteStore σ] [ReliableStore σ] (faithful : Faithful data)
    {host batch : Host σ} (sound : Ledger.Sound data host.view.ledger book roots)
    (within : ∀ code ∈ transaction.action.code, code ∈ data)
    (bounded : (transaction.opening book).balances.Bounded)
    (pending : (ending (unsettled engine transaction block host)).view.pending ⊆ data)
    (covered : transaction.value.toNat ≤ book.balances transaction.sender)
    (executed : execute engine transaction (contextOf transaction block) host = .ok result batch)
    (success : result.isSuccess = true) :
    let held := (transaction.opening book).balances
    let payments := transaction.payment :: result.transfers
    (transaction.opening book).Backs ⟨transaction.contract, transaction.value⟩ result.transfers ∧
    (held.Covers payments → ∃ after, transact engine transaction block host = .ok result after ∧
      after.ledger.Reopens Ledger.openLatest) ∧
    (¬ held.Covers payments → ∃ done transfer rest available after,
      payments = done ++ transfer :: rest ∧ held.Covers done ∧
      available.toNat = held.settle done transfer.sender ∧ available < transfer.value ∧
      transact engine transaction block host =
        .error (.insufficientBalance transfer.value available) after) := by
  intro held payments
  rw [ending_unsettled_view] at pending
  have executedView := (agree_execute engine transaction (contextOf transaction block)).same host
  rw [executed] at executedView
  have same := (agree_transact engine transaction block).same host
  obtain ⟨backs, commits, refuses⟩ := transact_content faithful sound within bounded pending
    (UInt64.le_iff_toNat_le.mpr covered) executedView.symm success
  refine ⟨backs, fun covers => ?_, fun uncovered => ?_⟩
  · obtain ⟨_, ran, latest⟩ := commits covers
    obtain ⟨after, ranHere, rfl⟩ := through_eq_ok (same.trans ran)
    exact ⟨after, ranHere, latest.of_view Ledger.agree_openLatest⟩
  · obtain ⟨done, transfer, rest, available, _, split, coversDone, left, short, ran⟩ :=
      refuses uncovered
    obtain ⟨after, ranHere, rfl⟩ := through_eq_error (same.trans ran)
    exact ⟨done, transfer, rest, available, after, split, coversDone, left, short, ranHere⟩

section Points

variable {σ : Type} [ByteStore σ] [ReliableStore σ] {host : Host σ} {frame : Frame} {world : World σ}

/-- What is pending at a point over a store, and that code is solvent there. -/
theorem Reaches.solvent_view (faithful : Faithful data)
    (sound : Ledger.Sound data host.view.ledger book roots)
    (within : ∀ code ∈ transaction.action.code, code ∈ data)
    (pending : (ending (unsettled engine transaction block host)).view.pending ⊆ data)
    (reaches : Reaches engine transaction block host frame world) :
    world.view.pending ⊆ data ∧ Solvent data (transaction.opening book)
      ⟨transaction.contract, transaction.value⟩ frame world.view := by
  rw [ending_unsettled_view] at pending
  have before := reaches.view.pending.trans pending
  exact ⟨before, reaches.view.solvent faithful sound within before⟩

/-- The transfers so far are backed at every point of the run of a transaction. -/
theorem Reaches.backs (faithful : Faithful data)
    (sound : Ledger.Sound data host.view.ledger book roots)
    (within : ∀ code ∈ transaction.action.code, code ∈ data)
    (pending : (ending (unsettled engine transaction block host)).view.pending ⊆ data)
    (reaches : Reaches engine transaction block host frame world) :
    (transaction.opening book).Backs ⟨transaction.contract, transaction.value⟩ world.transfers := by
  obtain ⟨before, solvent⟩ := reaches.solvent_view faithful sound within pending
  exact solvent.backs before

/-- What code is shown at a point of the run of a transaction. -/
theorem Reaches.shown (faithful : Faithful data)
    (sound : Ledger.Sound data host.view.ledger book roots)
    (within : ∀ code ∈ transaction.action.code, code ∈ data)
    (pending : (ending (unsettled engine transaction block host)).view.pending ⊆ data)
    (reaches : Reaches engine transaction block host frame world) :
    let held := (transaction.opening book).balances
    let payments := transaction.payment :: world.transfers
    let left : ℤ := held frame.address + inflow payments frame.address -
      outflow payments frame.address
    let kept := if frame.address = transaction.sender then transaction.value.toNat else 0
    ∃ shown, answer (Service.balanceOf frame.incoming frame.address world) = .ok shown ∧
      shown.toNat ≤ left + kept ∧
      (held frame.address + inflow payments frame.address < UInt64.size →
        shown.toNat = left + kept) := by
  intro held payments left kept
  obtain ⟨before, solvent⟩ := reaches.solvent_view faithful sound within pending
  obtain ⟨shown, read, most, least⟩ := solvent.balanceOf faithful before
  have whole := (solvent.backs before).covers.settle_credit frame.address
  have same := (Service.agree_balanceOf frame.incoming frame.address).same world
  rw [read] at same
  obtain ⟨_, readHere, _⟩ := through_eq_ok same
  rw [Balances.credit_inflow] at least
  refine ⟨shown, by rw [readHere]; rfl, ?_, fun fits => ?_⟩
  · exact (Int.ofNat_le.mpr most).trans whole.le
  · exact (congrArg Int.ofNat (least fits)).trans whole

end Points

end Settlement

namespace Site

open Settlement

variable {σ : Type} [ByteStore σ] [ReliableStore σ] {data : Set Bytes} {site : Site σ} {index : Nat}

/-- If the sender of a call has no code and the value, then at every point of the run the value and
the transfers so far can be carried out on the balances there are, and if the run succeeds the call
is committed. -/
theorem Reached.transact_covered (faithful : Faithful data) (reached : Reached data site)
    (engine : Engine) (transaction : Transaction) (block : Block) (host : Host σ)
    (hosts : site.Hosts index host) {method : String} (calls : transaction.action = .call method)
    {balances : Address → Amount}
    (seen : ∀ address, host.ledger.sight.balance address = .ok (balances address))
    (bounded : ∑ address, (balances address).toNat < UInt64.size)
    (plain : host.ledger.sight.code transaction.sender = .ok none)
    (covered : transaction.value ≤ balances transaction.sender)
    (pending : (ending (unsettled engine transaction block host)).view.pending ⊆ data) :
    (∀ frame world, Reaches engine transaction block host frame world →
      Balances.Covers (fun address => (balances address).toNat)
        (transaction.payment :: world.transfers)) ∧
    ∀ result batch, execute engine transaction (contextOf transaction block) host =
        .ok result batch → result.isSuccess = true →
      ∃ after, transact engine transaction block host = .ok result after ∧
        after.ledger.Reopens Ledger.openLatest := by
  obtain ⟨book, roots, sound, here⟩ := reached.book_seen faithful hosts seen
  have opening := Transaction.opening_of_call calls book
  have within : ∀ code ∈ transaction.action.code, code ∈ data := by
    rw [Transaction.code_of_call calls]
    nofun
  have enough : transaction.value.toNat ≤ book.balances transaction.sender := by
    rw [here]
    exact UInt64.le_iff_toNat_le.mp covered
  have bare : (book.holding transaction.sender).code = none := by
    rw [← Ledger.sight_view host.ledger] at plain
    change host.view.ledger.sight.code transaction.sender = _ at plain
    rw [sound.sight faithful] at plain
    exact Except.ok.inj plain
  rw [← here]
  refine ⟨fun frame world reaches => ?_, fun result batch executed success => ?_⟩
  · have backs := reaches.backs faithful sound within pending
    rw [opening] at backs
    exact backs.covers_payments bare enough
  · rw [← opening] at here
    obtain ⟨backs, commits, _⟩ := transact_cases faithful sound within
      (by rwa [Balances.Bounded, here]) pending enough executed success
    rw [opening] at backs commits
    exact commits (backs.covers_payments bare enough)

set_option maxRecDepth 100000 in
theorem transact_covered_sharing :
    (∀ frame world, Reaches purses sharing ⟨1, .ofNat 9⟩ (endowed funding) frame world →
      (Command.book funding).balances.Covers (sharing.payment :: world.transfers)) ∧
    ∃ result after, transact purses sharing ⟨1, .ofNat 9⟩ (endowed funding) = .ok result after ∧
      result.isSuccess = true ∧ after.ledger.Reopens Ledger.openLatest := by
  obtain ⟨distinct, _, succeeds⟩ := sharing_runs
  obtain ⟨faithful, reached, seen, pending⟩ := endowed_known distinct
  have plain : (endowed funding).ledger.sight.code sharing.sender = .ok none := by decide +kernel
  obtain ⟨covers, commits⟩ := reached.transact_covered faithful purses sharing ⟨1, .ofNat 9⟩
    (endowed funding) (hosts_endowed _) rfl seen
    ((Command.sum_book_le funding).trans_lt (by decide)) plain (by decide) pending
  refine ⟨covers, ?_⟩
  obtain ⟨result, batch, executed, success⟩ := ok_of_answer_map succeeds
  obtain ⟨after, ran, latest⟩ := commits result batch executed success
  exact ⟨result, after, ran, success, latest⟩

/-- Code is shown what its address has once the value of the transaction and the transfers so far have
been carried out, or less if a total stays at the largest word; but the sender of the transaction is
shown the value as well. So after a run that succeeded the transaction is committed, or it is refused
at the first transfer that is not covered, and that was sent by the sender of the transaction. -/
theorem Reached.transact_refused_at_sender (faithful : Faithful data) (reached : Reached data site)
    (engine : Engine) (transaction : Transaction) (block : Block) (host : Host σ)
    (hosts : site.Hosts index host) {balances : Address → Amount}
    (seen : ∀ address, host.ledger.sight.balance address = .ok (balances address))
    (bounded : ∑ address, (balances address).toNat < UInt64.size)
    (within : ∀ code ∈ transaction.action.code, code ∈ data)
    (pending : (ending (unsettled engine transaction block host)).view.pending ⊆ data) :
    let held := transaction.opened fun address => (balances address).toNat
    (∀ frame world, Reaches engine transaction block host frame world →
      let payments := transaction.payment :: world.transfers
      let left : ℤ := held frame.address + inflow payments frame.address -
        outflow payments frame.address
      let kept := if frame.address = transaction.sender then transaction.value.toNat else 0
      ∃ shown, answer (Service.balanceOf frame.incoming frame.address world) = .ok shown ∧
        shown.toNat ≤ left + kept ∧
        (held frame.address + inflow payments frame.address < UInt64.size →
          shown.toNat = left + kept)) ∧
    ∀ result batch, execute engine transaction (contextOf transaction block) host =
        .ok result batch → result.isSuccess = true →
      transaction.value ≤ balances transaction.sender →
      let payments := transaction.payment :: result.transfers
      (held.Covers payments ∧ ∃ after, transact engine transaction block host = .ok result after ∧
        after.ledger.Reopens Ledger.openLatest) ∨
      ∃ done transfer rest available after, payments = done ++ transfer :: rest ∧
        held.Covers done ∧ available.toNat = held.settle done transfer.sender ∧
        available < transfer.value ∧ transfer.sender = transaction.sender ∧
        transact engine transaction block host =
          .error (.insufficientBalance transfer.value available) after := by
  intro held
  obtain ⟨book, roots, sound, here⟩ := reached.book_seen faithful hosts seen
  have opening : (transaction.opening book).balances = held := by
    rw [transaction.balances_opening, here]
  refine ⟨fun frame world reaches => ?_, fun result batch executed success covered => ?_⟩
  · rw [← opening]
    exact reaches.shown faithful sound within pending
  · intro payments
    have enough : transaction.value.toNat ≤ book.balances transaction.sender := by
      rw [here]
      exact UInt64.le_iff_toNat_le.mp covered
    obtain ⟨backs, commits, refuses⟩ := transact_cases faithful sound within
      (by
        rw [transaction.balances_opening, here]
        exact Balances.Bounded.opened bounded transaction) pending enough executed success
    rw [opening] at commits refuses
    by_cases covers : held.Covers payments
    · exact .inl ⟨covers, commits covers⟩
    · obtain ⟨done, transfer, rest, available, after, split, coversDone, left, short, ran⟩ :=
        refuses covers
      refine .inr ⟨done, transfer, rest, available, after, split, coversDone, left, short, ?_, ran⟩
      rw [← opening] at coversDone left
      refine backs.sender_of_short split coversDone ?_
      rw [← left]
      exact UInt64.lt_iff_toNat_lt.mp short

def deposits : List Command := [.setCode (.ofNat 1) [5], .setCode payer [5], .setBalance payer 100]

/-- A call of the one contract by the other, which asks the other to pay. -/
def collecting : Transaction := ⟨payer, .ofNat 1, 80, 1000, .call "collect", []⟩

set_option maxRecDepth 100000 in
/-- The data of the call, and the result of its run: the sender is shown all its funds. -/
theorem collecting_runs :
    Distinct deposits (settledRecords deposits purses collecting ⟨1, .ofNat 9⟩) ∧
    (answer (execute purses collecting (contextOf collecting ⟨1, .ofNat 9⟩) (endowed deposits))).map
      (fun result => (result.isSuccess, result.returned, result.transfers)) =
        .ok (true, some (.u64 100), [⟨payer, .ofNat 1, 50⟩]) ∧
    (answer (transact purses collecting ⟨1, .ofNat 9⟩ (endowed deposits))).map
      (fun _ => ()) = .error (.insufficientBalance 50 20) := by
  decide +kernel

set_option maxRecDepth 100000 in
theorem transact_refused_at_sender_collecting :
    ∃ done transfer rest available after,
      [collecting.payment, ⟨payer, .ofNat 1, 50⟩] = done ++ transfer :: rest ∧
      (Command.book deposits).balances.Covers done ∧
      available.toNat = (Command.book deposits).balances.settle done transfer.sender ∧
      available < transfer.value ∧ transfer.sender = payer ∧
      transact purses collecting ⟨1, .ofNat 9⟩ (endowed deposits) =
        .error (.insufficientBalance transfer.value available) after := by
  obtain ⟨distinct, runs, refuses⟩ := collecting_runs
  obtain ⟨faithful, reached, seen, pending⟩ := endowed_known distinct
  obtain ⟨_, settles⟩ := reached.transact_refused_at_sender faithful purses collecting ⟨1, .ofNat 9⟩
    (endowed deposits) (hosts_endowed _) seen
    ((Command.sum_book_le deposits).trans_lt (by decide))
    (fun _ member => absurd member List.not_mem_nil) pending
  obtain ⟨result, batch, executed, ends⟩ := ok_of_answer_map runs
  obtain ⟨success, answers⟩ := Prod.mk.inj ends
  obtain ⟨_, transfers⟩ := Prod.mk.inj answers
  obtain ⟨last, refused⟩ := error_of_answer_map refuses
  have settled := settles result batch executed success (by decide)
  rw [transfers] at settled
  rcases settled with ⟨_, after, ran, _⟩ | short
  · cases ran.symm.trans refused
  · exact short

set_option maxRecDepth 100000 in
/-- A contract that pays for a transaction and is called by it can spend the value once more: it is
shown all its funds, the run succeeds, and then the transaction is refused for want of balance. -/
theorem collecting_overdrawn :
    (∀ address, (endowed deposits).ledger.sight.balance address =
      .ok ((Command.book deposits).holding address).balance) ∧
    ∑ address, (Command.book deposits).balances address < UInt64.size ∧
    (endowed deposits).ledger.sight.code collecting.sender = .ok (some [5]) ∧
    (Command.book deposits).balances collecting.sender = 100 ∧ collecting.value = 80 ∧
    ∃ result batch after,
      execute purses collecting (contextOf collecting ⟨1, .ofNat 9⟩) (endowed deposits) =
        .ok result batch ∧
      result.isSuccess = true ∧ result.returned = some (.u64 100) ∧
      transact purses collecting ⟨1, .ofNat 9⟩ (endowed deposits) =
        .error (.insufficientBalance 50 20) after := by
  obtain ⟨distinct, runs, refuses⟩ := collecting_runs
  obtain ⟨_, _, seen, _⟩ := endowed_known distinct
  refine ⟨seen, (Command.sum_book_le deposits).trans_lt (by decide), by decide +kernel,
    by decide +kernel, rfl, ?_⟩
  obtain ⟨result, batch, executed, ends⟩ := ok_of_answer_map runs
  obtain ⟨success, answers⟩ := Prod.mk.inj ends
  obtain ⟨returned, _⟩ := Prod.mk.inj answers
  obtain ⟨after, refused⟩ := error_of_answer_map refuses
  exact ⟨result, batch, after, executed, success, returned, refused⟩

end Site

end ContractLedger
