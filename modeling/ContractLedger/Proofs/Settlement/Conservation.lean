import ContractLedger.Proofs.Settlement.Endowment

/-!
The balances after a transaction. A call that succeeds neither creates nor destroys value: what was
committed has the balances that its value and its transfers give, in exact numbers.
-/

namespace ContractLedger

namespace Settlement

variable {data : Set Bytes} {engine : Engine} {transaction : Transaction} {block : Block}
  {host batch after : Host Content} {book : Book} {roots : Address → Hash}
  {result : ExecutionResult}

theorem transact_executed (faithful : Faithful data)
    (sound : Ledger.Sound data host.ledger book roots)
    (covered : transaction.value ≤ (book.holding transaction.sender).balance)
    (executed : execute engine transaction (contextOf transaction block) host = .ok result batch)
    (success : result.isSuccess = true) :
    transact engine transaction block host =
      (do
        orRollback (applyTransfers transaction result.transfers)
        onLedger Ledger.commit
        return result : SettleM Content ExecutionResult) batch := by
  unfold transact
  rw [Step.bind_ok (read_balance faithful sound transaction.sender),
    if_neg (UInt64.not_lt.mpr covered)]
  dsimp only
  rw [Step.bind_ok (orRollback_eq_ok.mpr executed), if_pos success]

/-- A transaction that succeeded: its sender covered the value, its run succeeded, its transfers were
carried out and everything was committed. -/
theorem transact_ok (faithful : Faithful data) (sound : Ledger.Sound data host.ledger book roots)
    (ran : transact engine transaction block host = .ok result after)
    (success : result.isSuccess = true) :
    transaction.value ≤ (book.holding transaction.sender).balance ∧ ∃ batch last,
      execute engine transaction (contextOf transaction block) host = .ok result batch ∧
      applyTransfers transaction result.transfers batch = .ok () last ∧
      onLedger Ledger.commit last = .ok () after := by
  have exits : Exits engine transaction block host (transact engine transaction block host) :=
    transact_exits
  rw [ran] at exits
  have known := read_balance faithful sound transaction.sender
  cases exits with
  | failed read executed failure => cases success.symm.trans failure
  | @committed _ _ _ batch last _ read covered executed _ moved commits =>
    cases known.symm.trans read
    exact ⟨covered, batch, last, executed, moved, commits⟩

/-- What is pending after a part of a transaction is pending when it is settled. -/
theorem pending_applied (executed :
      execute engine transaction (contextOf transaction block) host = .ok result batch)
    (success : result.isSuccess = true) :
    ending (unsettled engine transaction block host) =
      ending (applyTransfers transaction result.transfers batch) := by
  rw [unsettled, Step.bind_ok executed, if_pos success]

/-- A transaction that succeeded leaves the balances that its value and its transfers give, counted
from the start of its run. -/
theorem transact_balances (faithful : Faithful data)
    (sound : Ledger.Sound data host.ledger book roots)
    (within : ∀ code ∈ transaction.action.code, code ∈ data)
    (bounded : (transaction.opening book).balances.Bounded)
    (pending : (ending (unsettled engine transaction block host)).pending ⊆ data)
    (ran : transact engine transaction block host = .ok result after)
    (success : result.isSuccess = true) :
    let payments := transaction.payment :: result.transfers
    (transaction.opening book).balances.Covers payments ∧
      after.ledger.Reopens Ledger.openLatest ∧
      ∃ last rootsLast, Ledger.Sound data after.ledger last rootsLast ∧
        last.balances = (transaction.opening book).balances.settle payments := by
  intro payments
  obtain ⟨_, batch, last, executed, moved, committed⟩ := transact_ok faithful sound ran success
  have settled := pending_execute engine transaction block host
  rw [executed] at settled
  obtain ⟨⟨opened, rootsBatch, soundBatch, alike⟩, _⟩ := execute_sound faithful sound within executed
    success (settled.trans pending)
  have balances : opened.balances = (transaction.opening book).balances := by
    funext address
    rw [Book.balances, alike.balance, Book.balances]
  rw [pending_applied executed success, applyTransfers_eq] at pending
  rw [applyTransfers_eq] at moved
  rw [← balances] at bounded ⊢
  have covers : opened.balances.Covers payments := by
    by_contra uncovered
    obtain ⟨_, _, _, _, _, _, _, _, _, refused, _⟩ :=
      carry_short faithful soundBatch bounded uncovered pending
    cases moved.symm.trans refused
  obtain ⟨carried, paid, rootsPaid, ranCarry, soundPaid, left⟩ :=
    carry_covered faithful soundBatch bounded covers pending
  cases moved.symm.trans ranCarry
  obtain ⟨final, wrote, commits⟩ := Ledger.commit_sound faithful soundPaid
  rw [onLedger, Host.run, wrote] at committed
  cases committed
  exact ⟨covers, (commits.reopens faithful).1, paid, rootsPaid, commits.sound, left⟩

end Settlement

namespace Site

open TransferList

variable {σ : Type} [ByteStore σ] [ReliableStore σ] {data : Set Bytes} {site : Site σ} {index : Nat}

/-- The book of a session, with the balances that are seen of it. -/
theorem Reached.book_seen (faithful : Faithful data) (reached : Reached data site) {host : Host σ}
    (hosts : site.Hosts index host) {balances : Address → Amount}
    (seen : ∀ address, host.ledger.sight.balance address = .ok (balances address)) :
    ∃ book roots, Ledger.Sound data host.view.ledger book roots ∧
      book.balances = fun address => (balances address).toNat := by
  obtain ⟨book, roots, sound⟩ := reached.host_sound faithful hosts
  refine ⟨book, roots, sound, funext fun address => ?_⟩
  have same := seen address
  rw [← Ledger.sight_view host.ledger] at same
  change host.view.ledger.sight.balance address = _ at same
  rw [sound.sight faithful] at same
  rw [← Except.ok.inj same]
  rfl

/-- A call that succeeds on a ledger whose balances together fit a word leaves their sum as it was.
What is committed has for each address, in exact numbers, the balance that was there, with the value
of the transaction for the contract and without it for the sender, with the transfers that the
address receives and without those that it sends. -/
theorem Reached.transact_conserves (faithful : Faithful data) (reached : Reached data site)
    (engine : Engine) (transaction : Transaction) (block : Block) (host : Host σ)
    (hosts : site.Hosts index host) {method : String} (calls : transaction.action = .call method)
    {balances : Address → Amount}
    (seen : ∀ address, host.ledger.sight.balance address = .ok (balances address))
    (bounded : ∑ address, (balances address).toNat < UInt64.size)
    (pending : (ending (Settlement.unsettled engine transaction block host)).view.pending ⊆ data)
    {result : ExecutionResult} {after : Host σ}
    (ran : Settlement.transact engine transaction block host = .ok result after)
    (success : result.isSuccess = true) :
    ∃ later : Address → Amount,
      (∀ address, after.ledger.sight.balance address = .ok (later address)) ∧
      after.ledger.Reopens Ledger.openLatest ∧
      ∑ address, (later address).toNat = ∑ address, (balances address).toNat ∧
      ∀ address, ((later address).toNat : ℤ) = (balances address).toNat +
        (if address = transaction.contract then (transaction.value.toNat : ℤ) else 0) -
        (if address = transaction.sender then (transaction.value.toNat : ℤ) else 0) +
        inflow result.transfers address - outflow result.transfers address := by
  obtain ⟨book, roots, sound, here⟩ := reached.book_seen faithful hosts seen
  have opening := Transaction.opening_of_call calls book
  have within : ∀ code ∈ transaction.action.code, code ∈ data := by
    rw [Transaction.code_of_call calls]
    nofun
  have same := (Settlement.agree_transact engine transaction block).same host
  rw [ran] at same
  rw [Settlement.ending_unsettled_view] at pending
  obtain ⟨covers, latest, last, rootsLast, soundLast, settled⟩ := Settlement.transact_balances faithful
    sound within (by rwa [opening, here]) pending same.symm success
  rw [opening, here] at covers settled
  have whole : ∑ address, last.balances address = ∑ address, (balances address).toNat := by
    rw [settled]
    exact covers.sum_settle
  have shown (address : Address) :
      after.ledger.sight.balance address = .ok (last.holding address).balance := by
    rw [← Ledger.sight_view after.ledger]
    exact congrFun (congrArg Sight.balance (soundLast.sight faithful)) address
  refine ⟨fun address => (last.holding address).balance, shown,
    latest.of_view Ledger.agree_openLatest, whole, fun address => ?_⟩
  have exact := covers.settle_apply address
  rw [← settled, outflow_cons, inflow_cons] at exact
  simp only [Transaction.payment, eq_comm (b := address), Book.balances] at exact ⊢
  split_ifs at exact ⊢ <;> omega

/-- A contract that keeps some of what it gets, although one of its calls fails. It may also ask the
sender of a transaction to pay, who tells what balance it was shown before. -/
def purse : ContractType :=
  ContractType.start "Purse" "purse" (return [])
    |>.withMethod "share" [] (fun _ _ => do
      let _ ← (Code.call (← Program.request .self) "spoil" [] 10).attempt
      Code.transfer (← Program.request .sender) 30
      return none)
    |>.withMethod "spoil" [] (fun _ _ => do
      Code.transfer (← Program.request .self) 5
      Code.revert "spoiled")
    |>.withMethod "collect" [] (fun _ _ => do
      Code.call (← Program.request .sender) "pay" [] 0)
    |>.withMethod "pay" [] (fun _ _ => do
      let balance ← Program.request .balance
      Code.transfer (← Program.request .sender) 50
      return some (.u64 balance))

def purses : Engine := ⟨fun _ => .ok [purse], .none, .standard⟩

def payer : Address := .ofNat (2 ^ 156)

/-- The contract, and the address with its funds. -/
def funding : List Command := [.setCode (.ofNat 1) [5], .setBalance payer 100]

def sharing : Transaction := ⟨payer, .ofNat 1, 80, 1000, .call "share", []⟩

set_option maxRecDepth 100000 in
theorem sharing_runs :
    Distinct funding (settledRecords funding purses sharing ⟨1, .ofNat 9⟩) ∧
    (answer (Settlement.transact purses sharing ⟨1, .ofNat 9⟩ (endowed funding))).map
      (fun result => (result.isSuccess, result.transfers)) = .ok (true, [⟨.ofNat 1, payer, 30⟩]) ∧
    (answer (Settlement.execute purses sharing (Settlement.contextOf sharing ⟨1, .ofNat 9⟩)
      (endowed funding))).map (·.isSuccess) = .ok true := by
  decide +kernel

set_option maxRecDepth 10000 in
theorem transact_conserves_sharing :
    ∃ result after, Settlement.transact purses sharing ⟨1, .ofNat 9⟩ (endowed funding) =
        .ok result after ∧
      ∃ later : Address → Amount,
        (∀ address, after.ledger.sight.balance address = .ok (later address)) ∧
        ∑ address, (later address).toNat = ∑ address, (Command.book funding).balances address ∧
        (later payer).toNat = 50 ∧ (later (.ofNat 1)).toNat = 50 := by
  obtain ⟨distinct, answers, _⟩ := sharing_runs
  obtain ⟨faithful, reached, seen, pending⟩ := endowed_known distinct
  have bounded : ∑ address, (Command.book funding).balances address < UInt64.size :=
    (Command.sum_book_le funding).trans_lt (by decide)
  obtain ⟨result, after, ran, ends⟩ := ok_of_answer_map answers
  obtain ⟨success, transfers⟩ := Prod.mk.inj ends
  obtain ⟨later, shown, _, whole, exact⟩ := reached.transact_conserves faithful purses sharing
    ⟨1, .ofNat 9⟩ (endowed funding) (hosts_endowed _) rfl seen bounded pending ran success
  rw [transfers] at exact
  refine ⟨result, after, ran, later, shown, whole, ?_, ?_⟩
  · exact Int.ofNat.inj ((exact payer).trans (by decide))
  · exact Int.ofNat.inj ((exact (.ofNat 1)).trans (by decide))

end Site

end ContractLedger
