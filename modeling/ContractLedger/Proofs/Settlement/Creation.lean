import ContractLedger.Proofs.Settlement.Conservation

/-!
What becomes of value when a contract is created. A creation puts a fresh record in the place of whatever
its address holds, before anything is moved. So the balance that was there is lost, and all other value is
kept: the sum of all balances is less by just that balance, and is kept where there was none.
-/

namespace ContractLedger

open TransferList

/-- Without the balance of one address, the sum of all balances is less by it. -/
theorem Balances.sum_update_zero (balances : Balances) (address : Address) :
    ∑ other, Function.update balances address 0 other + balances address =
      ∑ other, balances other := by
  have member := Finset.mem_univ address
  rw [Finset.sum_update_of_mem member, Nat.zero_add, Finset.sdiff_singleton_eq_erase]
  exact Finset.sum_erase_add Finset.univ balances member

theorem Transaction.opened_of_create {transaction : Transaction} {code : Bytes}
    (creates : transaction.action = .create code) (balances : Balances) :
    transaction.opened balances = Function.update balances transaction.contract 0 := by
  rw [opened, creates]

/-- What is left of the sum of all balances when a contract is created. -/
theorem Transaction.sum_opened_of_create {transaction : Transaction} {code : Bytes}
    (creates : transaction.action = .create code) (balances : Balances) :
    ∑ address, transaction.opened balances address + balances transaction.contract =
      ∑ address, balances address := by
  rw [opened_of_create creates]
  exact balances.sum_update_zero transaction.contract

namespace Site

variable {σ : Type} [ByteStore σ] [ReliableStore σ] {data : Set Bytes} {site : Site σ} {index : Nat}

/-- A transaction that succeeds leaves the balances that its value and its transfers give, counted from
the start of its run. -/
theorem Reached.transact_settles (faithful : Faithful data) (reached : Reached data site)
    (engine : Engine) (transaction : Transaction) (block : Block) (host : Host σ)
    (hosts : site.Hosts index host) (within : ∀ code ∈ transaction.action.code, code ∈ data)
    {balances : Address → Amount}
    (seen : ∀ address, host.ledger.sight.balance address = .ok (balances address))
    (bounded : ∑ address, (balances address).toNat < UInt64.size)
    (pending : (ending (Settlement.unsettled engine transaction block host)).view.pending ⊆ data)
    {result : ExecutionResult} {after : Host σ}
    (ran : Settlement.transact engine transaction block host = .ok result after)
    (success : result.isSuccess = true) :
    let opened := transaction.opened fun address => (balances address).toNat
    let payments := transaction.payment :: result.transfers
    ∃ later : Address → Amount,
      (∀ address, after.ledger.sight.balance address = .ok (later address)) ∧
      after.ledger.Reopens Ledger.openLatest ∧ opened.Covers payments ∧
      (fun address => (later address).toNat) = opened.settle payments := by
  intro opened payments
  obtain ⟨book, roots, sound, here⟩ := reached.book_seen faithful hosts seen
  have opening : (transaction.opening book).balances = opened := by
    rw [transaction.balances_opening, here]
  have same := (Settlement.agree_transact engine transaction block).same host
  rw [ran] at same
  rw [Settlement.ending_unsettled_view] at pending
  obtain ⟨covers, latest, last, rootsLast, soundLast, settled⟩ := Settlement.transact_balances faithful
    sound within (by rw [opening]; exact Balances.Bounded.opened bounded transaction) pending same.symm
    success
  rw [opening] at covers settled
  refine ⟨fun address => (last.holding address).balance, fun address => ?_,
    latest.of_view Ledger.agree_openLatest, covers, settled⟩
  rw [← Ledger.sight_view after.ledger]
  exact congrFun (congrArg Sight.balance (soundLast.sight faithful)) address

/-- A creation that succeeds on a ledger whose balances together fit a word loses the balance that the
address of the contract held, and nothing else. What is committed has for each address, in exact numbers,
the balance that was there, none counting for the contract, with the value of the transaction for the
contract and without it for the sender, with the transfers that the address receives and without those
that it sends. -/
theorem Reached.transact_replaces (faithful : Faithful data) (reached : Reached data site)
    (engine : Engine) (transaction : Transaction) (block : Block) (host : Host σ)
    (hosts : site.Hosts index host) {code : Bytes} (creates : transaction.action = .create code)
    (within : code ∈ data) {balances : Address → Amount}
    (seen : ∀ address, host.ledger.sight.balance address = .ok (balances address))
    (bounded : ∑ address, (balances address).toNat < UInt64.size)
    (pending : (ending (Settlement.unsettled engine transaction block host)).view.pending ⊆ data)
    {result : ExecutionResult} {after : Host σ}
    (ran : Settlement.transact engine transaction block host = .ok result after)
    (success : result.isSuccess = true) :
    ∃ later : Address → Amount,
      (∀ address, after.ledger.sight.balance address = .ok (later address)) ∧
      after.ledger.Reopens Ledger.openLatest ∧
      ∑ address, (later address).toNat + (balances transaction.contract).toNat =
        ∑ address, (balances address).toNat ∧
      ∀ address, ((later address).toNat : ℤ) =
        (if address = transaction.contract then (transaction.value.toNat : ℤ)
          else (balances address).toNat) -
        (if address = transaction.sender then (transaction.value.toNat : ℤ) else 0) +
        inflow result.transfers address - outflow result.transfers address := by
  have only : ∀ found ∈ transaction.action.code, found ∈ data := by
    rw [creates]
    exact fun found member => List.mem_singleton.mp member ▸ within
  obtain ⟨later, shown, latest, covers, settled⟩ := reached.transact_settles faithful engine transaction
    block host hosts only seen bounded pending ran success
  refine ⟨later, shown, latest, ?_, fun address => ?_⟩
  · have whole := covers.sum_settle
    rw [← settled] at whole
    rw [whole]
    exact Transaction.sum_opened_of_create creates fun address => (balances address).toNat
  · have exact := covers.settle_apply address
    rw [← settled, Transaction.opened_of_create creates, outflow_cons, inflow_cons, Function.update_apply] at exact
    simp only [Transaction.payment, eq_comm (b := address)] at exact ⊢
    split_ifs at exact ⊢ <;> omega

/-- An address with funds, and one that has something before a contract is created there. -/
def claimed : List Command := [.setBalance payer 100, .setBalance (.ofNat 1) 7]

/-- The creation of the contract by the address with funds. -/
def claiming : Transaction := ⟨payer, .ofNat 1, 30, 1000, .create [5], []⟩

set_option maxRecDepth 100000 in
theorem transact_replaces_claiming :
    ∃ result after, Settlement.transact purses claiming ⟨1, .ofNat 9⟩ (endowed claimed) =
        .ok result after ∧
      ∃ later : Address → Amount,
        (∀ address, after.ledger.sight.balance address = .ok (later address)) ∧
        ∑ address, (later address).toNat + 7 = ∑ address, (Command.book claimed).balances address ∧
        (later payer).toNat = 70 ∧ (later (.ofNat 1)).toNat = 30 := by
  obtain ⟨distinct, inside, answers⟩ :
      Distinct claimed (settledRecords claimed purses claiming ⟨1, .ofNat 9⟩) ∧
      [5] ∈ settledRecords claimed purses claiming ⟨1, .ofNat 9⟩ ∧
      (answer (Settlement.transact purses claiming ⟨1, .ofNat 9⟩ (endowed claimed))).map
        (fun result => (result.isSuccess, result.transfers)) = .ok (true, []) := by decide +kernel
  obtain ⟨faithful, reached, seen, pending⟩ := endowed_known distinct
  obtain ⟨result, after, ran, ends⟩ := ok_of_answer_map answers
  obtain ⟨success, transfers⟩ := Prod.mk.inj ends
  obtain ⟨later, shown, _, whole, exact⟩ := reached.transact_replaces faithful purses claiming
    ⟨1, .ofNat 9⟩ (endowed claimed) (hosts_endowed _) rfl inside seen
    ((Command.sum_book_le claimed).trans_lt (by decide)) pending ran success
  rw [transfers] at exact
  have replaced : ((Command.book claimed).holding claiming.contract).balance.toNat = 7 := by decide
  rw [replaced] at whole
  refine ⟨result, after, ran, later, shown, whole, ?_, ?_⟩
  · exact Int.ofNat.inj ((exact payer).trans (by decide))
  · exact Int.ofNat.inj ((exact (.ofNat 1)).trans (by decide))

def hoarded : List Command := [.setBalance (.ofNat 1) 100]

set_option maxRecDepth 100000 in
/-- A contract that is created where there are funds takes their place, and the funds are gone. -/
theorem founding_loses_hoard :
    (∀ address, (endowed hoarded).ledger.sight.balance address =
      .ok ((Command.book hoarded).holding address).balance) ∧
    ∑ address, (Command.book hoarded).balances address < UInt64.size ∧
    founding.action = .create [5] ∧
    ∃ result after, ∃ later : Address → Amount,
      Settlement.transact purses founding ⟨1, .ofNat 9⟩ (endowed hoarded) =
        .ok result after ∧
      result.isSuccess = true ∧
      (∀ address, after.ledger.sight.balance address = .ok (later address)) ∧
      ∑ address, (later address).toNat ≠ ∑ address, (Command.book hoarded).balances address := by
  obtain ⟨distinct, inside, answers⟩ :
      Distinct hoarded (settledRecords hoarded purses founding ⟨1, .ofNat 9⟩) ∧
      [5] ∈ settledRecords hoarded purses founding ⟨1, .ofNat 9⟩ ∧
      (answer (Settlement.transact purses founding ⟨1, .ofNat 9⟩ (endowed hoarded))).map
        (fun result => result.isSuccess) = .ok true := by decide +kernel
  obtain ⟨faithful, reached, seen, pending⟩ := endowed_known distinct
  have bounded : ∑ address, (Command.book hoarded).balances address < UInt64.size :=
    (Command.sum_book_le hoarded).trans_lt (by decide)
  obtain ⟨result, after, ran, success⟩ := ok_of_answer_map answers
  obtain ⟨later, shown, _, covers, settled⟩ := reached.transact_settles faithful purses founding
    ⟨1, .ofNat 9⟩ (endowed hoarded) (hosts_endowed _)
    (fun code member => List.mem_singleton.mp member ▸ inside) seen bounded pending ran success
  refine ⟨seen, bounded, rfl, result, after, later, ran, success, shown, fun same => ?_⟩
  have whole := covers.sum_settle
  rw [← settled, same] at whole
  have lost : ∑ address, founding.opened (Command.book hoarded).balances address + 100 =
      ∑ address, (Command.book hoarded).balances address :=
    Transaction.sum_opened_of_create rfl (Command.book hoarded).balances
  change _ = ∑ address, founding.opened (Command.book hoarded).balances address at whole
  omega

end Site

end ContractLedger
