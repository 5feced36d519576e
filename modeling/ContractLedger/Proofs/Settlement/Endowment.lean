import ContractLedger.Proofs.Ledger.Growth
import ContractLedger.Proofs.Settlement.Payment

/-!
Hosts that commands have endowed. Commands that one session carries out over an unused store make a
book, whose balances are all that is seen of the ledger; and together they are at most what the
commands set.
-/

namespace ContractLedger

def Command.amount : Command → Nat
  | setBalance _ balance => balance.toNat
  | _ => 0

def Command.book (commands : List Command) : Book :=
  commands.foldl (fun book command => command.effect book) Book.empty

theorem Command.sum_effect_le (command : Command) (book : Book) :
    ∑ address, (command.effect book).balances address ≤
      ∑ address, book.balances address + command.amount := by
  have same (address : Address) (holding : Holding)
      (kept : holding.balance = (book.holding address).balance) :
      ∑ other, (book.set address holding).balances other ≤ ∑ other, book.balances other := by
    rw [Book.balances_set, kept]
    exact (congrArg _ (Function.update_eq_self address book.balances)).le
  cases command with
  | createAccount address =>
    rw [effect, Book.balances_set]
    exact book.balances.sum_update_le address 0
  | setBalance address balance =>
    rw [effect, Book.balances_set]
    exact book.balances.sum_update_le address balance.toNat
  | setCode address code => exact same address _ rfl
  | setObject address key value => exact same address _ rfl
  | account address => exact le_refl _
  | getCode address => exact le_refl _
  | getObject address key => exact le_refl _
  | getBalance address => exact le_refl _

/-- The balances of a book are at most what the commands that make it set. -/
theorem Command.sum_book_le (commands : List Command) :
    ∑ address, (book commands).balances address ≤ (commands.map amount).sum := by
  have folded (start : Book) :
      ∑ address, (commands.foldl (fun book command => command.effect book) start).balances address ≤
        ∑ address, start.balances address + (commands.map amount).sum := by
    induction commands generalizing start with
    | nil => exact le_refl _
    | cons command commands ih =>
      have first := sum_effect_le command start
      have rest := ih (command.effect start)
      rw [List.map_cons, List.sum_cons]
      exact rest.trans (by omega)
  have none : ∑ address, Book.empty.balances address = 0 := Finset.sum_const_zero
  have whole := folded Book.empty
  rwa [none, Nat.zero_add] at whole

namespace Site

def endowed (commands : List Command) : Host Memory :=
  ⟨(unused.run (carrying 0 commands)).mounted 0, []⟩

theorem hosts_endowed (commands : List Command) :
    (unused.run (carrying 0 commands)).Hosts 0 (endowed commands) := ⟨rfl, rfl⟩

/-- What is pending when a transaction is settled on such a host. -/
def settledRecords (commands : List Command) (engine : Engine) (transaction : Transaction)
    (block : Block) : List Bytes :=
  let last := ending (Settlement.unsettled engine transaction block (endowed commands))
  last.ledger.ledger.pendingList

/-- Whether records have digests that differ, and the code that commands bring in is among them. -/
def Distinct (commands : List Command) (records : List Bytes) : Prop :=
  ((Node.empty.encode :: records).dedup.map Keccak.digest).Nodup ∧
    (∀ record ∈ records, record.length < 2 ^ 63) ∧
    ∀ command ∈ commands, ∀ code ∈ command.code, code ∈ records

instance (commands : List Command) (records : List Bytes) : Decidable (Distinct commands records) :=
  inferInstanceAs (Decidable (_ ∧ _ ∧ _))

/-- What is known of such a host if its records are distinct. -/
theorem reached_endowed {commands : List Command} {records : List Bytes}
    (distinct : Distinct commands records)
    (pending : (endowed commands).view.pending ⊆ { bytes | bytes ∈ records }) :
    let data := { bytes | bytes ∈ records }
    Faithful data ∧ Reached data (unused.run (carrying 0 commands)) ∧
      ∀ address, (endowed commands).ledger.sight.balance address =
        .ok ((Command.book commands).holding address).balance := by
  intro data
  obtain ⟨apart, short, within⟩ := distinct
  have faithful : Faithful data := .of_nodup apart short
  obtain ⟨roots, start⟩ := sound_unused data 0
  obtain ⟨reached, rootsAfter, sound⟩ :=
    (reached_unused data).carry faithful commands start within pending
  refine ⟨faithful, reached, fun address => ?_⟩
  have seen := sound.sight faithful
  rw [Ledger.sight_view] at seen
  exact congrFun (congrArg Sight.balance seen) address

/-- What is known of such a host when a transaction is settled on it. -/
theorem endowed_known {commands : List Command} {engine : Engine} {transaction : Transaction}
    {block : Block}
    (distinct : Distinct commands (settledRecords commands engine transaction block)) :
    let data := { bytes | bytes ∈ settledRecords commands engine transaction block }
    Faithful data ∧ Reached data (unused.run (carrying 0 commands)) ∧
      (∀ address, (endowed commands).ledger.sight.balance address =
        .ok ((Command.book commands).holding address).balance) ∧
      (ending (Settlement.unsettled engine transaction block (endowed commands))).view.pending ⊆
        data := by
  intro data
  have pending : (ending (Settlement.unsettled engine transaction block
      (endowed commands))).view.pending ⊆ data :=
    fun bytes member => Host.mem_pendingList.mpr member
  have grows := (Settlement.agree_unsettled engine transaction block).grows (endowed commands)
  rw [← Settlement.ending_unsettled_view] at grows
  obtain ⟨faithful, reached, seen⟩ := reached_endowed distinct (grows.trans pending)
  exact ⟨faithful, reached, seen, pending⟩

end Site

end ContractLedger
