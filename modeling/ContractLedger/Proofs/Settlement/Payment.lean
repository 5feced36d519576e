import ContractLedger.Proofs.Settlement.Execution

/-!
Carrying transfers out. On a sound ledger whose balances together fit a word, a transfer that is
covered moves its value exactly, and one that is not is refused with the balance that there is. A
sequence of transfers therefore ends with the balances that plain arithmetic gives, or is refused at
the first transfer that is not covered.
-/

namespace ContractLedger

/-- The movement of the value of a transaction. -/
def Transaction.payment (transaction : Transaction) : Transfer :=
  ⟨transaction.sender, transaction.contract, transaction.value⟩

/-- Whether all balances together fit a word. -/
def Balances.Bounded (balances : Balances) : Prop :=
  ∑ address, balances address < UInt64.size

theorem Balances.Covers.bounded {balances : Balances} {transfers : TransferList}
    (covers : balances.Covers transfers) (bounded : balances.Bounded) :
    (balances.settle transfers).Bounded := by
  rwa [Bounded, covers.sum_settle]

theorem Book.balances_set (book : Book) (address : Address) (holding : Holding) :
    (book.set address holding).balances =
      Function.update book.balances address holding.balance.toNat := by
  funext other
  rw [balances]
  by_cases same : other = address
  · subst other
    rw [holding_set_same, Function.update_self]
  · rw [holding_set_other _ _ _ same, Function.update_of_ne same, balances]

/-- The balances from which the run of a transaction starts: a contract that is created has none. -/
def Transaction.opened (transaction : Transaction) (balances : Balances) : Balances :=
  match transaction.action with
  | .create _ => Function.update balances transaction.contract 0
  | .call _ => balances

theorem Transaction.balances_opening (transaction : Transaction) (book : Book) :
    (transaction.opening book).balances = transaction.opened book.balances := by
  unfold opening opened
  cases transaction.action with
  | create code => exact book.balances_set transaction.contract _
  | call method => rfl

theorem Balances.Bounded.opened {balances : Balances} (bounded : balances.Bounded)
    (transaction : Transaction) : (transaction.opened balances).Bounded := by
  unfold Transaction.opened
  cases transaction.action with
  | create code => exact (balances.sum_update_le transaction.contract 0).trans_lt bounded
  | call method => exact bounded

namespace Settlement

section Steps

variable {σ : Type} [ByteStore σ]

/-- Carries transfers out, one after another. -/
def carry (transfers : TransferList) : SettleM σ Unit :=
  transfers.forM fun transfer => moveValue transfer.sender transfer.recipient transfer.value

theorem applyTransfers_eq (transaction : Transaction) (transfers : TransferList) :
    (applyTransfers transaction transfers : SettleM σ Unit) =
      carry (transaction.payment :: transfers) := rfl

theorem carry_cons (transfer : Transfer) (transfers : TransferList) :
    (carry (transfer :: transfers) : SettleM σ Unit) =
      moveValue transfer.sender transfer.recipient transfer.value >>= fun _ => carry transfers := rfl

omit [ByteStore σ] in
private theorem onLedger_bind {α β : Type} (first : LedgerM σ α) (next : α → LedgerM σ β) :
    (onLedger (first >>= next) : SettleM σ β) =
      onLedger first >>= fun value => onLedger (next value) := by
  funext host
  simp only [onLedger, Host.run, Step.bind_apply]
  cases first host.ledger <;> rfl

/-- What carries a transfer out that is covered. -/
def shift (sender recipient : Address) (available value : Amount) : LedgerM σ Unit := do
  Ledger.setBalance sender (available - value)
  let balance ← Ledger.getBalance recipient
  Ledger.setBalance recipient (Amount.plus balance value)

theorem moveValue_apply {sender recipient : Address} {available value : Amount}
    {host : Host σ} (some : value ≠ 0) (read : onLedger (Ledger.getBalance sender) host = .ok available host)
    (covered : ¬ available < value) :
    moveValue sender recipient value host =
      onLedger (shift sender recipient available value) host := by
  rw [moveValue, if_neg some, Step.bind_ok read, if_neg covered, shift, onLedger_bind]
  simp only [onLedger_bind]

end Steps

variable {data : Set Bytes} {host : Host Content} {book : Book} {roots : Address → Hash}

theorem read_balance (faithful : Faithful data)
    (sound : Ledger.Sound data host.ledger book roots) (address : Address) :
    onLedger (Ledger.getBalance address) host = .ok (book.holding address).balance host := by
  rw [onLedger, Host.run, Ledger.getBalance_apply faithful sound.orderly sound.lists]

theorem moveValue_short (faithful : Faithful data)
    (sound : Ledger.Sound data host.ledger book roots) {sender recipient : Address} {value : Amount}
    (short : (book.holding sender).balance < value) :
    moveValue sender recipient value host =
      .error (.insufficientBalance value (book.holding sender).balance) host := by
  have some : value ≠ 0 := by
    rintro rfl
    exact UInt64.not_lt_zero short
  rw [moveValue, if_neg some, Step.bind_ok (read_balance faithful sound sender), if_pos short]
  rfl

private theorem shift_sound (faithful : Faithful data) {mounted : Ledger.Mounted Content}
    (sound : Ledger.Sound data mounted book roots) (bounded : book.balances.Bounded)
    (transfer : Transfer) (covered : transfer.value.toNat ≤ book.balances transfer.sender) :
    ∃ last, last.balances = book.balances.move transfer ∧
      Ledger.Succeeds data mounted (shift transfer.sender transfer.recipient
        (book.holding transfer.sender).balance transfer.value) () last := by
  obtain ⟨sender, recipient, value⟩ := transfer
  let left := (book.holding sender).balance - value
  let paid := book.set sender { book.holding sender with balance := left }
  let grown := Amount.plus (paid.holding recipient).balance value
  have balancesPaid : paid.balances =
      Function.update book.balances sender (book.balances sender - value.toNat) := by
    have exact : left.toNat = book.balances sender - value.toNat :=
      UInt64.toNat_sub_of_le _ _ (UInt64.le_iff_toNat_le.mpr covered)
    rw [Book.balances_set, exact]
  refine ⟨paid.set recipient { paid.holding recipient with balance := grown }, ?_, ?_⟩
  · -- The recipient cannot have more than all balances together, so the sum is exact.
    have moved : book.balances.move ⟨sender, recipient, value⟩ =
        Function.update paid.balances recipient (paid.balances recipient + value.toNat) := by
      rw [balancesPaid]
      rfl
    have covers : book.balances.Covers [⟨sender, recipient, value⟩] := ⟨covered, trivial⟩
    have most := Balances.le_sum (book.balances.move ⟨sender, recipient, value⟩) recipient
    have whole : ∑ address, book.balances.move ⟨sender, recipient, value⟩ address < UInt64.size :=
      covers.bounded bounded
    rw [moved, Function.update_self, ← moved] at most
    have exact : grown.toNat = paid.balances recipient + value.toNat := by
      rw [Amount.toNat_plus, Book.balances]
      rw [Book.balances] at most
      omega
    rw [Book.balances_set, exact, moved]
  · refine (Ledger.setBalance_sound faithful sound sender left).bind (fun _ => ?_)
      fun after rootsAfter soundAfter => ?_
    · exact (Ledger.agree_getBalance recipient).bind (fun _ => Ledger.agree_setBalance _ _) |>.grows
    · exact .after (Ledger.getBalance_apply faithful soundAfter.orderly soundAfter.lists recipient)
        (.refl after) (Ledger.setBalance_sound faithful soundAfter recipient grown)

theorem moveValue_covered (faithful : Faithful data)
    (sound : Ledger.Sound data host.ledger book roots) (bounded : book.balances.Bounded)
    (transfer : Transfer) (covered : transfer.value.toNat ≤ book.balances transfer.sender)
    (pending : (ending (moveValue transfer.sender transfer.recipient transfer.value host)).pending ⊆
      data) :
    ∃ after last rootsLast,
      moveValue transfer.sender transfer.recipient transfer.value host = .ok () after ∧
      Ledger.Sound data after.ledger last rootsLast ∧
      last.balances = book.balances.move transfer := by
  by_cases none : transfer.value = 0
  · have still : book.balances.move transfer = book.balances := by
      funext address
      rw [Balances.move_eq, none]
      simp
    refine ⟨host, book, roots, ?_, sound, still.symm⟩
    rw [moveValue, if_pos none]
    rfl
  · have enough : ¬ (book.holding transfer.sender).balance < transfer.value :=
      UInt64.not_lt.mpr (UInt64.le_iff_toNat_le.mpr covered)
    rw [moveValue_apply none (read_balance faithful sound transfer.sender) enough] at pending ⊢
    obtain ⟨last, balances, succeeds⟩ := shift_sound faithful sound bounded transfer covered
    rw [onLedger, Host.ending_run] at pending
    obtain ⟨after, rootsLast, ran, _, soundLast⟩ := succeeds pending
    refine ⟨{ host with ledger := after }, last, rootsLast, ?_, soundLast, balances⟩
    rw [onLedger, Host.run, ran]

/-- Nothing that is pending is lost by carrying transfers out. -/
theorem carry_grows (transfers : TransferList) :
    Along Host.Grows (carry transfers : SettleM Content Unit) :=
  .forM transfers fun _ => (agree_moveValue _ _ _).grows

/-- Transfers that are covered in their turn are carried out. -/
theorem carry_covered (faithful : Faithful data) {transfers : TransferList}
    (sound : Ledger.Sound data host.ledger book roots) (bounded : book.balances.Bounded)
    (covers : book.balances.Covers transfers)
    (pending : (ending (carry transfers host)).pending ⊆ data) :
    ∃ after last rootsLast, carry transfers host = .ok () after ∧
      Ledger.Sound data after.ledger last rootsLast ∧
      last.balances = book.balances.settle transfers := by
  induction transfers generalizing host book roots with
  | nil => exact ⟨host, book, roots, rfl, sound, rfl⟩
  | cons transfer transfers ih =>
    rw [carry_cons] at pending ⊢
    have first := (Along.first (fun _ => carry_grows transfers) host).trans pending
    obtain ⟨middle, bookMiddle, rootsMiddle, ran, soundMiddle, moved⟩ :=
      moveValue_covered faithful sound bounded transfer covers.1 first
    have coversFirst : book.balances.Covers [transfer] := ⟨covers.1, trivial⟩
    have boundedMiddle : bookMiddle.balances.Bounded := moved ▸ coversFirst.bounded bounded
    rw [Step.bind_ok ran] at pending ⊢
    obtain ⟨after, last, rootsLast, ranRest, soundLast, settled⟩ :=
      ih soundMiddle boundedMiddle (moved ▸ covers.2) pending
    exact ⟨after, last, rootsLast, ranRest, soundLast, settled.trans (moved ▸ rfl)⟩

/-- Transfers that are not all covered are refused at the first that is not. -/
theorem carry_short (faithful : Faithful data) {transfers : TransferList}
    (sound : Ledger.Sound data host.ledger book roots) (bounded : book.balances.Bounded)
    (uncovered : ¬ book.balances.Covers transfers)
    (pending : (ending (carry transfers host)).pending ⊆ data) :
    ∃ done transfer rest available last, transfers = done ++ transfer :: rest ∧
      book.balances.Covers done ∧ available.toNat = book.balances.settle done transfer.sender ∧
      available < transfer.value ∧
      carry transfers host = .error (.insufficientBalance transfer.value available) last ∧
      ∃ bookLast rootsLast, Ledger.Sound data last.ledger bookLast rootsLast := by
  induction transfers generalizing host book roots with
  | nil => exact absurd trivial uncovered
  | cons transfer transfers ih =>
    rw [carry_cons] at pending ⊢
    by_cases covered : transfer.value.toNat ≤ book.balances transfer.sender
    · have first := (Along.first (fun _ => carry_grows transfers) host).trans pending
      obtain ⟨middle, bookMiddle, rootsMiddle, ran, soundMiddle, moved⟩ :=
        moveValue_covered faithful sound bounded transfer covered first
      have coversFirst : book.balances.Covers [transfer] := ⟨covered, trivial⟩
      have boundedMiddle : bookMiddle.balances.Bounded := moved ▸ coversFirst.bounded bounded
      rw [Step.bind_ok ran] at pending ⊢
      obtain ⟨done, next, rest, available, last, rfl, coversDone, left, short, ranRest⟩ :=
        ih soundMiddle boundedMiddle (fun covers => uncovered ⟨covered, moved ▸ covers⟩) pending
      rw [moved] at coversDone left
      exact ⟨transfer :: done, next, rest, available, last, rfl, ⟨covered, coversDone⟩, left, short,
        ranRest⟩
    · have short : (book.holding transfer.sender).balance < transfer.value :=
        UInt64.lt_iff_toNat_lt.mpr (Nat.not_le.mp covered)
      exact ⟨[], transfer, transfers, _, _, rfl, trivial, rfl, short,
        Step.bind_error (moveValue_short faithful sound short) _, book, roots, sound⟩

end Settlement

end ContractLedger
