import ContractLedger.Proofs.Engine.Shortfall
import ContractLedger.Proofs.Settlement.Coverage

/-!
How exact the balance is that code is shown. A contract that is not the sender of the transaction is
shown what it would have if the value and the transfers so far were carried out, as long as all that it
ever received fits a word together. Value that circulates can be received often; once the total stays at
the largest word, the contract is shown less than it has, and is refused what it could cover.
-/

namespace ContractLedger

open TransferList

/-- What is shown, given what is left after all that was received and sent. -/
theorem Incoming.toNat_shown_left {incoming : Incoming} {balances : Balances}
    {transfers : TransferList} {stored : Amount} {address : Address} {left : Nat}
    (held : balances address = stored.toNat)
    (exact : left + outflow transfers address =
      balances.credit incoming address + inflow transfers address) :
    let shown := (incoming.shown stored transfers address).toNat
    shown ≤ left ∧ (shown = left ↔
      balances.credit incoming address + inflow transfers address < UInt64.size ∨ left = 0) := by
  intro shown
  have value : shown = _ := toNat_shown held
  omega

namespace Settlement

variable {data : Set Bytes} {engine : Engine} {transaction : Transaction} {block : Block}
  {book : Book} {roots : Address → Hash}
  {σ : Type} [ByteStore σ] [ReliableStore σ] {host : Host σ} {frame : Frame} {world : World σ}

/-- What the value and transfers leave of a balance if they are carried out. -/
theorem applyTransfers_left (faithful : Faithful data)
    (sound : Ledger.Sound data host.view.ledger book roots) (bounded : book.balances.Bounded)
    {transfers : TransferList} (covers : book.balances.Covers (transaction.payment :: transfers))
    (pending : (ending (applyTransfers transaction transfers host)).view.pending ⊆ data) :
    ∃ after, applyTransfers transaction transfers host = .ok () after ∧
      ∀ address, ∃ settled, after.ledger.sight.balance address = .ok settled ∧
        settled.toNat = book.balances.settle (transaction.payment :: transfers) address := by
  have same : through Host.view (applyTransfers transaction transfers host) =
      carry (transaction.payment :: transfers) host.view :=
    (agree_applyTransfers transaction transfers).same host
  rw [← ending_through Host.view, same] at pending
  obtain ⟨last, bookLast, rootsLast, ran, soundLast, settled⟩ :=
    carry_covered faithful sound bounded covers pending
  rw [ran] at same
  obtain ⟨after, ranHere, rfl⟩ := through_eq_ok same
  refine ⟨after, ranHere, fun address => ⟨(bookLast.holding address).balance, ?_, ?_⟩⟩
  · rw [← Ledger.sight_view after.ledger]
    exact congrFun (congrArg Sight.balance (soundLast.sight faithful)) address
  · exact congrFun settled address

/-- What code is shown at a point of the run of a transaction that its address did not send. -/
theorem Reaches.shown_left (faithful : Faithful data)
    (sound : Ledger.Sound data host.view.ledger book roots)
    (within : ∀ code ∈ transaction.action.code, code ∈ data)
    (pending : (ending (unsettled engine transaction block host)).view.pending ⊆ data)
    (reaches : Reaches engine transaction block host frame world)
    (other : frame.address ≠ transaction.sender) :
    let received := (transaction.opening book).balances frame.address +
      inflow (transaction.payment :: world.transfers) frame.address
    ∃ left shown, left + outflow (transaction.payment :: world.transfers) frame.address = received ∧
      Service.Shows frame world shown ∧ shown.toNat ≤ left ∧
      (shown.toNat = left ↔ received < UInt64.size ∨ left = 0) := by
  intro received
  obtain ⟨before, solvent⟩ := reaches.solvent_view faithful sound within pending
  obtain ⟨here, rootsHere, soundHere, alike⟩ := solvent.sound before
  have read := Service.balanceOf_apply faithful soundHere frame.incoming frame.address
  rw [alike.balance, solvent.expects] at read
  have same := (Service.agree_balanceOf frame.incoming frame.address).same world
  rw [solvent.expects, read] at same
  obtain ⟨_, readHere, _⟩ := through_eq_ok same
  have exact := (solvent.backs before).covers.settle_apply frame.address
  obtain ⟨most, least⟩ := Incoming.toNat_shown_left rfl exact
  rw [Balances.credit_inflow] at exact least
  -- The payment leaves another address, so it takes nothing of what is left here.
  have apart : transaction.payment.sender ≠ frame.address := Ne.symm other
  refine ⟨_, _, ?_, ?_, most, least⟩
  · rw [outflow_cons, if_neg apart, Nat.zero_add]
    exact exact
  · rw [Service.Shows, solvent.expects, readHere]
    rfl

end Settlement

namespace Site

open Settlement

variable {σ : Type} [ByteStore σ] [ReliableStore σ] {data : Set Bytes} {site : Site σ} {index : Nat}

/-- At every point of the run of a call, a contract other than its sender is shown at most what it
would have if the value and the transfers so far were carried out on the balances there are; and just
that, unless what it received comes to more than a word while something is left of it. A request is
refused for want of balance only if it would move more than is shown. -/
theorem Reached.balance_shown (faithful : Faithful data) (reached : Reached data site)
    (engine : Engine) (transaction : Transaction) (block : Block) (host : Host σ)
    (hosts : site.Hosts index host) {method : String} (calls : transaction.action = .call method)
    {balances : Address → Amount}
    (seen : ∀ address, host.ledger.sight.balance address = .ok (balances address))
    (bounded : ∑ address, (balances address).toNat < UInt64.size)
    (pending : (ending (unsettled engine transaction block host)).view.pending ⊆ data)
    {frame : Frame} {world : World σ} (reaches : Reaches engine transaction block host frame world)
    (other : frame.address ≠ transaction.sender) :
    let payments := transaction.payment :: world.transfers
    let received := (balances frame.address).toNat + inflow payments frame.address
    ∃ left shown, left + outflow payments frame.address = received ∧
      Service.Shows frame world shown ∧ shown.toNat ≤ left ∧
      (shown.toNat = left ↔ received < UInt64.size ∨ left = 0) ∧
      (Balances.Covers (fun address => (balances address).toNat) payments →
        (ending (applyTransfers transaction world.transfers host)).view.pending ⊆ data →
        ∃ after settled, applyTransfers transaction world.transfers host = .ok () after ∧
          after.ledger.sight.balance frame.address = .ok settled ∧ settled.toNat = left) ∧
      (∀ amount, answer (Service.ensureBalance frame amount world) =
        if shown < amount then .error (.insufficientBalance amount shown) else .ok ()) ∧
      ∀ levels request required available,
        answer (engine.serve levels frame request world) =
          .error (.insufficientBalance required available) →
        required = request.moves ∧ available = shown ∧ shown < required := by
  intro payments received
  obtain ⟨book, roots, sound, here⟩ := reached.book_seen faithful hosts seen
  have opening := Transaction.opening_of_call calls book
  have within : ∀ code ∈ transaction.action.code, code ∈ data := by
    rw [Transaction.code_of_call calls]
    nofun
  obtain ⟨left, shown, exact, shows, most, least⟩ :=
    reaches.shown_left faithful sound within pending other
  rw [opening, here] at exact least
  refine ⟨left, shown, exact, shows, most, least, fun covers carried => ?_,
    shows.answer_ensureBalance, fun levels request required available refused => ?_⟩
  · rw [← here] at covers
    obtain ⟨after, ran, settles⟩ := applyTransfers_left faithful sound
      (by rwa [Balances.Bounded, here]) covers carried
    obtain ⟨settled, seenAfter, same⟩ := settles frame.address
    have whole := covers.settle_apply frame.address
    rw [← same, here] at whole
    exact ⟨after, settled, ran, seenAfter, Nat.add_right_cancel (whole.trans exact.symm)⟩
  · obtain ⟨same, short, showsHere⟩ := Engine.serve_short refused
    obtain rfl : available = shown := Except.ok.inj (showsHere.symm.trans shows)
    exact ⟨same, rfl, short⟩

/-- What is pending after the value of a transaction and the transfers of a world are carried out. -/
def carriedRecords (commands : List Command) (transaction : Transaction) (world : World Memory) :
    List Bytes :=
  let last := ending (applyTransfers transaction world.transfers (endowed commands))
  last.ledger.ledger.pendingList

/-- A point of the call, after a call that was undone and a transfer. -/
def shared : World Memory := worldAt purses sharing ⟨1, .ofNat 9⟩ (endowed funding) 4

set_option maxRecDepth 100000 in
theorem balance_shown_sharing :
    ∃ frame after, Reaches purses sharing ⟨1, .ofNat 9⟩ (endowed funding) frame shared ∧
      frame.address = .ofNat 1 ∧ shared.transfers = [⟨.ofNat 1, payer, 30⟩] ∧
      Service.Shows frame shared 50 ∧
      applyTransfers sharing shared.transfers (endowed funding) = .ok () after ∧
      after.ledger.sight.balance (.ofNat 1) = .ok 50 := by
  obtain ⟨distinct, _⟩ := sharing_runs
  obtain ⟨faithful, reached, seen, pending⟩ := endowed_known distinct
  obtain ⟨prepared, transfers, carried⟩ :
      (answer (prepare purses sharing (contextOf sharing ⟨1, .ofNat 9⟩) (endowed funding))).map
        (fun _ => ()) = .ok () ∧
      shared.transfers = [⟨.ofNat 1, payer, 30⟩] ∧
      ∀ record ∈ carriedRecords funding sharing shared,
        record ∈ settledRecords funding purses sharing ⟨1, .ofNat 9⟩ := by decide +kernel
  let frame := Frame.outermost (contextOf sharing ⟨1, .ofNat 9⟩)
  have reaches : Reaches purses sharing ⟨1, .ofNat 9⟩ (endowed funding) frame shared :=
    reaches_worldAt prepared 4
  obtain ⟨left, shown, exact, shows, _, least, carries, _⟩ := reached.balance_shown faithful purses
    sharing ⟨1, .ofNat 9⟩ (endowed funding) (hosts_endowed _) rfl seen
    ((Command.sum_book_le funding).trans_lt (by decide)) pending reaches (by decide)
  rw [transfers] at exact least
  have sends : TransferList.outflow [sharing.payment, ⟨.ofNat 1, payer, 30⟩] frame.address = 30 := by
    decide
  have receives : ((Command.book funding).holding frame.address).balance.toNat +
      TransferList.inflow [sharing.payment, ⟨.ofNat 1, payer, 30⟩] frame.address = 80 := by decide
  rw [sends, receives] at exact
  rw [receives] at least
  obtain rfl : left = 50 := by omega
  have fifty : shown = 50 := UInt64.toNat_inj.mp (least.mpr (.inl (by decide)))
  have covers : Balances.Covers (fun address => ((Command.book funding).holding address).balance.toNat)
      [sharing.payment, ⟨.ofNat 1, payer, 30⟩] := ⟨by decide, by decide, trivial⟩
  obtain ⟨after, settled, ran, seenAfter, same⟩ := carries (by rwa [transfers])
    fun bytes member => carried bytes (Host.mem_pendingList.mpr member)
  obtain rfl : settled = 50 := UInt64.toNat_inj.mp same
  exact ⟨frame, after, reaches, rfl, transfers, fifty ▸ shows, ran, seenAfter⟩

/-- Half of what does not fit a word. -/
def halfWord : Amount := 0x8000000000000000

/-- A contract that sends itself all that it has, tells what it is shown then, and tries once more. -/
def circulator : ContractType :=
  ContractType.start "Circulator" "circulator" (return [])
    |>.withMethod "circulate" [] (fun _ _ => do
      let self ← Program.request .self
      Code.transfer self halfWord
      let balance ← Program.request .balance
      let _ ← (Code.transfer self halfWord).attempt
      return some (.u64 balance))

def circulators : Engine := ⟨fun _ => .ok [circulator], .none, .standard⟩

def circulation : List Command := [.setCode (.ofNat 1) [5], .setBalance (.ofNat 1) halfWord]

/-- A call of the contract by an address without code or funds. -/
def circulating : Transaction := ⟨.ofNat 3, .ofNat 1, 0, 1000, .call "circulate", []⟩

/-- The point of the call after the first transfer. -/
def circulated : World Memory := worldAt circulators circulating ⟨1, .ofNat 9⟩ (endowed circulation) 2

set_option maxRecDepth 100000 in
/-- A contract that has sent itself all that it has is shown one less, and is refused the same again. -/
theorem circulating_shown_less :
    (∀ address, (endowed circulation).ledger.sight.balance address =
      .ok ((Command.book circulation).holding address).balance) ∧
    ∑ address, (Command.book circulation).balances address < UInt64.size ∧
    ∃ frame after, Reaches circulators circulating ⟨1, .ofNat 9⟩ (endowed circulation) frame circulated ∧
      frame.address ≠ circulating.sender ∧
      Service.Shows frame circulated (halfWord - 1) ∧
      answer (Service.ensureBalance frame halfWord circulated) =
        .error (.insufficientBalance halfWord (halfWord - 1)) ∧
      applyTransfers circulating circulated.transfers (endowed circulation) = .ok () after ∧
      after.ledger.sight.balance frame.address = .ok halfWord := by
  let frame := Frame.outermost (contextOf circulating ⟨1, .ofNat 9⟩)
  have distinct : Distinct circulation
      (settledRecords circulation circulators circulating ⟨1, .ofNat 9⟩) := by decide +kernel
  obtain ⟨_, _, seen, _⟩ := endowed_known distinct
  obtain ⟨prepared, reads, carried, holds⟩ :
      (answer (prepare circulators circulating (contextOf circulating ⟨1, .ofNat 9⟩)
        (endowed circulation))).map (fun _ => ()) = .ok () ∧
      (answer (Service.balanceOf frame.incoming frame.address circulated)).toOption =
        some (halfWord - 1) ∧
      (answer (applyTransfers circulating circulated.transfers (endowed circulation))).map
        (fun _ => ()) = .ok () ∧
      (ending (applyTransfers circulating circulated.transfers
        (endowed circulation))).ledger.sight.balance frame.address = .ok halfWord := by decide +kernel
  have shows : Service.Shows frame circulated (halfWord - 1) := answer_of_toOption reads
  obtain ⟨_, after, ran, _⟩ := ok_of_answer_map carried
  rw [ran] at holds
  refine ⟨seen, (Command.sum_book_le circulation).trans_lt (by decide), frame, after,
    reaches_worldAt prepared 2, by decide, shows, ?_, ran, holds⟩
  rw [shows.answer_ensureBalance, if_pos (by decide)]

end Site

end ContractLedger
