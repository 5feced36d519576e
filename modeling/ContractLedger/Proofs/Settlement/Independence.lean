import ContractLedger.Proofs.Settlement.Twins

/-!
Independent transactions. Two calls that touch no address in common, each on its own copy of what was
committed, come to the same in either order: neither can tell whether the other was executed before it, and
the ledger has the same root after both.
-/

namespace ContractLedger

/-- A transaction with the block that it is executed in. -/
structure Submission where
  transaction : Transaction
  block : Block

namespace Submission

variable {σ : Type} [ByteStore σ]

def transact (submission : Submission) (engine : Engine) : SettleM σ ExecutionResult :=
  Settlement.transact engine submission.transaction submission.block

def touched (submission : Submission) (engine : Engine) (host : Host σ) : List Address :=
  Settlement.touched engine submission.transaction submission.block host

def after (submission : Submission) (engine : Engine) (host : Host σ) : Host σ :=
  ending (submission.transact engine host)

/-- What is pending when a submission is settled. -/
def staged (submission : Submission) (engine : Engine) (host : Host σ) : List Bytes :=
  let last := ending (Settlement.unsettled engine submission.transaction submission.block host)
  last.ledger.ledger.pendingList

/-- What is pending when two submissions are settled, one after the other. -/
def stagedBoth (first second : Submission) (engine : Engine) (host : Host σ) : List Bytes :=
  first.staged engine host ++ second.staged engine (first.after engine host)

def Calls (submission : Submission) : Prop :=
  ∃ method, submission.transaction.action = .call method

end Submission

open Settlement

section Pairs

variable {data : Set Bytes} {engine : Engine} {first second : Submission} {host twin : Host Content}
  {book : Book}

/-- What is pending under each of two submissions is among what is pending under both. -/
theorem Submission.staged_within (within : ∀ bytes ∈ first.stagedBoth second engine host, bytes ∈ data) :
    (ending (unsettled engine first.transaction first.block host)).pending ⊆ data ∧
    (ending (unsettled engine second.transaction second.block (first.after engine host))).pending ⊆
      data :=
  ⟨fun bytes member => within bytes (List.mem_append_left _ (Host.mem_pendingList.mpr member)),
    fun bytes member => within bytes (List.mem_append_right _ (Host.mem_pendingList.mpr member))⟩

/-- Two ledgers of one book with nothing uncommitted, on which two submissions are executed in either
order. -/
theorem Submission.commute (faithful : Faithful data) (calls : first.Calls) (callsSecond : second.Calls)
    (rests : Ledger.Rests data host.ledger book) (restsTwin : Ledger.Rests data twin.ledger book)
    (apart : ∀ address ∈ first.touched engine host, address ∉ second.touched engine twin)
    (pending : ∀ bytes ∈ first.stagedBoth second engine host, bytes ∈ data)
    (pendingTwin : ∀ bytes ∈ second.stagedBoth first engine twin, bytes ∈ data) :
    answer (first.transact engine host) = answer (first.transact engine (second.after engine twin)) ∧
    answer (second.transact engine twin) = answer (second.transact engine (first.after engine host)) ∧
    (second.after engine (first.after engine host)).ledger.ledger.root =
      (first.after engine (second.after engine twin)).ledger.ledger.root := by
  obtain ⟨method, calls⟩ := calls
  obtain ⟨methodSecond, callsSecond⟩ := callsSecond
  let places := (first.touched engine host).toFinset
  let others := (second.touched engine twin).toFinset
  have within : ∀ address ∈ first.touched engine host, address ∈ places := fun _ =>
    List.mem_toFinset.mpr
  have withinOther : ∀ address ∈ second.touched engine twin, address ∈ others := fun _ =>
    List.mem_toFinset.mpr
  have disjoint : ∀ address ∈ places, address ∉ others := fun address member memberOther =>
    apart address (List.mem_toFinset.mp member) (List.mem_toFinset.mp memberOther)
  obtain ⟨stagedFirst, stagedThen⟩ := Submission.staged_within pending
  obtain ⟨stagedSecond, stagedLast⟩ := Submission.staged_within pendingTwin
  -- What the second does by itself it lays over the book at its own places.
  obtain ⟨alone, restsAlone, _⟩ := (transact_concur faithful callsSecond restsTwin restsTwin
    (fun _ _ => rfl) withinOther stagedSecond stagedSecond).rests
  have agree : ∀ address ∈ places, book address = others.piecewise alone book address :=
    fun address member => (Finset.piecewise_eq_of_notMem _ _ _ (disjoint address member)).symm
  obtain ⟨same, laid, restsLaid, restsLast⟩ := transact_concur faithful calls rests restsAlone agree within
    stagedFirst stagedLast
  have agreeOther : ∀ address ∈ others, book address = places.piecewise laid book address :=
    fun address member => (Finset.piecewise_eq_of_notMem _ _ _ fun inside =>
      disjoint address inside member).symm
  obtain ⟨sameSecond, again, restsAgain, restsBoth⟩ := transact_concur faithful callsSecond restsTwin
    restsLaid agreeOther withinOther stagedSecond stagedThen
  refine ⟨same, sameSecond, ?_⟩
  -- The second laid the same over the book both times, for a ledger has one book.
  obtain ⟨_, soundAlone⟩ := restsAlone.sound
  have once : others.piecewise alone book = others.piecewise again book :=
    restsAlone.shows.book_unique faithful soundAlone.orderly.store.among restsAgain.shows
      soundAlone.orderly.store.among
  obtain ⟨_, sound⟩ := restsBoth.sound
  obtain ⟨_, soundLast⟩ := restsLast.sound
  rw [once, Book.piecewise_comm disjoint] at soundLast
  exact sound.root_eq soundLast

end Pairs

/-! Submissions over a reliable store. -/

section Views

variable {σ : Type} [ByteStore σ] [ReliableStore σ] (submission : Submission) (engine : Engine)
  (host : Host σ)

theorem Submission.answer_view :
    answer (submission.transact engine host.view) = answer (submission.transact engine host) := by
  have same := (agree_transact engine submission.transaction submission.block).same host
  rw [transact, ← same, answer_through, transact]

theorem Submission.after_view :
    submission.after engine host.view = (submission.after engine host).view := by
  have same := (agree_transact engine submission.transaction submission.block).same host
  rw [after, transact, ← same, ending_through, after, transact]

theorem Submission.staged_view : submission.staged engine host.view = submission.staged engine host := by
  simp only [staged, ← ending_unsettled_view]
  rfl

theorem Submission.stagedBoth_view (second : Submission) :
    submission.stagedBoth second engine host.view = submission.stagedBoth second engine host := by
  rw [stagedBoth, staged_view, after_view, staged_view, stagedBoth]

theorem Submission.touched_view :
    submission.touched engine host.view = submission.touched engine host :=
  (Settlement.touched_view engine submission.transaction submission.block host).symm

end Views

namespace Site

variable {σ : Type} [ByteStore σ] [ReliableStore σ] {data : Set Bytes} {site : Site σ} {index other : Nat}

/-- A session with no uncommitted change is at a book that the store shows. -/
theorem Reached.host_rests (faithful : Faithful data) (reached : Reached data site) {host : Host σ}
    (hosts : site.Hosts index host)
    (settled : host.ledger.ledger.root = host.ledger.ledger.accounts.committedRoot) :
    ∃ book, Ledger.Rests data host.view.ledger book := by
  obtain ⟨book, roots, sound⟩ := reached.host_sound faithful hosts
  obtain ⟨committed, shows⟩ : ∃ book, host.view.ledger.store.shelves.Shows
      host.view.ledger.ledger.accounts.committedRoot book := by
    obtain ⟨⟨ledger, store, journal⟩, observations⟩ := host
    obtain ⟨rfl, rfl⟩ := hosts
    exact (reached.view.sound faithful).committed index
  have here : host.view.ledger.ledger.accounts.committedRoot = host.view.ledger.ledger.root := settled.symm
  have shown : host.view.ledger.shelves.Shows host.view.ledger.ledger.accounts.committedRoot book :=
    here ▸ ⟨roots, sound.lists⟩
  obtain rfl : committed = book :=
    shows.book_unique faithful sound.orderly.store.among shown sound.orderly.among
  exact ⟨committed, ⟨roots, sound⟩, shows⟩

/-- Two calls on sessions of one store that are at the same committed root. If they touch no address in
common, then each has the same result whether it is executed before the other or after it, and both
orders end at the same root. -/
theorem Reached.transact_independent (faithful : Faithful data) (reached : Reached data site)
    (engine : Engine) (first second : Submission) (calls : first.Calls) (callsSecond : second.Calls)
    (host twin : Host σ) (hosts : site.Hosts index host) (hostsTwin : site.Hosts other twin)
    (settled : host.ledger.ledger.root = host.ledger.ledger.accounts.committedRoot)
    (settledTwin : twin.ledger.ledger.root = twin.ledger.ledger.accounts.committedRoot)
    (same : host.ledger.ledger.root = twin.ledger.ledger.root)
    (apart : ∀ address ∈ first.touched engine host, address ∉ second.touched engine twin)
    (pending : ∀ bytes ∈ first.stagedBoth second engine host, bytes ∈ data)
    (pendingTwin : ∀ bytes ∈ second.stagedBoth first engine twin, bytes ∈ data) :
    answer (first.transact engine host) = answer (first.transact engine (second.after engine twin)) ∧
    answer (second.transact engine twin) = answer (second.transact engine (first.after engine host)) ∧
    (second.after engine (first.after engine host)).ledger.ledger.root =
      (first.after engine (second.after engine twin)).ledger.ledger.root := by
  obtain ⟨book, rests⟩ := reached.host_rests faithful hosts settled
  obtain ⟨bookTwin, restsTwin⟩ := reached.host_rests faithful hostsTwin settledTwin
  obtain ⟨_, sound⟩ := rests.sound
  obtain ⟨_, soundTwin⟩ := restsTwin.sound
  -- At one root of one store there is one book.
  obtain rfl : bookTwin = book := by
    have root : twin.view.ledger.ledger.accounts.committedRoot =
        host.view.ledger.ledger.accounts.committedRoot := settledTwin.symm.trans (same.symm.trans settled)
    have shows := restsTwin.shows
    rw [root] at shows
    exact shows.book_unique faithful soundTwin.orderly.store.among rests.shows sound.orderly.store.among
  rw [← Submission.stagedBoth_view] at pending pendingTwin
  rw [← Submission.touched_view first engine host, ← Submission.touched_view second engine twin] at apart
  have commute := Submission.commute faithful calls callsSecond rests restsTwin apart pending pendingTwin
  simp only [Submission.after_view, Submission.answer_view] at commute
  exact commute

omit [ByteStore σ] [ReliableStore σ] in
theorem hosts_mounted (site : Site σ) (index : Nat) : site.Hosts index ⟨site.mounted index, []⟩ :=
  ⟨rfl, rfl⟩

/-- A contract that marks its storage and tells whether it was marked before. -/
def slate : ContractType :=
  ContractType.start "Slate" "slate" (return [])
    |>.withMethod "mark" [] (fun _ _ => do
      let before ← Code.read [1]
      Code.write [1] [7]
      return some (.bool before.isSome))

def slates : Engine := ⟨fun _ => .ok [slate], .none, .standard⟩

def hung : List (Nat × Move) :=
  [(0, .run (.setCode (.ofNat 1) [5])), (0, .run (.setCode (.ofNat (2 ^ 156)) [5])), (0, .commit)]

def slateHost : Host Memory := ⟨(unused.run hung).mounted 0, []⟩

def marking (sender contract : Address) : Submission :=
  ⟨⟨sender, contract, 0, 1000, .call "mark", []⟩, ⟨1, .ofNat 9⟩⟩

set_option maxRecDepth 100000 in
theorem transact_independent_marking :
    let first := marking (.ofNat 3) (.ofNat 1)
    let second := marking (.ofNat 4) (.ofNat (2 ^ 156))
    (answer (second.transact slates (first.after slates slateHost))).map
        (fun result => (result.returned, result.gasConsumed)) = .ok (some (.bool false), 33) ∧
      (second.after slates (first.after slates slateHost)).ledger.ledger.root =
        (first.after slates (second.after slates slateHost)).ledger.ledger.root := by
  intro first second
  let data := unused.seen hung ++
    (first.stagedBoth second slates slateHost ++ second.stagedBoth first slates slateHost)
  have faithful : Faithful { bytes | bytes ∈ data } := .of_nodup (by decide +kernel) (by decide +kernel)
  have reached : Reached { bytes | bytes ∈ data } (unused.run hung) := (reached_unused _).run hung
    ⟨trivial, trivial, trivial, trivial⟩ fun bytes member => List.mem_append_left _ member
  have known : slateHost.ledger.ledger.root = slateHost.ledger.ledger.accounts.committedRoot ∧
      (first.touched slates slateHost).all (· ∉ second.touched slates slateHost) = true ∧
      (answer (second.transact slates slateHost)).map
        (fun result => (result.returned, result.gasConsumed)) = .ok (some (.bool false), 33) := by
    decide +kernel
  obtain ⟨settled, apart, alone⟩ := known
  have commuted := reached.transact_independent faithful slates first second
    ⟨_, rfl⟩ ⟨_, rfl⟩ slateHost slateHost (hosts_mounted _ 0) (hosts_mounted _ 0) settled settled rfl
    (fun address member => of_decide_eq_true (List.all_eq_true.mp apart address member))
    (fun bytes member => List.mem_append_right _ (List.mem_append_left _ member))
    fun bytes member => List.mem_append_right _ (List.mem_append_right _ member)
  obtain ⟨_, same, root⟩ := commuted
  rw [same] at alone
  exact ⟨alone, root⟩

end Site

end ContractLedger
