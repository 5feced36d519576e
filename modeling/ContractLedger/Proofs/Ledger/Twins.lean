import ContractLedger.Proofs.Ledger.Batch
import ContractLedger.Proofs.Ledger.Opening
import Mathlib.Data.Finset.Piecewise

/-!
Twin ledgers. Two books that may differ from each other have the same laid over both at some addresses. A
step that reads and writes at those addresses only gives both of its ledgers the same answer, and leaves
both with the same laid over their books.
-/

namespace ContractLedger

section Results

variable {ε τ α β : Type} {data : Set Bytes} {pending : τ → Set Bytes} {rel : τ → τ → Prop}

/-- Results that are the same and leave related states, provided that what is pending in these is among
the data. -/
def Twinned (data : Set Bytes) (pending : τ → Set Bytes) (rel : τ → τ → Prop)
    (first second : EStateM.Result ε τ α) : Prop :=
  pending (ending first) ⊆ data → pending (ending second) ⊆ data →
    answer first = answer second ∧ rel (ending first) (ending second)

namespace Twinned

variable {first second : EStateM.Result ε τ α}

/-- Results that are the same succeed together or fail together. -/
theorem together (twinned : Twinned data pending rel first second)
    (pendingFirst : pending (ending first) ⊆ data) (pendingSecond : pending (ending second) ⊆ data) :
    (∃ value after twin, first = .ok value after ∧ second = .ok value twin ∧ rel after twin) ∨
      ∃ error after twin, first = .error error after ∧ second = .error error twin ∧ rel after twin := by
  obtain ⟨same, related⟩ := twinned pendingFirst pendingSecond
  cases first with
  | ok value after =>
    cases second with
    | ok other twin =>
      cases same
      exact .inl ⟨value, after, twin, rfl, rfl, related⟩
    | error error twin => cases same
  | error error after =>
    cases second with
    | ok other twin => cases same
    | error other twin =>
      cases same
      exact .inr ⟨error, after, twin, rfl, rfl, related⟩

/-- A sequence of which the second part keeps what the first leaves pending. -/
theorem bind {step : EStateM ε τ α} {next : α → EStateM ε τ β} {state twin : τ}
    (twinned : Twinned data pending rel (step state) (step twin))
    (grows : ∀ value state, pending state ⊆ pending (ending (next value state)))
    (rest : ∀ value after last, step state = .ok value after → rel after last →
      Twinned data pending rel (next value after) (next value last)) :
    Twinned data pending rel ((step >>= next) state) ((step >>= next) twin) := by
  have kept (start : τ) : pending (ending (step start)) ⊆ pending (ending ((step >>= next) start)) := by
    rw [Step.bind_apply]
    cases step start with
    | ok value after => exact grows value after
    | error error after => exact Set.Subset.refl _
  intro pendingState pendingTwin
  rcases twinned.together ((kept state).trans pendingState) ((kept twin).trans pendingTwin) with
    ⟨value, after, last, ran, ranTwin, related⟩ | ⟨error, after, last, ran, ranTwin, related⟩
  · rw [Step.bind_ok ran] at pendingState ⊢
    rw [Step.bind_ok ranTwin] at pendingTwin ⊢
    exact rest value after last ran related pendingState pendingTwin
  · rw [Step.bind_error ran, Step.bind_error ranTwin]
    exact ⟨rfl, related⟩

end Twinned

end Results

namespace Book

variable {places : Finset Address} {address : Address} {laid base : Book}

theorem holding_piecewise (member : address ∈ places) :
    Book.holding (places.piecewise laid base) address = laid.holding address := by
  rw [holding, Finset.piecewise_eq_of_mem _ _ _ member, holding]

theorem set_piecewise (member : address ∈ places) (holding : Holding) :
    Book.set (places.piecewise laid base) address holding =
      places.piecewise (laid.set address holding) base :=
  Finset.update_piecewise_of_mem _ _ _ member _

/-- Laying books over one at places that are apart can be done in either order. -/
theorem piecewise_comm {others : Finset Address} (apart : ∀ address ∈ places, address ∉ others)
    (laid more base : Book) :
    places.piecewise laid (others.piecewise more base) =
      others.piecewise more (places.piecewise laid base) := by
  funext address
  by_cases member : address ∈ places
  · rw [Finset.piecewise_eq_of_mem _ _ _ member, Finset.piecewise_eq_of_notMem _ _ _ (apart _ member),
      Finset.piecewise_eq_of_mem _ _ _ member]
  · by_cases memberOther : address ∈ others
    · rw [Finset.piecewise_eq_of_notMem _ _ _ member, Finset.piecewise_eq_of_mem _ _ _ memberOther,
        Finset.piecewise_eq_of_mem _ _ _ memberOther]
    · rw [Finset.piecewise_eq_of_notMem _ _ _ member, Finset.piecewise_eq_of_notMem _ _ _ memberOther,
        Finset.piecewise_eq_of_notMem _ _ _ memberOther, Finset.piecewise_eq_of_notMem _ _ _ member]

end Book

namespace Ledger

/-- Ledgers that hold two books with the same laid over both at some places. -/
def Twins (data : Set Bytes) (places : Finset Address) (base other : Book)
    (first second : Mounted Content) : Prop :=
  ∃ laid roots rootsOther, Sound data first (places.piecewise laid base) roots ∧
    Sound data second (places.piecewise laid other) rootsOther

namespace Twins

variable {data : Set Bytes} {places : Finset Address} {base other : Book}
  {first second : Mounted Content} {address : Address}

/-- Books that agree at some places have the same laid over both there. -/
theorem of_agree {roots rootsOther : Address → Hash} (sound : Sound data first base roots)
    (soundOther : Sound data second other rootsOther)
    (agree : ∀ address ∈ places, base address = other address) :
    Twins data places base other first second := by
  have same : places.piecewise base other = other :=
    (Finset.piecewise_congr _ agree fun _ _ => rfl).trans (Finset.piecewise_same _ _)
  refine ⟨base, roots, rootsOther, ?_, ?_⟩
  · rwa [Finset.piecewise_same]
  · rwa [same]

theorem tell (twins : Twins data places base other first second) (journal journalOther : Journal) :
    Twins data places base other { first with journal } { second with journal := journalOther } := by
  obtain ⟨laid, roots, rootsOther, sound, soundOther⟩ := twins
  exact ⟨laid, roots, rootsOther, sound.grow sound.orderly.store (.refl _) journal,
    soundOther.grow soundOther.orderly.store (.refl _) journalOther⟩

/-- A step whose answer, and what it writes, are told by what is laid over a book. -/
theorem step {α : Type} {action : LedgerM Content α} (value : Book → α) (after : Book → Book)
    (succeeds : ∀ mounted book roots, Sound data mounted book roots →
      Succeeds data mounted action (value book) (after book))
    (reads : ∀ laid base : Book, value (places.piecewise laid base) = value laid)
    (writes : ∀ laid base : Book,
      after (places.piecewise laid base) = places.piecewise (after laid) base)
    (twins : Twins data places base other first second) :
    Twinned data Mounted.pending (Twins data places base other) (action first) (action second) := by
  intro pending pendingOther
  obtain ⟨laid, _, _, sound, soundOther⟩ := twins
  obtain ⟨last, roots, ran, _, soundLast⟩ := succeeds _ _ _ sound pending
  obtain ⟨lastOther, rootsOther, ranOther, _, soundLastOther⟩ :=
    succeeds _ _ _ soundOther pendingOther
  rw [reads] at ran ranOther
  rw [writes] at soundLast soundLastOther
  rw [ran, ranOther]
  exact ⟨rfl, after laid, roots, rootsOther, soundLast, soundLastOther⟩

variable (faithful : Faithful data) (twins : Twins data places base other first second)
  (member : address ∈ places)
include faithful twins member

theorem getBalance :
    Twinned data Mounted.pending (Twins data places base other) (getBalance address first)
      (getBalance address second) :=
  step (fun book => (book.holding address).balance) id
    (fun _ _ _ sound => getBalance_succeeds faithful sound address)
    (fun _ _ => by rw [Book.holding_piecewise member]) (fun _ _ => rfl) twins

theorem getCode :
    Twinned data Mounted.pending (Twins data places base other) (getCode address first)
      (getCode address second) :=
  step (fun book => (book.holding address).code) id
    (fun _ _ _ sound => getCode_succeeds faithful sound address)
    (fun _ _ => by rw [Book.holding_piecewise member]) (fun _ _ => rfl) twins

theorem getObject (key : Bytes) :
    Twinned data Mounted.pending (Twins data places base other) (getObject address key first)
      (getObject address key second) :=
  step (fun book => (book.holding address).storage key) id
    (fun _ _ _ sound => getObject_succeeds faithful sound address key)
    (fun _ _ => by rw [Book.holding_piecewise member]) (fun _ _ => rfl) twins

theorem setObject (key value : Bytes) :
    Twinned data Mounted.pending (Twins data places base other) (setObject address key value first)
      (setObject address key value second) :=
  step (fun _ => ())
    (fun book => book.set address { book.holding address with
      storage := Tree.written (book.holding address).storage key value })
    (fun _ _ _ sound => setObject_sound faithful sound address key value) (fun _ _ => rfl)
    (fun _ _ => by rw [Book.holding_piecewise member, Book.set_piecewise member]) twins

theorem setBalance (balance : Amount) :
    Twinned data Mounted.pending (Twins data places base other) (setBalance address balance first)
      (setBalance address balance second) :=
  step (fun _ => ()) (fun book => book.set address { book.holding address with balance })
    (fun _ _ _ sound => setBalance_sound faithful sound address balance) (fun _ _ => rfl)
    (fun _ _ => by rw [Book.holding_piecewise member, Book.set_piecewise member]) twins

end Twins

end Ledger

end ContractLedger
