import ContractLedger.Proofs.Engine.Occurrence
import ContractLedger.Proofs.Engine.Sound

/-!
What a running contract cannot change. It writes storage only, so that every address keeps its
balance and its code, whatever else becomes of the ledger; and what is pending stays pending, even if
the call that made it is undone.
-/

namespace ContractLedger

/-- Books that give every address the same balance and the same code. -/
structure Book.Alike (book other : Book) : Prop where
  balance : ∀ address, (other.holding address).balance = (book.holding address).balance
  code : ∀ address, (other.holding address).code = (book.holding address).code

namespace Book.Alike

theorem refl (book : Book) : book.Alike book :=
  ⟨fun _ => rfl, fun _ => rfl⟩

theorem trans {book other another : Book} (first : book.Alike other) (second : other.Alike another) :
    book.Alike another :=
  ⟨fun address => (second.balance address).trans (first.balance address),
    fun address => (second.code address).trans (first.code address)⟩

theorem set_storage (book : Book) (address : Address) (storage : Bytes → Option Bytes) :
    book.Alike (book.set address { book.holding address with storage }) := by
  constructor
  all_goals
    intro other
    by_cases same : other = address
    · subst other
      rw [holding_set_same]
    · rw [holding_set_other _ _ _ same]

end Book.Alike

variable {data : Set Bytes}

namespace Ledger

/-- A ledger later in the same batch, whose book has the balances and the code that it had. -/
structure Steady (data : Set Bytes) (before after : Mounted Content) : Prop
    extends Onward data before after where
  alike : ∀ book roots, Sound data before book roots → after.pending ⊆ data →
    ∃ bookAfter rootsAfter, Sound data after bookAfter rootsAfter ∧ book.Alike bookAfter

instance : IsPreorder (Mounted Content) (Steady data) where
  refl mounted :=
    ⟨refl_of (Onward data) mounted, fun book roots sound _ => ⟨book, roots, sound, .refl book⟩⟩
  trans _ _ _ before after := by
    refine ⟨trans_of (Onward data) before.toOnward after.toOnward, fun book roots sound pending => ?_⟩
    obtain ⟨_, _, soundMiddle, alike⟩ := before.alike book roots sound (after.grows.trans pending)
    obtain ⟨last, rootsLast, soundLast, alikeLast⟩ := after.alike _ _ soundMiddle pending
    exact ⟨last, rootsLast, soundLast, alike.trans alikeLast⟩

/-- A step that succeeds on sound ledgers without changing a balance or code. -/
theorem along_steady {α : Type} {step : LedgerM Content α}
    (agree : Agree Mounted.view Mounted.pending step step)
    (succeeds : ∀ mounted book roots, Sound data mounted book roots →
      ∃ value bookAfter, Succeeds data mounted step value bookAfter ∧ book.Alike bookAfter) :
    Along (Steady data) step := by
  refine fun mounted => ⟨along_onward agree (fun mounted book roots sound => ?_) mounted,
    fun book roots sound pending => ?_⟩
  · obtain ⟨value, bookAfter, success, _⟩ := succeeds mounted book roots sound
    exact ⟨value, bookAfter, success⟩
  · obtain ⟨value, bookAfter, success, alike⟩ := succeeds mounted book roots sound
    obtain ⟨after, rootsAfter, ran, _, soundAfter⟩ := success pending
    rw [ran]
    exact ⟨bookAfter, rootsAfter, soundAfter, alike⟩

private theorem steady_read {α : Type} {step : LedgerM Content α}
    (agree : Agree Mounted.view Mounted.pending step step)
    (reads : ∀ mounted book roots, Sound data mounted book roots →
      ∃ value, Succeeds data mounted step value book) : Along (Steady data) step :=
  along_steady agree fun mounted book roots sound => by
    obtain ⟨value, success⟩ := reads mounted book roots sound
    exact ⟨value, book, success, .refl book⟩

end Ledger

/-- A host whose ledger kept its balances and its code. -/
def Host.Steady (data : Set Bytes) (before after : Host Content) : Prop :=
  Ledger.Steady data before.ledger after.ledger

instance : IsPreorder (Host Content) (Host.Steady data) where
  refl host := refl_of (Ledger.Steady data) host.ledger
  trans _ _ _ first second := trans_of (Ledger.Steady data) first second

/-- A world whose ledger kept its balances and its code. -/
def World.Steady (data : Set Bytes) (before after : World Content) : Prop :=
  Host.Steady data before.host after.host

instance : IsPreorder (World Content) (World.Steady data) where
  refl world := refl_of (Host.Steady data) world.host
  trans _ _ _ first second := trans_of (Host.Steady data) first second

private theorem steady_onLedger {α : Type} {step : LedgerM Content α}
    (along : Along (Ledger.Steady data) step) :
    Along (World.Steady data) (Service.onLedger step) := by
  intro world
  rw [Service.ending_onLedger, World.Steady, Host.Steady, Host.ending_run]
  exact along world.host.ledger

/-- The services change neither balances nor code. -/
theorem respected_steady (faithful : Faithful data) : Respected (World.Steady data) := by
  refine ⟨fun amount world => ?_, fun address key => ?_, fun address key value => ?_,
    fun address => ?_, fun address => ?_, fun _ _ _ world => refl_of (World.Steady data) world,
    fun _ _ world => refl_of (World.Steady data) world, fun before after steady => ⟨?_, ?_⟩⟩
  · rw [Service.ending_spend]
    exact refl_of (Host.Steady data) world.host
  · exact steady_onLedger (Ledger.steady_read (Ledger.agree_getObject address key)
      fun _ _ _ sound => ⟨_, Ledger.getObject_succeeds faithful sound address key⟩)
  · exact steady_onLedger (Ledger.along_steady (Ledger.agree_setObject address key value)
      fun _ book _ sound => ⟨_, _, Ledger.setObject_sound faithful sound address key value,
        .set_storage book address _⟩)
  · exact steady_onLedger (Ledger.steady_read (Ledger.agree_getBalance address)
      fun _ _ _ sound => ⟨_, Ledger.getBalance_succeeds faithful sound address⟩)
  · exact steady_onLedger (Ledger.steady_read (Ledger.agree_getCode address)
      fun _ _ _ sound => ⟨_, Ledger.getCode_succeeds faithful sound address⟩)
  · exact (respected_onward faithful).undo before after steady.toOnward
  · intro book roots sound pending
    have grows : after.pending ⊆ data := ((Engine.agree_undo _ _).grows after).trans pending
    obtain ⟨last, rootsAfter, ran, _, soundLast, _⟩ :=
      Engine.undo_sound faithful sound steady.toOnward before.transfers.length grows
    rw [ran]
    exact ⟨book, rootsAfter, soundLast, .refl book⟩

/-- A host with everything that is pending in another. -/
def Host.Grows (before after : Host Content) : Prop :=
  before.pending ⊆ after.pending

instance : IsPreorder (Host Content) Host.Grows where
  refl host := Set.Subset.refl host.pending
  trans _ _ _ first second := first.trans second

/-- A world with everything that is pending in another. -/
def World.Grows (before after : World Content) : Prop :=
  before.pending ⊆ after.pending

instance : IsPreorder (World Content) World.Grows where
  refl world := Set.Subset.refl world.pending
  trans _ _ _ first second := first.trans second

theorem respected_grows : Respected World.Grows :=
  ⟨fun amount => (Service.agree_spend amount).grows,
    fun address key => (Service.agree_onLedger (Ledger.agree_getObject address key)).grows,
    fun address key value => (Service.agree_onLedger (Ledger.agree_setObject address key value)).grows,
    fun address => (Service.agree_onLedger (Ledger.agree_getBalance address)).grows,
    fun address => (Service.agree_onLedger (Ledger.agree_getCode address)).grows,
    fun frame recipient value => (Service.agree_record frame recipient value).grows,
    fun frame note => (Service.agree_observe frame note).grows,
    fun _ after grown => grown.trans ((Engine.agree_undo _ _).grows after)⟩

/-- What is pending at the start of a run is pending at every point, and that is pending at the
end. -/
theorem Engine.Occurs.grows {engine : Engine} {levels : Nat} {frame inner : Frame}
    {program : Program ExecutionError (Option Value)} {world last : World Content}
    (occurs : Occurs engine levels frame program world inner last) :
    world.pending ⊆ last.pending ∧
      last.pending ⊆ (ending (program.run (engine.serve levels frame) world)).pending :=
  ⟨occurs.since respected_grows,
    occurs.onward respected_grows fun checkpoint mark => (agree_undo checkpoint mark).grows⟩

end ContractLedger
