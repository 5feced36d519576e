import ContractLedger.Proofs.Engine.Along
import ContractLedger.Proofs.Engine.Balances
import ContractLedger.Proofs.Engine.View
import ContractLedger.Proofs.Ledger.Sight

/-!
Invocations on a sound ledger. Whatever code asks for, the ledger goes on with its batch: it stays
sound, loses nothing that is pending and leaves the store alone. Undoing returns it to the book that
it had.
-/

namespace ContractLedger

namespace Ledger

variable {data : Set Bytes}

/-- A ledger later in the same batch: nothing pending is lost, and it is sound if it was, provided
that what is pending is among the data. -/
structure Onward (data : Set Bytes) (before after : Mounted Content) : Prop where
  grows : before.pending ⊆ after.pending
  sound : ∀ book roots, Sound data before book roots → after.pending ⊆ data →
    Leads before after ∧ ∃ bookAfter rootsAfter, Sound data after bookAfter rootsAfter

instance : IsPreorder (Mounted Content) (Onward data) where
  refl mounted := ⟨Set.Subset.refl _, fun book roots sound _ => ⟨.refl mounted, book, roots, sound⟩⟩
  trans first second third before after := by
    refine ⟨before.grows.trans after.grows, fun book roots sound pending => ?_⟩
    obtain ⟨leads, _, _, soundSecond⟩ := before.sound book roots sound (after.grows.trans pending)
    obtain ⟨leadsAfter, whole⟩ := after.sound _ _ soundSecond pending
    exact ⟨leads.trans leadsAfter, whole⟩

/-- A step that succeeds on sound ledgers goes on with the batch. -/
theorem along_onward {α : Type} {step : LedgerM Content α}
    (agree : Agree Mounted.view Mounted.pending step step)
    (succeeds : ∀ mounted book roots, Sound data mounted book roots →
      ∃ value bookAfter, Succeeds data mounted step value bookAfter) :
    Along (Onward data) step := by
  refine fun mounted => ⟨agree.grows mounted, fun book roots sound pending => ?_⟩
  obtain ⟨value, bookAfter, success⟩ := succeeds mounted book roots sound
  obtain ⟨after, rootsAfter, ran, leads, soundAfter⟩ := success pending
  rw [ran]
  exact ⟨leads, bookAfter, rootsAfter, soundAfter⟩

variable (faithful : Faithful data)
include faithful

theorem along_getBalance (address : Address) :
    Along (Onward data) (getBalance address : LedgerM Content _) :=
  along_onward (agree_getBalance address) fun _ _ _ sound =>
    ⟨_, _, getBalance_succeeds faithful sound address⟩

theorem along_getCode (address : Address) :
    Along (Onward data) (getCode address : LedgerM Content _) :=
  along_onward (agree_getCode address) fun _ _ _ sound =>
    ⟨_, _, getCode_succeeds faithful sound address⟩

theorem along_getObject (address : Address) (key : Bytes) :
    Along (Onward data) (getObject address key : LedgerM Content _) :=
  along_onward (agree_getObject address key) fun _ _ _ sound =>
    ⟨_, _, getObject_succeeds faithful sound address key⟩

theorem along_setObject (address : Address) (key value : Bytes) :
    Along (Onward data) (setObject address key value : LedgerM Content _) :=
  along_onward (agree_setObject address key value) fun _ _ _ sound =>
    ⟨_, _, setObject_sound faithful sound address key value⟩

theorem along_setBalance (address : Address) (balance : Amount) :
    Along (Onward data) (setBalance address balance : LedgerM Content _) :=
  along_onward (agree_setBalance address balance) fun _ _ _ sound =>
    ⟨_, _, setBalance_sound faithful sound address balance⟩

theorem along_createAccount (address : Address) :
    Along (Onward data) (createAccount address : LedgerM Content _) :=
  along_onward (agree_createAccount address) fun _ _ _ sound =>
    ⟨_, _, createAccount_sound faithful sound address⟩

theorem along_setCode (address : Address) {code : Bytes} (member : code ∈ data) :
    Along (Onward data) (setCode address code : LedgerM Content _) :=
  along_onward (agree_setCode address code) fun _ _ _ sound =>
    ⟨_, _, setCode_sound faithful sound address member⟩

end Ledger

variable {data : Set Bytes}

/-- A host whose ledger is later in the same batch. -/
def Host.Onward (data : Set Bytes) (before after : Host Content) : Prop :=
  Ledger.Onward data before.ledger after.ledger

instance : IsPreorder (Host Content) (Host.Onward data) where
  refl host := refl_of (Ledger.Onward data) host.ledger
  trans _ _ _ first second := trans_of (Ledger.Onward data) first second

/-- A world whose ledger is later in the same batch. -/
def World.Onward (data : Set Bytes) (before after : World Content) : Prop :=
  Host.Onward data before.host after.host

instance : IsPreorder (World Content) (World.Onward data) where
  refl world := refl_of (Host.Onward data) world.host
  trans _ _ _ first second := trans_of (Host.Onward data) first second

theorem Host.along_run {α ε : Type} {step : LedgerM Content α} (wrap : LedgerError → ε)
    (along : Along (Ledger.Onward data) step) : Along (Host.Onward data) (Host.run step wrap) := by
  intro host
  rw [Host.ending_run]
  exact along host.ledger

theorem Service.along_onLedger {α : Type} {step : LedgerM Content α}
    (along : Along (Ledger.Onward data) step) : Along (World.Onward data) (onLedger step) := by
  intro world
  rw [Service.ending_onLedger]
  exact Host.along_run ContractError.state along world.host

/-! What the services answer on a sound ledger. -/

section Answers

variable {world : World Content} {book : Book} {roots : Address → Hash}

theorem Service.onLedger_ok {α : Type} {step : LedgerM Content α} {value : α}
    (ran : step world.host.ledger = .ok value world.host.ledger) :
    onLedger step world = .ok value world := by
  rw [onLedger, Host.run, ran]

theorem Service.balanceOf_apply (faithful : Faithful data)
    (sound : Ledger.Sound data world.host.ledger book roots) (incoming : Incoming)
    (address : Address) :
    balanceOf incoming address world =
      .ok (incoming.shown (book.holding address).balance world.transfers address) world := by
  have read := onLedger_ok (Ledger.getBalance_apply faithful sound.orderly sound.lists address)
  rw [balanceOf, Step.bind_ok read, Step.bind_ok (Step.get_apply world)]
  rfl

theorem Service.ensureBalance_apply (faithful : Faithful data)
    (sound : Ledger.Sound data world.host.ledger book roots) (frame : Frame) (required : Amount) :
    let available := frame.incoming.shown (book.holding frame.address).balance world.transfers
      frame.address
    ensureBalance frame required world =
      if available < required then .error (.insufficientBalance required available) world
      else .ok () world := by
  intro available
  rw [ensureBalance, Step.bind_ok (balanceOf_apply faithful sound frame.incoming frame.address)]
  split <;> rfl

theorem Service.getCode_apply (faithful : Faithful data)
    (sound : Ledger.Sound data world.host.ledger book roots) (address : Address) :
    onLedger (Ledger.getCode address) world = .ok (book.holding address).code world :=
  onLedger_ok (Ledger.getCode_apply faithful sound.orderly sound.lists address)

/-- What precedes a call of a sound ledger is paid for, and changes nothing else. -/
theorem Engine.approach_apply (faithful : Faithful data)
    (sound : Ledger.Sound data world.host.ledger book roots) (engine : Engine) (frame : Frame)
    (request : CallRequest) :
    ending (engine.approach frame request world) =
      ending (Service.spend engine.limits.schedule.call world) := by
  have paying := Service.ending_spend engine.limits.schedule.call world
  simp only [approach, Step.bind_apply]
  cases spent : Service.spend engine.limits.schedule.call world with
  | error error paid => rfl
  | ok value paid =>
    rw [spent, ending] at paying
    have soundPaid : Ledger.Sound data paid.host.ledger book roots := by
      rw [paying]
      exact sound
    simp only [Service.ensureBalance_apply faithful soundPaid]
    by_cases short : frame.incoming.shown (book.holding frame.address).balance paid.transfers
        frame.address < request.amount
    · simp only [if_pos short]
      rfl
    · simp only [if_neg short, Service.getCode_apply faithful soundPaid]
      rfl

end Answers

/-- Undoing leads back to the book of the world that it is given the root of. -/
theorem Engine.undo_sound (faithful : Faithful data) {before after : World Content} {book : Book}
    {roots : Address → Hash} (sound : Ledger.Sound data before.host.ledger book roots)
    (onward : World.Onward data before after) (mark : Nat)
    (pending : after.pending ⊆ data) :
    ∃ last rootsAfter, undo before.host.ledger.ledger.root mark after = .ok () last ∧
      Ledger.Leads before.host.ledger last.host.ledger ∧
      Ledger.Sound data last.host.ledger book rootsAfter ∧
      last.transfers = after.transfers.take mark := by
  obtain ⟨leads, _, _, soundAfter⟩ := onward.sound book roots sound pending
  have shows : after.host.ledger.shelves.Shows before.host.ledger.ledger.root book :=
    ⟨roots, sound.lists.mono leads.within⟩
  obtain ⟨last, rootsAfter, ran, leadsLast, soundLast⟩ :=
    Ledger.revertTo_sound faithful soundAfter shows
  have reverted : Service.onLedger (Ledger.revertTo before.host.ledger.ledger.root) after =
      .ok () { after with host.ledger := last } := by
    rw [Service.onLedger, Host.run, ran]
  exact ⟨_, rootsAfter, Step.bind_ok reverted _, leads.trans leadsLast, soundLast, rfl⟩

theorem respected_onward (faithful : Faithful data) : Respected (World.Onward data) := by
  refine ⟨fun amount world => ?_,
    fun _ _ => Service.along_onLedger (Ledger.along_getObject faithful _ _),
    fun _ _ _ => Service.along_onLedger (Ledger.along_setObject faithful _ _ _),
    fun _ => Service.along_onLedger (Ledger.along_getBalance faithful _),
    fun _ => Service.along_onLedger (Ledger.along_getCode faithful _),
    fun _ _ _ world => refl_of (World.Onward data) world,
    fun _ _ world => refl_of (World.Onward data) world, fun before after onward => ⟨?_, ?_⟩⟩
  · rw [Service.ending_spend]
    exact refl_of (Host.Onward data) world.host
  · exact onward.grows.trans ((Engine.agree_undo _ _).grows after)
  · intro book roots sound pending
    have grows : after.pending ⊆ data := ((Engine.agree_undo _ _).grows after).trans pending
    obtain ⟨last, rootsAfter, ran, leads, soundLast, _⟩ :=
      Engine.undo_sound faithful sound onward before.transfers.length grows
    rw [ran]
    exact ⟨leads, book, rootsAfter, soundLast⟩

namespace Site

variable {σ : Type} [ByteStore σ] [ReliableStore σ] {site : Site σ} {index : Nat}

/-- A host on which a session of a site runs. -/
structure Hosts (site : Site σ) (index : Nat) (host : Host σ) : Prop where
  ledger : host.ledger.ledger = (site.sessions index).ledger
  store : host.ledger.store = site.store

/-- The ledger of a session that is reached is sound, wherever the session runs. -/
theorem Reached.host_sound (faithful : Faithful data) (reached : Reached data site)
    {host : Host σ} (hosts : site.Hosts index host) :
    ∃ book roots, Ledger.Sound data host.view.ledger book roots := by
  obtain ⟨book, roots, sound⟩ := reached.mounted_sound faithful index
  obtain ⟨⟨ledger, store, journal⟩, observations⟩ := host
  obtain ⟨rfl, rfl⟩ := hosts
  exact ⟨book, roots, sound.grow sound.orderly.store (.refl _) journal⟩

end Site

end ContractLedger
