import ContractLedger.Proofs.Along
import ContractLedger.Proofs.Engine.Entry

/-!
Invocations along a relation. If a relation between worlds holds across what each service does, and
across undoing what a call did since it was related, then it holds across everything that an
invocation does, at whatever depth. In this way the transfers that were recorded first are kept, and
the meter never goes back.
-/

namespace ContractLedger

variable {σ ε α : Type}

theorem Host.ending_run (step : LedgerM σ α) (wrap : LedgerError → ε) (host : Host σ) :
    ending (Host.run step wrap host) = { host with ledger := ending (step host.ledger) } := by
  rw [Host.run]
  cases step host.ledger <;> rfl

/-- A step on the ledger leaves everything else of a world alone. -/
theorem Service.ending_onLedger (step : LedgerM σ α) (world : World σ) :
    ending (onLedger step world) =
      { world with host := ending (Host.run step ContractError.state world.host) } := by
  rw [onLedger]
  cases Host.run step ContractError.state world.host <;> rfl

theorem Service.ending_spend (amount : Gas) (world : World σ) :
    ending (spend amount world) =
      { world with meter := ending (GasMeter.spend amount world.meter) } := by
  rw [spend]
  cases GasMeter.spend amount world.meter <;> rfl

/-- The transfers of a world in front of those of another. -/
def World.Extends (before after : World σ) : Prop :=
  before.transfers <+: after.transfers

instance : IsPreorder (World σ) World.Extends where
  refl _ := List.prefix_refl _
  trans _ _ _ first second := first.trans second

private theorem World.extends_of_transfers {before after : World σ}
    (same : after.transfers = before.transfers) : before.Extends after :=
  ⟨[], by rw [List.append_nil, same]⟩

/-- A meter later in the same invocation: within its limit, gas is spent but never refunded. -/
structure World.Advances (before after : World σ) : Prop where
  limit : after.meter.limit = before.meter.limit
  consumed : before.meter.consumed ≤ before.meter.limit →
    before.meter.consumed ≤ after.meter.consumed ∧ after.meter.consumed ≤ after.meter.limit

instance : IsPreorder (World σ) World.Advances where
  refl world := ⟨rfl, fun within => ⟨UInt64.le_refl _, within⟩⟩
  trans _ _ _ first second := by
    refine ⟨second.limit.trans first.limit, fun within => ?_⟩
    obtain ⟨spent, withinSecond⟩ := first.consumed within
    obtain ⟨more, withinThird⟩ := second.consumed withinSecond
    exact ⟨UInt64.le_trans spent more, withinThird⟩

private theorem World.advances_of_meter {before after : World σ}
    (same : after.meter = before.meter) : before.Advances after :=
  ⟨congrArg GasMeter.limit same, fun within => by
    rw [same]
    exact ⟨UInt64.le_refl _, within⟩⟩

private theorem advances_onLedger (step : LedgerM σ α) :
    Along World.Advances (Service.onLedger step) := by
  intro world
  rw [Service.ending_onLedger]
  exact World.advances_of_meter rfl

private theorem advances_spend (amount : Gas) :
    Along World.Advances (Service.spend amount : ServiceM σ Unit) := by
  intro world
  rw [Service.ending_spend, GasMeter.spend]
  by_cases short : world.meter.available < amount
  · rw [if_pos short]
    exact ⟨rfl, fun within => ⟨within, UInt64.le_refl _⟩⟩
  · rw [if_neg short]
    refine ⟨rfl, fun within => ?_⟩
    have fits : amount ≤ world.meter.limit - world.meter.consumed := UInt64.not_lt.mp short
    rw [UInt64.le_iff_toNat_le, UInt64.toNat_sub_of_le _ _ within] at fits
    have below := UInt64.le_iff_toNat_le.mp within
    have bound := world.meter.limit.toNat_lt
    have sum : (world.meter.consumed + amount).toNat =
        world.meter.consumed.toNat + amount.toNat := by
      rw [UInt64.toNat_add]
      exact Nat.mod_eq_of_lt (by omega)
    simp only [ending, UInt64.le_iff_toNat_le, sum]
    omega

variable [ByteStore σ]

/-- A relation between worlds that holds across what a frame does to them by itself. -/
structure Serves (rel : World σ → World σ → Prop) (frame : Frame) : Prop where
  spend : ∀ amount, Along rel (Service.spend amount : ServiceM σ Unit)
  read : ∀ key, Along rel (Service.onLedger (Ledger.getObject frame.address key) : ServiceM σ _)
  write : ∀ key value,
    Along rel (Service.onLedger (Ledger.setObject frame.address key value) : ServiceM σ _)
  balance : ∀ address, Along rel (Service.onLedger (Ledger.getBalance address) : ServiceM σ _)
  code : ∀ address, Along rel (Service.onLedger (Ledger.getCode address) : ServiceM σ _)
  record : ∀ recipient value, Along rel (Service.record frame recipient value : ServiceM σ Unit)
  observe : ∀ note, Along rel (Service.observe frame note : ServiceM σ Unit)

namespace Serves

variable {rel : World σ → World σ → Prop} [IsPreorder (World σ) rel] {frame : Frame}

theorem balanceOf (serves : Serves rel frame) (incoming : Incoming) (address : Address) :
    Along rel (Service.balanceOf incoming address : ServiceM σ Amount) :=
  .bind (serves.balance _) fun _ => .reading fun _ => .done _

theorem ensureBalance (serves : Serves rel frame) (required : Amount) :
    Along rel (Service.ensureBalance frame required : ServiceM σ Unit) :=
  .bind (serves.balanceOf _ _) fun _ => .ite (.failed _) (.done _)

/-- The requests of a frame lead along such a relation if its calls do. -/
theorem answer (serves : Serves rel frame) (schedule : Schedule)
    {call : CallRequest → ServiceM σ (Option Value)} {request : Request}
    (calls : ∀ called, request = .call called → Along rel (call called)) :
    Along rel (Service.answer schedule frame call request) := by
  cases request with
  | spend amount => exact serves.spend amount
  | read key =>
    refine .bind (serves.spend _) fun _ => .bind (serves.read _) fun value => ?_
    cases value with
    | none => exact .done _
    | some bytes => exact .bind (serves.spend _) fun _ => .done _
  | write key value => exact .bind (serves.spend _) fun _ => serves.write _ _
  | balance => exact serves.balanceOf _ _
  | transfer recipient amount =>
    exact .bind (serves.spend _) fun _ => .bind (serves.ensureBalance _) fun _ => serves.record _ _
  | call called => exact calls called rfl
  | meter => exact .reading fun _ => .done _
  | note note => exact serves.observe note
  | _ => exact .done _

/-- What a frame does before a call leads along such a relation. -/
theorem approach (serves : Serves rel frame) (engine : Engine) (request : CallRequest) :
    Along rel (engine.approach frame request : ServiceM σ _) :=
  .bind (serves.spend _) fun _ => .bind (serves.ensureBalance _) fun _ => serves.code _

/-- Recording the amount of a call leads along such a relation. -/
theorem sending (serves : Serves rel frame) (request : CallRequest) (world : World σ) :
    rel world (Engine.sending frame request world) := by
  unfold Engine.sending
  split
  · exact serves.record _ _ world
  · exact refl_of rel world

theorem enter (serves : Serves rel frame) (engine : Engine) (request : CallRequest) :
    Along rel (engine.enter frame request : ServiceM σ Engine.Entry) := by
  refine .bind (serves.approach engine request) fun code => ?_
  cases code with
  | none => exact .failed _
  | some code =>
    exact .bind (.reading fun _ => .done _) fun _ => .reading fun _ =>
      .bind (serves.sending request) fun _ => .reading fun _ => .done _

end Serves

/-- A relation between worlds that the services respect. -/
structure Respected (rel : World σ → World σ → Prop) : Prop where
  spend : ∀ amount, Along rel (Service.spend amount : ServiceM σ Unit)
  read : ∀ address key, Along rel (Service.onLedger (Ledger.getObject address key) : ServiceM σ _)
  write : ∀ address key value,
    Along rel (Service.onLedger (Ledger.setObject address key value) : ServiceM σ _)
  balance : ∀ address, Along rel (Service.onLedger (Ledger.getBalance address) : ServiceM σ _)
  code : ∀ address, Along rel (Service.onLedger (Ledger.getCode address) : ServiceM σ _)
  record : ∀ frame recipient value,
    Along rel (Service.record frame recipient value : ServiceM σ Unit)
  observe : ∀ frame note, Along rel (Service.observe frame note : ServiceM σ Unit)
  undo : ∀ before after, rel before after → rel before
    (ending (Engine.undo before.host.ledger.ledger.root before.transfers.length after))

namespace Respected

variable {rel : World σ → World σ → Prop} [IsPreorder (World σ) rel]

omit [IsPreorder (World σ) rel] in
theorem serves (respected : Respected rel) (frame : Frame) : Serves rel frame :=
  ⟨respected.spend, respected.read _, respected.write _, respected.balance, respected.code,
    respected.record frame, respected.observe frame⟩

theorem answer (respected : Respected rel) (schedule : Schedule) (frame : Frame)
    {call : CallRequest → ServiceM σ (Option Value)} (alongCall : ∀ request, Along rel (call request))
    (request : Request) : Along rel (Service.answer schedule frame call request) :=
  (respected.serves frame).answer schedule fun called _ => alongCall called

theorem approach (respected : Respected rel) (engine : Engine) (frame : Frame)
    (request : CallRequest) : Along rel (engine.approach frame request : ServiceM σ _) :=
  (respected.serves frame).approach engine request

theorem sending (respected : Respected rel) (frame : Frame) (request : CallRequest)
    (world : World σ) : rel world (Engine.sending frame request world) :=
  (respected.serves frame).sending request world

theorem enter (respected : Respected rel) (engine : Engine) (frame : Frame) (request : CallRequest) :
    Along rel (engine.enter frame request : ServiceM σ Engine.Entry) :=
  (respected.serves frame).enter engine request

private theorem runEntry_of (respected : Respected rel) {engine : Engine} {levels : Nat}
    (calls : ∀ frame request, Along rel (engine.call levels frame request : ServiceM σ _))
    (request : CallRequest) (entry : Engine.Entry) :
    Along rel (engine.runEntry levels request entry : EStateM _ (World σ) _) :=
  .run (respected.answer _ _ (calls entry.frame)) _

/-- A call leads along a relation that the services respect, and so does all that runs below it. -/
theorem call (respected : Respected rel) (engine : Engine) (levels : Nat) (frame : Frame)
    (request : CallRequest) :
    Along rel (engine.call levels frame request : ServiceM σ (Option Value)) := by
  induction levels generalizing frame request with
  | zero => exact .failed _
  | succ levels ih =>
    intro before
    have approached := respected.approach engine frame request before
    cases entered : engine.enter frame request before with
    | error error after =>
      rw [Engine.call_refused entered, ending, Engine.enter_error entered]
      exact approached
    | ok entry inside =>
      obtain ⟨looked, found, rfl, _, root, mark⟩ := Engine.enter_ok entered
      rw [found] at approached
      have onward := trans_of rel (respected.sending frame request looked)
        (respected.runEntry_of ih request entry _)
      rw [Engine.call_entered entered]
      refine trans_of rel approached ?_
      cases result : engine.runEntry levels request entry (Engine.sending frame request looked) with
      | ok value after =>
        rw [result] at onward
        exact onward
      | error cause after =>
        rw [result] at onward
        rw [Engine.ending_leave_error, root, mark]
        exact respected.undo looked after onward

/-- The run of an entered call leads along a relation that the services respect. -/
theorem runEntry (respected : Respected rel) (engine : Engine) (levels : Nat)
    (request : CallRequest) (entry : Engine.Entry) :
    Along rel (engine.runEntry levels request entry : EStateM _ (World σ) _) :=
  respected.runEntry_of (respected.call engine levels) request entry

theorem serve (respected : Respected rel) (engine : Engine) (levels : Nat) (frame : Frame)
    (request : Request) : Along rel (engine.serve levels frame request : ServiceM σ _) :=
  respected.answer _ _ (respected.call engine levels frame) request

/-- A program leads along a relation that the services respect. -/
theorem run (respected : Respected rel) (engine : Engine) (levels : Nat) (frame : Frame)
    (program : Program ε α) : Along rel (program.run (engine.serve levels frame)) :=
  .run (respected.serve engine levels frame) program

/-- A program in an outermost frame leads along a relation that the services respect. -/
theorem runOutermost (respected : Respected rel) (engine : Engine) (context : Context)
    (program : Program ε α) : Along rel (engine.runOutermost context program) :=
  respected.run engine _ _ program

end Respected

theorem Engine.along_leave {rel : World σ → World σ → Prop} [IsPreorder (World σ) rel]
    (undoes : ∀ checkpoint mark, Along rel (undo checkpoint mark : ServiceM σ Unit)) (target : Address)
    (entry : Entry) (result : EStateM.Result ExecutionError (World σ) (Option Value)) :
    rel (ending result) (ending (leave target entry result)) := by
  cases result with
  | ok value after => exact refl_of rel after
  | error cause after =>
    rw [ending_leave_error]
    exact undoes _ _ after

/-- Undoing cuts the transfers down to those before the mark, or fails and leaves them. -/
theorem Engine.transfers_undo (checkpoint : Hash) (mark : Nat) (world : World σ) :
    (ending (undo checkpoint mark world)).transfers = world.transfers.take mark ∨
      (ending (undo checkpoint mark world)).transfers = world.transfers := by
  have kept := congrArg World.transfers (Service.ending_onLedger (Ledger.revertTo checkpoint) world)
  rw [undo, Step.bind_apply]
  cases ran : Service.onLedger (Ledger.revertTo checkpoint) world with
  | ok value after =>
    rw [ran] at kept
    exact .inl (congrArg (List.take mark) kept)
  | error error after =>
    rw [ran] at kept
    exact .inr kept

/-- The transfers that were recorded first are kept by everything that an invocation does. -/
theorem respected_extends : Respected (World.Extends : World σ → World σ → Prop) := by
  have ledger {β : Type} (step : LedgerM σ β) : Along World.Extends (Service.onLedger step) :=
    fun world => by
      rw [Service.ending_onLedger]
      exact World.extends_of_transfers rfl
  have spend (amount : Gas) : Along World.Extends (Service.spend amount : ServiceM σ Unit) :=
    fun world => by
      rw [Service.ending_spend]
      exact World.extends_of_transfers rfl
  refine ⟨spend, fun _ _ => ledger _, fun _ _ _ => ledger _, fun _ => ledger _, fun _ => ledger _,
    fun _ _ _ _ => List.prefix_append .., fun _ _ _ => List.prefix_refl _,
    fun before after grown => ?_⟩
  have cut : after.transfers.take before.transfers.length = before.transfers :=
    (List.prefix_iff_eq_take.mp grown).symm
  rcases Engine.transfers_undo before.host.ledger.ledger.root before.transfers.length after with
    same | same
  · exact World.extends_of_transfers (same.trans cut)
  · rw [World.Extends, same]
    exact grown

theorem advances_undo (checkpoint : Hash) (mark : Nat) :
    Along World.Advances (Engine.undo checkpoint mark : ServiceM σ Unit) :=
  .bind (advances_onLedger _) fun _ _ => World.advances_of_meter rfl

/-- The meter never goes back, whatever an invocation does. -/
theorem respected_advances : Respected (World.Advances : World σ → World σ → Prop) :=
  ⟨advances_spend, fun _ _ => advances_onLedger _, fun _ _ _ => advances_onLedger _,
    fun _ => advances_onLedger _, fun _ => advances_onLedger _,
    fun _ _ _ _ => World.advances_of_meter rfl, fun _ _ _ => World.advances_of_meter rfl,
    fun _ _ advanced => trans_of World.Advances advanced (advances_undo _ _ _)⟩

end ContractLedger
