import ContractLedger.Proofs.Engine.Exhaustion
import ContractLedger.Proofs.Engine.Occurrence

/-!
The charges of a run: what the engine asks of the meter, and the world in which it does. A service fails
for want of gas just if a charge for it is more than what is available, and whatever the code around it
makes of the refusal, all gas is spent from then on. So a run that leaves gas was refused no charge.
-/

namespace ContractLedger

variable {σ α : Type}

def World.drained (world : World σ) : World σ :=
  { world with meter := { world.meter with consumed := world.meter.limit } }

/-- Whether a failure is not that of a charge. -/
def ContractError.Unmetered (error : ContractError) (_ : World σ) : Prop :=
  ∀ refused, error ≠ .outOfGas refused

namespace Service

open ContractError

variable {world after : World σ} {amount : Gas} {refused : OutOfGas}

theorem spend_refused (short : world.meter.available < amount) :
    spend amount world = .error (.outOfGas ⟨amount, world.meter.available⟩) world.drained := by
  rw [spend, GasMeter.spend, if_pos short]
  rfl

theorem spend_paid (covered : amount ≤ world.meter.available) :
    spend amount world =
      .ok () { world with meter := { world.meter with consumed := world.meter.consumed + amount } } := by
  rw [spend, GasMeter.spend, if_neg (UInt64.not_lt.mpr covered)]

theorem short_of_spend (ran : spend amount world = .error (.outOfGas refused) after) :
    refused.requested = amount ∧ world.meter.available < amount := by
  by_cases short : world.meter.available < amount
  · rw [spend_refused short] at ran
    cases ran
    exact ⟨rfl, short⟩
  · rw [spend_paid (UInt64.not_lt.mp short)] at ran
    cases ran

theorem short_of_paying {rest : ServiceM σ α} (unmetered : Fails Unmetered rest)
    (ran : (do spend amount; rest : ServiceM σ α) world = .error (.outOfGas refused) after) :
    refused.requested = amount ∧ world.meter.available < amount := by
  cases paid : spend amount world with
  | error error last =>
    rw [Step.bind_error paid] at ran
    cases ran
    exact short_of_spend paid
  | ok value last =>
    rw [Step.bind_ok paid] at ran
    exact absurd rfl (unmetered last _ _ ran refused)

theorem unmetered_onLedger (step : LedgerM σ α) : Fails Unmetered (onLedger step) :=
  fails_onLedger (fun _ _ _ => nofun) step

variable [ByteStore σ]

theorem unmetered_balanceOf (incoming : Incoming) (address : Address) :
    Fails Unmetered (balanceOf incoming address : ServiceM σ Amount) :=
  fails_balanceOf (fun _ _ _ => nofun) incoming address

theorem unmetered_ensureBalance (frame : Frame) (required : Amount) :
    Fails Unmetered (ensureBalance frame required : ServiceM σ Unit) :=
  .bind (unmetered_balanceOf _ _) fun _ => .ite (.failed fun _ _ => nofun) (.done _)

end Service

variable [ByteStore σ]

namespace Engine

open Service ContractError

/-- The charges for a request of a frame with so many levels of calls left: an amount, and the world in
which the meter is asked for it. -/
inductive Charges (engine : Engine) (frame : Frame) :
    Nat → Request → World σ → Gas → World σ → Prop
  | spend {levels : Nat} {amount : Gas} {world : World σ} :
      Charges engine frame levels (.spend amount) world amount world
  | readKey {levels : Nat} {key : Bytes} {world : World σ} :
      Charges engine frame levels (.read key) world
        (engine.limits.schedule.readCost key.length) world
  | readValue {levels : Nat} {key bytes : Bytes} {world paid last : World σ}
      (spent : Service.spend (engine.limits.schedule.readCost key.length) world = .ok () paid)
      (found : onLedger (Ledger.getObject frame.address key) paid = .ok (some bytes) last) :
      Charges engine frame levels (.read key) world
        (engine.limits.schedule.byteCost bytes.length) last
  | write {levels : Nat} {key value : Bytes} {world : World σ} :
      Charges engine frame levels (.write key value) world
        (engine.limits.schedule.writeCost (key.length + value.length)) world
  | transfer {levels : Nat} {recipient : Address} {amount : Amount} {world : World σ} :
      Charges engine frame levels (.transfer recipient amount) world
        engine.limits.schedule.transfer world
  | call {levels : Nat} {request : CallRequest} {world : World σ} :
      Charges engine frame (levels + 1) (.call request) world engine.limits.schedule.call world

/-- The charges of the run of a program in a frame, those of the calls below it included. -/
inductive Charged (engine : Engine) :
    Nat → Frame → Program ExecutionError (Option Value) → World σ → Gas → World σ → Prop
  | here {levels : Nat} {frame : Frame} {request : Request}
      {resume : Except ContractError request.Answer → Program ExecutionError (Option Value)}
      {world last : World σ} {amount : Gas}
      (charges : engine.Charges frame levels request world amount last) :
      Charged engine levels frame (.ask request resume) world amount last
  | next {levels : Nat} {frame : Frame} {request : Request}
      {resume : Except ContractError request.Answer → Program ExecutionError (Option Value)}
      {world last : World σ} {amount : Gas}
      (later : Charged engine levels frame
        (resume (answer (engine.serve levels frame request world)))
        (ending (engine.serve levels frame request world)) amount last) :
      Charged engine levels frame (.ask request resume) world amount last
  | within {levels : Nat} {frame : Frame} {request : CallRequest}
      {resume : Except ContractError (Option Value) → Program ExecutionError (Option Value)}
      {world inside last : World σ} {entry : Entry} {amount : Gas}
      (entered : engine.enter frame request world = .ok entry inside)
      (below : Charged engine levels entry.frame (engine.nestedProgram entry.code request) inside
        amount last) :
      Charged engine (levels + 1) frame (.ask (.call request) resume) world amount last

/-- Whether the meter covers every charge of a run. -/
def Affords (engine : Engine) (levels : Nat) (frame : Frame)
    (program : Program ExecutionError (Option Value)) (world : World σ) : Prop :=
  ∀ amount last, engine.Charged levels frame program world amount last →
    amount ≤ last.meter.available

/-- Whether the meter refuses a charge of a run. -/
def Starves (engine : Engine) (levels : Nat) (frame : Frame)
    (program : Program ExecutionError (Option Value)) (world : World σ) : Prop :=
  ∃ amount last, engine.Charged levels frame program world amount last ∧
    last.meter.available < amount

variable {engine : Engine} {levels : Nat} {frame : Frame} {request : Request}
  {program : Program ExecutionError (Option Value)} {world last after : World σ} {amount : Gas}
  {refused : OutOfGas}

theorem affords_of_not_starves (spared : ¬ engine.Starves levels frame program world) :
    engine.Affords levels frame program world :=
  fun amount last charged => UInt64.not_lt.mp fun short => spared ⟨amount, last, charged, short⟩

/-- A service whose charge is refused fails with it, and the meter is drained. -/
theorem Charges.serve_refused (charges : engine.Charges frame levels request world amount last)
    (short : last.meter.available < amount) :
    engine.serve levels frame request world =
      .error (.outOfGas ⟨amount, last.meter.available⟩) last.drained := by
  cases charges with
  | spend => exact spend_refused short
  | readKey => exact Step.bind_error (spend_refused short) _
  | readValue spent found =>
    exact (Step.bind_ok spent _).trans
      ((Step.bind_ok found _).trans (Step.bind_error (spend_refused short) _))
  | write => exact Step.bind_error (spend_refused short) _
  | transfer => exact Step.bind_error (spend_refused short) _
  | call => exact Step.bind_error (spend_refused short) _

private theorem unmetered_undo (checkpoint : Hash) (mark : Nat) :
    Fails Unmetered (undo checkpoint mark : ServiceM σ Unit) :=
  .bind (unmetered_onLedger _) fun _ => .changed _

private theorem short_of_call {request : CallRequest}
    (ran : engine.call (levels + 1) frame request world = .error (.outOfGas refused) after) :
    refused.requested = engine.limits.schedule.call ∧
      world.meter.available < engine.limits.schedule.call := by
  cases entered : engine.enter frame request world with
  | error error last =>
    rw [call_refused entered] at ran
    cases ran
    have looked : Fails Unmetered (do
        ensureBalance frame request.amount
        onLedger (Ledger.getCode request.target) : ServiceM σ (Option Bytes)) :=
      .bind (unmetered_ensureBalance _ _) fun _ => unmetered_onLedger _
    cases approached : engine.approach frame request world with
    | error error last =>
      rw [enter, Step.bind_error approached] at entered
      cases entered
      exact short_of_paying looked approached
    | ok code last =>
      rw [enter, Step.bind_ok approached] at entered
      cases code <;> cases entered
  | ok entry inside =>
    rw [call_entered entered] at ran
    cases result : engine.runEntry levels request entry inside with
    | ok value last =>
      rw [result] at ran
      cases ran
    | error cause last =>
      have undoing : Fails Unmetered (do
          undo entry.checkpoint entry.mark
          throw (ContractError.call request.target cause) : ServiceM σ (Option Value)) :=
        .bind (unmetered_undo _ _) fun _ => .failed fun _ _ told => by cases told
      rw [result] at ran
      exact absurd rfl (undoing last _ _ ran refused)

/-- A service that fails for want of gas was refused a charge. -/
theorem charges_of_outOfGas
    (ran : engine.serve levels frame request world = .error (.outOfGas refused) after) :
    ∃ last, engine.Charges frame levels request world refused.requested last ∧
      last.meter.available < refused.requested := by
  obtain ⟨requested, available⟩ := refused
  cases request with
  | spend amount =>
    obtain ⟨rfl, short⟩ := short_of_spend ran
    exact ⟨world, .spend, short⟩
  | read key =>
    cases paid : Service.spend (engine.limits.schedule.readCost key.length) world with
    | error error last =>
      rw [serve, Service.answer, Service.read, Step.bind_error paid] at ran
      cases ran
      obtain ⟨rfl, short⟩ := short_of_spend paid
      exact ⟨world, .readKey, short⟩
    | ok value last =>
      rw [serve, Service.answer, Service.read, Step.bind_ok paid] at ran
      cases found : onLedger (Ledger.getObject frame.address key) last with
      | error error final =>
        rw [Step.bind_error found] at ran
        cases ran
        exact absurd rfl (unmetered_onLedger _ _ _ _ found _)
      | ok value final =>
        rw [Step.bind_ok found] at ran
        cases value with
        | none => cases ran
        | some bytes =>
          obtain ⟨rfl, short⟩ := short_of_paying (.done _) ran
          exact ⟨final, .readValue paid found, short⟩
  | write key value =>
    obtain ⟨rfl, short⟩ := short_of_paying (unmetered_onLedger _) ran
    exact ⟨world, .write, short⟩
  | transfer recipient amount =>
    have rest : Fails Unmetered (do
        ensureBalance frame amount
        record frame recipient amount : ServiceM σ Unit) :=
      .bind (unmetered_ensureBalance _ _) fun _ => .changed _
    obtain ⟨rfl, short⟩ := short_of_paying rest ran
    exact ⟨world, .transfer, short⟩
  | call request =>
    cases levels with
    | zero => cases ran
    | succ levels =>
      obtain ⟨rfl, short⟩ := short_of_call ran
      exact ⟨world, .call, short⟩
  | balance => exact absurd rfl (unmetered_balanceOf _ _ _ _ _ ran _)
  | _ => cases ran

/-- After a refused charge all gas is spent, whatever the code makes of the refusal. -/
theorem Charged.exhausts (charged : engine.Charged levels frame program world amount last)
    (short : last.meter.available < amount) :
    (ending (program.run (engine.serve levels frame) world)).meter.Exhausted := by
  have onward (levels : Nat) (frame : Frame) (program : Program ExecutionError (Option Value))
      (world : World σ) (spent : world.meter.Exhausted) :
      (ending (program.run (engine.serve levels frame) world)).meter.Exhausted :=
    (respected_advances.run engine levels frame program world).exhausted spent
  induction charged with
  | here charges =>
    rw [Program.run_ask, charges.serve_refused short]
    exact onward _ _ _ _ rfl
  | next later ih =>
    rw [Program.run_ask]
    exact ih short
  | @within levels frame request resume world inside last entry amount entered below ih =>
    rw [Program.run_ask]
    refine onward _ _ _ _ ?_
    change (ending (engine.call (levels + 1) frame request world)).meter.Exhausted
    rw [call_entered entered]
    have spent : (ending (engine.runEntry levels request entry inside)).meter.Exhausted := ih short
    cases result : engine.runEntry levels request entry inside with
    | ok value after =>
      rw [result] at spent
      exact spent
    | error cause after =>
      rw [result] at spent
      rw [ending_leave_error]
      exact (advances_undo _ _ after).exhausted spent

theorem affords_of_spare
    (spare : ¬ (ending (program.run (engine.serve levels frame) world)).meter.Exhausted) :
    engine.Affords levels frame program world :=
  affords_of_not_starves fun ⟨_, _, charged, short⟩ => spare (charged.exhausts short)

end Engine

end ContractLedger
