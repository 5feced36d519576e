import ContractLedger.Proofs.Engine.Charge
import ContractLedger.Proofs.Engine.Code

/-!
Spare gas. Code that asks neither for its meter nor for its gas limit cannot tell how much gas there is as
long as its charges are covered: under any other limit that covers what a run spent, the run is the same,
request for request, and only the limit of its meter differs. Under a lower limit a charge is refused.
-/

namespace ContractLedger

variable {σ α β : Type}

/-- Whether a service tells how much gas there is. -/
def Request.TellsGas : Request → Prop
  | .gasLimit => True
  | .meter => True
  | _ => False

/-- Whether a program never asks how much gas there is. -/
def Program.Blind {ε α : Type} : Program ε α → Prop
  | .done _ => True
  | .fail _ => True
  | .ask request resume => ¬ request.TellsGas ∧ ∀ answer, (resume answer).Blind

namespace Program

variable {ε ε' : Type} {program : Program ε α}

theorem blind_request (request : Request) (quiet : ¬ request.TellsGas) :
    (Program.request request).Blind :=
  ⟨quiet, fun answer => by cases answer <;> trivial⟩

theorem Blind.bind {next : α → Program ε β} (blind : program.Blind)
    (rest : ∀ value, (next value).Blind) : (program >>= next).Blind := by
  induction program with
  | done value => exact rest value
  | fail error => trivial
  | ask request resume ih => exact ⟨blind.1, fun answer => ih answer (blind.2 answer)⟩

theorem Blind.mapError {change : ε → ε'} (blind : program.Blind) : (program.mapError change).Blind := by
  induction program with
  | ask request resume ih => exact ⟨blind.1, fun answer => ih answer (blind.2 answer)⟩
  | _ => trivial

theorem Blind.attempt (blind : program.Blind) : (program.attempt : Program ε' _).Blind := by
  induction program with
  | ask request resume ih => exact ⟨blind.1, fun answer => ih answer (blind.2 answer)⟩
  | _ => trivial

theorem composes_blind : Program.Composes fun _ program => program.Blind where
  done _ _ := trivial
  fail _ _ := trivial
  bind blind _ rest _ := blind.bind rest
  mapError blind _ _ := blind.mapError
  attempt blind _ := blind.attempt

end Program

/-- Whether no code that an engine loads asks how much gas there is. -/
def Engine.Blind (engine : Engine) : Prop :=
  engine.Consists fun _ program => program.Blind

def Frame.withGasLimit (frame : Frame) (gas : Gas) : Frame :=
  { frame with message := { frame.message with gasLimit := gas } }

/-- A context that tells of another gas limit. -/
def Context.withGasLimit (context : Context) (gas : Gas) : Context :=
  { context with message := { context.message with gasLimit := gas } }

def World.withLimit (limit : Gas) (world : World σ) : World σ :=
  { world with meter := { world.meter with limit } }

namespace Service

/-- Whether a step failed with a charge of its own that was refused. -/
def Refused : EStateM.Result ContractError (World σ) α → Prop
  | .ok _ _ => False
  | .error error _ => ∃ refused, error = .outOfGas refused

/-- Whether a step does under a limit just what it does under any other, unless it is refused a charge or
comes to spend more than the limit. -/
structure Lockstep (limit : Gas) (step : ServiceM σ α) : Prop where
  advances : Along World.Advances step
  same : ∀ world, world.meter.consumed ≤ world.meter.limit →
    ¬ Refused (step world) → (ending (step world)).meter.consumed ≤ limit →
    step (world.withLimit limit) = through (World.withLimit limit) (step world)

namespace Lockstep

variable {limit : Gas}

theorem done (value : α) : Lockstep limit (pure value : ServiceM σ α) :=
  ⟨.done value, fun _ _ _ _ => rfl⟩

theorem failed (error : ContractError) : Lockstep limit (throw error : ServiceM σ α) :=
  ⟨.failed error, fun _ _ _ _ => rfl⟩

theorem reading {next : World σ → ServiceM σ β}
    (blind : ∀ world : World σ, next (world.withLimit limit) = next world)
    (rest : ∀ world, Lockstep limit (next world)) : Lockstep limit (get >>= next) := by
  refine ⟨.reading fun world => (rest world).advances, fun world within paid fits => ?_⟩
  refine Eq.trans ?_ ((rest world).same world within paid fits)
  exact congrFun (blind world) (world.withLimit limit)

theorem ite {condition : Prop} [Decidable condition] {yes no : ServiceM σ α}
    (lockYes : Lockstep limit yes) (lockNo : Lockstep limit no) :
    Lockstep limit (if condition then yes else no) := by
  split
  · exact lockYes
  · exact lockNo

theorem bind {step : ServiceM σ α} {next : α → ServiceM σ β} (first : Lockstep limit step)
    (rest : ∀ value, Lockstep limit (next value)) : Lockstep limit (step >>= next) := by
  have onward := fun value => (rest value).advances
  refine ⟨first.advances.bind onward, fun world within paid fits => ?_⟩
  have spent := (first.advances world).consumed within
  have later : (ending (step world)).Advances (ending ((step >>= next) world)) :=
    Along.first onward world
  have more := later.consumed spent.2
  have same := fun unrefused => first.same world within unrefused (UInt64.le_trans more.1 fits)
  rw [Step.bind_apply] at paid fits
  rw [Step.bind_apply, Step.bind_apply]
  cases ran : step world with
  | error error last =>
    rw [ran] at same paid
    rw [same paid]
    rfl
  | ok value last =>
    rw [ran] at same paid fits spent
    rw [same not_false]
    exact (rest value).same last spent.2 paid fits

end Lockstep

variable (limit : Gas)

theorem unlimited_onLedger (step : LedgerM σ α) :
    Agree (World.withLimit limit) unmeasured (onLedger step) (onLedger step) := by
  refine .of_same fun world => ?_
  have host : (world.withLimit limit).host = world.host := rfl
  rw [onLedger, onLedger, host]
  cases Host.run step ContractError.state world.host <;> rfl

theorem lockstep_onLedger {step : LedgerM σ α} (advances : Along World.Advances (onLedger step)) :
    Lockstep limit (onLedger step) :=
  ⟨advances, fun world _ _ _ => ((unlimited_onLedger limit step).same world).symm⟩

variable [ByteStore σ]

theorem lockstep_spend (amount : Gas) : Lockstep limit (spend amount : ServiceM σ Unit) := by
  refine ⟨respected_advances.spend amount, fun world within paid fits => ?_⟩
  have covered : amount ≤ world.meter.available :=
    UInt64.not_lt.mp fun short => paid (by rw [spend_refused short]; exact ⟨_, rfl⟩)
  rw [spend_paid covered] at fits ⊢
  have sum := (GasMeter.available_exact within).2 amount covered
  have total : (world.meter.consumed + amount).toNat ≤ limit.toNat := UInt64.le_iff_toNat_le.mp fits
  have below : world.meter.consumed ≤ limit := UInt64.le_iff_toNat_le.mpr (by omega)
  have left : (world.withLimit limit).meter.available.toNat = limit.toNat - world.meter.consumed.toNat :=
    UInt64.toNat_sub_of_le _ _ below
  rw [spend_paid (UInt64.le_iff_toNat_le.mpr (by omega))]
  rfl

theorem lockstep_balanceOf (incoming : Incoming) (address : Address) :
    Lockstep limit (balanceOf incoming address : ServiceM σ Amount) :=
  .bind (lockstep_onLedger limit (respected_advances.balance _)) fun _ =>
    .reading (fun _ => rfl) fun _ => .done _

theorem lockstep_ensureBalance (frame : Frame) (required : Amount) :
    Lockstep limit (ensureBalance frame required : ServiceM σ Unit) :=
  .bind (lockstep_balanceOf limit _ _) fun _ => .ite (.failed _) (.done _)

/-- The services of a frame that do not tell how much gas there is, calls apart. -/
theorem lockstep_answer (schedule : Schedule) (frame : Frame)
    {call : CallRequest → ServiceM σ (Option Value)} {request : Request} (quiet : ¬ request.TellsGas)
    (calls : ∀ called, request = .call called → Lockstep limit (call called)) :
    Lockstep limit (answer schedule frame call request) := by
  cases request with
  | spend amount => exact lockstep_spend limit amount
  | read key =>
    refine .bind (lockstep_spend limit _) fun _ =>
      .bind (lockstep_onLedger limit (respected_advances.read _ _)) fun value => ?_
    cases value with
    | none => exact .done _
    | some bytes => exact .bind (lockstep_spend limit _) fun _ => .done _
  | write key value =>
    exact .bind (lockstep_spend limit _) fun _ =>
      lockstep_onLedger limit (respected_advances.write _ _ _)
  | balance => exact lockstep_balanceOf limit _ _
  | transfer recipient amount =>
    exact .bind (lockstep_spend limit _) fun _ => .bind (lockstep_ensureBalance limit _ _) fun _ =>
      ⟨respected_advances.record frame recipient amount, fun _ _ _ _ => rfl⟩
  | call called => exact calls called rfl
  | gasLimit => exact absurd trivial quiet
  | meter => exact absurd trivial quiet
  | note note => exact ⟨respected_advances.observe frame note, fun _ _ _ _ => rfl⟩
  | _ => exact .done _

end Service

namespace Engine

open Service

variable [ByteStore σ] {engine : Engine} {levels : Nat} {frame : Frame} {request : CallRequest}
  {world : World σ} {limit : Gas}

theorem lockstep_approach (limit : Gas) (engine : Engine) (frame : Frame) (request : CallRequest) :
    Lockstep limit (engine.approach frame request : ServiceM σ _) :=
  .bind (lockstep_spend limit _) fun _ => .bind (lockstep_ensureBalance limit _ _) fun _ =>
    lockstep_onLedger limit (respected_advances.code _)

/-- An entry whose frame is told another gas limit. -/
def Entry.withGasLimit (entry : Entry) (gas : Gas) : Entry :=
  { entry with frame := entry.frame.withGasLimit gas }

omit [ByteStore σ] in
theorem sending_withLimit (frame : Frame) (request : CallRequest) (limit : Gas) (world : World σ) :
    sending frame request (world.withLimit limit) = (sending frame request world).withLimit limit := by
  unfold sending
  split <;> rfl

/-- Entering a call under another limit, the callee being told what is available under it. -/
theorem enter_withLimit (engine : Engine) (frame : Frame) (request : CallRequest) (limit : Gas)
    (within : world.meter.consumed ≤ world.meter.limit)
    (paid : ¬ Refused (engine.enter frame request world))
    (fits : (ending (engine.enter frame request world)).meter.consumed ≤ limit) (gas : Gas) :
    ∃ told, engine.enter (frame.withGasLimit gas) request (world.withLimit limit) =
      through (World.withLimit limit) (((·.withGasLimit told) <$> engine.enter frame request) world) := by
  have looks := (lockstep_approach limit engine frame request).same world within
  cases approached : engine.approach frame request world with
  | error error last =>
    have entered : engine.enter frame request world = .error error last :=
      Step.bind_error approached _
    rw [entered] at paid fits
    rw [approached] at looks
    refine ⟨0, ?_⟩
    rw [Step.map_apply, entered]
    exact Step.bind_error (looks paid fits) _
  | ok code looked =>
    rw [approached] at looks
    have found : looked.meter.consumed ≤ limit → engine.approach (frame.withGasLimit gas) request
        (world.withLimit limit) = .ok code (looked.withLimit limit) := looks not_false
    cases code with
    | none =>
      have entered : engine.enter frame request world = .error (.noContract request.target) looked :=
        Step.bind_ok approached _
      rw [entered] at fits
      refine ⟨0, ?_⟩
      rw [Step.map_apply, entered]
      exact Step.bind_ok (found fits) _
    | some code =>
      let inside := sending frame request looked
      have entered : engine.enter frame request world = .ok ⟨code, nestedFrame frame request
          inside.meter.available, looked.host.ledger.ledger.root, looked.transfers.length⟩ inside :=
        Step.bind_ok approached _
      have meter : inside.meter = looked.meter := by
        unfold inside sending
        split <;> rfl
      have same : sending (frame.withGasLimit gas) request (looked.withLimit limit) =
          inside.withLimit limit := sending_withLimit frame request limit looked
      rw [entered] at fits
      refine ⟨(inside.withLimit limit).meter.available, ?_⟩
      rw [Step.map_apply, entered]
      refine (Step.bind_ok (found (meter ▸ fits)) _).trans ?_
      change EStateM.Result.ok (Entry.mk code (nestedFrame (frame.withGasLimit gas) request
        (sending (frame.withGasLimit gas) request (looked.withLimit limit)).meter.available) _ _)
          (sending (frame.withGasLimit gas) request (looked.withLimit limit)) = _
      rw [same]
      rfl

theorem leave_withLimit (target : Address) (entry : Entry) (gas limit : Gas)
    (result : EStateM.Result ExecutionError (World σ) (Option Value)) :
    leave target (entry.withGasLimit gas) (through (World.withLimit limit) result) =
      through (World.withLimit limit) (leave target entry result) := by
  cases result with
  | ok value last => rfl
  | error cause last =>
    have undoes : Agree (World.withLimit limit) unmeasured
        (undo entry.checkpoint entry.mark : ServiceM σ Unit) (undo entry.checkpoint entry.mark) :=
      .bind (unlimited_onLedger limit _) fun _ => .changed (fun _ => rfl) fun _ => Set.Subset.refl _
    exact ((undoes.bind fun _ => .failed (ContractError.call target cause)).same last).symm

/-- Whether the runs with so many levels of calls left do under a limit just what they do under any other,
unless they are refused a charge or come to spend more than the limit. -/
def InLockstep (σ : Type) [ByteStore σ] (engine : Engine) (limit : Gas) (levels : Nat) : Prop :=
  ∀ {frame : Frame} {program : Program ExecutionError (Option Value)} {world : World σ},
    program.Blind → world.meter.consumed ≤ world.meter.limit →
    engine.Affords levels frame program world →
    (ending (program.run (engine.serve levels frame) world)).meter.consumed ≤ limit → ∀ gas,
      program.run (engine.serve levels (frame.withGasLimit gas)) (world.withLimit limit) =
        through (World.withLimit limit) (program.run (engine.serve levels frame) world)

/-- A run whose charges are covered is refused no service for want of gas. -/
theorem Affords.paid {request : Request}
    {resume : Except ContractError request.Answer → Program ExecutionError (Option Value)}
    (affords : engine.Affords levels frame (.ask request resume) world) :
    ¬ Refused (engine.serve levels frame request world) := by
  cases served : engine.serve levels frame request world with
  | ok value last => exact not_false
  | error error last =>
    rintro ⟨refused, rfl⟩
    obtain ⟨charged, charges, short⟩ := charges_of_outOfGas served
    exact UInt64.not_lt.mpr (affords _ _ (.here charges)) short

private theorem InLockstep.call (runs : InLockstep σ engine limit levels) (blind : engine.Blind)
    {resume : Except ContractError (Option Value) → Program ExecutionError (Option Value)}
    (within : world.meter.consumed ≤ world.meter.limit)
    (affords : engine.Affords (levels + 1) frame (.ask (.call request) resume) world)
    (fits : (ending (engine.call (levels + 1) frame request world)).meter.consumed ≤ limit) (gas : Gas) :
    engine.call (levels + 1) (frame.withGasLimit gas) request (world.withLimit limit) =
      through (World.withLimit limit) (engine.call (levels + 1) frame request world) := by
  have paid : ¬ Refused (engine.call (levels + 1) frame request world) := affords.paid
  have since := respected_advances.enter engine frame request world
  have enters := enter_withLimit engine frame request limit within
  cases entered : engine.enter frame request world with
  | error error last =>
    rw [call_refused entered] at paid fits ⊢
    rw [entered] at enters
    obtain ⟨told, same⟩ := enters paid fits gas
    rw [Step.map_apply, entered] at same
    exact call_refused same levels
  | ok entry inside =>
    rw [call_entered entered] at fits ⊢
    rw [entered] at enters since
    have spent := (since.consumed within).2
    have ran := respected_advances.runEntry engine levels request entry inside
    have left := along_leave advances_undo request.target entry (engine.runEntry levels request entry inside)
    have fitsRun := UInt64.le_trans (left.consumed (ran.consumed spent).2).1 fits
    obtain ⟨told, same⟩ := enters not_false (UInt64.le_trans (ran.consumed spent).1 fitsRun) gas
    rw [Step.map_apply, entered] at same
    have below := runs (blind.nestedProgram Program.composes_blind entry.code request) spent
      (fun amount last charged => affords amount last (.within entered charged)) fitsRun told
    rw [call_entered same, ← leave_withLimit _ _ told]
    exact congrArg (leave request.target _) below

private theorem inLockstep_of_calls
    (calls : ∀ {frame : Frame} {request : CallRequest} {world : World σ}
      {resume : Except ContractError (Option Value) → Program ExecutionError (Option Value)},
      world.meter.consumed ≤ world.meter.limit →
      engine.Affords levels frame (.ask (.call request) resume) world →
      (ending (engine.call levels frame request world)).meter.consumed ≤ limit → ∀ gas,
        engine.call levels (frame.withGasLimit gas) request (world.withLimit limit) =
          through (World.withLimit limit) (engine.call levels frame request world)) :
    InLockstep σ engine limit levels := by
  intro frame program world blind within affords fits gas
  induction program generalizing world with
  | done value => rfl
  | fail error => rfl
  | ask request resume ih =>
    have first := respected_advances.serve engine levels frame request world
    have spent := (first.consumed within).2
    rw [Program.run_ask] at fits
    rw [Program.run_ask, Program.run_ask]
    have rest := respected_advances.run engine levels frame
      (resume (answer (engine.serve levels frame request world)))
      (ending (engine.serve levels frame request world))
    have fitsFirst := UInt64.le_trans (rest.consumed spent).1 fits
    have same : engine.serve levels (frame.withGasLimit gas) request (world.withLimit limit) =
        through (World.withLimit limit) (engine.serve levels frame request world) := by
      cases request with
      | call called => exact calls within affords fitsFirst gas
      | gasLimit => exact absurd trivial blind.1
      | _ => exact (lockstep_answer limit _ frame blind.1 nofun).same world within affords.paid fitsFirst
    rw [same, answer_through, ending_through]
    exact ih _ (blind.2 _) spent (fun amount last charged => affords amount last (.next charged)) fits

/-- Blind code is in lockstep under every limit that covers what it spends. -/
theorem Blind.inLockstep (blind : engine.Blind) (limit : Gas) (levels : Nat) :
    InLockstep σ engine limit levels := by
  induction levels with
  | zero => exact inLockstep_of_calls fun _ _ _ _ => rfl
  | succ levels ih => exact inLockstep_of_calls fun within affords => ih.call blind within affords

/-- Blind code that spends more than a limit is refused a charge under it. -/
theorem Blind.starves (blind : engine.Blind) {program : Program ExecutionError (Option Value)}
    (asks : program.Blind) (within : world.meter.consumed ≤ world.meter.limit)
    (starts : world.meter.consumed ≤ limit)
    (short : limit < (ending (program.run (engine.serve levels frame) world)).meter.consumed)
    (gas : Gas) : engine.Starves levels (frame.withGasLimit gas) program (world.withLimit limit) := by
  by_contra spared
  let base := program.run (engine.serve levels frame) world
  let again := program.run (engine.serve levels (frame.withGasLimit gas)) (world.withLimit limit)
  have advances : world.Advances (ending base) := respected_advances.run engine levels frame program world
  have advancesAgain : (world.withLimit limit).Advances (ending again) :=
    respected_advances.run engine levels (frame.withGasLimit gas) program (world.withLimit limit)
  have most : (ending base).meter.consumed ≤ world.meter.limit :=
    advances.limit ▸ (advances.consumed within).2
  have few : (ending again).meter.consumed ≤ limit :=
    UInt64.le_trans (advancesAgain.consumed starts).2 (UInt64.le_of_eq advancesAgain.limit)
  -- If every charge were covered, the run under the larger limit would be the same.
  have same : base = through (World.withLimit world.meter.limit) again :=
    blind.inLockstep world.meter.limit levels asks starts (affords_of_not_starves spared)
      (UInt64.le_trans few (UInt64.le_trans (UInt64.le_of_lt short) most)) frame.message.gasLimit
  have spent : (ending base).meter.consumed = (ending again).meter.consumed := by
    rw [same, ending_through]
    rfl
  exact UInt64.not_lt.mpr few (spent ▸ short)

omit [ByteStore σ] in
theorem finish_withLimit (operation : String) (context : Context) (gas limit : Gas)
    (result : EStateM.Result ExecutionError (World σ) (Option Value)) :
    finish operation (context.withGasLimit gas) (through (World.withLimit limit) result) =
      ((finish operation context result).1, (finish operation context result).2.withLimit limit) := by
  cases result <;> rfl

omit [ByteStore σ] in
theorem invocationProgram_withGasLimit (engine : Engine) (invocation : Invocation) (code : Bytes)
    (context : Context) (gas : Gas) :
    engine.invocationProgram invocation code (context.withGasLimit gas) =
      engine.invocationProgram invocation code context := by
  cases invocation with
  | create => rfl
  | call method => cases method <;> rfl

/-- Spare gas makes no difference to code that does not ask how much there is. If no charge of an
invocation is refused, then with any limit that covers the gas it spent, and whatever limit its context
tells of, the result and the world that it leaves are the same, but for the limit itself; and with any
limit below, a charge is refused. -/
theorem perform_spare (engine : Engine) (blind : engine.Blind) (invocation : Invocation) (code : Bytes)
    (context : Context) (host : Host σ) (meter : GasMeter) (within : meter.consumed ≤ meter.limit)
    (affords : engine.Affords engine.limits.maxCallDepth (.outermost context)
      (engine.invocationProgram invocation code context) (startWorld host meter)) :
    let base := engine.perform invocation code context host meter
    ∀ limit told,
      let again := engine.perform invocation code (context.withGasLimit told) host { meter with limit }
      (base.1.gasConsumed ≤ limit → again.1 = base.1 ∧ again.2 = base.2.withLimit limit) ∧
      (meter.consumed ≤ limit → limit < base.1.gasConsumed →
        engine.Starves engine.limits.maxCallDepth (.outermost (context.withGasLimit told))
          (engine.invocationProgram invocation code (context.withGasLimit told))
          (startWorld host { meter with limit })) := by
  intro base limit told again
  let program := engine.invocationProgram invocation code context
  have asks : program.Blind := blind.invocationProgram Program.composes_blind invocation code context
  have spent : base.1.gasConsumed =
      (ending (engine.runOutermost context program (startWorld host meter))).meter.consumed :=
    perform_meter.1
  constructor
  · intro covers
    have same := blind.inLockstep limit engine.limits.maxCallDepth asks within affords (spent ▸ covers) told
    have ends : again = (base.1, base.2.withLimit limit) := by
      unfold again base
      rw [perform_eq, perform_eq, invocationProgram_withGasLimit]
      exact (congrArg (finish invocation.name (context.withGasLimit told)) same).trans
        (finish_withLimit _ _ _ _ _)
    rw [ends]
    exact ⟨rfl, rfl⟩
  · intro starts short
    rw [invocationProgram_withGasLimit]
    exact blind.starves asks within starts (spent ▸ short) told

/-- A contract that calls another of its methods, which fails, and then pays and writes. -/
def errand : ContractType :=
  ContractType.start "Errand" "errand" (return [])
    |>.withMethod "stumble" [] (fun _ _ => do
      Code.write [1] [7]
      Code.revert "no way through")
    |>.withMethod "deliver" [] (fun _ _ => do
      let target ← Program.request .self
      let _ ← (Code.call target "stumble" [] 0).attempt
      Code.transfer (.ofNat 9) 3
      Code.write [2] [8]
      return some (.bool true))

def errands : Engine := ⟨fun _ => .ok [errand], .none, .standard⟩

theorem errands_blind : errands.Blind := by
  intro code module loaded type member
  cases loaded
  obtain rfl := List.mem_singleton.mp member
  refine ((ContractType.consists_start _ _ trivial).withMethod _ fun _ _ => ?_).withMethod _ fun _ _ => ?_
  · exact (Program.blind_request (.write [1] [7]) not_false).bind fun _ => trivial
  · refine (Program.blind_request .self not_false).bind fun target => ?_
    have stumbles := Program.blind_request (.call ⟨target, "stumble", [], 0⟩) not_false
    exact stumbles.attempt.bind fun _ =>
      (Program.blind_request (.transfer (.ofNat 9) 3) not_false).bind fun _ =>
        (Program.blind_request (.write [2] [8]) not_false).bind fun _ => trivial

def delivering : Context := ⟨⟨1, .ofNat 9⟩, ⟨.ofNat 3, 5, 1000⟩, .ofNat 1, []⟩

set_option maxRecDepth 100000 in
theorem perform_spare_delivering :
    let run := fun limit => errands.perform (.call (some "deliver")) [5] delivering
      (Site.endowed [.setCode (.ofNat 1) [5]]) (.start limit)
    (run 1000).1.gasConsumed = 194 ∧ (run 1000).1.returned = some (.bool true) ∧
      (run 194).1 = (run 1000).1 ∧ (run 194).2 = (run 1000).2.withLimit 194 ∧
      errands.Starves 8 (.outermost delivering) (errands.invocationProgram (.call (some "deliver")) [5]
        delivering) (startWorld (Site.endowed [.setCode (.ofNat 1) [5]]) (.start 193)) := by
  intro run
  have ended : (run 1000).1.gasConsumed = 194 ∧ (run 1000).1.returned = some (.bool true) ∧
      (run 1000).2.meter.consumed ≠ (run 1000).2.meter.limit := by decide +kernel
  obtain ⟨spent, returned, spare⟩ := ended
  have kept : (run 1000).2.meter = _ := perform_meter.2
  rw [kept] at spare
  have same := perform_spare errands errands_blind (.call (some "deliver")) [5] delivering
    (Site.endowed [.setCode (.ofNat 1) [5]]) (.start 1000) (by decide) (affords_of_spare spare)
  obtain ⟨result, world⟩ := (same 194 1000).1 (UInt64.le_of_eq spent)
  exact ⟨spent, returned, result, world, (same 193 1000).2 (by decide) (spent ▸ by decide)⟩

end Engine

end ContractLedger
