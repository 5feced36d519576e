import ContractLedger.Engine.Invocation
import ContractLedger.Proofs.View

/-!
The parts of a nested call: what the caller pays and records before the code of the callee runs, and
what becomes of the end of that run. A call is its entry, the run, and the way back.
-/

namespace ContractLedger

/-- Running what is left of a program after a request, whether it was answered or refused. -/
theorem Program.run_ask {ε α τ : Type}
    (serve : (request : Request) → EStateM ContractError τ request.Answer) (request : Request)
    (resume : Except ContractError request.Answer → Program ε α) (state : τ) :
    (ask request resume).run serve state =
      (resume (answer (serve request state))).run serve (ending (serve request state)) := by
  simp only [run]
  cases serve request state <;> rfl

namespace Engine

variable {σ : Type} [ByteStore σ]

/-- What answers the requests of a frame, with so many levels of calls left. -/
def serve (engine : Engine) (levels : Nat) (frame : Frame) :
    (request : Request) → ServiceM σ request.Answer :=
  Service.answer engine.limits.schedule frame (engine.call levels frame)

/-- A call that was entered: the code and the frame that run, and what to return to if they fail. -/
structure Entry where
  code : Bytes
  frame : Frame
  checkpoint : Hash
  mark : Nat

/-- What precedes a call: the caller pays for it and covers the amount, and the code is looked up. -/
def approach (engine : Engine) (frame : Frame) (request : CallRequest) :
    ServiceM σ (Option Bytes) := do
  Service.spend engine.limits.schedule.call
  Service.ensureBalance frame request.amount
  Service.onLedger (Ledger.getCode request.target)

/-- The world with the amount of a call recorded, if it sends any. -/
def sending (frame : Frame) (request : CallRequest) (world : World σ) : World σ :=
  if 0 < request.amount then
    { world with
      transfers := world.transfers ++ [⟨frame.address, request.target, request.amount⟩] }
  else world

/-- Enters a call: if there is code, the amount is recorded and a frame starts. -/
def enter (engine : Engine) (frame : Frame) (request : CallRequest) : ServiceM σ Entry := do
  let some code ← engine.approach frame request | throw (.noContract request.target)
  let checkpoint ← Service.onLedger Ledger.checkpoint
  let mark := (← get).transfers.length
  modify (sending frame request)
  return ⟨code, nestedFrame frame request (← get).meter.available, checkpoint, mark⟩

/-- Leaves a call as its code ended, undoing what failed. -/
def leave (target : Address) (entry : Entry) :
    EStateM.Result ExecutionError (World σ) (Option Value) →
      EStateM.Result ContractError (World σ) (Option Value)
  | .ok value world => .ok value world
  | .error cause world =>
    (do undo entry.checkpoint entry.mark; throw (ContractError.call target cause)) world

/-- The run of the code of a call that was entered. -/
def runEntry (engine : Engine) (levels : Nat) (request : CallRequest) (entry : Entry) :
    EStateM ExecutionError (World σ) (Option Value) :=
  (engine.nestedProgram entry.code request).run (engine.serve levels entry.frame)

/-- A call is an entry and, unless that is refused, a run and a way back. -/
theorem call_succ (engine : Engine) (levels : Nat) (frame : Frame) (request : CallRequest)
    (world : World σ) :
    engine.call (levels + 1) frame request world =
      match engine.enter frame request world with
      | .ok entry inside => leave request.target entry (engine.runEntry levels request entry inside)
      | .error error after => .error error after := by
  simp only [call, enter, approach, Step.bind_apply]
  cases Service.spend engine.limits.schedule.call world with
  | error error after => rfl
  | ok value paid =>
    simp only
    cases Service.ensureBalance frame request.amount paid with
    | error error after => rfl
    | ok value covered =>
      simp only
      cases Service.onLedger (Ledger.getCode request.target) covered with
      | error error after => rfl
      | ok code looked =>
        cases code with
        | none => rfl
        | some code =>
          have here : Service.onLedger Ledger.checkpoint looked =
              .ok looked.host.ledger.ledger.root looked := rfl
          simp only [Step.bind_apply, here, Step.get_apply, Step.modify_apply, sending]
          by_cases sends : 0 < request.amount
          · simp only [if_pos sends]
            rfl
          · simp only [if_neg sends]
            rfl

variable {engine : Engine} {frame : Frame} {request : CallRequest} {world after : World σ}
  {entry : Entry} {error : ContractError}

theorem call_entered (entered : engine.enter frame request world = .ok entry after) (levels : Nat) :
    engine.call (levels + 1) frame request world =
      leave request.target entry (engine.runEntry levels request entry after) := by
  rw [call_succ, entered]

theorem call_refused (refused : engine.enter frame request world = .error error after)
    (levels : Nat) : engine.call (levels + 1) frame request world = .error error after := by
  rw [call_succ, refused]

/-- A call that succeeds was entered, and its code succeeded. -/
theorem call_ok {levels : Nat} {value : Option Value}
    (ran : engine.call (levels + 1) frame request world = .ok value after) :
    ∃ entry inside, engine.enter frame request world = .ok entry inside ∧
      engine.runEntry levels request entry inside = .ok value after := by
  cases entered : engine.enter frame request world with
  | error error last =>
    rw [call_refused entered] at ran
    cases ran
  | ok entry inside =>
    refine ⟨entry, inside, rfl, ?_⟩
    rw [call_entered entered] at ran
    cases result : engine.runEntry levels request entry inside with
    | ok found last =>
      rw [result] at ran
      cases ran
      rfl
    | error cause last =>
      rw [result] at ran
      simp only [leave, Step.bind_apply] at ran
      cases undone : undo entry.checkpoint entry.mark last <;> rw [undone] at ran <;> cases ran

theorem ending_leave_error (target : Address) (entry : Entry) (cause : ExecutionError)
    (world : World σ) : ending (leave target entry (.error cause world)) =
      ending (undo entry.checkpoint entry.mark world) := by
  simp only [leave, Step.bind_apply]
  cases undo entry.checkpoint entry.mark world <;> rfl

theorem approach_ok {code : Option Bytes}
    (ran : engine.approach frame request world = .ok code after) :
    ∃ paid covered, Service.spend engine.limits.schedule.call world = .ok () paid ∧
      Service.ensureBalance frame request.amount paid = .ok () covered ∧
      Service.onLedger (Ledger.getCode request.target) covered = .ok code after := by
  obtain ⟨_, paid, spent, ran⟩ := Step.bind_eq_ok.mp ran
  obtain ⟨_, covered, checked, found⟩ := Step.bind_eq_ok.mp ran
  exact ⟨paid, covered, spent, checked, found⟩

theorem enter_ok (entered : engine.enter frame request world = .ok entry after) :
    ∃ looked, engine.approach frame request world = .ok (some entry.code) looked ∧
      after = sending frame request looked ∧
      entry.frame = nestedFrame frame request after.meter.available ∧
      entry.checkpoint = looked.host.ledger.ledger.root ∧ entry.mark = looked.transfers.length := by
  obtain ⟨found, looked, ran, entered⟩ := Step.bind_eq_ok.mp entered
  cases found with
  | none => cases entered
  | some code =>
    cases entered
    exact ⟨looked, ran, rfl, rfl, rfl, rfl⟩

/-- A call that was not entered goes no further than what precedes it. -/
theorem enter_error (refused : engine.enter frame request world = .error error after) :
    after = ending (engine.approach frame request world) := by
  simp only [enter, Step.bind_apply] at refused
  cases ran : engine.approach frame request world with
  | error error looked =>
    rw [ran] at refused
    cases refused
    rfl
  | ok found looked =>
    rw [ran] at refused
    cases found with
    | none =>
      cases refused
      rfl
    | some code => cases refused

end Engine

end ContractLedger
