import ContractLedger.Proofs.Engine.Metering
import Mathlib.Logic.Relation

/-!
Invocations step by step. A machine runs one frame, for which the frames that called it wait; a step of it
answers a request, enters a call or leaves one. Nothing but the depth of the running frame keeps the machine
from entering another call, and that is enough: every run comes to an end, which is the result of the
invocation.
-/

namespace ContractLedger

variable {σ : Type} [ByteStore σ]

/-- A frame that waits for a call of its own, and what it goes on with. -/
structure Caller where
  frame : Frame
  target : Address
  entry : Engine.Entry
  resume : Except ContractError (Option Value) → Program ExecutionError (Option Value)

/-- A running frame, with those that wait for it, the innermost first. -/
structure Machine (σ : Type) where
  callers : List Caller
  frame : Frame
  program : Program ExecutionError (Option Value)
  world : World σ

namespace Machine

def start (context : Context) (program : Program ExecutionError (Option Value)) (world : World σ) :
    Machine σ :=
  ⟨[], .outermost context, program, world⟩

def resumed {α : Type} (machine : Machine σ)
    (resume : Except ContractError α → Program ExecutionError (Option Value))
    (result : EStateM.Result ContractError (World σ) α) : Machine σ :=
  { machine with program := resume (answer result), world := ending result }

/-- Makes a call, unless the running frame is as deep as frames may be. -/
def calling (engine : Engine) (machine : Machine σ) (request : CallRequest)
    (resume : Except ContractError (Option Value) → Program ExecutionError (Option Value)) : Machine σ :=
  if engine.limits.maxCallDepth ≤ machine.frame.depth then
    machine.resumed resume (.error (.callDepth engine.limits.maxCallDepth) machine.world)
  else
    match engine.enter machine.frame request machine.world with
    | .error error after => machine.resumed resume (.error error after)
    | .ok entry inside =>
      ⟨⟨machine.frame, request.target, entry, resume⟩ :: machine.callers, entry.frame,
        engine.nestedProgram entry.code request, inside⟩

/-- Answers a request of the running frame. -/
def asking (engine : Engine) (machine : Machine σ) : (request : Request) →
    (Except ContractError request.Answer → Program ExecutionError (Option Value)) → Machine σ
  | .call request, resume => machine.calling engine request resume
  | request, resume => machine.resumed resume (engine.serve 0 machine.frame request machine.world)

/-- Hands the end of the running frame to the frame that waits for it, if any does. -/
def returning (machine : Machine σ)
    (result : EStateM.Result ExecutionError (World σ) (Option Value)) : Option (Machine σ) :=
  match machine.callers with
  | [] => none
  | caller :: callers =>
    let left := Engine.leave caller.target caller.entry result
    some ⟨callers, caller.frame, caller.resume (answer left), ending left⟩

def next (engine : Engine) (machine : Machine σ) : Option (Machine σ) :=
  match machine.program with
  | .done value => machine.returning (.ok value machine.world)
  | .fail error => machine.returning (.error error machine.world)
  | .ask request resume => some (machine.asking engine request resume)

/-- How a machine ended that has no frame left to run. -/
def outcome? : Machine σ → Option (EStateM.Result ExecutionError (World σ) (Option Value))
  | ⟨[], _, .done value, world⟩ => some (.ok value world)
  | ⟨[], _, .fail error, world⟩ => some (.error error world)
  | _ => none

/-- A machine and the one after its next step. -/
def Steps (engine : Engine) (before after : Machine σ) : Prop :=
  before.next engine = some after

/-- A machine and those that its steps lead to. -/
def Reaches (engine : Engine) : Machine σ → Machine σ → Prop :=
  Relation.ReflTransGen (Steps engine)

variable {engine : Engine}

theorem Reaches.acc {machine last : Machine σ} (reaches : Reaches engine machine last)
    (ends : last.next engine = none) : Acc (fun after before => Steps engine before after) machine := by
  induction reaches using Relation.ReflTransGen.head_induction_on with
  | refl =>
    refine ⟨last, fun after step => ?_⟩
    rw [Steps, ends] at step
    cases step
  | head step _ ih =>
    refine ⟨_, fun after other => ?_⟩
    obtain rfl := Option.some.inj (other.symm.trans step)
    exact ih

/-! The end of a run is reached. -/

def ended : EStateM.Result ExecutionError (World σ) (Option Value) → Program ExecutionError (Option Value)
  | .ok value _ => .done value
  | .error error _ => .fail error

/-- A machine whose running frame has come to an end. -/
def finished (callers : List Caller) (frame : Frame)
    (result : EStateM.Result ExecutionError (World σ) (Option Value)) : Machine σ :=
  ⟨callers, frame, ended result, ending result⟩

omit [ByteStore σ] in
theorem outcome?_finished (frame : Frame) (result : EStateM.Result ExecutionError (World σ) (Option Value)) :
    (finished [] frame result).outcome? = some result := by
  cases result <;> rfl

theorem next_finished (frame : Frame) (result : EStateM.Result ExecutionError (World σ) (Option Value)) :
    (finished [] frame result).next engine = none := by
  cases result <;> rfl

theorem steps_finished (caller : Caller) (callers : List Caller) (frame : Frame)
    (result : EStateM.Result ExecutionError (World σ) (Option Value)) :
    let left := Engine.leave caller.target caller.entry result
    Steps engine (finished (caller :: callers) frame result)
      ⟨callers, caller.frame, caller.resume (answer left), ending left⟩ := by
  cases result <;> rfl

/-- What a machine that runs a program comes to, given how it answers the requests. -/
theorem reaches_finished_of {levels : Nat} {frame : Frame} {callers : List Caller}
    (serves : ∀ request resume (world : World σ),
      let served := engine.serve levels frame request world
      Reaches engine ⟨callers, frame, .ask request resume, world⟩
        ⟨callers, frame, resume (answer served), ending served⟩)
    (program : Program ExecutionError (Option Value)) (world : World σ) :
    Reaches engine ⟨callers, frame, program, world⟩
      (finished callers frame (program.run (engine.serve levels frame) world)) := by
  induction program generalizing world with
  | done value => exact .refl
  | fail error => exact .refl
  | ask request resume ih =>
    rw [Program.run_ask]
    exact (serves request resume world).trans (ih _ _)

/-- A frame that is as deep as frames may be is refused its calls. -/
theorem steps_deepest {machine : Machine σ} {request : CallRequest}
    {resume : Except ContractError (Option Value) → Program ExecutionError (Option Value)}
    (asks : machine.program = .ask (.call request) resume)
    (deepest : engine.limits.maxCallDepth ≤ machine.frame.depth) :
    Steps engine machine
      { machine with program := resume (.error (.callDepth engine.limits.maxCallDepth)) } := by
  simp only [Steps, next, asks, asking, calling, if_pos deepest, resumed, answer, ending]

/-- A frame that is not too deep enters the calls that it may make. -/
theorem steps_entered {frame : Frame} {request : CallRequest} {entry : Engine.Entry}
    {world inside : World σ}
    (shallow : frame.depth < engine.limits.maxCallDepth)
    (entered : engine.enter frame request world = .ok entry inside) (callers : List Caller)
    (resume : Except ContractError (Option Value) → Program ExecutionError (Option Value)) :
    Steps engine ⟨callers, frame, .ask (.call request) resume, world⟩
      ⟨⟨frame, request.target, entry, resume⟩ :: callers, entry.frame,
        engine.nestedProgram entry.code request, inside⟩ := by
  simp only [Steps, next, asking, calling, if_neg (Nat.not_le.mpr shallow), entered]

/-- A call goes the way that it goes with so many levels left, if what runs below it does. -/
theorem reaches_call {levels : Nat} {frame : Frame} (shallow : frame.depth < engine.limits.maxCallDepth)
    (below : ∀ callers inner program (world : World σ), inner.depth = frame.depth + 1 →
      Reaches engine ⟨callers, inner, program, world⟩
        (finished callers inner (program.run (engine.serve levels inner) world)))
    (callers : List Caller) (request : CallRequest)
    (resume : Except ContractError (Option Value) → Program ExecutionError (Option Value))
    (world : World σ) :
    let called := engine.call (levels + 1) frame request world
    Reaches engine ⟨callers, frame, .ask (.call request) resume, world⟩
      ⟨callers, frame, resume (answer called), ending called⟩ := by
  intro called
  cases entered : engine.enter frame request world with
  | error error after =>
    have first : Steps engine ⟨callers, frame, .ask (.call request) resume, world⟩ _ := rfl
    simp only [asking, calling, if_neg (Nat.not_le.mpr shallow), entered] at first
    unfold called
    rw [Engine.call_refused entered]
    exact .single first
  | ok entry inside =>
    obtain ⟨_, _, _, inner, _⟩ := Engine.enter_ok entered
    have deeper : entry.frame.depth = frame.depth + 1 := by
      rw [inner]
      rfl
    unfold called
    rw [Engine.call_entered entered]
    exact .head (steps_entered shallow entered callers resume)
      (.tail (below _ entry.frame _ inside deeper) (steps_finished ..))

/-- A machine comes to what a run comes to that has a level left for each that its frame is short of the
deepest. -/
theorem reaches_finished (levels : Nat) (callers : List Caller) (frame : Frame)
    (program : Program ExecutionError (Option Value)) (world : World σ)
    (depth : frame.depth + levels = engine.limits.maxCallDepth) :
    Reaches engine ⟨callers, frame, program, world⟩
      (finished callers frame (program.run (engine.serve levels frame) world)) := by
  induction levels generalizing callers frame program world with
  | zero =>
    refine reaches_finished_of (fun request resume world => ?_) program world
    cases request with
    | call request => exact .single (steps_deepest rfl depth.ge)
    | _ => exact .single rfl
  | succ levels ih =>
    refine reaches_finished_of (fun request resume world => ?_) program world
    cases request with
    | call request =>
      exact reaches_call (by omega) (fun callers inner program world deeper =>
        ih callers inner program world (by omega)) callers request resume world
    | _ => exact .single rfl

/-! No frame is deeper than it may be. -/

/-- Whether the callers of a frame at a depth are one level apart each, down to the outermost. -/
def Stacked : List Caller → Nat → Prop
  | [], depth => depth = 0
  | caller :: callers, depth => depth = caller.frame.depth + 1 ∧ Stacked callers caller.frame.depth

theorem Stacked.depth_eq {callers : List Caller} {depth : Nat} (stacked : Stacked callers depth) :
    depth = callers.length := by
  induction callers generalizing depth with
  | nil => exact stacked
  | cons caller callers ih =>
    obtain ⟨rfl, rest⟩ := stacked
    rw [List.length_cons, ← ih rest]

/-- A machine none of whose frames is too deep. -/
structure Bounded (engine : Engine) (machine : Machine σ) : Prop where
  stacked : Stacked machine.callers machine.frame.depth
  within : machine.frame.depth ≤ engine.limits.maxCallDepth

namespace Bounded

variable {machine after : Machine σ}

theorem calling (bounded : machine.Bounded engine) (request : CallRequest)
    (resume : Except ContractError (Option Value) → Program ExecutionError (Option Value)) :
    (machine.calling engine request resume).Bounded engine := by
  unfold Machine.calling
  split
  · exact ⟨bounded.stacked, bounded.within⟩
  · rename_i shallow
    cases entered : engine.enter machine.frame request machine.world with
    | error error after => exact ⟨bounded.stacked, bounded.within⟩
    | ok entry inside =>
      obtain ⟨_, _, _, inner, _⟩ := Engine.enter_ok entered
      have deeper : entry.frame.depth = machine.frame.depth + 1 := by
        rw [inner]
        rfl
      refine ⟨⟨deeper, bounded.stacked⟩, ?_⟩
      change entry.frame.depth ≤ _
      omega

theorem returning (bounded : machine.Bounded engine)
    {result : EStateM.Result ExecutionError (World σ) (Option Value)}
    (returns : machine.returning result = some after) : after.Bounded engine := by
  obtain ⟨stacked, within⟩ := bounded
  unfold Machine.returning at returns
  split at returns
  · cases returns
  · rename_i caller callers waiting
    cases returns
    rw [waiting] at stacked
    obtain ⟨deeper, rest⟩ := stacked
    exact ⟨rest, by change caller.frame.depth ≤ _; omega⟩

theorem next (bounded : machine.Bounded engine) (steps : Steps engine machine after) :
    after.Bounded engine := by
  unfold Steps Machine.next at steps
  split at steps
  · exact bounded.returning steps
  · exact bounded.returning steps
  · rename_i request resume _
    cases steps
    cases request with
    | call request => exact bounded.calling request resume
    | _ => exact ⟨bounded.stacked, bounded.within⟩

theorem reaches (bounded : machine.Bounded engine) (reaches : Reaches engine machine after) :
    after.Bounded engine := by
  induction reaches with
  | refl => exact bounded
  | tail _ steps ih => exact ih.next steps

end Bounded

end Machine

namespace Engine

open Machine

/-- Nested execution is bounded by its depth alone, whatever services cost. A machine that starts with an
invocation takes no endless run, and where it stops is the result of the invocation. At every point as many
frames wait as the running frame is deep, which is no deeper than the limit; and a frame at the limit is
refused its calls, nothing else being changed. -/
theorem perform_terminates (engine : Engine) (invocation : Invocation) (code : Bytes) (context : Context)
    (host : Host σ) (meter : GasMeter) :
    let first := start context (engine.invocationProgram invocation code context) (startWorld host meter)
    Acc (fun after before => Steps engine before after) first ∧
    (∃ last result, Reaches engine first last ∧ last.next engine = none ∧ last.outcome? = some result ∧
      engine.perform invocation code context host meter = finish invocation.name context result) ∧
    ∀ machine, Reaches engine first machine →
      machine.frame.depth = machine.callers.length ∧
      machine.frame.depth ≤ engine.limits.maxCallDepth ∧
      ∀ request resume, machine.program = .ask (.call request) resume →
        machine.frame.depth = engine.limits.maxCallDepth →
        machine.next engine =
          some { machine with program := resume (.error (.callDepth engine.limits.maxCallDepth)) } := by
  intro first
  have ends : Reaches engine first (finished [] (.outermost context) (engine.runOutermost context
      (engine.invocationProgram invocation code context) (startWorld host meter))) :=
    reaches_finished engine.limits.maxCallDepth [] (.outermost context) _ _ (Nat.zero_add _)
  have bounded : first.Bounded engine := ⟨rfl, Nat.zero_le _⟩
  refine ⟨ends.acc (next_finished _ _), ⟨_, _, ends, next_finished _ _, outcome?_finished _ _, perform_eq⟩,
    fun machine reaches => ?_⟩
  have within := bounded.reaches reaches
  exact ⟨within.stacked.depth_eq, within.within, fun request resume asks deepest =>
    steps_deepest asks deepest.ge⟩

end Engine

end ContractLedger
