import ContractLedger.Proofs.Engine.Relay
import ContractLedger.Proofs.Engine.Metering

/-!
Properties of the code that an engine loads. If the ways to put programs together keep a property, and
every piece of contract code has it, then so has everything that the engine runs of that code: what it
constructs, restores and invokes, from outside or by a call.
-/

namespace ContractLedger

/-- Whether a program ends in nothing but what tells of a refused charge. -/
def Program.Tells {ε α : Type} (told : Except ε α → Option OutOfGas) : Program ε α → Prop
  | .done value => ∃ refused, refused ∈ told (.ok value)
  | .fail error => ∃ refused, refused ∈ told (.error error)
  | .ask _ resume => ∀ answer, (resume answer).Tells told

/-- A property of programs, given the refused charge that their ends tell of, that the ways to put
programs together keep. What follows a part that tells of a charge is known to tell of one too. -/
structure Program.Composes
    (holds : ∀ {ε α : Type}, (Except ε α → Option OutOfGas) → Program ε α → Prop) : Prop where
  done : ∀ {ε α : Type} (told : Except ε α → Option OutOfGas) (value : α), holds told (.done value)
  fail : ∀ {ε α : Type} (told : Except ε α → Option OutOfGas) (error : ε), holds told (.fail error)
  bind : ∀ {ε α β : Type} {told : Except ε α → Option OutOfGas}
    {toldNext : Except ε β → Option OutOfGas} {program : Program ε α} {next : α → Program ε β},
    holds told program → (∀ error, toldNext (.error error) = told (.error error)) →
      (∀ value, holds toldNext (next value)) →
      (∀ value, (∃ refused, refused ∈ told (.ok value)) → (next value).Tells toldNext) →
      holds toldNext (program >>= next)
  mapError : ∀ {ε ε' α : Type} {told : Except ε α → Option OutOfGas}
    {toldAfter : Except ε' α → Option OutOfGas} {program : Program ε α} {change : ε → ε'},
    holds told program → (∀ value, toldAfter (.ok value) = told (.ok value)) →
      (∀ error, toldAfter (.error (change error)) = told (.error error)) →
      holds toldAfter (program.mapError change)
  attempt : ∀ {ε α : Type} {code : Code α}, holds ContractError.told code →
    ∀ told : ε → Option OutOfGas, holds (ContractError.toldInside told) code.attempt

section Composition

variable {holds : ∀ {ε α : Type}, (Except ε α → Option OutOfGas) → Program ε α → Prop}

/-- Whether a contract type consists of code with a property. -/
structure ContractType.Consists
    (holds : ∀ {ε α : Type}, (Except ε α → Option OutOfGas) → Program ε α → Prop)
    (type : ContractType) : Prop where
  restorer : holds ContractError.told type.restorer
  constructor : ∀ constructor ∈ type.constructor, ∀ arguments,
    holds ContractError.told (constructor.body arguments)
  methods : ∀ name method, type.methods.get? name = some method →
    ∀ target arguments, holds ContractError.told (method.body target arguments)

/-- Whether all code that an engine loads has a property. -/
def Engine.Consists
    (holds : ∀ {ε α : Type}, (Except ε α → Option OutOfGas) → Program ε α → Prop)
    (engine : Engine) : Prop :=
  ∀ code module, engine.load code = .ok module → ∀ type ∈ module, type.Consists holds

/-- A sequence whose first part tells of refused charges only by failing. -/
theorem Program.Composes.andThen (composes : Program.Composes holds) {ε α β : Type}
    {told : Except ε α → Option OutOfGas} {toldNext : Except ε β → Option OutOfGas} {program : Program ε α}
    {next : α → Program ε β} (first : holds told program)
    (same : ∀ error, toldNext (.error error) = told (.error error)) (silent : ∀ value, told (.ok value) = none)
    (rest : ∀ value, holds toldNext (next value)) : holds toldNext (program >>= next) := by
  refine composes.bind first same rest fun value heard => ?_
  obtain ⟨refused, member⟩ := heard
  rw [silent value] at member
  cases member

namespace ContractType

variable {type : ContractType}

theorem consists_start (name layout : String) {restorer : Code (List Value)}
    (kept : holds ContractError.told restorer) : (start name layout restorer).Consists holds :=
  ⟨kept, nofun, nofun⟩

theorem Consists.withMethod (consists : type.Consists holds) (name : String) {signature : Signature}
    {body : Instance → signature.Arguments → Code (Option Value)}
    (kept : ∀ target arguments, holds ContractError.told (body target arguments)) :
    (type.withMethod name signature body).Consists holds := by
  refine ⟨consists.restorer, consists.constructor, fun other method found => ?_⟩
  rw [ContractType.withMethod, OrderedMap.get?_insert] at found
  split at found
  · cases found
    exact kept
  · exact consists.methods other method found

variable (composes : Program.Composes holds)
include composes

private theorem wrapped {α : Type} {code : Code α} (kept : holds ContractError.told code)
    {wrap : ContractError → ExecutionError}
    (wraps : ∀ cause, (wrap cause).outOfGas? = cause.outOfGas?) :
    holds ExecutionError.told (code.mapError fun cause => .fromCause cause wrap) :=
  composes.mapError kept (fun _ => rfl) fun cause =>
    ExecutionError.outOfGas?_fromCause cause wrap wraps

theorem Consists.construct (consists : type.Consists holds) (parameters : List Value) :
    holds ExecutionError.told (type.construct parameters) := by
  unfold ContractType.construct
  split
  · exact composes.fail _ _
  have fields {body : Code (List Value)} (kept : holds ContractError.told body) :
      holds ExecutionError.told
        (body.mapError (fun cause => ExecutionError.fromCause cause .construct) >>= fun fields =>
          pure (type.newInstance fields)) :=
    composes.andThen (wrapped composes kept fun _ => rfl) (fun _ => rfl) (fun _ => rfl)
      fun _ => composes.done _ _
  cases built : type.constructor with
  | none => exact fields consists.restorer
  | some constructor =>
    simp only
    cases constructor.signature.accept parameters with
    | ok arguments => exact fields (consists.constructor constructor built arguments)
    | error reason => exact composes.fail _ _

private theorem Consists.invoke (consists : type.Consists holds) (target : Instance)
    (method : String) (parameters : List Value) :
    holds Outcome.told (type.invoke target method parameters) := by
  unfold ContractType.invoke
  split
  · exact composes.done _ _
  split
  · exact composes.done _ _
  cases found : type.methods.get? method with
  | none => exact composes.done _ _
  | some member =>
    simp only
    split
    · exact composes.done _ _
    split
    · exact composes.done _ _
    cases member.signature.accept parameters with
    | error reason => exact composes.done _ _
    | ok arguments =>
      have body := consists.methods method member found target arguments
      refine composes.bind (composes.attempt body ExecutionError.outOfGas?) (fun _ => rfl)
        (fun result => ?_) fun result told => ?_
      · cases result <;> exact composes.done _ _
      · cases result with
        | ok returned => cases told; contradiction
        | error cause => exact told

theorem Consists.perform (consists : type.Consists holds) (method : String)
    (parameters : List Value) : holds ExecutionError.told (type.perform method parameters) := by
  have restored : holds ContractError.told type.restore :=
    composes.andThen consists.restorer (fun _ => rfl) (fun _ => rfl) fun _ => composes.done _ _
  refine composes.andThen (wrapped composes restored fun _ => rfl) (fun _ => rfl) (fun _ => rfl)
    fun target => ?_
  refine composes.bind (consists.invoke composes target method parameters) (fun _ => rfl)
    (fun outcome => ?_) fun outcome told => ?_
  · cases outcome <;> first | exact composes.done _ _ | exact composes.fail _ _
  · cases outcome with
    | targetFailed cause =>
      have same := ExecutionError.outOfGas?_fromCause cause .targetInvocation fun _ => rfl
      obtain ⟨refused, member⟩ := told
      exact ⟨refused, same.trans member⟩
    | _ => cases told; contradiction

end ContractType

namespace Engine

variable {engine : Engine}

theorem Consists.loadType (consists : engine.Consists holds) {code : Bytes} {type : ContractType}
    (loaded : engine.loadType code = .ok (some type)) : type.Consists holds := by
  obtain ⟨module, found, member⟩ := module_of_loadType loaded
  exact consists code module found type member

variable (composes : Program.Composes holds)
include composes

theorem Consists.nestedProgram (consists : engine.Consists holds) (code : Bytes)
    (request : CallRequest) : holds ExecutionError.told (engine.nestedProgram code request) := by
  unfold Engine.nestedProgram
  cases loaded : engine.loadType (engine.injector.prepareMethod code request.method) with
  | error reason => exact composes.fail _ _
  | ok found =>
    cases found with
    | none => exact composes.fail _ _
    | some type => exact (consists.loadType loaded).perform composes request.method request.parameters

theorem Consists.invocationProgram (consists : engine.Consists holds) (invocation : Invocation)
    (code : Bytes) (context : Context) :
    holds ExecutionError.told (engine.invocationProgram invocation code context) := by
  cases invocation with
  | create =>
    simp only [Engine.invocationProgram, Engine.constructorProgram]
    cases loaded : engine.loadType (engine.injector.prepareConstructor code) with
    | error reason => exact composes.fail _ _
    | ok found =>
      cases found with
      | none => exact composes.fail _ _
      | some type =>
        exact composes.andThen ((consists.loadType loaded).construct composes context.parameters)
          (fun _ => rfl) (fun _ => rfl) fun _ => composes.done _ _
  | call method =>
    cases method with
    | none => exact composes.done _ _
    | some method =>
      simp only [Engine.invocationProgram, Engine.methodProgram]
      cases loaded : engine.loadType (engine.injector.prepareMethod code method) with
      | error reason => exact composes.fail _ _
      | ok found =>
        cases found with
        | none => exact composes.done _ _
        | some type => exact (consists.loadType loaded).perform composes method context.parameters

end Engine

end Composition

end ContractLedger
