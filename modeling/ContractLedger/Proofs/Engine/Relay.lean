import ContractLedger.Engine.Services
import ContractLedger.Proofs.OrderedMap
import Mathlib.Data.Set.Basic

/-!
Code that relays refused charges. A service that cannot be paid for fails with the charge that was
refused. Code may fail with that charge in its turn, or with a failure that wraps it, or go on as if
nothing had happened; but it makes no charge up. What an engine runs of such code relays refused
charges as well.
-/

namespace ContractLedger

/-- The refused charge that the result of code tells of. -/
def ContractError.told {α : Type} : Except ContractError α → Option OutOfGas
  | .ok _ => none
  | .error error => error.outOfGas?

/-- The refused charge that the result of an invocation tells of. -/
def ExecutionError.told {α : Type} : Except ExecutionError α → Option OutOfGas
  | .ok _ => none
  | .error error => error.outOfGas?

/-- The refused charge that the outcome of an operation tells of. -/
def Outcome.told : Except ExecutionError Outcome → Option OutOfGas
  | .ok (.targetFailed cause) => cause.outOfGas?
  | .ok _ => none
  | .error error => error.outOfGas?

/-- The refused charge that an attempt tells of, which fails in its value only. -/
def ContractError.toldInside {ε α : Type} (told : ε → Option OutOfGas) :
    Except ε (Except ContractError α) → Option OutOfGas
  | .ok result => ContractError.told result
  | .error error => told error

/-- Whether a program tells only of refused charges that are known or that a service answered. -/
def Program.Relays {ε α : Type} (told : Except ε α → Option OutOfGas) :
    Set OutOfGas → Program ε α → Prop
  | known, .done value => ∀ refused ∈ told (.ok value), refused ∈ known
  | known, .fail error => ∀ refused ∈ told (.error error), refused ∈ known
  | known, .ask _ resume => ∀ answer,
    (resume answer).Relays told (known ∪ { refused | refused ∈ ContractError.told answer })

/-- Whether code fails only with charges that a service refused. -/
abbrev Code.Relays {α : Type} (known : Set OutOfGas) (code : Code α) : Prop :=
  Program.Relays ContractError.told known code

namespace Program

variable {ε ε' α β : Type} {told : Except ε α → Option OutOfGas} {known more : Set OutOfGas}
  {program : Program ε α}

theorem Relays.mono (relays : program.Relays told known) (subset : known ⊆ more) :
    program.Relays told more := by
  induction program generalizing known more with
  | done value => exact fun refused member => subset (relays refused member)
  | fail error => exact fun refused member => subset (relays refused member)
  | ask request resume ih =>
    exact fun answer => ih answer (relays answer) (Set.union_subset_union_left _ subset)

/-- A sequence relays if its second part does with what the first part told of. -/
theorem Relays.bind {next : α → Program ε β} {toldNext : Except ε β → Option OutOfGas}
    (relays : program.Relays told known)
    (same : ∀ error, toldNext (.error error) = told (.error error))
    (rest : ∀ value more, known ⊆ more → (∀ refused ∈ told (.ok value), refused ∈ more) →
      (next value).Relays toldNext more) :
    (program >>= next).Relays toldNext known := by
  induction program generalizing known with
  | done value => exact rest value known (Set.Subset.refl _) relays
  | fail error =>
    intro refused member
    rw [same] at member
    exact relays refused member
  | ask request resume ih =>
    exact fun answer => ih answer (relays answer)
      fun value more subset => rest value more (Set.subset_union_left.trans subset)

theorem Relays.mapError {change : ε → ε'} {toldAfter : Except ε' α → Option OutOfGas}
    (relays : program.Relays told known)
    (sameValue : ∀ value, toldAfter (.ok value) = told (.ok value))
    (sameError : ∀ error, toldAfter (.error (change error)) = told (.error error)) :
    (program.mapError change).Relays toldAfter known := by
  induction program generalizing known with
  | done value =>
    intro refused member
    rw [sameValue] at member
    exact relays refused member
  | fail error =>
    intro refused member
    rw [sameError] at member
    exact relays refused member
  | ask request resume ih => exact fun answer => ih answer (relays answer)

end Program

namespace Code

open ContractError

variable {ε α β : Type} {known : Set OutOfGas} {code : Code α}

theorem relays_request (known : Set OutOfGas) (request : Request) :
    Code.Relays known (Program.request request) := by
  intro answer
  cases answer with
  | ok value => exact nofun
  | error error => exact fun refused member => .inr member

theorem relays_done (known : Set OutOfGas) (value : α) : Code.Relays known (.done value) := nofun

theorem Relays.andThen {next : α → Code β} (relays : code.Relays known)
    (rest : ∀ value, (next value).Relays known) : Code.Relays known (code >>= next) :=
  Program.Relays.bind relays (fun _ => rfl) fun value _ subset _ => (rest value).mono subset

theorem Relays.attempt (relays : code.Relays known) (told : ε → Option OutOfGas) :
    (code.attempt : Program ε _).Relays (toldInside told) known := by
  induction code generalizing known with
  | done value => exact relays
  | fail error => exact relays
  | ask request resume ih => exact fun answer => ih answer (relays answer)

theorem Relays.recover {next : Except ContractError α → Code β} (relays : code.Relays known)
    (rest : ∀ result,
      (next result).Relays (known ∪ { refused | refused ∈ ContractError.told result })) :
    Code.Relays known (code.attempt >>= next) :=
  Program.Relays.bind (relays.attempt ContractError.outOfGas?) (fun _ => rfl)
    fun result _ subset told => (rest result).mono (Set.union_subset subset told)

end Code

namespace ExecutionError

/-- A wrapped failure tells of the charge that its cause tells of. -/
theorem outOfGas?_fromCause (cause : ContractError) (wrap : ContractError → ExecutionError)
    (wraps : ∀ cause, (wrap cause).outOfGas? = cause.outOfGas?) :
    (fromCause cause wrap).outOfGas? = cause.outOfGas? := by
  unfold fromCause
  cases found : cause.outOfGas? with
  | none => exact (wraps cause).trans found
  | some refused => rfl

/-- Only a refused charge makes the category of a failure that of exhausted gas. -/
theorem outOfGas?_of_kind {error : ExecutionError} (kind : error.kind = .outOfGas) :
    ∃ refused, error.outOfGas? = some refused := by
  have form : error.formKind = .outOfGas := by
    unfold ExecutionError.kind at kind
    split at kind
    · cases kind
    · exact kind
  cases error with
  | outOfGas refused => exact ⟨refused, rfl⟩
  | _ => cases form

end ExecutionError

/-- Code that fails with a failure of the invocation that runs it. -/
theorem Code.Relays.wrapped {α : Type} {known : Set OutOfGas} {code : Code α}
    (relays : code.Relays known) {wrap : ContractError → ExecutionError}
    (wraps : ∀ cause, (wrap cause).outOfGas? = cause.outOfGas?) :
    (code.mapError fun cause => .fromCause cause wrap).Relays ExecutionError.told known :=
  Program.Relays.mapError relays (fun _ => rfl) fun cause =>
    ExecutionError.outOfGas?_fromCause cause wrap wraps

/-- Whether all code of a contract type relays refused charges. -/
structure ContractType.Relays (type : ContractType) : Prop where
  restorer : type.restorer.Relays ∅
  constructor : ∀ constructor ∈ type.constructor, ∀ arguments, (constructor.body arguments).Relays ∅
  methods : ∀ name method, type.methods.get? name = some method →
    ∀ target arguments, (method.body target arguments).Relays ∅

namespace ContractType

open Program

variable {type : ContractType}

theorem relays_start (name layout : String) {restorer : Code (List Value)}
    (relays : restorer.Relays ∅) : (start name layout restorer).Relays :=
  ⟨relays, nofun, nofun⟩

theorem Relays.withMethod (relays : type.Relays) (name : String) {signature : Signature}
    {body : Instance → signature.Arguments → Code (Option Value)}
    (relaysBody : ∀ target arguments, (body target arguments).Relays ∅) :
    (type.withMethod name signature body).Relays := by
  refine ⟨relays.restorer, relays.constructor, fun other method found => ?_⟩
  rw [ContractType.withMethod, OrderedMap.get?_insert] at found
  split at found
  · cases found
    exact relaysBody
  · exact relays.methods other method found

theorem Relays.construct (relays : type.Relays) (parameters : List Value) :
    (type.construct parameters).Relays ExecutionError.told ∅ := by
  unfold ContractType.construct
  by_cases counted : parameters.length ≠ type.constructorArity
  · rw [if_pos counted]
    exact nofun
  rw [if_neg counted]
  have fields {body : Code (List Value)} (relaysBody : body.Relays ∅) :
      (body.mapError (fun cause => ExecutionError.fromCause cause .construct) >>= fun fields =>
        pure (type.newInstance fields)).Relays ExecutionError.told ∅ :=
    (relaysBody.wrapped fun _ => rfl).bind (fun _ => rfl) fun _ _ _ _ => nofun
  cases built : type.constructor with
  | none => exact fields relays.restorer
  | some constructor =>
    simp only
    cases constructor.signature.accept parameters with
    | ok arguments => exact fields (relays.constructor constructor built arguments)
    | error reason => exact nofun

theorem Relays.invoke (relays : type.Relays) (target : Instance) (method : String)
    (parameters : List Value) :
    (type.invoke target method parameters).Relays Outcome.told ∅ := by
  unfold ContractType.invoke
  split
  · exact nofun
  split
  · exact nofun
  cases found : type.methods.get? method with
  | none => exact nofun
  | some member =>
    simp only
    split
    · exact nofun
    split
    · exact nofun
    cases member.signature.accept parameters with
    | error reason => exact nofun
    | ok arguments =>
      have body := relays.methods method member found target arguments
      refine (body.attempt ExecutionError.outOfGas?).bind (fun _ => rfl) fun result more _ told => ?_
      cases result with
      | ok returned => exact nofun
      | error cause => exact told

theorem Relays.perform (relays : type.Relays) (method : String) (parameters : List Value) :
    (type.perform method parameters).Relays ExecutionError.told ∅ := by
  have restored : type.restore.Relays ∅ := relays.restorer.andThen fun _ => Code.relays_done _ _
  refine (restored.wrapped fun _ => rfl).bind (fun _ => rfl) fun target more _ _ => ?_
  refine ((relays.invoke target method parameters).mono (Set.empty_subset more)).bind (fun _ => rfl)
    fun outcome most _ told => ?_
  cases outcome with
  | targetFailed cause =>
    intro refused member
    have same := ExecutionError.outOfGas?_fromCause cause .targetInvocation fun _ => rfl
    exact told refused (same.symm.trans member)
  | _ => exact nofun

end ContractType

namespace Engine

/-- Whether all code that an engine loads relays refused charges. -/
def Relays (engine : Engine) : Prop :=
  ∀ code module, engine.load code = .ok module → ∀ type ∈ module, type.Relays

variable {engine : Engine}

theorem module_of_loadType {code : Bytes} {type : ContractType}
    (loaded : engine.loadType code = .ok (some type)) :
    ∃ module, engine.load code = .ok module ∧ type ∈ module := by
  unfold Engine.loadType at loaded
  cases found : engine.load code with
  | error reason =>
    rw [found] at loaded
    cases loaded
  | ok module =>
    rw [found] at loaded
    change Module.singleType module = _ at loaded
    match module, loaded with
    | [_], rfl => exact ⟨_, rfl, List.mem_cons_self⟩

theorem Relays.loadType (relays : engine.Relays) {code : Bytes} {type : ContractType}
    (loaded : engine.loadType code = .ok (some type)) : type.Relays := by
  obtain ⟨module, found, member⟩ := module_of_loadType loaded
  exact relays code module found type member

theorem Relays.nestedProgram (relays : engine.Relays) (code : Bytes) (request : CallRequest) :
    (engine.nestedProgram code request).Relays ExecutionError.told ∅ := by
  unfold Engine.nestedProgram
  cases loaded : engine.loadType (engine.injector.prepareMethod code request.method) with
  | error reason => exact nofun
  | ok found =>
    cases found with
    | none => exact nofun
    | some type => exact (relays.loadType loaded).perform request.method request.parameters

end Engine

end ContractLedger
