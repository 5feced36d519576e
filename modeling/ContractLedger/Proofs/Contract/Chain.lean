import ContractLedger.Contract.Failure

/-!
Chains of failures. A failed call holds the failure of the callee, which may hold a failure of contract
code in its turn. Where a chain ends decides how a failure is reported: the refused charge, the last
failure of contract code, and whether the ledger failed are all read off the chain, however long it is.
-/

namespace ContractLedger

/-- One failure of a chain. -/
inductive Link where
  | contract (error : ContractError)
  | execution (error : ExecutionError)

namespace Link

/-- The failure of contract code that a link is, if it is one. -/
def contract? : Link → Option ContractError
  | contract error => some error
  | execution _ => none

/-- The refused charge that a link is, of whichever type. -/
def refused? : Link → Option OutOfGas
  | contract (.outOfGas refused) => some refused
  | execution (.outOfGas refused) => some refused
  | _ => none

end Link

mutual

/-- A failure of contract code and those inside it, the outermost first. -/
def ContractError.chain : ContractError → List Link
  | .call target cause => .contract (.call target cause) :: cause.chain
  | error => [.contract error]

/-- A failure of an invocation and those inside it, the outermost first. -/
def ExecutionError.chain : ExecutionError → List Link
  | .construct cause => .execution (.construct cause) :: cause.chain
  | .restore cause => .execution (.restore cause) :: cause.chain
  | .targetInvocation cause => .execution (.targetInvocation cause) :: cause.chain
  | error => [.execution error]

end

namespace ContractError

/-- Whether the chain of a failure ends in a refused charge. -/
def EndsExhausted (error : ContractError) (refused : OutOfGas) : Prop :=
  error.chain.getLast? = some (.contract (.outOfGas refused)) ∨
    error.chain.getLast? = some (.execution (.outOfGas refused))

/-- Whether the chain of a failure ends in a failure of the ledger. -/
def EndsInState (error : ContractError) : Prop :=
  ∃ reason, error.chain.getLast? = some (.contract (.state reason))

/-- The last failure of contract code on the chain of a failure. -/
def last? (error : ContractError) : Option ContractError :=
  (error.chain.filterMap Link.contract?).getLast?

end ContractError

theorem ContractError.chain_ne_nil (error : ContractError) : error.chain ≠ [] := by
  cases error <;> exact List.cons_ne_nil _ _

theorem ExecutionError.chain_ne_nil (error : ExecutionError) : error.chain ≠ [] := by
  cases error <;> exact List.cons_ne_nil _ _

theorem getLast?_link (link : Link) {rest : List Link} (more : rest ≠ []) :
    (link :: rest).getLast? = rest.getLast? := by
  rw [List.getLast?_cons, List.getLast?_eq_some_getLast more]
  rfl

mutual

/-- The refused charge of a failure is the one in which its chain ends. -/
theorem ContractError.outOfGas?_eq_chain : (error : ContractError) →
    error.outOfGas? = error.chain.getLast?.bind Link.refused?
  | .call target cause => by
    rw [ContractError.chain, getLast?_link _ cause.chain_ne_nil]
    exact cause.outOfGas?_eq_chain
  | .revert _ | .outOfGas _ | .insufficientBalance _ _ | .callDepth _ | .noContract _ | .state _
  | .instanceMismatch _ => rfl

/-- The refused charge of a failure is the one in which its chain ends. -/
theorem ExecutionError.outOfGas?_eq_chain : (error : ExecutionError) →
    error.outOfGas? = error.chain.getLast?.bind Link.refused?
  | .construct cause | .restore cause | .targetInvocation cause => by
    rw [ExecutionError.chain, getLast?_link _ cause.chain_ne_nil]
    exact cause.outOfGas?_eq_chain
  | .load _ | .argument _ | .parameterCount _ _ | .constructorInvocation | .outOfGas _ => rfl

end

mutual

/-- The innermost failure is the last one of contract code on the chain. -/
theorem ContractError.last?_eq : (error : ContractError) → error.last? = some error.innermost
  | .call target cause => by
    have links : (ContractError.call target cause).chain.filterMap Link.contract? =
      .call target cause :: cause.chain.filterMap Link.contract? := rfl
    rw [ContractError.last?, links, List.getLast?_cons, ← cause.cause?_eq_chain, ContractError.innermost]
  | .revert _ | .outOfGas _ | .insufficientBalance _ _ | .callDepth _ | .noContract _ | .state _
  | .instanceMismatch _ => rfl

/-- The cause of a failure is the last one of contract code on the chain. -/
theorem ExecutionError.cause?_eq_chain : (error : ExecutionError) →
    error.cause? = (error.chain.filterMap Link.contract?).getLast?
  | .construct cause | .restore cause | .targetInvocation cause => cause.last?_eq.symm
  | .load _ | .argument _ | .parameterCount _ _ | .constructorInvocation | .outOfGas _ => rfl

end

mutual

/-- The innermost failure is one of the ledger just if the chain ends in that. -/
theorem ContractError.innermost_eq_state {reason : LedgerError} : (error : ContractError) →
    (error.innermost = .state reason ↔ error.chain.getLast? = some (.contract (.state reason)))
  | .call target cause => by
    rw [ContractError.chain, getLast?_link _ cause.chain_ne_nil, ← cause.cause?_eq_state,
      ContractError.innermost]
    cases cause.cause? <;> simp
  | .revert _ | .outOfGas _ | .insufficientBalance _ _ | .callDepth _ | .noContract _ | .state _
  | .instanceMismatch _ => by simp [ContractError.innermost, ContractError.chain]

/-- The cause of a failure is one of the ledger just if the chain ends in that. -/
theorem ExecutionError.cause?_eq_state {reason : LedgerError} : (error : ExecutionError) →
    (error.cause? = some (.state reason) ↔
      error.chain.getLast? = some (.contract (.state reason)))
  | .construct cause | .restore cause | .targetInvocation cause => by
    rw [ExecutionError.chain, getLast?_link _ cause.chain_ne_nil, ← cause.innermost_eq_state,
      ExecutionError.cause?, Option.some.injEq]
  | .load _ | .argument _ | .parameterCount _ _ | .constructorInvocation | .outOfGas _ => by
    simp [ExecutionError.cause?, ExecutionError.chain]

end

namespace ContractError

variable {error : ContractError} {refused : OutOfGas}

/-- A failure tells of a refused charge just if its chain ends in it. -/
theorem outOfGas?_eq_some : error.outOfGas? = some refused ↔ error.EndsExhausted refused := by
  rw [outOfGas?_eq_chain, EndsExhausted, Option.bind_eq_some_iff]
  constructor
  · rintro ⟨link, last, tells⟩
    rw [last]
    cases link with
    | contract error =>
      cases error <;> cases tells
      exact .inl rfl
    | execution error =>
      cases error <;> cases tells
      exact .inr rfl
  · rintro (last | last)
    · exact ⟨_, last, rfl⟩
    · exact ⟨_, last, rfl⟩

/-- A failure tells of no charge just if its chain ends in none. -/
theorem outOfGas?_eq_none : error.outOfGas? = none ↔ ¬ ∃ refused, error.EndsExhausted refused := by
  simp only [← outOfGas?_eq_some, Option.eq_none_iff_forall_ne_some, ne_eq, not_exists]

end ContractError

/-- What contract code was doing for an invocation when it failed. -/
inductive Wrapping where
  | construct
  | restore
  | targetInvocation
deriving DecidableEq

namespace Wrapping

def wrap : Wrapping → ContractError → ExecutionError
  | construct => .construct
  | restore => .restore
  | targetInvocation => .targetInvocation

/-- The category of that failure, by its form. -/
def kind : Wrapping → FailureKind
  | construct => .construct
  | restore => .restore
  | targetInvocation => .targetInvocation

variable (wrapping : Wrapping) (cause : ContractError)

@[simp]
theorem formKind_wrap : (wrapping.wrap cause).formKind = wrapping.kind := by
  cases wrapping <;> rfl

@[simp]
theorem cause?_wrap : (wrapping.wrap cause).cause? = some cause.innermost := by
  cases wrapping <;> rfl

@[simp]
theorem outOfGas?_wrap : (wrapping.wrap cause).outOfGas? = cause.outOfGas? := by
  cases wrapping <;> rfl

theorem kind_ne : wrapping.kind ≠ .outOfGas ∧ wrapping.kind ≠ .state := by
  cases wrapping <;> decide

end Wrapping

namespace ExecutionError

/-- Whether two failures are reported alike: by their category, their cause and their refused charge. -/
structure Alike (first second : ExecutionError) : Prop where
  kind : first.kind = second.kind
  cause : first.cause? = second.cause?
  charge : first.outOfGas? = second.outOfGas?

theorem Alike.refl (error : ExecutionError) : Alike error error := ⟨rfl, rfl, rfl⟩

theorem Alike.trans {first second third : ExecutionError} (onward : Alike first second)
    (further : Alike second third) : Alike first third :=
  ⟨onward.kind.trans further.kind, onward.cause.trans further.cause, onward.charge.trans further.charge⟩

variable {cause : ContractError} {wrapping : Wrapping} {refused : OutOfGas}

theorem fromCause_refused (exhausts : cause.EndsExhausted refused) :
    fromCause cause wrapping.wrap = .outOfGas refused := by
  rw [fromCause, ContractError.outOfGas?_eq_some.mpr exhausts]

theorem fromCause_wraps (silent : ¬ ∃ refused, cause.EndsExhausted refused) :
    fromCause cause wrapping.wrap = wrapping.wrap cause := by
  rw [fromCause, ContractError.outOfGas?_eq_none.mpr silent]

/-- A failure is of the ledger's category if the innermost failure behind it is the ledger's. -/
theorem kind_wrap_state (state : cause.EndsInState) : (wrapping.wrap cause).kind = .state := by
  obtain ⟨reason, last⟩ := state
  rw [kind, Wrapping.cause?_wrap, cause.innermost_eq_state.mpr last]

/-- Any other failure that wraps another is of the category of its form. -/
theorem kind_wrap_form (other : ¬ cause.EndsInState) :
    (wrapping.wrap cause).kind = wrapping.kind := by
  rw [kind, Wrapping.cause?_wrap]
  split
  · rename_i reason innermost
    exact absurd ⟨reason, cause.innermost_eq_state.mp (Option.some.inj innermost)⟩ other
  · exact wrapping.formKind_wrap cause

/-- A chain that ends in a refused charge ends in no failure of the ledger. -/
theorem not_endsInState (exhausts : cause.EndsExhausted refused) : ¬ cause.EndsInState := by
  rintro ⟨reason, last⟩
  rcases exhausts with same | same <;> cases last.symm.trans same

/-- A failure that a call hands on is reported as if it had been raised where the call was made. -/
theorem fromCause_call (target : Address) (raised : ContractError) (inner outer : Wrapping) :
    Alike (fromCause (.call target (fromCause raised inner.wrap)) outer.wrap)
      (fromCause raised outer.wrap) := by
  by_cases exhausted : ∃ refused, raised.EndsExhausted refused
  · obtain ⟨refused, exhausts⟩ := exhausted
    rw [fromCause_refused exhausts, fromCause_refused exhausts]
    exact .refl _
  have silent : raised.outOfGas? = none := ContractError.outOfGas?_eq_none.mpr exhausted
  have same : fromCause (.call target (inner.wrap raised)) outer.wrap =
      outer.wrap (.call target (inner.wrap raised)) := by
    refine fromCause_wraps (ContractError.outOfGas?_eq_none.mp ?_)
    exact (inner.outOfGas?_wrap raised).trans silent
  have innermost : (ContractError.call target (inner.wrap raised)).innermost = raised.innermost := by
    rw [ContractError.innermost, inner.cause?_wrap, Option.getD_some]
  rw [fromCause_wraps exhausted, same, fromCause_wraps exhausted]
  refine ⟨?_, ?_, ?_⟩
  · simp only [kind, Wrapping.cause?_wrap, Wrapping.formKind_wrap, innermost]
  · simp only [Wrapping.cause?_wrap, innermost]
  · simp only [Wrapping.outOfGas?_wrap]
    exact inner.outOfGas?_wrap raised

/-- How a wrapped failure is reported is decided by where the chain of its cause ends: in a refused
charge, in a failure of the ledger or, in all other cases, by what wraps it; and its cause is the last
failure of contract code on that chain, unless gas ran out. -/
theorem fromCause_reports (cause : ContractError) (wrapping : Wrapping) :
    let error := fromCause cause wrapping.wrap
    (error.kind = .outOfGas ↔ ∃ refused, cause.EndsExhausted refused) ∧
    (∀ refused, cause.EndsExhausted refused → error.outOfGas? = some refused) ∧
    (error.kind = .state ↔ cause.EndsInState) ∧
    ((¬ ∃ refused, cause.EndsExhausted refused) → ¬ cause.EndsInState → error.kind = wrapping.kind) ∧
    ((∀ refused, error ≠ .outOfGas refused) → error.cause? = cause.last?) := by
  intro error
  by_cases exhausted : ∃ refused, cause.EndsExhausted refused
  · obtain ⟨refused, exhausts⟩ := exhausted
    have same : error = .outOfGas refused := fromCause_refused exhausts
    rw [same]
    refine ⟨⟨fun _ => ⟨refused, exhausts⟩, fun _ => rfl⟩, fun other ends => ?_, ?_, ?_, ?_⟩
    · exact (ContractError.outOfGas?_eq_some.mpr exhausts).symm.trans
        (ContractError.outOfGas?_eq_some.mpr ends)
    · exact ⟨nofun, fun state => absurd state (not_endsInState exhausts)⟩
    · exact fun silent => absurd ⟨refused, exhausts⟩ silent
    · exact fun other => absurd rfl (other refused)
  have same : error = wrapping.wrap cause := fromCause_wraps exhausted
  rw [same]
  have causes : (wrapping.wrap cause).cause? = cause.last? :=
    (wrapping.cause?_wrap cause).trans cause.last?_eq.symm
  refine ⟨⟨fun kind => ?_, fun some => absurd some exhausted⟩,
    fun refused exhausts => absurd ⟨refused, exhausts⟩ exhausted, ?_, fun _ => kind_wrap_form,
    fun _ => causes⟩
  · by_cases state : cause.EndsInState
    · cases (kind_wrap_state state).symm.trans kind
    · exact absurd ((kind_wrap_form state).symm.trans kind) wrapping.kind_ne.1
  · by_cases state : cause.EndsInState
    · exact ⟨fun _ => state, kind_wrap_state⟩
    · exact ⟨fun kind => absurd ((kind_wrap_form state).symm.trans kind) wrapping.kind_ne.2, kind_wrap_state⟩

end ExecutionError

end ContractLedger
