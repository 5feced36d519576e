import ContractLedger.Contract.Samples
import ContractLedger.Proofs.Engine.Lockstep
import ContractLedger.Proofs.Engine.Seen

/-!
Refused charges and the code around them. A charge that is refused, at whatever depth, fails the service
that asked for it, and every frame above is told of it as the failure of a call. So the invocation fails
for want of gas, unless code in one of these frames goes on to an end that does not tell of the charge any
more. Code that heeds refused charges never does. In either case all gas is spent.
-/

namespace ContractLedger

variable {σ α β : Type}

/-- Whether code that is told of a refused charge goes on to an end that tells of one. -/
def Program.Heeds {ε α : Type} (told : Except ε α → Option OutOfGas) : Program ε α → Prop
  | .done _ => True
  | .fail _ => True
  | .ask _ resume => ∀ answer,
    ((∃ refused, refused ∈ ContractError.told answer) → (resume answer).Tells told) ∧
      (resume answer).Heeds told

namespace Program

variable {ε ε' : Type} {told : Except ε α → Option OutOfGas} {program : Program ε α}

/-- A sequence tells of a refused charge if its first part does and hands it on. -/
theorem Tells.bind {next : α → Program ε β} {toldNext : Except ε β → Option OutOfGas}
    (tells : program.Tells told) (same : ∀ error, toldNext (.error error) = told (.error error))
    (rest : ∀ value, (∃ refused, refused ∈ told (.ok value)) → (next value).Tells toldNext) :
    (program >>= next).Tells toldNext := by
  induction program with
  | done value => exact rest value tells
  | fail error =>
    obtain ⟨refused, member⟩ := tells
    exact ⟨refused, (same error).trans member⟩
  | ask request resume ih => exact fun answer => ih answer (tells answer)

theorem Tells.mapError {change : ε → ε'} {toldAfter : Except ε' α → Option OutOfGas}
    (tells : program.Tells told) (sameValue : ∀ value, toldAfter (.ok value) = told (.ok value))
    (sameError : ∀ error, toldAfter (.error (change error)) = told (.error error)) :
    (program.mapError change).Tells toldAfter := by
  induction program with
  | done value =>
    obtain ⟨refused, member⟩ := tells
    exact ⟨refused, (sameValue value).trans member⟩
  | fail error =>
    obtain ⟨refused, member⟩ := tells
    exact ⟨refused, (sameError error).trans member⟩
  | ask request resume ih => exact fun answer => ih answer (tells answer)

theorem Tells.attempt {code : Code α} (tells : code.Tells ContractError.told)
    (told : ε → Option OutOfGas) :
    (code.attempt : Program ε _).Tells (ContractError.toldInside told) := by
  induction code with
  | done value => exact tells
  | fail error => exact tells
  | ask request resume ih => exact fun answer => ih answer (tells answer)

theorem Tells.run (tells : program.Tells told)
    (serve : (request : Request) → ServiceM σ request.Answer) (world : World σ) :
    ∃ refused, refused ∈ told (answer (program.run serve world)) := by
  induction program generalizing world with
  | done value => exact tells
  | fail error => exact tells
  | ask request resume ih =>
    rw [Program.run_ask]
    exact ih _ (tells _) _

theorem heeds_request (request : Request) : (Program.request request).Heeds ContractError.told := by
  intro answer
  cases answer with
  | ok value => exact ⟨(nomatch ·), trivial⟩
  | error error => exact ⟨id, trivial⟩

theorem Heeds.bind {next : α → Program ε β} {toldNext : Except ε β → Option OutOfGas}
    (heeds : program.Heeds told) (same : ∀ error, toldNext (.error error) = told (.error error))
    (heedsNext : ∀ value, (next value).Heeds toldNext)
    (rest : ∀ value, (∃ refused, refused ∈ told (.ok value)) → (next value).Tells toldNext) :
    (program >>= next).Heeds toldNext := by
  induction program with
  | done value => exact heedsNext value
  | fail error => trivial
  | ask request resume ih =>
    intro answer
    obtain ⟨tells, after⟩ := heeds answer
    exact ⟨fun member => (tells member).bind same rest, ih answer after⟩

theorem Heeds.mapError {change : ε → ε'} {toldAfter : Except ε' α → Option OutOfGas}
    (heeds : program.Heeds told) (sameValue : ∀ value, toldAfter (.ok value) = told (.ok value))
    (sameError : ∀ error, toldAfter (.error (change error)) = told (.error error)) :
    (program.mapError change).Heeds toldAfter := by
  induction program with
  | ask request resume ih =>
    intro answer
    obtain ⟨tells, after⟩ := heeds answer
    exact ⟨fun member => (tells member).mapError sameValue sameError, ih answer after⟩
  | _ => trivial

theorem Heeds.attempt {code : Code α} (heeds : code.Heeds ContractError.told)
    (told : ε → Option OutOfGas) :
    (code.attempt : Program ε _).Heeds (ContractError.toldInside told) := by
  induction code with
  | ask request resume ih =>
    intro answer
    obtain ⟨tells, after⟩ := heeds answer
    exact ⟨fun member => (tells member).attempt told, ih answer after⟩
  | _ => trivial

theorem composes_heeds : Program.Composes Program.Heeds where
  done _ _ := trivial
  fail _ _ := trivial
  bind heeds same heedsNext rest := heeds.bind same heedsNext rest
  mapError heeds sameValue sameError := heeds.mapError sameValue sameError
  attempt heeds told := heeds.attempt told

end Program

/-- Whether all code that an engine loads heeds refused charges. -/
def Engine.Heeds (engine : Engine) : Prop :=
  engine.Consists Program.Heeds

namespace Engine

variable [ByteStore σ]

/-- Whether code in some frame of a run is told of a refused charge and then ends as if there had been
none. -/
inductive Handled (engine : Engine) : Nat → Frame → Program ExecutionError (Option Value) → World σ → Prop
  | here {levels : Nat} {frame : Frame} {request : Request}
      {resume : Except ContractError request.Answer → Program ExecutionError (Option Value)}
      {world : World σ} {refused : OutOfGas}
      (told : refused ∈ ContractError.told (answer (engine.serve levels frame request world)))
      (silent : ExecutionError.told (answer
        ((resume (answer (engine.serve levels frame request world))).run (engine.serve levels frame)
          (ending (engine.serve levels frame request world)))) = none) :
      Handled engine levels frame (.ask request resume) world
  | next {levels : Nat} {frame : Frame} {request : Request}
      {resume : Except ContractError request.Answer → Program ExecutionError (Option Value)}
      {world : World σ}
      (later : Handled engine levels frame (resume (answer (engine.serve levels frame request world)))
        (ending (engine.serve levels frame request world))) :
      Handled engine levels frame (.ask request resume) world
  | within {levels : Nat} {frame : Frame} {request : CallRequest}
      {resume : Except ContractError (Option Value) → Program ExecutionError (Option Value)}
      {world inside : World σ} {entry : Entry}
      (entered : engine.enter frame request world = .ok entry inside)
      (below : Handled engine levels entry.frame (engine.nestedProgram entry.code request) inside) :
      Handled engine (levels + 1) frame (.ask (.call request) resume) world

variable {engine : Engine} {levels : Nat} {frame : Frame}
  {program : Program ExecutionError (Option Value)} {world last : World σ} {amount : Gas}

theorem Heeds.not_handled (heeds : engine.Heeds) (heedsProgram : program.Heeds ExecutionError.told) :
    ¬ engine.Handled levels frame program world := by
  intro handled
  induction handled with
  | @here levels frame request resume world refused told silent =>
    obtain ⟨other, member⟩ := ((heedsProgram _).1 ⟨refused, told⟩).run (engine.serve levels frame)
      (ending (engine.serve levels frame request world))
    rw [silent] at member
    cases member
  | next later ih => exact ih (heedsProgram _).2
  | within entered below ih => exact ih (heeds.nestedProgram Program.composes_heeds _ _)

private theorem told_or_handled {request : Request}
    {resume : Except ContractError request.Answer → Program ExecutionError (Option Value)}
    (told : ∃ refused, refused ∈ ContractError.told (answer (engine.serve levels frame request world))) :
    (∃ refused, refused ∈ ExecutionError.told
        (answer ((Program.ask request resume).run (engine.serve levels frame) world))) ∨
      engine.Handled levels frame (.ask request resume) world := by
  obtain ⟨refused, member⟩ := told
  rw [Program.run_ask]
  cases ended : ExecutionError.told (answer
      ((resume (answer (engine.serve levels frame request world))).run (engine.serve levels frame)
        (ending (engine.serve levels frame request world)))) with
  | none => exact .inr (.here member ended)
  | some other => exact .inl ⟨other, rfl⟩

variable [ReliableStore σ] {data : Set Bytes}

private theorem serve_tells (faithful : Faithful data) {request : CallRequest} {entry : Entry}
    {inside : World σ} (sound : world.Sound data)
    (entered : engine.enter frame request world = .ok entry inside)
    (pending : (ending (engine.runEntry levels request entry inside)).view.pending ⊆ data)
    {refused : OutOfGas}
    (told : refused ∈ ExecutionError.told (answer (engine.runEntry levels request entry inside))) :
    refused ∈ ContractError.told
      (answer (engine.serve (levels + 1) frame (.call request) world)) := by
  cases result : engine.runEntry levels request entry inside with
  | ok value after =>
    rw [result] at told
    cases told
  | error cause after =>
    rw [result] at told pending
    obtain ⟨final, called⟩ := call_failed faithful sound entered result pending
    rw [serve, Service.answer, called]
    exact told

/-- A run that is refused a charge ends in a failure that tells of it, unless code handled it. -/
theorem Charged.told (faithful : Faithful data)
    (charged : engine.Charged levels frame program world amount last)
    (short : last.meter.available < amount) (sound : world.Sound data)
    (pending : (ending (program.run (engine.serve levels frame) world)).view.pending ⊆ data) :
    (∃ refused, refused ∈ ExecutionError.told (answer (program.run (engine.serve levels frame) world))) ∨
      engine.Handled levels frame program world := by
  have onward := (respected_onward faithful).seen (σ := σ)
  have grows := respected_grows.seen (σ := σ)
  induction charged with
  | @here levels frame request resume world last amount charges =>
    refine told_or_handled ⟨⟨amount, last.meter.available⟩, ?_⟩
    rw [charges.serve_refused short]
    rfl
  | @next levels frame request resume world last amount later ih =>
    rw [Program.run_ask] at pending ⊢
    have rest := grows.run engine levels frame
      (resume (answer (engine.serve levels frame request world)))
      (ending (engine.serve levels frame request world))
    have first := onward.serve engine levels frame request world
    exact (ih short (sound.onward first (rest.trans pending)) pending).imp_right .next
  | @within levels frame request resume world inside last entry amount entered below ih =>
    rw [Program.run_ask] at pending
    have rest := grows.run engine (levels + 1) frame
      (resume (answer (engine.call (levels + 1) frame request world)))
      (ending (engine.call (levels + 1) frame request world))
    have pendingCall : (ending (engine.call (levels + 1) frame request world)).view.pending ⊆ data :=
      rest.trans pending
    have entering := onward.enter engine frame request world
    rw [entered] at entering
    have undoes (checkpoint : Hash) (mark : Nat) : Along (World.Seen World.Grows)
        (undo checkpoint mark : ServiceM σ Unit) :=
      Along.seen (agree_undo checkpoint mark).grows (agree_undo checkpoint mark)
    have back := along_leave undoes request.target entry (engine.runEntry levels request entry inside)
    rw [call_entered entered] at pendingCall
    have pendingRun := back.trans pendingCall
    have ran := grows.runEntry engine levels request entry inside
    rcases ih short (sound.onward entering (ran.trans pendingRun)) pendingRun with told | handled
    · obtain ⟨refused, member⟩ := told
      exact told_or_handled ⟨refused, serve_tells faithful sound entered pendingRun member⟩
    · exact .inr (.within entered handled)

end Engine

/-! An invocation that tells of a refused charge fails for nothing else. -/

/-- Whether a failure that tells of a refused charge says nothing more than that. -/
def ExecutionError.Plain (error : ExecutionError) : Prop :=
  ∀ refused ∈ error.outOfGas?, error = .outOfGas refused

theorem ExecutionError.plain_of_silent {error : ExecutionError} (silent : error.outOfGas? = none) :
    error.Plain := by
  intro refused member
  rw [silent] at member
  cases member

theorem ExecutionError.plain_fromCause (cause : ContractError) (wrap : ContractError → ExecutionError)
    (wraps : (wrap cause).outOfGas? = cause.outOfGas?) : (fromCause cause wrap).Plain := by
  intro refused member
  unfold fromCause at member ⊢
  cases found : cause.outOfGas? with
  | none =>
    rw [found] at member
    cases (wraps.trans found).symm.trans member
  | some other =>
    rw [found] at member
    cases member
    rfl

/-- Whether every failure that a program ends in is plain. -/
def Program.EndsPlainly {α : Type} : Program ExecutionError α → Prop
  | .done _ => True
  | .fail error => error.Plain
  | .ask _ resume => ∀ answer, (resume answer).EndsPlainly

namespace Program

theorem EndsPlainly.bind {program : Program ExecutionError α} {next : α → Program ExecutionError β}
    (plain : program.EndsPlainly) (rest : ∀ value, (next value).EndsPlainly) :
    (program >>= next).EndsPlainly := by
  induction program with
  | done value => exact rest value
  | fail error => exact plain
  | ask request resume ih => exact fun answer => ih answer (plain answer)

theorem endsPlainly_mapError {ε : Type} (program : Program ε α) {change : ε → ExecutionError}
    (plain : ∀ error, (change error).Plain) : (program.mapError change).EndsPlainly := by
  induction program with
  | done value => trivial
  | fail error => exact plain error
  | ask request resume ih => exact ih

theorem endsPlainly_attempt {ε : Type} (program : Program ε α) :
    (program.attempt : Program ExecutionError _).EndsPlainly := by
  induction program with
  | ask request resume ih => exact ih
  | _ => trivial

theorem EndsPlainly.run {program : Program ExecutionError α} (plain : program.EndsPlainly)
    {serve : (request : Request) → ServiceM σ request.Answer} {world last : World σ}
    {error : ExecutionError} (ran : program.run serve world = .error error last) : error.Plain := by
  induction program generalizing world with
  | done value => cases ran
  | fail other =>
    cases ran
    exact plain
  | ask request resume ih =>
    rw [run_ask] at ran
    exact ih _ (plain _) ran

end Program

namespace ContractType

open Program ExecutionError

theorem endsPlainly_construct (type : ContractType) (parameters : List Value) :
    (type.construct parameters).EndsPlainly := by
  have fields (body : Code (List Value)) :
      (body.mapError (fun cause => ExecutionError.fromCause cause .construct) >>= fun fields =>
        pure (type.newInstance fields)).EndsPlainly :=
    (endsPlainly_mapError body fun cause => plain_fromCause cause .construct rfl).bind fun _ => trivial
  unfold ContractType.construct
  split
  · exact ExecutionError.plain_of_silent rfl
  cases type.constructor with
  | none => exact fields _
  | some constructor =>
    simp only
    cases constructor.signature.accept parameters with
    | ok arguments => exact fields _
    | error reason => exact ExecutionError.plain_of_silent rfl

private theorem endsPlainly_invoke (type : ContractType) (target : Instance) (method : String)
    (parameters : List Value) :
    (type.invoke target method parameters : Program ExecutionError Outcome).EndsPlainly := by
  unfold ContractType.invoke
  split
  · trivial
  split
  · trivial
  cases type.methods.get? method with
  | none => trivial
  | some found =>
    simp only
    split
    · trivial
    split
    · trivial
    cases found.signature.accept parameters with
    | error reason => trivial
    | ok arguments =>
      refine (endsPlainly_attempt (found.body target arguments)).bind fun result => ?_
      cases result <;> trivial

theorem endsPlainly_perform (type : ContractType) (method : String) (parameters : List Value) :
    (type.perform method parameters).EndsPlainly := by
  refine (endsPlainly_mapError _ fun cause => plain_fromCause cause .restore rfl).bind fun target => ?_
  refine (endsPlainly_invoke type target method parameters).bind fun outcome => ?_
  cases outcome with
  | success returned => trivial
  | targetFailed cause => exact plain_fromCause cause .targetInvocation rfl
  | _ => exact ExecutionError.plain_of_silent rfl

end ContractType

namespace Engine

theorem endsPlainly_invocationProgram (engine : Engine) (invocation : Invocation) (code : Bytes)
    (context : Context) : (engine.invocationProgram invocation code context).EndsPlainly := by
  cases invocation with
  | create =>
    simp only [Engine.invocationProgram, Engine.constructorProgram]
    cases engine.loadType (engine.injector.prepareConstructor code) with
    | error reason => exact ExecutionError.plain_of_silent rfl
    | ok found =>
      cases found with
      | none => exact ExecutionError.plain_of_silent rfl
      | some type => exact (type.endsPlainly_construct context.parameters).bind fun _ => trivial
  | call method =>
    cases method with
    | none => trivial
    | some method =>
      simp only [Engine.invocationProgram, Engine.methodProgram]
      cases engine.loadType (engine.injector.prepareMethod code method) with
      | error reason => exact ExecutionError.plain_of_silent rfl
      | ok found =>
        cases found with
        | none => trivial
        | some type => exact type.endsPlainly_perform method context.parameters

variable [ByteStore σ]

/-- An invocation that tells of a refused charge failed for want of gas. -/
theorem perform_of_told {engine : Engine} {invocation : Invocation} {code : Bytes} {context : Context}
    {host : Host σ} {meter : GasMeter}
    (told : ∃ refused, refused ∈ ExecutionError.told (answer (engine.runOutermost context
      (engine.invocationProgram invocation code context) (startWorld host meter)))) :
    (engine.perform invocation code context host meter).1.failureKind = some .outOfGas := by
  obtain ⟨refused, member⟩ := told
  rw [perform_eq]
  cases ran : engine.runOutermost context (engine.invocationProgram invocation code context)
      (startWorld host meter) with
  | ok returned last =>
    rw [ran] at member
    cases member
  | error failure last =>
    rw [ran] at member
    have plain := (engine.endsPlainly_invocationProgram invocation code context).run ran
    cases plain refused member
    rfl

end Engine

namespace Site

open Engine

variable [ByteStore σ] [ReliableStore σ] {data : Set Bytes} {site : Site σ} {index : Nat}

/-- Exhausted gas. If a charge of an invocation is refused, at whatever depth, then all gas is spent, and
the invocation fails for want of gas unless some frame that is told of the refused charge, as of the failed
call that it is above, handles it. If all code heeds refused charges, the invocation fails for want of
gas. -/
theorem Reached.perform_exhausted (faithful : Faithful data) (reached : Reached data site)
    (engine : Engine) (invocation : Invocation) (code : Bytes) (context : Context) (host : Host σ)
    (meter : GasMeter) (hosts : site.Hosts index host)
    (starves : engine.Starves engine.limits.maxCallDepth (.outermost context)
      (engine.invocationProgram invocation code context) (startWorld host meter))
    (pending : (engine.perform invocation code context host meter).2.view.pending ⊆ data) :
    let last := engine.perform invocation code context host meter
    last.1.gasConsumed = meter.limit ∧
      (last.1.failureKind = some .outOfGas ∨
        engine.Handled engine.limits.maxCallDepth (.outermost context)
          (engine.invocationProgram invocation code context) (startWorld host meter)) ∧
      (engine.Heeds → last.1.failureKind = some .outOfGas) := by
  intro last
  let program := engine.invocationProgram invocation code context
  let start := startWorld host meter
  obtain ⟨amount, refusing, charged, short⟩ := starves
  have whole : start.Advances (ending (engine.runOutermost context program start)) :=
    respected_advances.runOutermost engine context program start
  have outcome : last.1.failureKind = some .outOfGas ∨
      engine.Handled engine.limits.maxCallDepth (.outermost context) program start := by
    refine (charged.told faithful short (reached.host_sound faithful hosts) ?_).imp_left perform_of_told
    rw [perform_pending] at pending
    exact pending
  refine ⟨perform_meter.1.trans ((charged.exhausts short).trans whole.limit), outcome, fun heeds => ?_⟩
  exact outcome.resolve_right (heeds.not_handled
    (heeds.invocationProgram Program.composes_heeds invocation code context))

end Site

namespace Engine

/-- A contract that burns gas when it is called, and reacts to such a call of its own. -/
def burner (react : Address → Code (Option Value)) : ContractType :=
  ContractType.start "Burner" "burner" (return [])
    |>.withMethod "burn" [] (fun _ _ => do
      Code.spend 1000
      return none)
    |>.withMethod "delegate" [] (fun _ _ => do react (← Program.request .self))

def burners (react : Address → Code (Option Value)) : Engine :=
  ⟨fun _ => .ok [burner react], .none, .standard⟩

/-- Fails where the call does. -/
def relying (target : Address) : Code (Option Value) :=
  Code.call target "burn" [] 0

/-- Tells whether the call succeeded. -/
def shrugging (target : Address) : Code (Option Value) := do
  return some (.bool (← Sample.tryForward target "burn" 0))

section Reactions

variable {holds : ∀ {ε α : Type}, (Except ε α → Option OutOfGas) → Program ε α → Prop}
  {react : Address → Code (Option Value)}

theorem burners_consist (composes : Program.Composes holds)
    (requests : ∀ request, ¬ request.TellsGas → holds ContractError.told (Program.request request))
    (reacts : ∀ target, holds ContractError.told (react target)) : (burners react).Consists holds := by
  intro code module loaded type member
  cases loaded
  obtain rfl := List.mem_singleton.mp member
  refine ((ContractType.consists_start _ _ (composes.done _ _)).withMethod _ fun _ _ => ?_).withMethod _
    fun _ _ => ?_
  · exact composes.andThen (requests (.spend 1000) not_false) (fun _ => rfl) (fun _ => rfl)
      fun _ => composes.done _ _
  · exact composes.andThen (requests .self not_false) (fun _ => rfl) (fun _ => rfl) reacts

theorem burners_blind (reacts : ∀ target, (react target).Blind) : (burners react).Blind :=
  burners_consist Program.composes_blind Program.blind_request reacts

end Reactions

/-- A call of the contract with gas for calling, but not for burning. -/
def delegating : Context := ⟨⟨1, .ofNat 9⟩, ⟨.ofNat 3, 0, 150⟩, .ofNat 1, []⟩

def burnerHost : Host Memory := Site.endowed [.setCode (.ofNat 1) [5]]

theorem burners_starve {react : Address → Code (Option Value)} (reacts : ∀ target, (react target).Blind)
    (short : 150 < ((burners react).perform (.call (some "delegate")) [5] delegating burnerHost
      (.start 5000)).1.gasConsumed) :
    (burners react).Starves 8 (.outermost delegating)
      ((burners react).invocationProgram (.call (some "delegate")) [5] delegating)
      (startWorld burnerHost (.start 150)) := by
  have blind := burners_blind reacts
  rw [perform_meter.1] at short
  let start := startWorld burnerHost (.start 5000)
  change (burners react).Starves 8 ((Frame.outermost delegating).withGasLimit 150) _ (start.withLimit 150)
  exact blind.starves (blind.invocationProgram Program.composes_blind (.call (some "delegate")) [5]
    delegating) UInt64.zero_le UInt64.zero_le short 150

set_option maxRecDepth 100000 in
/-- A refused charge does not always end the invocation: code that shrugs the failure of its call off
succeeds. -/
theorem shrugging_survives :
    (burners shrugging).Starves 8 (.outermost delegating)
      ((burners shrugging).invocationProgram (.call (some "delegate")) [5] delegating)
      (startWorld burnerHost (.start 150)) ∧
    let last := (burners shrugging).perform (.call (some "delegate")) [5] delegating burnerHost (.start 150)
    last.1.failureKind = none ∧ last.1.returned = some (.bool false) ∧ last.1.gasConsumed = 150 := by
  have blind (target : Address) : (shrugging target).Blind := by
    have calls := Program.blind_request (.call ⟨target, "burn", [], 0⟩) not_false
    refine Program.Blind.bind (calls.attempt.bind fun result => ?_) fun _ => trivial
    cases result with
    | ok value => trivial
    | error error => cases error <;> trivial
  exact ⟨burners_starve blind (by decide +kernel), by decide +kernel⟩

end Engine

namespace Site

open Engine

set_option maxRecDepth 100000 in
theorem perform_exhausted_relying :
    let last := (burners relying).perform (.call (some "delegate")) [5] delegating burnerHost (.start 150)
    last.1.gasConsumed = 150 ∧ last.1.failureKind = some .outOfGas := by
  have blind (target : Address) : (relying target).Blind :=
    Program.blind_request (.call ⟨target, "burn", [], 0⟩) not_false
  have heeds : (burners relying).Heeds := burners_consist Program.composes_heeds
    (fun request _ => Program.heeds_request request) fun _ => Program.heeds_request _
  have distinct : Distinct [.setCode (.ofNat 1) [5]] (invokedRecords [.setCode (.ofNat 1) [5]]
      (burners relying) (.call (some "delegate")) [5] delegating (.start 150)) := by decide +kernel
  obtain ⟨faithful, reached, pending⟩ := invoked_known distinct
  obtain ⟨spent, _, fails⟩ := reached.perform_exhausted faithful (burners relying)
    (.call (some "delegate")) [5] delegating burnerHost (.start 150) (hosts_endowed _)
    (burners_starve blind (by decide +kernel)) pending
  exact ⟨spent, fails heeds⟩

end Site

end ContractLedger
