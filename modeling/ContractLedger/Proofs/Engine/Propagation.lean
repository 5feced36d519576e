import ContractLedger.Proofs.Contract.Chain
import ContractLedger.Proofs.Engine.Machine

/-!
Failures on their way up. A frame fails, each of the frames that wait is told that its call failed and
fails with just that, and so the outermost one fails too. However many frames there are, the invocation
reports what the first failure would have been reported as there.
-/

namespace ContractLedger

variable {σ : Type} [ByteStore σ]

namespace Machine

/-- A machine whose running frame fails with what its code raised. -/
def failing (callers : List Caller) (frame : Frame) (raised : ContractError) (wrapping : Wrapping)
    (world : World σ) : Machine σ :=
  ⟨callers, frame, .fail (.fromCause raised wrapping.wrap), world⟩

/-- Whether all frames that wait pass on what the running frame fails with, the last of them for a
wrapping of its own: a call is undone and, told of its failure, the caller comes to raise just that. -/
inductive PassedOn (engine : Engine) (top : Wrapping) :
    List Caller → ContractError → Wrapping → World σ → Prop
  | outermost {raised : ContractError} {world : World σ} : PassedOn engine top [] raised top world
  | caller {caller : Caller} {callers : List Caller} {raised passed : ContractError}
      {inner outer : Wrapping} {world undone later : World σ}
      (called : passed = .call caller.target (.fromCause raised inner.wrap))
      (undoes : Engine.leave caller.target caller.entry
        (.error (.fromCause raised inner.wrap) world) = .error passed undone)
      (raises : Reaches engine ⟨callers, caller.frame, caller.resume (.error passed), undone⟩
        (failing callers caller.frame passed outer later))
      (onward : PassedOn engine top callers passed outer later) :
      PassedOn engine top (caller :: callers) raised inner world

variable {engine : Engine} {callers : List Caller} {raised : ContractError} {inner top : Wrapping}
  {world : World σ}

/-- A caller whose call is undone and who fails at once with whatever its call fails with passes it on. -/
theorem PassedOn.handed {caller : Caller} {outer : Wrapping} {undone : World σ}
    (undoes : Engine.undo caller.entry.checkpoint caller.entry.mark world = .ok () undone)
    (hands : ∀ error, caller.resume (.error error) = .fail (.fromCause error outer.wrap))
    (onward : PassedOn engine top callers (.call caller.target (.fromCause raised inner.wrap)) outer undone) :
    PassedOn engine top (caller :: callers) raised inner world := by
  have left : Engine.leave caller.target caller.entry (.error (.fromCause raised inner.wrap) world) =
      .error (.call caller.target (.fromCause raised inner.wrap)) undone :=
    Step.bind_ok undoes _
  refine .caller rfl left ?_ onward
  rw [hands]
  exact .refl

/-- A failure that is passed on ends the run, and is reported as if it had been raised outermost. -/
theorem PassedOn.reaches (passedOn : PassedOn engine top callers raised inner world) (frame : Frame) :
    ∃ outermost reported last,
      Reaches engine (failing callers frame raised inner world)
        (finished [] outermost (.error reported last)) ∧
      reported.Alike (.fromCause raised top.wrap) := by
  induction passedOn generalizing frame with
  | outermost => exact ⟨frame, _, _, .refl, .refl _⟩
  | @caller caller callers raised passed inner outer world undone later called undoes raises _ ih =>
    obtain ⟨outermost, reported, last, ends, alike⟩ := ih caller.frame
    have returns : Steps engine (failing (caller :: callers) frame raised inner world) _ :=
      steps_finished caller callers frame (.error (.fromCause raised inner.wrap) world)
    rw [undoes] at returns
    subst called
    refine ⟨outermost, reported, last, .head returns (raises.trans ends), alike.trans ?_⟩
    exact ExecutionError.fromCause_call caller.target raised inner top

theorem Reaches.end_unique {machine last other : Machine σ} (reaches : Reaches engine machine last)
    (ends : last.next engine = none) (reachesOther : Reaches engine machine other)
    (endsOther : other.next engine = none) : last = other := by
  have stays {first second : Machine σ} (stops : first.next engine = none)
      (onward : Reaches engine first second) : first = second := by
    cases onward.cases_head with
    | inl same => exact same
    | inr further =>
      obtain ⟨_, step, _⟩ := further
      cases stops.symm.trans step
  have alone : Relator.RightUnique (Steps (σ := σ) engine) := fun _ _ _ first second =>
    Option.some.inj (first.symm.trans second)
  cases Relation.ReflTransGen.total_of_right_unique alone reaches reachesOther with
  | inl onward => exact stays ends onward
  | inr onward => exact (stays endsOther onward).symm

end Machine

namespace Engine

open Machine

variable {engine : Engine} {invocation : Invocation} {code : Bytes} {context : Context}
  {host : Host σ} {meter : GasMeter}

/-- An invocation whose machine comes to a failure fails with it. -/
theorem perform_failure {frame : Frame} {failure : ExecutionError} {last : World σ}
    (reaches : Reaches engine
      (start context (engine.invocationProgram invocation code context) (startWorld host meter))
      (finished [] frame (.error failure last))) :
    (engine.perform invocation code context host meter).1.failure = some failure := by
  have ends := reaches_finished engine.limits.maxCallDepth [] (.outermost context)
    (engine.invocationProgram invocation code context) (startWorld host meter) (Nat.zero_add _)
  have same := congrArg outcome? (reaches.end_unique (next_finished ..) ends (next_finished ..))
  rw [outcome?_finished, outcome?_finished, Option.some.injEq] at same
  rw [perform_eq]
  exact congrArg (fun result => (finish invocation.name context result).1.failure) same.symm

/-- Failures are classified by where their chains end, through any number of calls. A failure of contract
code that an invocation wraps is reported as exhausted gas just if its chain ends in a refused charge, which
is the one then told of; as a failure of the ledger just if its chain ends in one; otherwise by what wraps
it; and unless gas ran out its cause is the last failure of contract code on the chain. So a failure raised
below any number of callers, each of which passes it on, makes the whole invocation fail with one that is
reported as if it had been raised at the top. -/
theorem failures_classified (engine : Engine) (raised : ContractError) (wrapping : Wrapping) :
    let error := ExecutionError.fromCause raised wrapping.wrap
    ((error.kind = .outOfGas ↔ ∃ refused, raised.EndsExhausted refused) ∧
      (∀ refused, raised.EndsExhausted refused → error.outOfGas? = some refused) ∧
      (error.kind = .state ↔ raised.EndsInState) ∧
      ((¬ ∃ refused, raised.EndsExhausted refused) → ¬ raised.EndsInState → error.kind = wrapping.kind) ∧
      ((∀ refused, error ≠ .outOfGas refused) → error.cause? = raised.last?)) ∧
    ∀ (invocation : Invocation) (code : Bytes) (context : Context) (host : Host σ) (meter : GasMeter)
      (callers : List Caller) (frame : Frame) (world : World σ) (top : Wrapping),
      Reaches engine
        (start context (engine.invocationProgram invocation code context) (startWorld host meter))
        (failing callers frame raised wrapping world) →
      PassedOn engine top callers raised wrapping world →
      ∃ reported, (engine.perform invocation code context host meter).1.failure = some reported ∧
        reported.Alike (.fromCause raised top.wrap) := by
  intro error
  refine ⟨ExecutionError.fromCause_reports raised wrapping, fun invocation code context host meter callers
    frame world top fails passedOn => ?_⟩
  obtain ⟨outermost, reported, last, ends, alike⟩ := passedOn.reaches frame
  exact ⟨reported, perform_failure (fails.trans ends), alike⟩

/-- A contract whose first method calls its second one, which calls its third one, which fails. -/
def relay : ContractType :=
  ContractType.start "Relay" "relay" (return [])
    |>.withMethod "first" [] (fun _ _ => Code.call (.ofNat 1) "second" [] 0)
    |>.withMethod "second" [] (fun _ _ => Code.call (.ofNat 1) "third" [] 0)
    |>.withMethod "third" [] (fun _ _ => Code.revert "enough")

def relays : Engine := ⟨fun _ => .ok [relay], .none, .standard⟩

def relaying : Context := ⟨⟨1, .ofNat 9⟩, ⟨.ofNat 3, 0, 100000⟩, .ofNat 1, []⟩

def relayWorld : World Memory := startWorld (Site.endowed [.setCode (.ofNat 1) [5]]) (.start 100000)

/-- A call by the contract of a method of its own. -/
def relayCall (method : String) : CallRequest := ⟨.ofNat 1, method, [], 0⟩

/-- Both calls of the contract, and what undoes them. -/
def relayed : ServiceM Memory Unit := do
  let entry ← relays.enter (.outermost relaying) (relayCall "second")
  let inner ← relays.enter entry.frame (relayCall "third")
  undo inner.checkpoint inner.mark
  undo entry.checkpoint entry.mark

theorem relayed_ok : ∃ last, relayed relayWorld = .ok () last :=
  ⟨_, ok_of_toOption (by decide +kernel)⟩

/-- Each method but the last asks for the next one and fails at once with what that fails with. -/
theorem relay_hands {method other : String}
    (known : method = "first" ∧ other = "second" ∨ method = "second" ∧ other = "third") :
    ∃ resume, relay.perform method [] = .ask (.call (relayCall other)) resume ∧
      ∀ error, resume (.error error) = .fail (.fromCause error (Wrapping.wrap .targetInvocation)) := by
  rcases known with ⟨rfl, rfl⟩ | ⟨rfl, rfl⟩ <;> exact ⟨_, rfl, fun _ => rfl⟩

set_option maxRecDepth 100000 in
/-- The failure of the third method is passed on by the frames of both others. -/
theorem failures_classified_relay :
    ∃ callers frame world, callers.length = 2 ∧
      Reaches relays
        (start relaying (relays.invocationProgram (.call (some "first")) [5] relaying) relayWorld)
        (failing callers frame (.revert "enough") .targetInvocation world) ∧
      PassedOn relays .targetInvocation callers (.revert "enough") .targetInvocation world ∧
      ∃ reported,
        (relays.perform (.call (some "first")) [5] relaying (Site.endowed [.setCode (.ofNat 1) [5]])
          (.start 100000)).1.failure = some reported ∧
        reported.kind = .targetInvocation ∧ reported.cause? = some (.revert "enough") := by
  obtain ⟨last, ran⟩ := relayed_ok
  obtain ⟨entry, inside, entered, ran⟩ := Step.bind_eq_ok.mp ran
  obtain ⟨inner, world, enteredInner, ran⟩ := Step.bind_eq_ok.mp ran
  obtain ⟨_, undone, undoes, undoesOuter⟩ := Step.bind_eq_ok.mp ran
  obtain ⟨resume, asks, raises⟩ := relay_hands (.inl ⟨rfl, rfl⟩)
  obtain ⟨resumeInner, asksInner, raisesInner⟩ := relay_hands (.inr ⟨rfl, rfl⟩)
  obtain ⟨_, _, _, frame, _⟩ := enter_ok entered
  have outer : Steps relays ⟨[], .outermost relaying, relay.perform "first" [], relayWorld⟩
      ⟨[⟨.outermost relaying, .ofNat 1, entry, resume⟩], entry.frame, relay.perform "second" [], inside⟩ := by
    rw [asks]
    exact steps_entered (by decide) entered [] resume
  have nested : Steps relays
      ⟨[⟨.outermost relaying, .ofNat 1, entry, resume⟩], entry.frame, relay.perform "second" [], inside⟩
      (failing [⟨entry.frame, .ofNat 1, inner, resumeInner⟩, ⟨.outermost relaying, .ofNat 1, entry, resume⟩]
        inner.frame (.revert "enough") .targetInvocation world) := by
    rw [asksInner]
    exact steps_entered (by rw [frame]; exact (by decide : 1 < 8)) enteredInner _ resumeInner
  have passedOn : PassedOn relays .targetInvocation
      [⟨entry.frame, .ofNat 1, inner, resumeInner⟩, ⟨.outermost relaying, .ofNat 1, entry, resume⟩]
      (.revert "enough") .targetInvocation world :=
    .handed undoes raisesInner (.handed undoesOuter raises .outermost)
  have fails := Relation.ReflTransGen.head outer (.single nested)
  obtain ⟨reported, failed, alike⟩ := (failures_classified relays (.revert "enough") .targetInvocation).2
    (.call (some "first")) [5] relaying _ _ _ _ _ .targetInvocation fails passedOn
  exact ⟨_, _, _, rfl, fails, passedOn, reported, failed, alike.kind, alike.cause⟩

end Engine

end ContractLedger
