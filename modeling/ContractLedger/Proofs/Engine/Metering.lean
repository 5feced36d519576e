import ContractLedger.Proofs.Engine.Exhaustion
import ContractLedger.Proofs.Settlement.Endowment

/-!
The gas of an invocation. However calls nest, fail, are undone and are recovered from, the meter that
they share only goes forward and stays within its limit; the result tells what it has come to; and an
invocation that failed for want of gas has spent all of it.
-/

namespace ContractLedger

variable {σ : Type} [ByteStore σ]

/-- What an engine is asked to run from outside. -/
inductive Invocation where
  | create
  | call (method : Option String)
deriving DecidableEq

def Invocation.name : Invocation → String
  | create => "create"
  | call method => method.getD ""

namespace Engine

def perform (engine : Engine) (invocation : Invocation) (code : Bytes) (context : Context)
    (host : Host σ) (meter : GasMeter) : ExecutionResult × World σ :=
  match invocation with
  | .create => engine.create code context host meter
  | .call method => engine.executeMethod code method context host meter

def invocationProgram (engine : Engine) (invocation : Invocation) (code : Bytes) (context : Context) :
    Program ExecutionError (Option Value) :=
  match invocation with
  | .create => engine.constructorProgram code context
  | .call none => .done none
  | .call (some method) => engine.methodProgram code method context

variable {engine : Engine} {invocation : Invocation} {code : Bytes} {context : Context}
  {host : Host σ} {meter : GasMeter}

/-- An invocation is the run of its program in an outermost frame. -/
theorem perform_eq : engine.perform invocation code context host meter =
    finish invocation.name context (engine.runOutermost context
      (engine.invocationProgram invocation code context) (startWorld host meter)) := by
  cases invocation with
  | create => rfl
  | call method =>
    cases method with
    | none => rfl
    | some method => exact engine.executeMethod_eq code method context host meter

/-- The result of an invocation tells what its meter has come to. -/
theorem perform_meter :
    let run := engine.runOutermost context (engine.invocationProgram invocation code context)
      (startWorld host meter)
    let last := engine.perform invocation code context host meter
    last.1.gasConsumed = (ending run).meter.consumed ∧ last.2.meter = (ending run).meter := by
  intro run last
  have same : last = finish invocation.name context run := perform_eq
  rw [same]
  cases run <;> exact ⟨rfl, rfl⟩

/-- An invocation that failed for want of gas tells of a refused charge. -/
theorem perform_outOfGas
    (kind : (engine.perform invocation code context host meter).1.failureKind = some .outOfGas) :
    let run := engine.runOutermost context (engine.invocationProgram invocation code context)
      (startWorld host meter)
    ∃ refused, refused ∈ ExecutionError.told (answer run) := by
  intro run
  rw [perform_eq] at kind
  change (finish invocation.name context run).1.failureKind = _ at kind
  cases result : run with
  | ok returned world =>
    rw [result] at kind
    cases kind
  | error failure world =>
    rw [result] at kind
    exact ExecutionError.outOfGas?_of_kind (Option.some.inj kind)

theorem Relays.invocationProgram (relays : engine.Relays) (invocation : Invocation) (code : Bytes)
    (context : Context) :
    (engine.invocationProgram invocation code context).Relays ExecutionError.told ∅ := by
  cases invocation with
  | create =>
    simp only [Engine.invocationProgram, Engine.constructorProgram]
    cases loaded : engine.loadType (engine.injector.prepareConstructor code) with
    | error reason => exact nofun
    | ok found =>
      cases found with
      | none => exact nofun
      | some type =>
        exact ((relays.loadType loaded).construct context.parameters).bind (fun _ => rfl)
          fun _ _ _ _ => nofun
  | call method =>
    cases method with
    | none => exact nofun
    | some method =>
      simp only [Engine.invocationProgram, Engine.methodProgram]
      cases loaded : engine.loadType (engine.injector.prepareMethod code method) with
      | error reason => exact nofun
      | ok found =>
        cases found with
        | none => exact nofun
        | some type => exact (relays.loadType loaded).perform method context.parameters

end Engine

/-- What is available of a meter within its limit is what is left, and a charge that fits it can be
added. -/
theorem GasMeter.available_exact {meter : GasMeter} (within : meter.consumed ≤ meter.limit) :
    meter.available.toNat + meter.consumed.toNat = meter.limit.toNat ∧
      ∀ amount, amount ≤ meter.available →
        (meter.consumed + amount).toNat = meter.consumed.toNat + amount.toNat := by
  have left : meter.available.toNat = meter.limit.toNat - meter.consumed.toNat :=
    UInt64.toNat_sub_of_le _ _ within
  have spent := UInt64.le_iff_toNat_le.mp within
  have bound := meter.limit.toNat_lt
  refine ⟨by omega, fun amount fits => ?_⟩
  have fitsNat := UInt64.le_iff_toNat_le.mp fits
  rw [UInt64.toNat_add]
  exact Nat.mod_eq_of_lt (by omega)

namespace Engine

/-- Gas in an invocation that starts with a meter within its limit. At every point the limit is what it
was, what is available is just what is left of it, and a charge that fits can be added; from one point
to a later one, and to the end, gas is spent but never refunded. The result tells what the meter has
come to, whatever the outcome, and if the code relays refused charges then a failure for want of gas
means that all of it is spent. -/
theorem perform_metered (engine : Engine) (invocation : Invocation) (code : Bytes) (context : Context)
    (host : Host σ) (meter : GasMeter) (within : meter.consumed ≤ meter.limit) :
    let frame := Frame.outermost context
    let program := engine.invocationProgram invocation code context
    let start := startWorld host meter
    let last := engine.perform invocation code context host meter
    (∀ inner world, Occurs engine engine.limits.maxCallDepth frame program start inner world →
      world.meter.limit = meter.limit ∧
      world.meter.available.toNat + world.meter.consumed.toNat = meter.limit.toNat ∧
      (∀ amount, amount ≤ world.meter.available →
        (world.meter.consumed + amount).toNat = world.meter.consumed.toNat + amount.toNat) ∧
      meter.consumed ≤ world.meter.consumed ∧ world.meter.consumed ≤ last.1.gasConsumed) ∧
    (∀ first second, Precedes engine engine.limits.maxCallDepth frame program start first second →
      first.meter.consumed ≤ second.meter.consumed) ∧
    last.1.gasConsumed = last.2.meter.consumed ∧ last.1.gasConsumed ≤ meter.limit ∧
    (engine.Relays → last.1.failureKind = some .outOfGas → last.1.gasConsumed = meter.limit) := by
  intro frame program start last
  let run := engine.runOutermost context program start
  obtain ⟨told, kept⟩ : last.1.gasConsumed = (ending run).meter.consumed ∧
    last.2.meter = (ending run).meter := perform_meter
  have whole : start.Advances (ending run) :=
    respected_advances.runOutermost engine context program start
  have spent := (whole.consumed within).2
  rw [whole.limit] at spent
  refine ⟨fun inner world occurs => ?_, fun first second precedes => ?_, told.trans ?_, ?_,
    fun relays kind => ?_⟩
  · have before : start.Advances world := occurs.since respected_advances
    have after : world.Advances (ending run) := occurs.onward respected_advances advances_undo
    obtain ⟨since, withinHere⟩ := before.consumed within
    obtain ⟨left, fits⟩ := GasMeter.available_exact withinHere
    rw [before.limit] at left
    exact ⟨before.limit, left, fits, since, told ▸ (after.consumed withinHere).1⟩
  · obtain ⟨inner, occurs⟩ := precedes.occurs
    have before : start.Advances first := occurs.since respected_advances
    have onward : first.Advances second := precedes.along respected_advances advances_undo
    exact (onward.consumed (before.consumed within).2).1
  · rw [kept]
  · rw [told]
    exact spent
  · obtain ⟨refused, tells⟩ := perform_outOfGas kind
    have relaysProgram := relays.invocationProgram invocation code context
    have exhausted := relays.exhausts_outermost context relaysProgram start refused tells
    exact told.trans (exhausted.trans whole.limit)

/-- A contract that has another call burn its gas, and then asks for more. -/
def spender : ContractType :=
  ContractType.start "Spender" "spender" (return [])
    |>.withMethod "burn" [] (fun _ _ => do
      Code.spend 1000
      return none)
    |>.withMethod "insist" [] (fun _ _ => do
      let target ← Program.request .self
      let _ ← (Code.call target "burn" [] 0).attempt
      Code.spend 1
      return none)

def spenders : Engine := ⟨fun _ => .ok [spender], .none, .standard⟩

theorem spenders_relay : spenders.Relays := by
  intro code module loaded type member
  cases loaded
  obtain rfl := List.mem_singleton.mp member
  refine ((ContractType.relays_start _ _ (Code.relays_done _ _)).withMethod _ fun _ _ => ?_).withMethod
    _ fun _ _ => ?_
  · exact (Code.relays_request _ _).andThen fun _ => Code.relays_done _ _
  · exact (Code.relays_request _ _).andThen fun _ => (Code.relays_request _ _).recover fun _ =>
      (Code.relays_request _ _).andThen fun _ => Code.relays_done _ _

def insisting : Context := ⟨⟨1, .ofNat 9⟩, ⟨.ofNat 3, 0, 300⟩, .ofNat 1, []⟩

set_option maxRecDepth 100000 in
theorem perform_metered_insisting :
    let last := spenders.perform (.call (some "insist")) [5] insisting
      (Site.endowed [.setCode (.ofNat 1) [5]]) (.start 300)
    last.1.failureKind = some .outOfGas ∧ last.1.gasConsumed = 300 ∧ last.2.meter.consumed = 300 := by
  intro last
  have kind : last.1.failureKind = some .outOfGas := by decide +kernel
  obtain ⟨_, _, told, _, spent⟩ := perform_metered spenders (.call (some "insist")) [5] insisting
    (Site.endowed [.setCode (.ofNat 1) [5]]) (.start 300) (by decide)
  have all := spent spenders_relay kind
  exact ⟨kind, all, told.symm.trans all⟩

end Engine

end ContractLedger
