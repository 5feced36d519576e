import ContractLedger.Engine.Services

/-!
Creating contracts and invoking their methods from outside. The engine never commits or rolls
back; whoever invoked it does, by the result.
-/

namespace ContractLedger

/-- What an invocation leaves to tell. Transfers are told only of one that succeeded. -/
structure ExecutionResult where
  returned : Option Value
  gasConsumed : Gas
  failure : Option ExecutionError
  transfers : TransferList

namespace ExecutionResult

def empty (gasConsumed : Gas) : ExecutionResult := ⟨none, gasConsumed, none, []⟩

def isSuccess (result : ExecutionResult) : Bool :=
  result.failure.isNone

def failureKind (result : ExecutionResult) : Option FailureKind :=
  result.failure.map ExecutionError.kind

end ExecutionResult

namespace Engine

variable {σ : Type} [ByteStore σ]

/-- Turns the end of a run into a result, telling of a failure in the journal. -/
def finish (operation : String) (context : Context) :
    EStateM.Result ExecutionError (World σ) (Option Value) → ExecutionResult × World σ
  | .ok returned world =>
    (⟨returned, world.meter.consumed, none, world.transfers⟩, world)
  | .error failure world =>
    (⟨none, world.meter.consumed, some failure, []⟩,
      { world with
        host := world.host.tell .detail "vm"
          (operation ++ " on " ++ context.address.text ++ " failed after " ++
            toString world.meter.consumed.toNat ++ " gas: " ++ failure.brief) })

def startWorld (host : Host σ) (meter : GasMeter) : World σ := ⟨host, meter, []⟩

/-- Runs the constructor of the single contract type that code exports. On success the address
of the contract is returned. -/
def create (engine : Engine) (code : Bytes) (context : Context) (host : Host σ)
    (meter : GasMeter) : ExecutionResult × World σ :=
  let program : Program ExecutionError (Option Value) :=
    match engine.loadType (engine.injector.prepareConstructor code) with
    | .error reason => .fail (.load reason)
    | .ok none => .fail (.load .noContractType)
    | .ok (some type) => do
      let _ ← type.construct context.parameters
      return some (.address context.address)
  finish "create" context (engine.runOutermost context program (startWorld host meter))

/-- Invokes a method of the contract whose code is given. Without a method, or if the code
exports no contract type, nothing runs. -/
def executeMethod (engine : Engine) (code : Bytes) (method : Option String) (context : Context)
    (host : Host σ) (meter : GasMeter) : ExecutionResult × World σ :=
  let world := startWorld host meter
  match method with
  | none => (.empty meter.consumed, world)
  | some method =>
    match engine.loadType (engine.injector.prepareMethod code method) with
    | .ok none => (.empty meter.consumed, world)
    | .error reason => finish method context (.error (.load reason) world)
    | .ok (some type) =>
      finish method context
        (engine.runOutermost context (type.perform method context.parameters) world)

end Engine

end ContractLedger
