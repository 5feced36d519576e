import ContractLedger.Engine.World

/-!
The services that answer a running contract. Each charges for itself first; what a service did
before it failed stays done, except that a failed call is undone as a whole.
-/

namespace ContractLedger

/-- How code is prepared before it is loaded. -/
structure Injector where
  prepareConstructor : Bytes → Bytes
  prepareMethod : Bytes → String → Bytes

def Injector.none : Injector := ⟨id, fun code _ => code⟩

/-- An engine: where contract types come from, how code is prepared, and its limits. -/
structure Engine where
  load : Loader
  injector : Injector
  limits : Limits

abbrev ServiceM (σ : Type) := EStateM ContractError (World σ)

namespace Service

variable {σ : Type} [ByteStore σ]

def onLedger {α : Type} (step : LedgerM σ α) : ServiceM σ α := fun world =>
  match Host.run step ContractError.state world.host with
  | .ok value host => .ok value { world with host }
  | .error error host => .error error { world with host }

def spend (amount : Gas) : ServiceM σ Unit := fun world =>
  match GasMeter.spend amount world.meter with
  | .ok _ meter => .ok () { world with meter }
  | .error refused meter => .error (.outOfGas refused) { world with meter }

/-- The balance that an address would have if the incoming value and the transfers so far were
already carried out. -/
def balanceOf (incoming : Incoming) (address : Address) : ServiceM σ Amount := do
  let stored ← onLedger (Ledger.getBalance address)
  let transfers := (← get).transfers
  let credited :=
    if address = incoming.recipient then Amount.plus stored incoming.value else stored
  return Amount.minus (Amount.plus credited (transfers.receivedBy address))
    (transfers.sentBy address)

/-- Fails unless the running contract covers an amount. -/
def ensureBalance (frame : Frame) (required : Amount) : ServiceM σ Unit := do
  let available ← balanceOf frame.incoming frame.address
  if available < required then throw (.insufficientBalance required available)

/-- Records a transfer from the running contract. -/
def record (frame : Frame) (recipient : Address) (value : Amount) : ServiceM σ Unit :=
  modify fun world =>
    { world with transfers := world.transfers ++ [⟨frame.address, recipient, value⟩] }

def transfer (schedule : Schedule) (frame : Frame) (recipient : Address) (amount : Amount) :
    ServiceM σ Unit := do
  spend schedule.transfer
  ensureBalance frame amount
  record frame recipient amount

/-- Reads from the storage of the running contract. -/
def read (schedule : Schedule) (frame : Frame) (key : Bytes) : ServiceM σ (Option Bytes) := do
  spend (schedule.readCost key.length)
  let value ← onLedger (Ledger.getObject frame.address key)
  if let some bytes := value then
    spend (schedule.byteCost bytes.length)
  return value

/-- Writes to the storage of the running contract. -/
def write (schedule : Schedule) (frame : Frame) (key value : Bytes) : ServiceM σ Unit := do
  spend (schedule.writeCost (key.length + value.length))
  onLedger (Ledger.setObject frame.address key value)

def observe (frame : Frame) (note : Note) : ServiceM σ Unit :=
  modify fun world =>
    { world with
      host := { world.host with
        observations :=
          world.host.observations ++ [⟨frame.depth, world.meter.consumed, note⟩] } }

/-- Answers the requests of a frame, given what answers its calls. -/
def answer (schedule : Schedule) (frame : Frame)
    (call : CallRequest → ServiceM σ (Option Value)) :
    (request : Request) → ServiceM σ request.Answer
  | .spend amount => spend amount
  | .read key => read schedule frame key
  | .write key value => write schedule frame key value
  | .balance => balanceOf frame.incoming frame.address
  | .transfer recipient amount => transfer schedule frame recipient amount
  | .call request => call request
  | .self => pure frame.address
  | .sender => pure frame.message.sender
  | .value => pure frame.message.value
  | .gasLimit => pure frame.message.gasLimit
  | .block => pure frame.block
  | .depth => pure frame.depth
  | .meter => return (← get).meter
  | .note note => observe frame note

end Service

namespace Engine

variable {σ : Type} [ByteStore σ]

/-- The single contract type that code exports, if it exports any. -/
def loadType (engine : Engine) (code : Bytes) : Except LoadError (Option ContractType) := do
  Module.singleType (← engine.load code)

/-- The program that a nested call runs in its frame. -/
def nestedProgram (engine : Engine) (code : Bytes) (request : CallRequest) :
    Program ExecutionError (Option Value) :=
  match engine.loadType (engine.injector.prepareMethod code request.method) with
  | .error reason => .fail (.load reason)
  | .ok none => .fail (.load .noContractType)
  | .ok (some type) => type.perform request.method request.parameters

/-- The frame that a call of the running contract starts. -/
def nestedFrame (frame : Frame) (request : CallRequest) (available : Gas) : Frame :=
  { block := frame.block
    message := ⟨frame.address, request.amount, available⟩
    address := request.target
    incoming := frame.incoming
    depth := frame.depth + 1 }

/-- Undoes everything since a checkpoint of the ledger and a length of the transfer list. -/
def undo (checkpoint : Hash) (mark : Nat) : ServiceM σ Unit := do
  Service.onLedger (Ledger.revertTo checkpoint)
  modify fun world => { world with transfers := world.transfers.take mark }

/-- Calls a method of another contract, with so many levels of calls left. A call that fails is
undone and its failure handed to the caller. -/
def call (engine : Engine) : (levels : Nat) → Frame → CallRequest → ServiceM σ (Option Value)
  | 0, _, _ => throw (.callDepth engine.limits.maxCallDepth)
  | levels + 1, frame, request => do
    Service.spend engine.limits.schedule.call
    Service.ensureBalance frame request.amount
    let some code ← Service.onLedger (Ledger.getCode request.target)
      | throw (.noContract request.target)
    let checkpoint ← Service.onLedger Ledger.checkpoint
    let mark := (← get).transfers.length
    if 0 < request.amount then
      Service.record frame request.target request.amount
    let inner := nestedFrame frame request (← get).meter.available
    let answer := Service.answer engine.limits.schedule inner (engine.call levels inner)
    fun world =>
      match (engine.nestedProgram code request).run answer world with
      | .ok value world => .ok value world
      | .error cause world =>
        (do undo checkpoint mark; throw (ContractError.call request.target cause)) world

def runOutermost {ε α : Type} (engine : Engine) (context : Context) (program : Program ε α) :
    EStateM ε (World σ) α :=
  let frame := Frame.outermost context
  program.run
    (Service.answer engine.limits.schedule frame (engine.call engine.limits.maxCallDepth frame))

end Engine

end ContractLedger
