import ContractLedger.Contract.Definition
import ContractLedger.Engine.Transfer

/-!
What an invocation can see and change: the ledger, the gas meter and the transfers, shared by
every frame of the invocation, and the frame itself, which is fixed while its code runs.
-/

namespace ContractLedger

/-- The message that starts a frame. -/
structure Message where
  sender : Address
  value : Amount
  gasLimit : Gas
deriving DecidableEq

/-- The inputs of an outermost invocation. -/
structure Context where
  block : Block
  message : Message
  address : Address
  parameters : List Value
deriving DecidableEq

/-- Value on its way to the outermost contract. It is credited only after the invocation, so
balances seen by code count it in. -/
structure Incoming where
  recipient : Address
  value : Amount
deriving DecidableEq

/-- The surroundings of one running contract. -/
structure Frame where
  block : Block
  message : Message
  address : Address
  incoming : Incoming
  depth : Nat
deriving DecidableEq

def Frame.outermost (context : Context) : Frame :=
  ⟨context.block, context.message, context.address,
    ⟨context.address, context.message.value⟩, 0⟩

/-- A report of running code, with the depth of its frame and the gas spent so far. -/
structure Observation where
  depth : Nat
  consumed : Gas
  note : Note

/-- A mounted ledger with the reports of the code that ran on it. -/
structure Host (σ : Type) where
  ledger : Ledger.Mounted σ
  observations : List Observation

/-- Everything that the frames of one invocation share. -/
structure World (σ : Type) where
  host : Host σ
  meter : GasMeter
  transfers : TransferList

def Host.tell {σ : Type} (host : Host σ) (severity : Severity) (topic text : String) : Host σ :=
  { host with
    ledger := { host.ledger with journal := host.ledger.journal ++ [⟨severity, topic, text⟩] } }

def Host.run {σ α ε : Type} (step : LedgerM σ α) (wrap : LedgerError → ε) :
    EStateM ε (Host σ) α := fun host =>
  match step host.ledger with
  | .ok value ledger => .ok value { host with ledger }
  | .error error ledger => .error (wrap error) { host with ledger }

end ContractLedger
