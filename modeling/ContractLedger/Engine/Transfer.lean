import ContractLedger.Identifier
import ContractLedger.Amount

/-!
The value that contracts send during one invocation, in the order of sending.
-/

namespace ContractLedger

/-- A movement of value from one account to another. -/
structure Transfer where
  sender : Address
  recipient : Address
  value : Amount
deriving DecidableEq

/-- The movements so far, oldest first. -/
abbrev TransferList := List Transfer

namespace TransferList

/-- The total of some movements, or the largest word. -/
def total (transfers : TransferList) : Amount :=
  transfers.foldl (fun sum transfer => Amount.plus sum transfer.value) 0

def sentBy (transfers : TransferList) (address : Address) : Amount :=
  total (transfers.filter (·.sender = address))

def receivedBy (transfers : TransferList) (address : Address) : Amount :=
  total (transfers.filter (·.recipient = address))

end TransferList

end ContractLedger
