import ContractLedger.Amount

/-!
Gas: a meter that only ever counts up, and the prices of the engine's services.
-/

namespace ContractLedger

/-- A charge that a meter could not cover. -/
structure OutOfGas where
  requested : Gas
  available : Gas
deriving DecidableEq

def OutOfGas.message (refused : OutOfGas) : String :=
  "out of gas: requested " ++ toString refused.requested.toNat ++ ", available " ++
    toString refused.available.toNat

/-- The gas that an invocation spent, against its limit. -/
structure GasMeter where
  limit : Gas
  consumed : Gas
deriving DecidableEq

namespace GasMeter

def start (limit : Gas) : GasMeter := ⟨limit, 0⟩

def available (meter : GasMeter) : Gas :=
  meter.limit - meter.consumed

/-- Charges an amount; one that does not fit exhausts the meter. -/
def spend (amount : Gas) : EStateM OutOfGas GasMeter Unit := fun meter =>
  if meter.available < amount then
    .error ⟨amount, meter.available⟩ { meter with consumed := meter.limit }
  else .ok () { meter with consumed := meter.consumed + amount }

end GasMeter

/-- The prices of the services that the engine offers to contracts. -/
structure Schedule where
  readBase : Gas
  writeBase : Gas
  perByte : Gas
  transfer : Gas
  call : Gas
deriving DecidableEq

namespace Schedule

def standard : Schedule := ⟨10, 20, 1, 50, 100⟩

/-- The price of moving `length` bytes of key or value. -/
def byteCost (schedule : Schedule) (length : Nat) : Gas :=
  Amount.clamp (schedule.perByte.toNat * length)

/-- The price of reading under a key of `length` bytes, the value's bytes apart. -/
def readCost (schedule : Schedule) (length : Nat) : Gas :=
  Amount.plus schedule.readBase (schedule.byteCost length)

/-- The price of writing `length` bytes of key and value. -/
def writeCost (schedule : Schedule) (length : Nat) : Gas :=
  Amount.plus schedule.writeBase (schedule.byteCost length)

end Schedule

/-- What an engine allows: the deepest nesting of calls, the invoked contract being at depth
zero, and its prices. -/
structure Limits where
  maxCallDepth : Nat
  schedule : Schedule
deriving DecidableEq

def Limits.standard : Limits := ⟨8, .standard⟩

end ContractLedger
