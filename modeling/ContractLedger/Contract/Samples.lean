import ContractLedger.Contract.Definition

/-!
Sample contracts: a counter that also transfers, calls and echoes; a contract whose constructor
always fails; and contracts with nothing but a name.
-/

namespace ContractLedger.Sample

def ownerKey : Bytes := Bytes.ofText "owner"

def countKey : Bytes := Bytes.ofText "count"

/-- The layout of counters, which hold their owner. -/
def counterLayout : String := "counter"

def counterFields (owner : Address) : List Value := [.address owner]

/-- The owner that an instance of a counter holds. -/
def counterOwner (target : Instance) : Code (Option Value) :=
  return target.fields.head?

def restoreCounter : Code (List Value) := do
  match (← Code.read ownerKey).bind Address.ofBytes? with
  | some owner => return counterFields owner
  | none => Code.revert "contract not initialized"

def constructCounter (start : UInt64) : Code (List Value) := do
  let owner ← Program.request .sender
  Code.write ownerKey owner.bytes
  Code.writeWord countKey start
  return counterFields owner

/-- The stored count, zero if there is none. -/
def count : Code UInt64 := do
  return (← Code.readWord countKey).getD 0

def add (amount : UInt64) : Code UInt64 := do
  let sum := Amount.plus (← count) amount
  Code.writeWord countKey sum
  return sum

/-- Calls a method and tells whether it succeeded; a call that was never made is a failure. -/
def tryForward (target : Address) (method : String) (amount : Amount) : Code Bool := do
  match ← (Code.call target method [] amount).attempt with
  | .ok _ => return true
  | .error (.call _ _) => return false
  | .error error => .fail error

def counter : ContractType :=
  ContractType.start "Counter" counterLayout restoreCounter
    |>.withConstructor [.u64] (fun (start, _) => constructCounter start)
    |>.withMethod "owner" [] (fun target _ => counterOwner target)
    |>.withMethod "get" [] (fun _ _ => return some (.u64 (← count)))
    |>.withMethod "add" [.u64] (fun _ (amount, _) => return some (.u64 (← add amount)))
    |>.withMethod "fail" [] (fun _ _ => do
      Code.writeWord countKey 999
      Code.revert "failed on purpose")
    |>.withMethod "burn" [.u64] (fun _ (amount, _) => do
      Code.spend amount
      return none)
    |>.withMethod "echo" [.text] (fun _ (text, _) => return some (.text text))
    |>.withMethod "balance" [] (fun _ _ => return some (.u64 (← Program.request .balance)))
    |>.withMethod "pay" [.address, .u64] (fun _ (recipient, amount, _) => do
      Code.transfer recipient amount
      return none)
    |>.withMethod "forward" [.address, .text, .u64]
      (fun _ (target, method, amount, _) => Code.call target method [] amount)
    |>.withMethod "forward_add" [.address, .u64]
      (fun _ (target, amount, _) => Code.call target "add" [.u64 amount] 0)
    |>.withMethod "try_forward" [.address, .text, .u64]
      (fun _ (target, method, amount, _) => return some (.bool (← tryForward target method amount)))
    |>.withMethod "recurse" [] (fun _ _ => do
      Code.call (← Program.request .self) "recurse" [] 0)

/-- The gas that the faulty constructor burns before it fails. -/
def faultyBurn : Gas := 7

/-- A contract whose constructor writes, burns gas and fails. -/
def faulty : ContractType :=
  ContractType.start "Faulty" "faulty" (return [])
    |>.withConstructor [] (fun _ => do
      Code.write (Bytes.ofText "half") (Bytes.ofText "done")
      Code.spend faultyBurn
      Code.revert "constructor refused")

/-- A contract with nothing but a name. -/
def plain (name : String) : ContractType :=
  ContractType.start name "plain" (return [])

/-- The samples as modules, registered under the codes that stand for them. -/
def registry : Registry :=
  Registry.register [] (Bytes.ofText "counter contract") [counter]
    |>.register (Bytes.ofText "faulty contract") [faulty]
    |>.register (Bytes.ofText "twin contracts") [plain "Left", plain "Right"]
    |>.register (Bytes.ofText "empty module") []

end ContractLedger.Sample
