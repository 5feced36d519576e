import ContractLedger.Contract.Failure

/-!
Contract code as data: a program asks for one service after another and goes on with whatever
each of them answers, a refusal included. What a program does is fixed by the services that
answer it, so a property of every run is one induction on the program.
-/

namespace ContractLedger

/-- A live contract object: the name of its type, the layout it was built with, and what it
holds. -/
structure Instance where
  typeName : String
  layout : String
  fields : List Value
deriving DecidableEq

/-- How an attempt to invoke one operation ended. -/
inductive Outcome where
  | success (returned : Option Value)
  | unknownMethod
  | arityMismatch (expected got : Nat)
  | argumentMismatch (reason : String)
  | constructorMisuse
  | targetFailed (cause : ContractError)

/-- The result of invoking a method that ended in this way. -/
def Outcome.toResult (method : String) : Outcome → Except ExecutionError (Option Value)
  | success returned => .ok returned
  | unknownMethod => .error (.argument ("method does not exist: " ++ method))
  | arityMismatch expected got => .error (.parameterCount expected got)
  | argumentMismatch reason => .error (.argument reason)
  | constructorMisuse => .error .constructorInvocation
  | targetFailed cause => .error (.fromCause cause .targetInvocation)

/-- What a program may report about its own progress. -/
inductive Note where
  | step (name : String) (answer : Except ContractError (Option Value))
  | invocation (target : Instance) (outcome : Outcome)
  | reservedName (typeName : String)

structure Block where
  number : UInt64
  coinbase : Address
deriving DecidableEq

structure CallRequest where
  target : Address
  method : String
  parameters : List Value
  amount : Amount
deriving DecidableEq

/-- A service that a program asks for. -/
inductive Request where
  | spend (amount : Gas)
  | read (key : Bytes)
  | write (key value : Bytes)
  | balance
  | transfer (recipient : Address) (amount : Amount)
  | call (request : CallRequest)
  | self
  | sender
  | value
  | gasLimit
  | block
  | depth
  | meter
  | note (note : Note)

/-- What a service answers when it does not fail. -/
abbrev Request.Answer : Request → Type
  | .spend _ => Unit
  | .read _ => Option Bytes
  | .write _ _ => Unit
  | .balance => Amount
  | .transfer _ _ => Unit
  | .call _ => Option Value
  | .self => Address
  | .sender => Address
  | .value => Amount
  | .gasLimit => Gas
  | .block => Block
  | .depth => Nat
  | .meter => GasMeter
  | .note _ => Unit

/-- Contract code that ends with a value or with a failure. -/
inductive Program (ε α : Type) : Type where
  | done (value : α)
  | fail (error : ε)
  | ask (request : Request) (resume : Except ContractError request.Answer → Program ε α)

namespace Program

variable {ε ε' α β σ : Type}

def bind : Program ε α → (α → Program ε β) → Program ε β
  | done value, next => next value
  | fail error, _ => fail error
  | ask request resume, next => ask request fun answer => (resume answer).bind next

instance : Monad (Program ε) where
  pure := done
  bind := bind

/-- Ends as a program does, its failure being a value too. -/
def attempt : Program ε α → Program ε' (Except ε α)
  | done value => done (.ok value)
  | fail error => done (.error error)
  | ask request resume => ask request fun answer => (resume answer).attempt

/-- Replaces the failure of a program by a function of it. -/
def mapError (change : ε → ε') : Program ε α → Program ε' α
  | done value => done value
  | fail error => fail (change error)
  | ask request resume => ask request fun answer => (resume answer).mapError change

def ofExcept : Except ε α → Program ε α
  | .ok value => done value
  | .error error => fail error

/-- Runs a program over services that answer its requests; a refused request is answered too. -/
def run (serve : (request : Request) → EStateM ContractError σ request.Answer) :
    Program ε α → EStateM ε σ α
  | done value => pure value
  | fail error => throw error
  | ask request resume => fun state =>
    match serve request state with
    | .ok answer state => (resume (.ok answer)).run serve state
    | .error error state => (resume (.error error)).run serve state

/-- Asks for a service, failing where it does. -/
def request (request : Request) : Program ContractError request.Answer :=
  ask request ofExcept

/-- Reports progress, whatever becomes of the report. -/
def report (note : Note) : Program ε Unit :=
  ask (.note note) fun _ => done ()

end Program

/-- Code of one contract, which fails with a contract failure. -/
abbrev Code (α : Type) := Program ContractError α

namespace Code

def revert {α : Type} (reason : String) : Code α :=
  .fail (.revert reason)

def spend (amount : Gas) : Code Unit :=
  .request (.spend amount)

/-- Reads the bytes under a key of the contract's storage. -/
def read (key : Bytes) : Code (Option Bytes) :=
  .request (.read key)

/-- Writes bytes under a key of the contract's storage. -/
def write (key value : Bytes) : Code Unit :=
  .request (.write key value)

/-- Reads a stored value in its written form. -/
def readAs {α : Type} (decode : Bytes → Except Rlp.DecodeError α) (key : Bytes) :
    Code (Option α) := do
  match ← read key with
  | none => return none
  | some item =>
    match decode item with
    | .ok value => return some value
    | .error error => .fail (.state (.malformedAccount error))

def readWord (key : Bytes) : Code (Option UInt64) :=
  readAs Rlp.decodeWord key

def writeWord (key : Bytes) (value : UInt64) : Code Unit :=
  write key (Rlp.encodeNat value.toNat)

def readText (key : Bytes) : Code (Option String) :=
  readAs Rlp.decodeText key

def writeText (key : Bytes) (value : String) : Code Unit :=
  write key (Rlp.encodeBytes (Bytes.ofText value))

def transfer (recipient : Address) (amount : Amount) : Code Unit :=
  .request (.transfer recipient amount)

def call (target : Address) (method : String) (parameters : List Value) (amount : Amount) :
    Code (Option Value) :=
  .request (.call ⟨target, method, parameters, amount⟩)

end Code

end ContractLedger
