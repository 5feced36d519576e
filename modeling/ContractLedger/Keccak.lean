import ContractLedger.Identifier

/-!
The 256-bit digest that names every record of the ledger: the sponge over the 1600-bit
permutation, with a rate of 136 bytes and the padding `01 … 80`.
-/

namespace ContractLedger.Keccak

/-- Five lanes of the permutation state. -/
structure Row where
  a : UInt64
  b : UInt64
  c : UInt64
  d : UInt64
  e : UInt64

/-- The permutation state: five rows of five lanes. -/
structure State where
  first : Row
  second : Row
  third : Row
  fourth : Row
  fifth : Row

/-- The left rotation of a lane by less than its width. -/
def rotate (amount lane : UInt64) : UInt64 :=
  (lane <<< amount) ||| (lane >>> (64 - amount))

namespace Row

def zero : Row := ⟨0, 0, 0, 0, 0⟩

def xor (left right : Row) : Row :=
  ⟨left.a ^^^ right.a, left.b ^^^ right.b, left.c ^^^ right.c,
    left.d ^^^ right.d, left.e ^^^ right.e⟩

/-- The parity correction that a row of column parities induces. -/
def spread (parity : Row) : Row :=
  ⟨parity.e ^^^ rotate 1 parity.b, parity.a ^^^ rotate 1 parity.c,
    parity.b ^^^ rotate 1 parity.d, parity.c ^^^ rotate 1 parity.e,
    parity.d ^^^ rotate 1 parity.a⟩

/-- The nonlinear step: each lane is flipped where its successor is clear and the next is set. -/
def chi (row : Row) : Row :=
  ⟨row.a ^^^ (~~~row.b &&& row.c), row.b ^^^ (~~~row.c &&& row.d),
    row.c ^^^ (~~~row.d &&& row.e), row.d ^^^ (~~~row.e &&& row.a),
    row.e ^^^ (~~~row.a &&& row.b)⟩

end Row

namespace State

def zero : State := ⟨.zero, .zero, .zero, .zero, .zero⟩

def xor (left right : State) : State :=
  ⟨left.first.xor right.first, left.second.xor right.second, left.third.xor right.third,
    left.fourth.xor right.fourth, left.fifth.xor right.fifth⟩

/-- Adds to every lane the parities of two neighbouring columns. -/
def theta (state : State) : State :=
  let parity :=
    (((state.first.xor state.second).xor state.third).xor state.fourth).xor state.fifth
  let change := parity.spread
  ⟨state.first.xor change, state.second.xor change, state.third.xor change,
    state.fourth.xor change, state.fifth.xor change⟩

/-- Rotates every lane by its own amount and moves it to its new place. -/
def rhoPi (state : State) : State :=
  ⟨⟨state.first.a, rotate 44 state.second.b, rotate 43 state.third.c,
    rotate 21 state.fourth.d, rotate 14 state.fifth.e⟩,
   ⟨rotate 28 state.first.d, rotate 20 state.second.e, rotate 3 state.third.a,
    rotate 45 state.fourth.b, rotate 61 state.fifth.c⟩,
   ⟨rotate 1 state.first.b, rotate 6 state.second.c, rotate 25 state.third.d,
    rotate 8 state.fourth.e, rotate 18 state.fifth.a⟩,
   ⟨rotate 27 state.first.e, rotate 36 state.second.a, rotate 10 state.third.b,
    rotate 15 state.fourth.c, rotate 56 state.fifth.d⟩,
   ⟨rotate 62 state.first.c, rotate 55 state.second.d, rotate 39 state.third.e,
    rotate 41 state.fourth.a, rotate 2 state.fifth.b⟩⟩

def chi (state : State) : State :=
  ⟨state.first.chi, state.second.chi, state.third.chi, state.fourth.chi, state.fifth.chi⟩

/-- Breaks the symmetry of the rounds. -/
def iota (constant : UInt64) (state : State) : State :=
  { state with first := { state.first with a := state.first.a ^^^ constant } }

def round (state : State) (constant : UInt64) : State :=
  state.theta.rhoPi.chi.iota constant

end State

def roundConstants : List UInt64 :=
  [0x0000000000000001, 0x0000000000008082, 0x800000000000808A, 0x8000000080008000,
   0x000000000000808B, 0x0000000080000001, 0x8000000080008081, 0x8000000000008009,
   0x000000000000008A, 0x0000000000000088, 0x0000000080008009, 0x000000008000000A,
   0x000000008000808B, 0x800000000000008B, 0x8000000000008089, 0x8000000000008003,
   0x8000000000008002, 0x8000000000000080, 0x000000000000800A, 0x800000008000000A,
   0x8000000080008081, 0x8000000000008080, 0x0000000080000001, 0x8000000080008008]

def permute (state : State) : State :=
  roundConstants.foldl State.round state

/-- Bytes absorbed between two permutations. -/
def rate : Nat := 136

def readLane : Bytes → UInt64 × Bytes
  | a :: b :: c :: d :: e :: f :: g :: h :: rest =>
    (a.toUInt64 ||| (b.toUInt64 <<< 8) ||| (c.toUInt64 <<< 16) ||| (d.toUInt64 <<< 24) |||
      (e.toUInt64 <<< 32) ||| (f.toUInt64 <<< 40) ||| (g.toUInt64 <<< 48) |||
      (h.toUInt64 <<< 56), rest)
  | _ => (0, [])

def readRow (bytes : Bytes) : Row × Bytes :=
  let (a, bytes) := readLane bytes
  let (b, bytes) := readLane bytes
  let (c, bytes) := readLane bytes
  let (d, bytes) := readLane bytes
  let (e, bytes) := readLane bytes
  (⟨a, b, c, d, e⟩, bytes)

/-- A block as a state, the lanes past its end being zero. -/
def readBlock (bytes : Bytes) : State :=
  let (first, bytes) := readRow bytes
  let (second, bytes) := readRow bytes
  let (third, bytes) := readRow bytes
  let (fourth, bytes) := readRow bytes
  let (fifth, _) := readRow bytes
  ⟨first, second, third, fourth, fifth⟩

/-- The message followed by one set bit, zeros, and a set last bit, to a multiple of the rate. -/
def pad (message : Bytes) : Bytes :=
  let gap := rate - message.length % rate
  if gap = 1 then message ++ [0x81]
  else message ++ 0x01 :: List.replicate (gap - 2) 0 ++ [0x80]

def absorb : Nat → State → Bytes → State
  | 0, state, _ => state
  | blocks + 1, state, bytes =>
    absorb blocks (permute (state.xor (readBlock (bytes.take rate)))) (bytes.drop rate)

/-- The bytes of a lane, least significant first. -/
def laneBytes (lane : UInt64) : Bytes :=
  [lane.toUInt8, (lane >>> 8).toUInt8, (lane >>> 16).toUInt8, (lane >>> 24).toUInt8,
    (lane >>> 32).toUInt8, (lane >>> 40).toUInt8, (lane >>> 48).toUInt8, (lane >>> 56).toUInt8]

def digest (message : Bytes) : Hash :=
  let padded := pad message
  let state := absorb (padded.length / rate) .zero padded
  ⟨laneBytes state.first.a ++ laneBytes state.first.b ++ laneBytes state.first.c ++
    laneBytes state.first.d, rfl⟩

end ContractLedger.Keccak
