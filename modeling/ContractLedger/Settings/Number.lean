/-!
Numbers of a settings text. Digits may be grouped by single underscores; a decimal integer has no
leading zero; whole numbers have 64 bits with sign, and a decimal fraction must not exceed the
largest double.
-/

namespace ContractLedger.Settings.Number

/-- Whether a character is a digit of a radix. -/
def isDigit (radix : Nat) (char : Char) : Bool :=
  let value :=
    if '0' ≤ char && char ≤ '9' then char.toNat - '0'.toNat
    else if 'a' ≤ char && char ≤ 'f' then char.toNat - 'a'.toNat + 10
    else if 'A' ≤ char && char ≤ 'F' then char.toNat - 'A'.toNat + 10
    else radix
  value < radix

/-- Splits off a run of digits. The flags tell whether nothing was read yet, whether the first
digit was a zero, and whether an underscore was read last. -/
def digitRun? (radix : Nat) (zeros : Bool) (start zeroLed grouped : Bool) :
    List Char → Option (List Char × List Char)
  | [] => if start || grouped then none else some ([], [])
  | char :: rest =>
    if start && char == '0' then do
      let (digits, rest) ← digitRun? radix zeros false true grouped rest
      return (char :: digits, rest)
    else if isDigit radix char then
      if !start && zeroLed && !zeros then none
      else do
        let (digits, rest) ← digitRun? radix zeros false zeroLed false rest
        return (char :: digits, rest)
    else if char == '_' && !start && !grouped then do
      let (digits, rest) ← digitRun? radix zeros false zeroLed true rest
      return (digits, rest)
    else if start || grouped then none
    else some ([], char :: rest)

/-- A run of digits with its sign. -/
structure SignedDigits where
  negative : Bool
  digits : List Char

/-- Splits off a run of digits that may have a sign, and may start with a zero if `zeros`. -/
def split? (radix : Nat) (signed zeros : Bool) (chars : List Char) :
    Option (SignedDigits × List Char) := do
  let (negative, chars) :=
    match signed, chars with
    | true, '-' :: rest => (true, rest)
    | true, '+' :: rest => (false, rest)
    | _, chars => (false, chars)
  let (digits, rest) ← digitRun? radix zeros true false false chars
  return (⟨negative, digits⟩, rest)

def digitValue (char : Char) : Nat :=
  if char ≤ '9' then char.toNat - '0'.toNat
  else if 'a' ≤ char then char.toNat - 'a'.toNat + 10
  else char.toNat - 'A'.toNat + 10

def magnitude (radix : Nat) (digits : List Char) : Nat :=
  digits.foldl (fun total char => radix * total + digitValue char) 0

def SignedDigits.value (number : SignedDigits) (radix : Nat) : Int :=
  if number.negative then -(magnitude radix number.digits : Int) else magnitude radix number.digits

/-- The integer that a word spells, if it fits 64 bits with sign. -/
def integer? (radix : Nat) (chars : List Char) : Option Int := do
  let decimal := radix = 10
  let (number, rest) ← split? radix decimal (!decimal) chars
  if !rest.isEmpty then none
  let value := number.value radix
  if Int64.minValue.toInt ≤ value ∧ value ≤ Int64.maxValue.toInt then some value else none

/-- Whether digits times a power of ten round to a finite double. -/
def isFinite (digits : List Char) (exponent : Int) : Bool :=
  let mantissa := magnitude 10 digits
  let places : Int := (Nat.toDigits 10 mantissa).length + exponent
  let bound := Nat.pow 2 1024 - Nat.pow 2 970
  if mantissa = 0 || places < 300 then true
  else if 320 < places then false
  else if 0 ≤ exponent then mantissa * Nat.pow 10 exponent.toNat < bound
  else mantissa < bound * Nat.pow 10 (-exponent).toNat

end ContractLedger.Settings.Number
