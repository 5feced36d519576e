/-!
Byte strings, their big-endian reading as numbers, and their hexadecimal text.
-/

namespace ContractLedger

abbrev Bytes := List UInt8

namespace Bytes

/-- The number a byte string spells, most significant byte first. -/
def toNat (bytes : Bytes) : Nat :=
  bytes.foldl (fun total byte => 256 * total + byte.toNat) 0

def minimalDigits : Nat → Nat → Bytes
  | 0, _ => []
  | steps + 1, number =>
    if number = 0 then [] else minimalDigits steps (number / 256) ++ [UInt8.ofNat number]

/-- The shortest byte string that spells a number: no leading zero, and nothing for zero. -/
def ofNat (number : Nat) : Bytes :=
  minimalDigits number number

/-- The low `width` bytes of a number, most significant byte first. -/
def ofNatWidth : Nat → Nat → Bytes
  | 0, _ => []
  | width + 1, number => ofNatWidth width (number / 256) ++ [UInt8.ofNat number]

theorem length_ofNatWidth (width number : Nat) : (ofNatWidth width number).length = width := by
  induction width generalizing number with
  | zero => rfl
  | succ width ih => simp [ofNatWidth, ih]

/-- The bytes of a text in UTF-8. -/
def ofText (text : String) : Bytes :=
  text.toUTF8.toList

/-- The text that a byte string spells in UTF-8, if it is well formed. -/
def toText? (bytes : Bytes) : Option String :=
  String.fromUTF8? ⟨bytes.toArray⟩

def hexDigits : List Char :=
  ['0', '1', '2', '3', '4', '5', '6', '7', '8', '9', 'a', 'b', 'c', 'd', 'e', 'f']

/-- The lowercase hexadecimal digit of a number below sixteen. -/
def hexDigit (number : Nat) : Char :=
  hexDigits.getD number '0'

/-- Lowercase hexadecimal text, two digits a byte. -/
def toHex (bytes : Bytes) : String :=
  String.ofList (bytes.flatMap fun byte => [hexDigit (byte.toNat / 16), hexDigit (byte.toNat % 16)])

def hexValue? (digit : Char) : Option Nat :=
  hexDigits.findIdx? (· == digit.toLower)

def bytesOfDigits? : List Char → Option Bytes
  | [] => some []
  | high :: low :: rest => do
    let high ← hexValue? high
    let low ← hexValue? low
    let rest ← bytesOfDigits? rest
    return UInt8.ofNat (16 * high + low) :: rest
  | [_] => none

/-- The byte string a hexadecimal text stands for, in either case of the letters. -/
def ofHex? (text : String) : Option Bytes :=
  bytesOfDigits? text.toList

end Bytes

end ContractLedger
