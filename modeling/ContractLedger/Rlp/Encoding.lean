import ContractLedger.Bytes

/-!
The written form of byte strings and lists of them: a header that gives kind and length,
then the content. A single byte below 0x80 is its own form, numbers are byte strings without
leading zeros, and a list's content is the written forms of its items one after another.
-/

namespace ContractLedger.Rlp

/-- The header of a content of `length` bytes; `short` is 0x80 for strings and 0xc0 for lists. -/
def header (short length : Nat) : Bytes :=
  if length ≤ 55 then [UInt8.ofNat (short + length)]
  else
    let digits := Bytes.ofNat length
    UInt8.ofNat (short + 55 + digits.length) :: digits

def encodeBytes : Bytes → Bytes
  | [byte] => if byte < 0x80 then [byte] else header 0x80 1 ++ [byte]
  | content => header 0x80 content.length ++ content

/-- The written form of a list, from those of its items. -/
def encodeList (items : List Bytes) : Bytes :=
  header 0xc0 items.flatten.length ++ items.flatten

def encodeNat (number : Nat) : Bytes :=
  encodeBytes (Bytes.ofNat number)

end ContractLedger.Rlp
