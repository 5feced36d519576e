import ContractLedger.Identifier
import ContractLedger.Amount

/-!
Reading written items. Readers are lenient in three ways that callers rely on: bytes after an
item are ignored, `content` gives the inside of a list as readily as that of a string, and the
items of a list after its first may lie past the list's own end, because a list is walked
through a bookmark that remembers only where the last item began.
-/

namespace ContractLedger.Rlp

/-- Why bytes are not the written form of what was asked for. -/
inductive DecodeError where
  | tooBig
  | tooShort
  | expectedList
  | expectedData
  | wrongItemCount
  | zeroLedDataLength
  | zeroLedListLength
  | invalidIndirection
  | inconsistentLength
  | invalidLength
  | custom (reason : String)
deriving DecidableEq

/-- The text of a decoding error: its kind, and for a custom one its reason in quotes. -/
def DecodeError.message : DecodeError → String
  | .tooBig => "RlpIsTooBig"
  | .tooShort => "RlpIsTooShort"
  | .expectedList => "RlpExpectedToBeList"
  | .expectedData => "RlpExpectedToBeData"
  | .wrongItemCount => "RlpIncorrectListLen"
  | .zeroLedDataLength => "RlpDataLenWithZeroPrefix"
  | .zeroLedListLength => "RlpListLenWithZeroPrefix"
  | .invalidIndirection => "RlpInvalidIndirection"
  | .inconsistentLength => "RlpInconsistentLengthAndData"
  | .invalidLength => "RlpInvalidLength"
  | .custom reason => "Custom(\"" ++ reason ++ "\")"

/-- Whether an item is the empty string or the empty list. -/
def isEmptyItem : Bytes → Bool
  | [] => false
  | lead :: _ => lead == 0x80 || lead == 0xc0

def isList : Bytes → Bool
  | [] => false
  | lead :: _ => 0xc0 ≤ lead

/-- The lengths of an item's header and of its content. -/
structure Extent where
  header : Nat
  content : Nat
deriving DecidableEq

def Extent.total (extent : Extent) : Nat :=
  extent.header + extent.content

def longExtent (lengthSize : Nat) (rest : Bytes) : Except DecodeError Extent :=
  if rest.head? = some 0 then .error .zeroLedDataLength
  else if rest.length < lengthSize then .error .tooShort
  else
    let length := Bytes.toNat (rest.take lengthSize)
    if length ≤ 55 then .error .invalidIndirection
    else .ok ⟨1 + lengthSize, length⟩

def statedExtent : Bytes → Except DecodeError Extent
  | [] => .error .tooShort
  | lead :: rest =>
    if lead ≤ 0x7f then .ok ⟨0, 1⟩
    else if lead ≤ 0xb7 then .ok ⟨1, lead.toNat - 0x80⟩
    else if lead ≤ 0xbf then longExtent (lead.toNat - 0xb7) rest
    else if lead ≤ 0xf7 then .ok ⟨1, lead.toNat - 0xc0⟩
    else longExtent (lead.toNat - 0xf7) rest

/-- The extent of the first item of a byte string, which has to hold all of it. -/
def extent (bytes : Bytes) : Except DecodeError Extent := do
  let stated ← statedExtent bytes
  if bytes.length < stated.total then throw .tooShort
  return stated

/-- The content of an item, be it a string or a list. -/
def content (item : Bytes) : Except DecodeError Bytes := do
  let found ← extent item
  return (item.drop found.header).take found.content

/-- A walk over the items of a list, with the place where the last one began. -/
structure Reader where
  bytes : Bytes
  bookmark : Option (Nat × Nat)
deriving DecidableEq

def Reader.start (bytes : Bytes) : Reader :=
  ⟨bytes, none⟩

/-- A step of reading, which moves the bookmark even where it then fails. -/
abbrev ReadM := EStateM DecodeError Reader

def liftExcept {α : Type} : Except DecodeError α → ReadM α
  | .ok value => pure value
  | .error error => throw error

/-- Runs the reading of a list from its start. -/
def runReader {α : Type} (step : ReadM α) (bytes : Bytes) : Except DecodeError α :=
  match step (.start bytes) with
  | .ok value _ => .ok value
  | .error error _ => .error error

def skipItems : Nat → Nat → Bytes → Except DecodeError (Nat × Bytes)
  | 0, offset, rest => .ok (offset, rest)
  | count + 1, offset, rest => do
    let found ← extent rest
    skipItems count (offset + found.total) (rest.drop found.total)

/-- Where the search for an item starts: its first index, offset and remaining bytes. -/
def Reader.origin (reader : Reader) (index : Nat) : Except DecodeError (Nat × Nat × Bytes) := do
  let fresh : Except DecodeError (Nat × Nat × Bytes) := do
    let found ← extent reader.bytes
    return (0, found.header, (reader.bytes.drop found.header).take found.content)
  match reader.bookmark with
  | none => fresh
  | some (marked, offset) =>
    if marked ≤ index then
      if reader.bytes.length < offset then throw .tooShort
      else return (marked, offset, reader.bytes.drop offset)
    else fresh

/-- Reads the item at an index of the list. -/
def item (index : Nat) : ReadM Bytes := do
  let reader ← get
  if !isList reader.bytes then throw .expectedList
  let (first, offset, rest) ← liftExcept (reader.origin index)
  let (offset, rest) ← liftExcept (skipItems (index - first) offset rest)
  set { reader with bookmark := some (index, offset) }
  let found ← liftExcept (extent rest)
  return rest.take found.total

def countFrom : Nat → Nat → ReadM Nat
  | 0, index => pure index
  | steps + 1, index => fun reader =>
    match item index reader with
    | .ok _ reader => countFrom steps (index + 1) reader
    | .error _ reader => .ok index reader

/-- Counts the items that can be read one after another, leaving the bookmark at the end. -/
def itemCount : ReadM Nat := do
  let reader ← get
  if !isList reader.bytes then throw .expectedList
  countFrom (reader.bytes.length + 1) 0

/-- The content of an item that has to be a string in the shortest form for its first byte. -/
def decodeBytes : Bytes → Except DecodeError Bytes
  | [] => .error .tooShort
  | lead :: rest =>
    if lead ≤ 0x7f then .ok [lead]
    else if lead ≤ 0xb7 then
      let length := lead.toNat - 0x80
      if rest.length < length then .error .inconsistentLength
      else if lead == 0x81 && rest.head?.any (· < 0x80) then .error .invalidIndirection
      else .ok (rest.take length)
    else if lead ≤ 0xbf then
      let lengthSize := lead.toNat - 0xb7
      if rest.length < lengthSize then .error .inconsistentLength
      else if rest.head? = some 0 then .error .invalidIndirection
      else
        let length := Bytes.toNat (rest.take lengthSize)
        if UInt64.size ≤ 1 + lengthSize + length then .error .invalidLength
        else if rest.length < lengthSize + length then .error .inconsistentLength
        else .ok ((rest.drop lengthSize).take length)
    else .error .expectedData

/-- Reads a hash: a string of exactly 32 bytes. -/
def decodeHash (item : Bytes) : Except DecodeError Hash := do
  let bytes ← decodeBytes item
  match Hash.ofBytes? bytes with
  | some hash => return hash
  | none => throw (if bytes.length < 32 then .tooShort else .tooBig)

/-- Reads a word: at most eight bytes, the first of them not zero. -/
def decodeWord (item : Bytes) : Except DecodeError UInt64 := do
  let bytes ← decodeBytes item
  if 8 < bytes.length then throw .tooBig
  else if bytes.head? = some 0 then throw .invalidIndirection
  else return UInt64.ofNat (Bytes.toNat bytes)

/-- Reads a text: a string that is well-formed UTF-8. -/
def decodeText (item : Bytes) : Except DecodeError String := do
  let bytes ← decodeBytes item
  match Bytes.toText? bytes with
  | some text => return text
  | none => throw .expectedData

end ContractLedger.Rlp
