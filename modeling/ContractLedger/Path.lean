import ContractLedger.Bytes

/-!
Nibble paths: a trie key seen as half-bytes, high half first, one to an element. The hex-prefix
form packs a path into bytes behind a flag nibble that tells leaf paths from shared ones and odd
lengths from even ones. A view reads the nibbles off the key itself.
-/

namespace ContractLedger

/-- A sequence of nibbles. -/
abbrev Path := List UInt8

namespace Path

/-- The nibbles of a key. -/
def ofBytes (key : Bytes) : Path :=
  key.flatMap fun (byte : UInt8) => [byte >>> 4, byte &&& 0x0f]

/-- The half of a byte that stands at a place of a path: the high one at even places. -/
def half (place : Nat) (byte : UInt8) : UInt8 :=
  if place % 2 = 0 then byte >>> 4 else byte &&& 0x0f

/-- Two nibbles as one byte. -/
def packPair (high low : UInt8) : UInt8 :=
  (high <<< 4) ||| low

/-- The key that an even-length path spells. -/
def toBytes? : Path → Option Bytes
  | [] => some []
  | high :: low :: rest => (toBytes? rest).map (packPair high low :: ·)
  | [_] => none

/-- The number of nibbles that two paths have in common at their start. -/
def shared : Path → Path → Nat
  | first :: restFirst, second :: restSecond =>
    if first = second then shared restFirst restSecond + 1 else 0
  | _, _ => 0

/-- What is left of a path after another path that it starts with. -/
def after? (lead path : Path) : Option Path :=
  lead.isPrefixOf? path

/-- The path without its first nibbles, if it has that many. -/
def cut? (path : Path) (count : Nat) : Option Path :=
  if count ≤ path.length then some (path.drop count) else none

def flags (leaf odd : Bool) : UInt8 :=
  (if leaf then 2 else 0) + (if odd then 1 else 0)

def packTail : Path → Bytes
  | high :: low :: rest => packPair high low :: packTail rest
  | _ => []

/-- The hex-prefix form of a path. -/
def pack (path : Path) (leaf : Bool) : Bytes :=
  if path.length % 2 = 1 then
    match path with
    | first :: rest => packPair (flags leaf true) first :: packTail rest
    | [] => []
  else packPair (flags leaf false) 0 :: packTail path

/-- Reads a hex-prefix form: the path, and whether it is a leaf's. -/
def unpack? : Bytes → Option (Path × Bool)
  | [] => none
  | first :: rest =>
    let flags := first >>> 4
    if 3 < flags then none
    else
      let leaf := flags &&& 2 == 2
      if flags &&& 1 == 1 then some ((first &&& 0x0f) :: ofBytes rest, leaf)
      else if first &&& 0x0f ≠ 0 then none
      else some (ofBytes rest, leaf)

/-- The nibbles as lowercase hexadecimal digits. -/
def text (path : Path) : String :=
  String.ofList (path.map fun nibble => Bytes.hexDigit nibble.toNat)

end Path

/-- A view of a key as nibbles, from one of them on: the key is shared, and only the offset moves. -/
@[ext]
structure NibbleView where
  data : Bytes
  offset : Nat
  inside : offset ≤ 2 * data.length

namespace NibbleView

/-- The view of all nibbles of a key. -/
def ofBytes (data : Bytes) : NibbleView :=
  ⟨data, 0, Nat.zero_le _⟩

def length (view : NibbleView) : Nat :=
  2 * view.data.length - view.offset

/-- The nibble at a place of a view, read off the key. -/
def at? (view : NibbleView) (place : Nat) : Option UInt8 :=
  view.data[(view.offset + place) / 2]?.map (Path.half (view.offset + place))

/-- The view without its first nibbles, if it has that many. -/
def mid? (view : NibbleView) (count : Nat) : Option NibbleView :=
  if inside : view.offset + count ≤ 2 * view.data.length then
    some ⟨view.data, view.offset + count, inside⟩
  else none

def path (view : NibbleView) : Path :=
  (List.range view.length).filterMap view.at?

end NibbleView

end ContractLedger
