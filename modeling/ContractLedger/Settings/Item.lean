import ContractLedger.Settings.Token
import ContractLedger.Settings.Number

/-!
The tree that a settings text describes. Tables keep their entries in the order of the text, a
repeated key included, because it is for the reader of an entry to refuse a second one; a section
header may not be repeated in any case.
-/

namespace ContractLedger.Settings

/-- A value of a settings text. Decimal fractions and moments are of no use to any setting, so
only their presence is kept. -/
inductive Item where
  | text (value : String)
  | integer (value : Int)
  | fraction
  | boolean (value : Bool)
  | moment
  | array (items : List Item)
  | inlineTable (entries : List (String × Item))
  | dottedTable (entries : List (String × Item))
  | section (entries : List (String × Item))

/-- Entries of a table, in the order of the text. -/
abbrev Entries := List (String × Item)

abbrev TokenM := StateT (List Token) Option

namespace TokenM

def next : TokenM (Option Token) := do
  match ← get with
  | [] => return none
  | token :: rest =>
    set rest
    return some token

/-- Takes the next token if it is the given one. -/
def eat (token : Token) : TokenM Bool := do
  match ← get with
  | [] => return false
  | found :: rest =>
    if found = token then
      set rest
      return true
    else return false

def expect (token : Token) : TokenM Unit := do
  if !(← eat token) then failure

def expectWord : TokenM (List Char) := do
  match ← next with
  | some (.word chars) => return chars
  | _ => failure

def isGap : Token → Bool
  | .blank _ => true
  | _ => false

def isBreak : Token → Bool
  | .blank _ | .newline | .comment => true
  | _ => false

def skipBlank : TokenM Unit :=
  modify (·.dropWhile isGap)

/-- Passes over blanks, comments and line breaks. -/
def skipLines : TokenM Unit :=
  modify (·.dropWhile isBreak)

/-- Passes over the rest of a line, which has to be empty up to a comment. -/
def endLine : TokenM Unit := do
  skipBlank
  let _ ← eat .comment
  match ← next with
  | none | some .newline => return ()
  | _ => failure

def keyPart : TokenM String := do
  match ← next with
  | some (.word chars) => return String.ofList chars
  | some (.quoted content false) => return String.ofList content
  | _ => failure

def keyRest : Nat → TokenM (List String)
  | 0 => failure
  | steps + 1 => do
    skipBlank
    if ← eat .period then
      skipBlank
      return (← keyPart) :: (← keyRest steps)
    else return []

/-- Reads a key of parts that are joined by periods. -/
def key : TokenM (List String) := do
  return (← keyPart) :: (← keyRest ((← get).length + 1))

/-- Passes over the rest of a date or a time, whose parts are not examined. -/
def moment (colonRead : Bool) : TokenM Item := do
  match ← get with
  | .blank [' '] :: .word _ :: rest => set rest
  | _ => pure ()
  if ← (if colonRead then pure true else eat .colon) then
    let _ ← expectWord
    expect .colon
    let _ ← expectWord
    if ← eat .period then let _ ← expectWord
    if ← eat .plus then let _ ← expectWord
    if ← eat .colon then let _ ← expectWord
  return .moment

/-- Reads the exponent of a fraction, the first letter of which was read. -/
def exponent (rest : List Char) : TokenM Int := do
  let (number, rest) ← match rest with
    | [] => do
      let _ ← eat .plus
      Number.split? 10 false true (← expectWord)
    | rest => Number.split? 10 true true rest
  if !rest.isEmpty then failure
  return number.value 10

/-- Reads a decimal fraction, from the word before its point and the one after it. -/
def fraction (whole : List Char) (after : Option (List Char)) : TokenM Item := do
  let (integral, rest) ← Number.split? 10 true false whole
  let (places, rest) ← match after with
    | none => pure ([], rest)
    | some after => do
      if !rest.isEmpty then failure
      let (number, rest) ← Number.split? 10 false true after
      pure (number.digits, rest)
  let power ← match rest with
    | [] => pure 0
    | letter :: rest =>
      if letter = 'e' ∨ letter = 'E' then exponent rest else failure
  if Number.isFinite (integral.digits ++ places) (power - places.length) then return .fraction
  else failure

/-- Reads a number that starts with a word. -/
def number (chars : List Char) : TokenM Item := do
  match chars with
  | '0' :: 'x' :: rest => return .integer (← Number.integer? 16 rest)
  | '0' :: 'o' :: rest => return .integer (← Number.integer? 8 rest)
  | '0' :: 'b' :: rest => return .integer (← Number.integer? 2 rest)
  | _ =>
    if chars.contains 'e' || chars.contains 'E' then fraction chars none
    else if ← eat .period then fraction chars (some (← expectWord))
    else if ["inf", "-inf", "nan", "-nan"].contains (String.ofList chars) then return .fraction
    else return .integer (← Number.integer? 10 chars)

/-- Whether a hyphen after the first character makes a word a date rather than a number. -/
def hasDateHyphen (chars : List Char) : Bool :=
  (chars.drop 1).contains '-' &&
    !(chars.zip (chars.drop 1)).any fun (first, second) =>
      (first == 'e' || first == 'E') && second == '-'

/-- Reads a value that starts with a word. -/
def wordValue (chars : List Char) : TokenM Item := do
  if chars = "true".toList then return .boolean true
  else if chars = "false".toList then return .boolean false
  else if chars = "inf".toList || chars = "nan".toList ||
      (chars.head?.any fun char => char == '-' || char.isDigit) then
    if chars.contains 'T' || chars.contains 't' || hasDateHyphen chars then moment false
    else if ← eat .colon then moment true
    else number chars
  else failure

/-- Puts an item under a key into entries. A key of several parts goes into the table that an
earlier key of that kind made. -/
def insertKey (item : Item) : List String → Entries → Option Entries
  | [], _ => none
  | [part], entries => some (entries ++ [(part, item)])
  | part :: rest, entries =>
    match entries.findIdx? (·.1 == part) with
    | none => do
      let inner ← insertKey item rest []
      return entries ++ [(part, .dottedTable inner)]
    | some index =>
      match entries[index]? with
      | some (_, .dottedTable inner) => do
        let inner ← insertKey item rest inner
        return entries.set index (part, .dottedTable inner)
      | _ => none

mutual

def value : Nat → TokenM Item
  | 0 => failure
  | steps + 1 => do
    match ← next with
    | some (.quoted content _) => return .text (String.ofList content)
    | some (.word chars) => wordValue chars
    | some .plus => number (← expectWord)
    | some .leftBrace =>
      skipBlank
      if ← eat .rightBrace then return .inlineTable []
      return .inlineTable (← inlineEntries steps [])
    | some .leftBracket => return .array (← arrayItems steps)
    | _ => failure

/-- Reads the entries of an inline table up to its end. -/
def inlineEntries : Nat → Entries → TokenM Entries
  | 0, _ => failure
  | steps + 1, entries => do
    let path ← key
    skipBlank
    expect .equals
    skipBlank
    let item ← value steps
    let entries ← insertKey item path entries
    skipBlank
    if ← eat .rightBrace then return entries
    expect .comma
    skipBlank
    inlineEntries steps entries

/-- Reads the items of an array, of any types, up to its end. -/
def arrayItems : Nat → TokenM (List Item)
  | 0 => failure
  | steps + 1 => do
    skipLines
    if ← eat .rightBracket then return []
    let item ← value steps
    skipLines
    if ← eat .comma then return item :: (← arrayItems steps)
    skipLines
    expect .rightBracket
    return [item]

end

end TokenM

/-- A part of a text under one header. -/
structure Part where
  header : List String
  repeated : Bool
  entries : Entries

namespace Part

def readHeader : TokenM Part := do
  let repeated ← TokenM.eat .leftBracket
  TokenM.skipBlank
  let header ← TokenM.key
  TokenM.expect .rightBracket
  if repeated then TokenM.expect .rightBracket
  TokenM.endLine
  return ⟨header, repeated, []⟩

def readEntry (entries : Entries) : TokenM Entries := do
  let path ← TokenM.key
  TokenM.skipBlank
  TokenM.expect .equals
  TokenM.skipBlank
  let item ← TokenM.value ((← get).length + 1)
  TokenM.endLine
  TokenM.insertKey item path entries

/-- Reads the parts of a text, the one before the first header included, from the one that is
being read. -/
def readAll : Nat → Part → TokenM (List Part)
  | 0, _ => failure
  | steps + 1, current => do
    TokenM.skipLines
    match ← get with
    | [] => return [current]
    | .leftBracket :: rest =>
      set rest
      let part ← readHeader
      return current :: (← readAll steps part)
    | _ => readAll steps { current with entries := ← readEntry current.entries }

/-- The parts below a key, with the key taken off their headers. -/
def below (key : String) (parts : List Part) : List Part :=
  parts.filterMap fun part =>
    match part.header with
    | first :: rest => if first = key then some { part with header := rest } else none
    | [] => none

/-- The parts that are not below a key. -/
def beside (key : String) (parts : List Part) : List Part :=
  parts.filter fun part => part.header.head? ≠ some key

/-- Whether a part starts the next element of a repeated section. -/
def startsElement (part : Part) : Bool :=
  part.header.isEmpty && part.repeated

mutual

/-- The entries that parts give together. `owned` tells whether the part with the table's own
header was already seen; there can be only one. -/
def merge? : Nat → (owned : Bool) → List Part → Option Entries
  | 0, _, _ => none
  | _ + 1, _, [] => some []
  | steps + 1, owned, part :: rest =>
    match part.header with
    | [] =>
      if owned || part.repeated then none
      else do return part.entries ++ (← merge? steps true rest)
    | key :: inner => do
      let mine := below key (part :: rest)
      let item ←
        if part.repeated && inner.isEmpty then (elements? steps mine).map .array
        else (merge? steps false mine).map .section
      return (key, item) :: (← merge? steps owned (beside key rest))

def elements? : Nat → List Part → Option (List Item)
  | 0, _ => none
  | _ + 1, [] => some []
  | steps + 1, part :: rest => do
    let entries ← merge? steps true (rest.takeWhile fun part => !part.startsElement)
    let others ← elements? steps (rest.dropWhile fun part => !part.startsElement)
    return .section (part.entries ++ entries) :: others

end

/-- The number of merging steps that parts can take. -/
def mergeSteps (parts : List Part) : Nat :=
  parts.foldl (fun steps part => steps + (part.header.length + 2)) 1

/-- Whether a part says anything: it has a header, or entries before the first one. -/
def isGiven (part : Part) : Bool :=
  !part.header.isEmpty || !part.entries.isEmpty

/-- The parts of a settings text that say anything, in its order. -/
def ofText? (text : String) : Option (List Part) := do
  let tokens ← Token.ofText? text
  let (parts, _) ← (readAll (tokens.length + 1) ⟨[], false, []⟩).run tokens
  return parts.filter isGiven

end Part

/-- The entries that the parts of a text give together. -/
def Entries.ofParts? (parts : List Part) : Option Entries :=
  Part.merge? (Part.mergeSteps parts) false parts

end ContractLedger.Settings
