/-!
The tokens of a settings text. A carriage return counts only as part of a line break, comments
end with their line, and strings come in two quotings, each on one line or on several.
-/

namespace ContractLedger.Settings

inductive Token where
  | newline
  | blank (text : List Char)
  | comment
  | equals
  | period
  | comma
  | colon
  | plus
  | leftBrace
  | rightBrace
  | leftBracket
  | rightBracket
  | word (text : List Char)
  | quoted (content : List Char) (multiline : Bool)
deriving DecidableEq

namespace Token

/-- Line breaks of two characters as one. -/
def foldLineBreaks : List Char → List Char
  | '\r' :: '\n' :: rest => '\n' :: foldLineBreaks rest
  | char :: rest => char :: foldLineBreaks rest
  | [] => []

/-- Characters of keys, numbers and dates. -/
def isWordChar (char : Char) : Bool :=
  char.isAlphanum || char == '-' || char == '_'

def isBlank (char : Char) : Bool :=
  char == ' ' || char == '\t'

def isCommentChar (char : Char) : Bool :=
  char == '\t' || ' ' ≤ char

/-- Characters that a string may hold as they are. -/
def isTextChar (char : Char) : Bool :=
  char == '\t' || (' ' ≤ char && char != '\x7f')

def hexValue? (char : Char) : Option Nat :=
  if '0' ≤ char && char ≤ '9' then some (char.toNat - '0'.toNat)
  else if 'a' ≤ char && char ≤ 'f' then some (char.toNat - 'a'.toNat + 10)
  else if 'A' ≤ char && char ≤ 'F' then some (char.toNat - 'A'.toNat + 10)
  else none

/-- The character whose code a number of hexadecimal digits gives, and what follows them. -/
def codePoint? (digits : Nat) (chars : List Char) : Option (Char × List Char) := do
  let values ← (chars.take digits).mapM hexValue?
  if values.length < digits then none
  let code := values.foldl (fun code value => 16 * code + value) 0
  if code.isValidChar then some (Char.ofNat code, chars.drop digits) else none

/-- What follows a line break that a backslash hides, blanks on both sides of it included. -/
def afterHiddenBreak? (chars : List Char) : Option (List Char) :=
  match chars.dropWhile isBlank with
  | [] => some []
  | '\n' :: rest => some (rest.dropWhile fun char => isBlank char || char == '\n')
  | _ => none

/-- The characters that an escape stands for, and what follows it. -/
def escape? (multiline : Bool) : List Char → Option (List Char × List Char)
  | '"' :: rest => some (['"'], rest)
  | '\\' :: rest => some (['\\'], rest)
  | 'b' :: rest => some (['\x08'], rest)
  | 'f' :: rest => some (['\x0c'], rest)
  | 'n' :: rest => some (['\n'], rest)
  | 'r' :: rest => some (['\r'], rest)
  | 't' :: rest => some (['\t'], rest)
  | 'u' :: rest => (codePoint? 4 rest).map fun (char, rest) => ([char], rest)
  | 'U' :: rest => (codePoint? 8 rest).map fun (char, rest) => ([char], rest)
  | rest => if multiline then (afterHiddenBreak? rest).map ([], ·) else none

/-- The rest of a string of one line, up to its closing quote. -/
def lineString? (quote : Char) : Nat → List Char → Option (List Char × List Char)
  | 0, _ | _, [] => none
  | steps + 1, char :: rest =>
    if char = quote then some ([], rest)
    else if char = '\\' ∧ quote = '"' then do
      let (chars, rest) ← escape? false rest
      let (content, rest) ← lineString? quote steps rest
      return (chars ++ content, rest)
    else if isTextChar char then do
      let (content, rest) ← lineString? quote steps rest
      return (char :: content, rest)
    else none

/-- The rest of a string of several lines. Up to two quotes before the closing three belong to
the string. -/
def blockString? (quote : Char) : Nat → List Char → Option (List Char × List Char)
  | 0, _ | _, [] => none
  | steps + 1, char :: rest =>
    if char = quote then
      let run := rest.takeWhile (· = quote)
      if run.length < 2 then do
        let (content, rest) ← blockString? quote steps rest
        return (char :: content, rest)
      else
        let inner := min (run.length - 2) 2
        some (List.replicate inner quote, rest.drop (2 + inner))
    else if char = '\\' ∧ quote = '"' then do
      let (chars, rest) ← escape? true rest
      let (content, rest) ← blockString? quote steps rest
      return (chars ++ content, rest)
    else if char = '\n' ∨ isTextChar char then do
      let (content, rest) ← blockString? quote steps rest
      return (char :: content, rest)
    else none

/-- The string after an opening quote. A line break right after the opening of a string of
several lines is not part of it. -/
def string? (quote : Char) (chars : List Char) : Option (Token × List Char) := do
  if [quote, quote].isPrefixOf chars then
    let body := chars.drop 2
    let body := if body.head? = some '\n' then body.drop 1 else body
    let (content, rest) ← blockString? quote (body.length + 1) body
    return (quoted content true, rest)
  else
    let (content, rest) ← lineString? quote (chars.length + 1) chars
    return (quoted content false, rest)

/-- The first token of a text that is not empty. -/
def next? : Char → List Char → Option (Token × List Char)
  | '\n', rest => some (newline, rest)
  | '#', rest => some (comment, rest.dropWhile isCommentChar)
  | '=', rest => some (equals, rest)
  | '.', rest => some (period, rest)
  | ',', rest => some (comma, rest)
  | ':', rest => some (colon, rest)
  | '+', rest => some (plus, rest)
  | '\x7b', rest => some (leftBrace, rest)
  | '\x7d', rest => some (rightBrace, rest)
  | '[', rest => some (leftBracket, rest)
  | ']', rest => some (rightBracket, rest)
  | '\'', rest => string? '\'' rest
  | '"', rest => string? '"' rest
  | char, rest =>
    if isBlank char then
      some (blank (char :: rest.takeWhile isBlank), rest.dropWhile isBlank)
    else if isWordChar char then
      some (word (char :: rest.takeWhile isWordChar), rest.dropWhile isWordChar)
    else none

def allFrom? : Nat → List Char → Option (List Token)
  | 0, _ => none
  | _ + 1, [] => some []
  | steps + 1, char :: rest => do
    let (token, rest) ← next? char rest
    return token :: (← allFrom? steps rest)

/-- The tokens of a text, which may start with a byte order mark. -/
def ofText? (text : String) : Option (List Token) :=
  let chars := foldLineBreaks text.toList
  let chars := if chars.head? = some '\ufeff' then chars.drop 1 else chars
  allFrom? (chars.length + 1) chars

end Token

end ContractLedger.Settings
