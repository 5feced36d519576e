import ContractLedger.Bytes
import ContractLedger.Text.Unprintable

/-!
Texts in double quotes. A quote and a backslash follow a backslash, four control characters have
short names, and other characters without a picture are given by their code points.
-/

namespace ContractLedger.Text

/-- Lowercase hexadecimal digits of a number, without leading zeros. -/
def hexDigits (number : Nat) : List Char :=
  if number < 16 then [Bytes.hexDigit number]
  else hexDigits (number / 16) ++ [Bytes.hexDigit (number % 16)]
decreasing_by omega

/-- How a character is written between quotes. -/
def escaped (character : Char) : List Char :=
  match character with
  | '\x00' => ['\\', '0']
  | '\t' => ['\\', 't']
  | '\n' => ['\\', 'n']
  | '\r' => ['\\', 'r']
  | '"' => ['\\', '"']
  | '\\' => ['\\', '\\']
  | other =>
    if isUnprintable other then
      ['\\', 'u', '\x7b'] ++ hexDigits other.toNat ++ ['\x7d']
    else [other]

def quoted (text : String) : String :=
  String.ofList ('"' :: text.toList.flatMap escaped ++ ['"'])

end ContractLedger.Text
