/-!
What the program tells its operator while it works. Entries are never taken back, not even
when the work they tell of is.
-/

namespace ContractLedger

inductive Severity where
  | error
  | warning
  | information
  | detail
deriving DecidableEq

/-- One entry: how much it matters, the part of the program it comes from, and its text. -/
structure JournalEntry where
  severity : Severity
  topic : String
  text : String
deriving DecidableEq

/-- Entries in the order in which they were made. -/
abbrev Journal := List JournalEntry

end ContractLedger
