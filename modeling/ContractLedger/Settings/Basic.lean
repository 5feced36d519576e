import ContractLedger.Settings.Item
import ContractLedger.Engine.Gas
import ContractLedger.Admission.Inspection

/-!
The settings of the whole program, read from a text. Every section and every key has a default,
keys that no setting has are passed over, and a section may also be given as an array of its
values in order.
-/

namespace ContractLedger

structure Settings where
  limits : Limits
  extraDenylist : List String
  generics : GenericPolicy
  logging : Option String
deriving DecidableEq

namespace Settings

def standard : Settings := ⟨.standard, [], .allow, none⟩

def inspector (settings : Settings) : Inspector :=
  ⟨Denylist.standard.extend settings.extraDenylist, settings.generics⟩

/-- A setting of a section: its key, and how its item changes the section. -/
structure Field (α : Type) where
  key : String
  assign : Item → α → Option α

/-- Takes the fields of a section from entries, each at most once. -/
def readEntries {α : Type} (fields : List (Field α)) : (used : List String) → Entries → α →
    Option α
  | _, [], result => some result
  | used, (key, item) :: rest, result =>
    match fields.find? (·.key == key) with
    | none => readEntries fields used rest result
    | some field =>
      if used.contains key then none
      else do readEntries fields (key :: used) rest (← field.assign item result)

/-- Takes the fields of a section from the items of an array, in order. -/
def readItems {α : Type} : List (Field α) → List Item → α → Option α
  | _, [], result => some result
  | [], _ :: _, _ => none
  | field :: fields, item :: items, result => do
    readItems fields items (← field.assign item result)

/-- Reads a section. A moment is a table without settings. -/
def readSection {α : Type} (fields : List (Field α)) (start : α) : Item → Option α
  | .inlineTable entries | .dottedTable entries | .section entries =>
    readEntries fields [] entries start
  | .array items => readItems fields items start
  | .moment => some start
  | _ => none

/-- Reads a number that is not negative. -/
def readNat : Item → Option Nat
  | .integer value => if 0 ≤ value then some value.toNat else none
  | _ => none

def readText : Item → Option String
  | .text value => some value
  | _ => none

def readTexts : Item → Option (List String)
  | .array items => items.mapM readText
  | _ => none

def policyOfName? : String → Option GenericPolicy
  | "allow" => some .allow
  | "reject" => some .reject
  | _ => none

/-- Reads a policy: its name, or an inline table that holds an empty table under its name. -/
def readPolicy : Item → Option GenericPolicy
  | .text name => policyOfName? name
  | .inlineTable [(name, .inlineTable [])] => policyOfName? name
  | _ => none

def gasField (key : String) (assign : Schedule → Gas → Schedule) : Field Schedule :=
  ⟨key, fun item schedule => (readNat item).map fun price => assign schedule (UInt64.ofNat price)⟩

def scheduleFields : List (Field Schedule) :=
  [gasField "storage_read_base" fun schedule price => { schedule with readBase := price },
   gasField "storage_write_base" fun schedule price => { schedule with writeBase := price },
   gasField "storage_byte" fun schedule price => { schedule with perByte := price },
   gasField "transfer" fun schedule price => { schedule with transfer := price },
   gasField "call" fun schedule price => { schedule with call := price }]

def engineFields : List (Field Settings) :=
  [⟨"max_call_depth", fun item settings => do
     return { settings with
       limits := { settings.limits with maxCallDepth := ← readNat item } }⟩,
   ⟨"schedule", fun item settings => do
     return { settings with
       limits := { settings.limits with
         schedule := ← readSection scheduleFields .standard item } }⟩]

def inspectionFields : List (Field Settings) :=
  [⟨"extra_denylist", fun item settings => do
     return { settings with extraDenylist := ← readTexts item }⟩,
   ⟨"generic_calls", fun item settings => do
     return { settings with generics := ← readPolicy item }⟩]

/-- The sections and the settings outside of them. -/
def topFields : List (Field Settings) :=
  [⟨"vm", fun item settings => readSection engineFields settings item⟩,
   ⟨"validation", fun item settings => readSection inspectionFields settings item⟩,
   ⟨"logging", fun item settings => do
     return { settings with logging := some (← readText item) }⟩]

/-- The header of the policy, which a name of one may follow. -/
def policyHeader : List String := ["validation", "generic_calls"]

/-- The policy that a header names last, if nothing stands under it. -/
def policyOfPart? (part : Part) : Option GenericPolicy := do
  if part.entries.isEmpty then policyOfName? (← part.header.getLast?) else none

/-- The settings that the parts of a text give. A policy may be given by a header instead of an
entry, but only in a text that is nothing else. -/
def ofParts? (parts : List Part) : Option Settings := do
  match parts.filter fun part => policyHeader.isPrefixOf part.header with
  | [] => readEntries topFields [] (← Entries.ofParts? parts) standard
  | [part] =>
    if parts.length = 1 then return { standard with generics := ← policyOfPart? part } else none
  | _ => none

/-- The settings that a text gives, if it is well formed. -/
def ofText? (text : String) : Option Settings := do
  ofParts? (← Part.ofText? text)

end Settings

end ContractLedger
