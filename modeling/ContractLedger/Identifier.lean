import ContractLedger.Bytes

/-!
The two fixed-width names of the ledger: 32-byte hashes, which name records by their content,
and 20-byte addresses, which name accounts. Both are written `0x` and their digits in texts,
and both are ordered as their bytes are.
-/

namespace ContractLedger

/-- A 32-byte content hash. -/
structure Hash where
  bytes : Bytes
  size : bytes.length = 32
deriving DecidableEq

/-- A 20-byte account address. -/
structure Address where
  bytes : Bytes
  size : bytes.length = 20
deriving DecidableEq

namespace Hash

def ofBytes? (bytes : Bytes) : Option Hash :=
  if size : bytes.length = 32 then some ⟨bytes, size⟩ else none

/-- The number of distinct hashes. -/
def count : Nat := Nat.pow 2 256

def text (hash : Hash) : String :=
  "0x" ++ Bytes.toHex hash.bytes

end Hash

namespace Address

def ofBytes? (bytes : Bytes) : Option Address :=
  if size : bytes.length = 20 then some ⟨bytes, size⟩ else none

/-- The address whose low bytes spell a number. -/
def ofNat (number : Nat) : Address :=
  ⟨Bytes.ofNatWidth 20 number, Bytes.length_ofNatWidth 20 number⟩

def text (address : Address) : String :=
  "0x" ++ Bytes.toHex address.bytes

instance : Ord Address := ⟨fun first second => compare first.bytes second.bytes⟩

theorem compare_eq (first second : Address) :
    compare first second = compare first.bytes second.bytes := rfl

instance : Std.TransOrd Address where
  eq_swap := by
    intro first second
    simp only [compare_eq]
    exact Std.OrientedCmp.eq_swap
  isLE_trans := by
    intro first second third
    simp only [compare_eq]
    exact Std.TransCmp.isLE_trans

instance : Std.LawfulEqOrd Address where
  compare_self := by
    intro address
    simp only [compare_eq]
    exact Std.ReflCmp.compare_self
  eq_of_compare := by
    intro first second same
    simp only [compare_eq] at same
    cases first
    cases second
    simpa using Std.LawfulEqCmp.eq_of_compare same

end Address

end ContractLedger
