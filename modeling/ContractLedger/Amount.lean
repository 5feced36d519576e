/-!
Balances, values in transit and gas are 64-bit words. Sums and products that would not fit
stay at the largest word.
-/

namespace ContractLedger

/-- A balance or a value in transit. -/
abbrev Amount := UInt64

/-- A unit of execution cost. -/
abbrev Gas := UInt64

namespace Amount

def maximum : UInt64 := 0xFFFFFFFFFFFFFFFF

/-- The word nearest to a number. -/
def clamp (number : Nat) : UInt64 :=
  if number < UInt64.size then UInt64.ofNat number else maximum

/-- The sum, or the largest word. -/
def plus (first second : UInt64) : UInt64 :=
  clamp (first.toNat + second.toNat)

/-- The difference, or zero. -/
def minus (first second : UInt64) : UInt64 :=
  if second ≤ first then first - second else 0

/-- The number of a word that fits, if it does. -/
def ofNat? (number : Nat) : Option UInt64 :=
  if number < UInt64.size then some (UInt64.ofNat number) else none

theorem toNat_clamp (number : Nat) : (clamp number).toNat = min number (UInt64.size - 1) := by
  unfold clamp
  split
  · next fits =>
    rw [UInt64.toNat_ofNat_of_lt' fits]
    omega
  · next large =>
    have value : maximum.toNat = UInt64.size - 1 := by decide
    omega

theorem toNat_plus (first second : UInt64) :
    (plus first second).toNat = min (first.toNat + second.toNat) (UInt64.size - 1) :=
  toNat_clamp _

theorem toNat_minus (first second : UInt64) :
    (minus first second).toNat = first.toNat - second.toNat := by
  unfold minus
  split
  · next fits => rw [UInt64.toNat_sub_of_le _ _ fits]
  · next less =>
    have := UInt64.not_le.mp less
    have := UInt64.lt_iff_toNat_lt.mp this
    simp
    omega

end Amount

end ContractLedger
