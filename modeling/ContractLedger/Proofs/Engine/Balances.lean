import ContractLedger.Engine.World
import Mathlib.Algebra.Ring.Nat
import Mathlib.Algebra.BigOperators.Group.Finset.Piecewise
import Mathlib.Data.Fintype.Pi
import Mathlib.Data.Fintype.EquivFin
import Mathlib.Algebra.Order.BigOperators.Group.Finset

/-!
Balances as plain numbers, and transfers that are carried out on them one after another. As long as
every transfer is covered when its turn comes, a balance is what it was, with all that was received
and without all that was sent, and the sum of all balances stays the same. The balance that code is
shown, which is computed from totals that stay at the largest word, is never more than that.
-/

namespace ContractLedger

private def Address.places (address : Address) (place : Fin 20) : Fin UInt8.size :=
  (address.bytes.get (place.cast address.size.symm)).toFin

/-- There are only so many addresses. -/
instance : Finite Address := by
  refine .of_injective Address.places fun first second same => ?_
  obtain ⟨bytes, size⟩ := first
  obtain ⟨others, sizeOthers⟩ := second
  congr 1
  refine List.ext_getElem (size.trans sizeOthers.symm) fun place here there => ?_
  exact UInt8.toFin_inj.mp (congrFun same ⟨place, size ▸ here⟩)

noncomputable instance : Fintype Address := .ofFinite Address

namespace TransferList

def sum (transfers : TransferList) : Nat :=
  (transfers.map fun transfer => transfer.value.toNat).sum

def outflow (transfers : TransferList) (address : Address) : Nat :=
  sum (transfers.filter (·.sender = address))

def inflow (transfers : TransferList) (address : Address) : Nat :=
  sum (transfers.filter (·.recipient = address))

variable (transfer : Transfer) (transfers : TransferList) (address : Address)

theorem outflow_cons : outflow (transfer :: transfers) address =
    (if transfer.sender = address then transfer.value.toNat else 0) + outflow transfers address := by
  by_cases sends : transfer.sender = address <;> simp [outflow, sum, sends]

theorem inflow_cons : inflow (transfer :: transfers) address =
    (if transfer.recipient = address then transfer.value.toNat else 0) +
      inflow transfers address := by
  by_cases receives : transfer.recipient = address <;> simp [inflow, sum, receives]

/-- A total is exact unless it stays at the largest word. -/
theorem toNat_total : (total transfers).toNat = min (sum transfers) (UInt64.size - 1) := by
  have folded (sofar : Amount) :
      (transfers.foldl (fun sum transfer => Amount.plus sum transfer.value) sofar).toNat =
        min (sofar.toNat + sum transfers) (UInt64.size - 1) := by
    induction transfers generalizing sofar with
    | nil =>
      have bound := sofar.toNat_lt
      simp [sum]
      omega
    | cons transfer transfers ih =>
      rw [List.foldl_cons, ih, Amount.toNat_plus]
      simp only [sum, List.map_cons, List.sum_cons]
      omega
  have whole := folded 0
  rwa [UInt64.toNat_zero, Nat.zero_add] at whole

end TransferList

abbrev Balances := Address → Nat

namespace Balances

open TransferList

/-- Carries a transfer out, from one address to another, which may be the same. -/
def move (balances : Balances) (transfer : Transfer) : Balances :=
  let left := Function.update balances transfer.sender
    (balances transfer.sender - transfer.value.toNat)
  Function.update left transfer.recipient (left transfer.recipient + transfer.value.toNat)

/-- Carries transfers out, one after another. -/
def settle (balances : Balances) (transfers : TransferList) : Balances :=
  transfers.foldl move balances

/-- Whether every transfer is covered when its turn comes. -/
def Covers : Balances → TransferList → Prop
  | _, [] => True
  | balances, transfer :: transfers =>
    transfer.value.toNat ≤ balances transfer.sender ∧ (balances.move transfer).Covers transfers

/-- The balances with value that has arrived already. -/
def credit (balances : Balances) (incoming : Incoming) : Balances :=
  Function.update balances incoming.recipient
    (balances incoming.recipient + incoming.value.toNat)

variable {balances others : Balances} {transfer : Transfer} {transfers rest : TransferList}

theorem credit_apply (balances : Balances) (incoming : Incoming) (address : Address) :
    balances.credit incoming address =
      balances address + if incoming.recipient = address then incoming.value.toNat else 0 := by
  rw [credit, Function.update_apply]
  split <;> simp_all [eq_comm]

theorem move_eq (balances : Balances) (transfer : Transfer) (address : Address) :
    balances.move transfer address =
      (if transfer.sender = address then balances address - transfer.value.toNat
        else balances address) +
        if transfer.recipient = address then transfer.value.toNat else 0 := by
  simp only [move, Function.update_apply, eq_comm (a := address)]
  by_cases sends : transfer.sender = address <;> by_cases receives : transfer.recipient = address
  · subst sends
    simp [receives]
  · subst sends
    simp [receives]
  · subst receives
    simp [sends, Ne.symm sends]
  · simp [sends, receives]

theorem move_apply (covered : transfer.value.toNat ≤ balances transfer.sender) (address : Address) :
    balances.move transfer address + (if transfer.sender = address then transfer.value.toNat else 0) =
      balances address + if transfer.recipient = address then transfer.value.toNat else 0 := by
  rw [move_eq]
  by_cases sends : transfer.sender = address
  · subst sends
    rw [if_pos rfl, if_pos rfl]
    omega
  · rw [if_neg sends, if_neg sends, Nat.add_zero]

/-- A transfer changes the balance of an address that does not send it as incoming value does. -/
theorem move_apply_of_ne {address : Address} (apart : transfer.sender ≠ address) :
    balances.move transfer address = balances.credit ⟨transfer.recipient, transfer.value⟩ address := by
  rw [move_eq, if_neg apart, credit_apply]

theorem move_le {address : Address} (less : balances address ≤ others address) :
    balances.move transfer address ≤ others.move transfer address := by
  rw [move_eq, move_eq]
  refine Nat.add_le_add_right ?_ _
  split
  · exact Nat.sub_le_sub_right less _
  · exact less

theorem covers_append : balances.Covers (transfers ++ rest) ↔
    balances.Covers transfers ∧ (balances.settle transfers).Covers rest := by
  induction transfers generalizing balances with
  | nil => exact (iff_of_eq (true_and _)).symm
  | cons transfer transfers ih =>
    rw [List.cons_append, Covers, ih, Covers, and_assoc]
    rfl

theorem Covers.mono (covers : balances.Covers transfers)
    (less : ∀ transfer ∈ transfers, balances transfer.sender ≤ others transfer.sender) :
    others.Covers transfers := by
  induction transfers generalizing balances others with
  | nil => trivial
  | cons transfer transfers ih =>
    obtain ⟨first, lessRest⟩ := List.forall_mem_cons.mp less
    exact ⟨covers.1.trans first,
      ih covers.2 fun other member => move_le (lessRest other member)⟩

theorem Covers.settle_apply (covers : balances.Covers transfers) (address : Address) :
    balances.settle transfers address + outflow transfers address =
      balances address + inflow transfers address := by
  induction transfers generalizing balances with
  | nil => rfl
  | cons transfer transfers ih =>
    have first := move_apply covers.1 address
    have last := ih covers.2
    rw [outflow_cons, inflow_cons]
    change (balances.move transfer).settle transfers address + _ = _
    omega

/-- The sum of all balances stays the same. -/
theorem Covers.sum_settle (covers : balances.Covers transfers) :
    ∑ address, balances.settle transfers address = ∑ address, balances address := by
  induction transfers generalizing balances with
  | nil => rfl
  | cons transfer transfers ih =>
    have moved : ∑ address, balances.move transfer address = ∑ address, balances address := by
      have pointwise := Finset.sum_congr (rfl : Finset.univ = Finset.univ) fun address _ =>
        move_apply covers.1 address
      simp only [Finset.sum_add_distrib, Finset.sum_ite_eq, Finset.mem_univ, if_true] at pointwise
      omega
    exact (ih covers.2).trans moved

theorem le_sum (balances : Balances) (address : Address) :
    balances address ≤ ∑ address, balances address :=
  Finset.single_le_sum (f := balances) (fun _ _ => Nat.zero_le _) (Finset.mem_univ address)

theorem sum_update_le (balances : Balances) (address : Address) (value : Nat) :
    ∑ other, Function.update balances address value other ≤ ∑ other, balances other + value := by
  have pointwise (other : Address) : Function.update balances address value other ≤
      balances other + if other = address then value else 0 := by
    rw [Function.update_apply]
    split <;> omega
  refine (Finset.sum_le_sum fun other _ => pointwise other).trans_eq ?_
  rw [Finset.sum_add_distrib, Finset.sum_ite_eq', if_pos (Finset.mem_univ address)]

end Balances

/-- The balance that code at an address is shown, given the stored one and the transfers so far. -/
def Incoming.shown (incoming : Incoming) (stored : Amount) (transfers : TransferList)
    (address : Address) : Amount :=
  let credited :=
    if address = incoming.recipient then Amount.plus stored incoming.value else stored
  Amount.minus (Amount.plus credited (transfers.receivedBy address)) (transfers.sentBy address)

namespace Incoming

variable {incoming : Incoming} {balances : Balances} {transfers : TransferList} {stored : Amount}
  {address : Address}

theorem toNat_shown (held : balances address = stored.toNat) :
    (incoming.shown stored transfers address).toNat =
      min (min (balances.credit incoming address) (UInt64.size - 1) +
        min (TransferList.inflow transfers address) (UInt64.size - 1)) (UInt64.size - 1) -
        min (TransferList.outflow transfers address) (UInt64.size - 1) := by
  have bound := stored.toNat_lt
  simp only [shown, Amount.toNat_minus, Amount.toNat_plus, TransferList.receivedBy,
    TransferList.sentBy, TransferList.toNat_total, TransferList.inflow, TransferList.outflow,
    Balances.credit_apply, held, eq_comm (a := incoming.recipient)]
  split
  · rw [Amount.toNat_plus]
  · omega

/-- Code is shown no more than what the incoming value and the transfers so far leave. -/
theorem toNat_shown_le (covers : (balances.credit incoming).Covers transfers)
    (held : balances address = stored.toNat) :
    (incoming.shown stored transfers address).toNat ≤
      (balances.credit incoming).settle transfers address := by
  have exact := covers.settle_apply address
  rw [toNat_shown held]
  omega

/-- Code is shown just that, if all that its address has received fits a word. -/
theorem toNat_shown_eq (covers : (balances.credit incoming).Covers transfers)
    (held : balances address = stored.toNat)
    (fits : balances.credit incoming address + TransferList.inflow transfers address < UInt64.size) :
    (incoming.shown stored transfers address).toNat =
      (balances.credit incoming).settle transfers address := by
  have exact := covers.settle_apply address
  rw [toNat_shown held]
  omega

end Incoming

end ContractLedger
