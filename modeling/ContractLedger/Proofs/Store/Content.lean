import ContractLedger.Proofs.OrderedMap
import ContractLedger.Proofs.View
import ContractLedger.Store.Memory
import Mathlib.Logic.Function.Basic

/-!
The content of a store: the value under each key of each column. A content is the plainest store
there is, one that no reading changes and no access to a column fails on. A store is reliable if it
answers as its content does, and the store in memory is.
-/

namespace ContractLedger

/-- The value under each key of each column. -/
abbrev Content := Nat → Bytes → Option Bytes

namespace Content

def empty : Content := fun _ _ => none

/-- Changes one column; a number that names none changes nothing. -/
def updateColumn (content : Content) (column : Nat)
    (change : (Bytes → Option Bytes) → Bytes → Option Bytes) : Content :=
  if column < Column.count then Function.update content column (change (content column))
  else content

def apply (content : Content) : StoreOp → Content
  | .put column key value => content.updateColumn column (Function.update · key (some value))
  | .delete column key => content.updateColumn column (Function.update · key none)
  | .deleteUnder column stem =>
    content.updateColumn column fun values key => if stem.isPrefixOf key then none else values key

/-- The operations take effect one after another. -/
def applyAll (content : Content) (ops : List StoreOp) : Content :=
  ops.foldl apply content

instance : ByteStore Content where
  read column key := fun content =>
    if column < Column.count then .ok (content column key) content
    else .error (.noColumn column) content
  write ops := fun content => .ok () (content.applyAll ops)

end Content

/-- A store whose accesses succeed: it answers as its content does, and a write has its whole
effect. What else the store keeps, such as counts of accesses, may change at any access. -/
class ReliableStore (σ : Type) [ByteStore σ] where
  content : σ → Content
  read_content : ∀ column key (store : σ),
    through content (ByteStore.read column key store) =
      ByteStore.read column key (content store)
  write_content : ∀ ops (store : σ),
    through content (ByteStore.write ops store) = ByteStore.write ops (content store)

export ReliableStore (content)

instance : ReliableStore Content where
  content := id
  read_content column key store := by
    cases read : ByteStore.read column key store <;> simp [through, read]
  write_content ops store := rfl

namespace Memory

def toContent (memory : Memory) : Content := fun column key =>
  (memory.column? column).bind (·.get? key)

private theorem toContent_accounts (memory : Memory) :
    memory.toContent 0 = memory.accounts.get? := rfl

private theorem toContent_code (memory : Memory) : memory.toContent 1 = memory.code.get? := rfl

private theorem toContent_storage (memory : Memory) :
    memory.toContent 2 = memory.storage.get? := rfl

private theorem toContent_other (memory : Memory) (column : Nat) :
    memory.toContent (column + 3) = fun _ => none := rfl

private theorem toContent_updateColumn (memory : Memory) (column : Nat)
    {change : OrderedMap Bytes Bytes → OrderedMap Bytes Bytes}
    {effect : (Bytes → Option Bytes) → Bytes → Option Bytes}
    (agree : ∀ entries : OrderedMap Bytes Bytes, (change entries).get? = effect entries.get?) :
    (memory.updateColumn column change).toContent =
      memory.toContent.updateColumn column effect := by
  funext other
  match column with
  | 0 | 1 | 2 =>
    rcases other with _ | _ | _ | other <;>
      simp [updateColumn, Content.updateColumn, Column.count, toContent_accounts, toContent_code,
        toContent_storage, toContent_other, agree]
  | column + 3 =>
    have outside : ¬ column + 3 < 3 := by omega
    simp [updateColumn, Content.updateColumn, Column.count, outside]

theorem toContent_apply (memory : Memory) (op : StoreOp) :
    (memory.apply op).toContent = memory.toContent.apply op := by
  cases op with
  | put column key value =>
    rw [apply, Content.apply]
    apply toContent_updateColumn
    intro entries
    funext other
    simp [OrderedMap.get?_insert, Function.update_apply]
  | delete column key =>
    rw [apply, Content.apply]
    apply toContent_updateColumn
    intro entries
    funext other
    simp [OrderedMap.get?_erase, Function.update_apply]
  | deleteUnder column stem =>
    rw [apply, Content.apply]
    apply toContent_updateColumn
    intro entries
    funext other
    rw [OrderedMap.get?_filterKeys]
    by_cases under : stem.isPrefixOf other = true <;> simp [under]

theorem toContent_applyAll (memory : Memory) (ops : List StoreOp) :
    (memory.applyAll ops).toContent = memory.toContent.applyAll ops := by
  induction ops generalizing memory with
  | nil => rfl
  | cons op ops ih =>
    rw [applyAll, List.foldl_cons, ← applyAll, ih, toContent_apply]
    rfl

instance : ReliableStore Memory where
  content := toContent
  read_content column key memory := by
    rcases column with _ | _ | _ | column <;> rfl
  write_content ops memory := by
    change EStateM.Result.ok () (memory.applyAll ops).toContent = _
    rw [toContent_applyAll]
    rfl

theorem content_empty : content Memory.empty = Content.empty := by
  funext column key
  rcases column with _ | _ | _ | column <;> rfl

end Memory

/-- Counting accesses does not change what a store holds. -/
instance {σ : Type} [ByteStore σ] [ReliableStore σ] : ReliableStore (Counted σ) where
  content counted := content counted.store
  read_content column key counted := by
    have below := ReliableStore.read_content column key counted.store
    rw [← below]
    change through _ (Counted.onStore _ _) = _
    unfold Counted.onStore
    cases read : ByteStore.read column key counted.store <;> simp [through]
  write_content ops counted := by
    have below := ReliableStore.write_content ops counted.store
    rw [← below]
    change through _ (Counted.onStore _ _) = _
    unfold Counted.onStore
    cases written : ByteStore.write ops counted.store <;> simp [through]

end ContractLedger
