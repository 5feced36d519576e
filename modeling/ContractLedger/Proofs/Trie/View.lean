import ContractLedger.Proofs.Trie.Nodewise
import ContractLedger.Proofs.Trie.Orderly

/-!
Tries over a reliable store do what they do over its content, and lose no pending record while they
look and update, however that ends.
-/

namespace ContractLedger.Trie

variable {σ : Type} [ByteStore σ] [ReliableStore σ]

/-- A mounted trie over the content of its store. -/
def Mounted.view (mounted : Mounted σ) : Mounted Content :=
  ⟨mounted.trie, content mounted.store⟩

/-- The pending byte strings of a mounted trie. -/
def Mounted.pending (mounted : Mounted Content) : Set Bytes :=
  mounted.trie.overlay.records

theorem agree_onStore {α : Type} {access : EStateM StoreError σ α}
    {accessContent : EStateM StoreError Content α}
    (agree : Agree content unmeasured access accessContent) :
    Agree Mounted.view Mounted.pending (onStore access) (onStore accessContent) := by
  constructor
  · intro mounted
    simp only [onStore, Mounted.view, ← agree.same mounted.store]
    cases access mounted.store <;> rfl
  · intro mounted
    unfold onStore
    cases accessContent mounted.view.store <;> exact Set.Subset.refl _

theorem agree_read (keyspace : Keyspace) (key : Bytes) :
    Agree content unmeasured (keyspace.read key : EStateM StoreError σ _) (keyspace.read key) :=
  .of_same (ReliableStore.read_content _ _)

theorem agree_readNode (record : Bytes) :
    Agree Mounted.view Mounted.pending (readNode record : TrieM σ Node) (readNode record) := by
  unfold readNode
  cases Node.decode record with
  | ok node => exact .done node
  | error error => exact .failed _

theorem agree_load (hash : Hash) :
    Agree Mounted.view Mounted.pending (load hash : TrieM σ Node) (load hash) := by
  unfold load
  refine .ite (.done _) (.reading fun mounted => ?_)
  have trie : mounted.view.trie = mounted.trie := rfl
  simp only [trie]
  cases mounted.trie.overlay.lookup hash with
  | some record => exact agree_readNode record
  | none =>
    refine .bind (agree_onStore (agree_read _ _)) fun record => ?_
    cases record with
    | some record => exact agree_readNode record
    | none => exact .failed _

theorem agree_keep (node : Node) :
    Agree Mounted.view Mounted.pending (keep node : TrieM σ Hash) (keep node) := by
  unfold keep
  refine .ite (.done _) (.bind (.changed (fun _ => rfl) fun mounted => ?_) fun _ => .done _)
  exact Overlay.records_mono fun _ member => List.mem_cons_of_mem _ member

/-- What a trie does over a reliable store, node by node, it does over the content. -/
theorem nodewise_agree : Nodewise fun (first : TrieM σ _) (second : TrieM Content _) =>
    Agree Mounted.view Mounted.pending first second where
  done := .done
  failed := .failed
  bind := .bind
  load := agree_load
  loadTop := .reading fun _ => agree_load _
  keep := agree_keep
  become _ := .changed (fun _ => rfl) fun _ => Set.Subset.refl _

theorem agree_get (key : Bytes) :
    Agree Mounted.view Mounted.pending (get key : TrieM σ _) (get key) :=
  nodewise_agree.get key

theorem agree_insert (key value : Bytes) :
    Agree Mounted.view Mounted.pending (insert key value : TrieM σ _) (insert key value) :=
  nodewise_agree.insert key value

theorem agree_setRoot (root : Hash) :
    Agree Mounted.view unmeasured (setRoot root : TrieM σ _) (setRoot root) := by
  unfold setRoot
  refine .reading fun mounted => ?_
  have repoint : Agree Mounted.view unmeasured
      (modify fun mounted : Mounted σ =>
        { mounted with trie := { mounted.trie with overlay := [], root, committedRoot := root } })
      (modify fun mounted : Mounted Content =>
        { mounted with trie := { mounted.trie with overlay := [], root, committedRoot := root } } :
          TrieM Content PUnit) := .of_same fun _ => rfl
  refine .ite (.bind (agree_onStore (agree_read _ _)).forget fun record => ?_) repoint
  exact .ite (.bind (.failed _) fun _ => repoint) repoint

end ContractLedger.Trie
