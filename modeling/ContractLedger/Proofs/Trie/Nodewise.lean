import ContractLedger.Proofs.Step
import ContractLedger.Trie.Basic

/-!
Tries beside two stores. A relation between the steps beside the one and those beside the other that
holds of loading a single node, and of a sequence where it holds of the parts, holds of every lookup and
listing; and if it holds of keeping a node and of repointing the trie, then of every update too.
-/

namespace ContractLedger.Trie

variable {σ τ : Type} [ByteStore σ] [ByteStore τ]

def loadTop : TrieM σ Node := do
  load (← getThe (Mounted σ)).trie.root

def become (root : Hash) : TrieM σ Unit :=
  modify fun mounted => { mounted with trie.root := root }

/-- A relation that sequences keep and that holds of loading a single node. -/
structure Readwise (rel : ∀ {α : Type}, TrieM σ α → TrieM τ α → Prop) : Prop where
  done : ∀ {α : Type} (value : α), rel (pure value) (pure value)
  failed : ∀ {α : Type} (error : TrieError), rel (throw error : TrieM σ α) (throw error)
  bind : ∀ {α β : Type} {first : TrieM σ α} {other : TrieM τ α} {next : α → TrieM σ β}
    {nextOther : α → TrieM τ β}, rel first other → (∀ value, rel (next value) (nextOther value)) →
      rel (first >>= next) (other >>= nextOther)
  load : ∀ hash, rel (load hash) (load hash)
  loadTop : rel loadTop loadTop

/-- A relation that sequences keep and that holds of the steps on a single node. -/
structure Nodewise (rel : ∀ {α : Type}, TrieM σ α → TrieM τ α → Prop) : Prop extends
    Readwise rel where
  keep : ∀ node, rel (keep node) (keep node)
  become : ∀ root, rel (become root) (become root)

namespace Readwise

variable {rel : ∀ {α : Type}, TrieM σ α → TrieM τ α → Prop}

theorem map {α β : Type} {step : TrieM σ α} {other : TrieM τ α} (readwise : Readwise rel)
    (change : α → β) (related : rel step other) : rel (change <$> step) (change <$> other) :=
  readwise.bind related fun value => readwise.done (change value)

omit [ByteStore σ] [ByteStore τ] in
theorem ite {α : Type} {condition : Prop} [Decidable condition] {yes no : TrieM σ α}
    {yesOther noOther : TrieM τ α} (relatedYes : rel yes yesOther) (relatedNo : rel no noOther) :
    rel (if condition then yes else no) (if condition then yesOther else noOther) := by
  split
  · exact relatedYes
  · exact relatedNo

theorem mapM {α β : Type} {step : α → TrieM σ β} {other : α → TrieM τ β} (readwise : Readwise rel)
    (items : List α) (each : ∀ item, rel (step item) (other item)) :
    rel (items.mapM step) (items.mapM other) := by
  induction items with
  | nil => exact readwise.done []
  | cons item items ih =>
    rw [List.mapM_cons, List.mapM_cons]
    exact readwise.bind (each item) fun _ => readwise.bind ih fun _ => readwise.done _

theorem atTop {α : Type} {next : Node → TrieM σ α} {nextOther : Node → TrieM τ α}
    (readwise : Readwise rel) (related : ∀ node, rel (next node) (nextOther node)) :
    rel (do next (← Trie.load (← getThe (Mounted σ)).trie.root))
      (do nextOther (← Trie.load (← getThe (Mounted τ)).trie.root)) :=
  readwise.bind readwise.loadTop related

theorem loadChild (readwise : Readwise rel) (children : Children) (nibble : UInt8) :
    rel (loadChild children nibble) (loadChild children nibble) := by
  unfold Trie.loadChild
  cases children.child? nibble with
  | some hash => exact readwise.load hash
  | none => exact readwise.done _

theorem lookupFrom (readwise : Readwise rel) (steps : Nat) (node : Node) (path : Path) :
    rel (lookupFrom steps node path) (lookupFrom steps node path) := by
  induction steps generalizing node path with
  | zero => exact readwise.failed _
  | succ steps ih =>
    cases node with
    | empty => exact readwise.done _
    | leaf rest value => exact readwise.done _
    | extension lead child =>
      simp only [Trie.lookupFrom]
      cases lead.after? path with
      | none => exact readwise.done _
      | some rest => exact readwise.bind (readwise.load child) fun node => ih node rest
    | branch children value =>
      cases path with
      | nil => exact readwise.done _
      | cons nibble rest =>
        simp only [Trie.lookupFrom]
        cases children.child? nibble with
        | none => exact readwise.done _
        | some child => exact readwise.bind (readwise.load child) fun node => ih node rest

theorem get (readwise : Readwise rel) (key : Bytes) : rel (get key) (get key) :=
  readwise.atTop fun node => readwise.lookupFrom _ node _

theorem pairsFrom (readwise : Readwise rel) (steps : Nat) (node : Node) (path : Path) :
    rel (pairsFrom steps node path) (pairsFrom steps node path) := by
  induction steps generalizing node path with
  | zero => exact readwise.failed _
  | succ steps ih =>
    cases node with
    | empty => exact readwise.done _
    | leaf rest value => exact readwise.done _
    | extension lead child => exact readwise.bind (readwise.load child) fun node => ih node _
    | branch children value =>
      refine readwise.bind (readwise.mapM _ fun entry => ?_) fun _ => readwise.done _
      exact readwise.bind (readwise.load _) fun node => ih node _

theorem pairs (readwise : Readwise rel) : rel pairs pairs := by
  refine readwise.atTop fun node => readwise.bind (readwise.pairsFrom _ node _) fun found =>
    readwise.mapM _ fun entry => ?_
  dsimp only
  cases entry.1.toBytes? with
  | some key => exact readwise.done _
  | none => exact readwise.failed _

end Readwise

namespace Nodewise

variable {rel : ∀ {α : Type}, TrieM σ α → TrieM τ α → Prop}

theorem place (nodewise : Nodewise rel) (branch : Children × Option Bytes) (path : Path)
    (value : Bytes) : rel (place branch path value) (place branch path value) := by
  unfold Trie.place
  cases path with
  | nil => exact nodewise.done _
  | cons nibble rest => exact nodewise.bind (nodewise.keep _) fun _ => nodewise.done _

theorem extend (nodewise : Nodewise rel) (path : Path) (node : Node) :
    rel (extend path node) (extend path node) := by
  unfold Trie.extend
  exact Readwise.ite (nodewise.done _) (nodewise.bind (nodewise.keep _) fun _ => nodewise.done _)

theorem prepend (nodewise : Nodewise rel) (path : Path) (node : Node) :
    rel (prepend path node) (prepend path node) := by
  cases node with
  | branch children value => exact nodewise.extend path _
  | _ => exact nodewise.done _

theorem insertAt (nodewise : Nodewise rel) (steps : Nat) (node : Node) (path : Path)
    (value : Bytes) : rel (insertAt steps node path value) (insertAt steps node path value) := by
  induction steps generalizing node path with
  | zero => exact nodewise.failed _
  | succ steps ih =>
    cases node with
    | empty => exact nodewise.done _
    | leaf rest old =>
      exact Readwise.ite (nodewise.done _) (nodewise.bind (nodewise.place _ _ _) fun branch =>
        nodewise.bind (nodewise.place _ _ _) fun branch => nodewise.extend _ _)
    | extension lead child =>
      simp only [Trie.insertAt]
      cases lead.drop (lead.shared path) with
      | nil =>
        exact nodewise.bind (nodewise.load _) fun node => nodewise.bind (ih _ _) fun node =>
          nodewise.bind (nodewise.keep _) fun _ => nodewise.done _
      | cons nibble rest =>
        have fork (below : Hash) : rel
            (do
              let branch ← Trie.place (Children.none.put nibble (some below), none)
                (path.drop (lead.shared path)) value
              Trie.extend (lead.take (lead.shared path)) (.branch branch.1 branch.2))
            (do
              let branch ← Trie.place (Children.none.put nibble (some below), none)
                (path.drop (lead.shared path)) value
              Trie.extend (lead.take (lead.shared path)) (.branch branch.1 branch.2)) :=
          nodewise.bind (nodewise.place _ _ _) fun branch => nodewise.extend _ _
        exact Readwise.ite (nodewise.bind (nodewise.done _) fork) (nodewise.bind (nodewise.keep _) fork)
    | branch children slot =>
      cases path with
      | nil => exact nodewise.done _
      | cons nibble rest =>
        exact nodewise.bind (nodewise.loadChild _ _) fun node => nodewise.bind (ih _ _) fun node =>
          nodewise.bind (nodewise.keep _) fun _ => nodewise.done _

theorem collapse (nodewise : Nodewise rel) (children : Children) (value : Option Bytes) :
    rel (collapse children value) (collapse children value) := by
  unfold Trie.collapse
  split
  · exact nodewise.done _
  · exact nodewise.done _
  · exact nodewise.bind (nodewise.load _) fun node => nodewise.prepend _ node
  · exact nodewise.done _

theorem removeAt (nodewise : Nodewise rel) (steps : Nat) (node : Node) (path : Path) :
    rel (removeAt steps node path) (removeAt steps node path) := by
  induction steps generalizing node path with
  | zero => exact nodewise.failed _
  | succ steps ih =>
    cases node with
    | empty => exact nodewise.done _
    | leaf rest value => exact nodewise.done _
    | extension lead child =>
      simp only [Trie.removeAt]
      cases lead.after? path with
      | none => exact nodewise.done _
      | some rest =>
        refine nodewise.bind (nodewise.load child) fun node =>
          nodewise.bind (ih node rest) fun below => ?_
        cases below with
        | none => exact nodewise.done _
        | some below => exact nodewise.bind (nodewise.prepend _ _) fun _ => nodewise.done _
    | branch children value =>
      cases path with
      | nil =>
        cases value with
        | none => exact nodewise.done _
        | some value => exact nodewise.map _ (nodewise.collapse _ _)
      | cons nibble rest =>
        simp only [Trie.removeAt]
        cases children.child? nibble with
        | none => exact nodewise.done _
        | some child =>
          refine nodewise.bind (nodewise.load child) fun node =>
            nodewise.bind (ih node rest) fun below => ?_
          cases below with
          | none => exact nodewise.done _
          | some below =>
            cases below with
            | empty => exact nodewise.map _ (nodewise.collapse _ _)
            | _ => exact nodewise.bind (nodewise.keep _) fun _ =>
                nodewise.map _ (nodewise.collapse _ _)

theorem setRootNode (nodewise : Nodewise rel) (node : Node) :
    rel (setRootNode node) (setRootNode node) :=
  nodewise.bind (nodewise.keep node) nodewise.become

theorem remove (nodewise : Nodewise rel) (key : Bytes) : rel (remove key) (remove key) := by
  refine nodewise.atTop fun node => nodewise.bind (nodewise.removeAt _ node _) fun below => ?_
  cases below with
  | none => exact nodewise.done _
  | some node => exact nodewise.bind (nodewise.setRootNode node) fun _ => nodewise.done _

theorem insert (nodewise : Nodewise rel) (key value : Bytes) :
    rel (insert key value) (insert key value) := by
  unfold Trie.insert
  refine Readwise.ite (nodewise.bind (nodewise.remove key) fun _ => nodewise.done _) ?_
  exact nodewise.atTop fun node => nodewise.bind (nodewise.insertAt _ node _ _) fun node =>
    nodewise.setRootNode node

end Nodewise

end ContractLedger.Trie
