import ContractLedger.Proofs.Trie.Changes
import ContractLedger.Proofs.Trie.Listing
import ContractLedger.Proofs.Trie.Nodewise

/-!
Tries without stores. A trie that was new has all its records pending, and no step loses one of
them, so that it needs nothing from its store: whatever it does without one, it does beside any.
-/

namespace ContractLedger.Trie

variable {σ : Type}

/-- A mounted trie without its store. -/
def Mounted.alone (mounted : Mounted σ) : Mounted Content :=
  ⟨{ mounted.trie with keyspace := .ofColumn Column.accounts }, .empty⟩

/-- A mounted trie with the records and roots of one without a store. -/
def Mounted.taking (mounted : Mounted σ) (last : Mounted Content) : Mounted σ :=
  { mounted with trie := { last.trie with keyspace := mounted.trie.keyspace } }

def Mounted.Grows (before after : Mounted σ) : Prop :=
  before.trie.overlay.records ⊆ after.trie.overlay.records

/-- A step that does beside a store what it does without it, unless that fails, and that loses no
pending record, however it ends. -/
structure Spares {α : Type} (step : TrieM σ α) (stepAlone : TrieM Content α) : Prop where
  same : ∀ mounted value last, stepAlone mounted.alone = .ok value last →
    step mounted = .ok value (mounted.taking last) ∧ (mounted.taking last).alone = last
  grows : ∀ mounted : Mounted σ, mounted.Grows (ending (step mounted))

namespace Spares

private theorem done {α : Type} (value : α) : Spares (pure value : TrieM σ α) (pure value) := by
  refine ⟨fun mounted found last ran => ?_, fun _ => Set.Subset.refl _⟩
  cases ran
  exact ⟨rfl, rfl⟩

private theorem failed {α : Type} (error : TrieError) :
    Spares (throw error : TrieM σ α) (throw error) :=
  ⟨nofun, fun _ => Set.Subset.refl _⟩

private theorem changed {change : Mounted σ → Mounted σ}
    {changeAlone : Mounted Content → Mounted Content}
    (same : ∀ mounted, change mounted = mounted.taking (changeAlone mounted.alone) ∧
      (change mounted).alone = changeAlone mounted.alone)
    (grows : ∀ mounted : Mounted σ, mounted.Grows (change mounted)) :
    Spares (modify change : TrieM σ PUnit) (modify changeAlone) := by
  refine ⟨fun mounted value last ran => ?_, grows⟩
  obtain ⟨taken, alone⟩ := same mounted
  cases ran
  rw [← taken]
  exact ⟨rfl, alone⟩

private theorem bind {α β : Type} {step : TrieM σ α} {stepAlone : TrieM Content α}
    {next : α → TrieM σ β} {nextAlone : α → TrieM Content β} (spares : Spares step stepAlone)
    (rest : ∀ value, Spares (next value) (nextAlone value)) :
    Spares (step >>= next) (stepAlone >>= nextAlone) := by
  constructor
  · intro mounted value last ran
    cases first : stepAlone mounted.alone with
    | ok middle after =>
      rw [Step.bind_ok first] at ran
      obtain ⟨ranHere, same⟩ := spares.same mounted middle after first
      rw [← same] at ran
      rw [Step.bind_ok ranHere]
      exact (rest middle).same _ value last ran
    | error error after =>
      rw [Step.bind_error first] at ran
      cases ran
  · intro mounted
    have before := spares.grows mounted
    rw [Step.bind_apply]
    cases ran : step mounted with
    | ok value after =>
      rw [ran] at before
      exact before.trans ((rest value).grows after)
    | error error after =>
      rw [ran] at before
      exact before

private theorem readNode (record : Bytes) :
    Spares (readNode record : TrieM σ Node) (readNode record) := by
  unfold Trie.readNode
  cases Node.decode record with
  | ok node => exact done node
  | error error => exact failed _

private theorem ite {α : Type} {condition : Prop} [Decidable condition] {yes no : TrieM σ α}
    {yesAlone noAlone : TrieM Content α} (sparesYes : Spares yes yesAlone)
    (sparesNo : Spares no noAlone) :
    Spares (if condition then yes else no) (if condition then yesAlone else noAlone) := by
  split
  · exact sparesYes
  · exact sparesNo

private theorem reading {α : Type} {next : Mounted σ → TrieM σ α}
    {nextAlone : Mounted Content → TrieM Content α}
    (spares : ∀ mounted, Spares (next mounted) (nextAlone mounted.alone)) :
    Spares (getThe (Mounted σ) >>= next) (getThe (Mounted Content) >>= nextAlone) :=
  ⟨fun mounted => (spares mounted).same mounted, fun mounted => (spares mounted).grows mounted⟩

private theorem refused {α : Type} {step : TrieM σ α} {stepAlone : TrieM Content α}
    (grows : ∀ mounted : Mounted σ, mounted.Grows (ending (step mounted)))
    (failed : ∀ mounted : Mounted σ, ∃ error after, stepAlone mounted.alone = .error error after) :
    Spares step stepAlone := by
  refine ⟨fun mounted value last ran => ?_, grows⟩
  obtain ⟨error, after, refused⟩ := failed mounted
  rw [refused] at ran
  cases ran

private theorem onStore {α : Type} (access : EStateM StoreError σ α) (error : TrieError) :
    Spares (onStore access) (throw error) := by
  refine refused (fun mounted => ?_) fun mounted => ⟨_, _, rfl⟩
  unfold Trie.onStore
  cases access mounted.store <;> exact Set.Subset.refl _

end Spares

variable [ByteStore σ]

private theorem spares_load (hash : Hash) : Spares (load hash : TrieM σ Node) (load hash) := by
  unfold load
  refine .ite (.done _) (.reading fun mounted => ?_)
  have overlay : mounted.alone.trie.overlay = mounted.trie.overlay := rfl
  simp only [overlay]
  cases mounted.trie.overlay.lookup hash with
  | some record => exact .readNode record
  | none =>
    -- A step that fails alone is spared as soon as it only grows, so the rest may fail there too.
    refine .refused (Spares.bind (.onStore _ (.incomplete hash)) (fun record => ?_) :
      Spares _ (throw (.incomplete hash) >>= fun _ => throw (.incomplete hash))).grows
      fun _ => ⟨.incomplete hash, _, rfl⟩
    cases record with
    | some record =>
      exact .refused (Spares.readNode record).grows fun _ => ⟨.incomplete hash, _, rfl⟩
    | none => exact .failed _

/-- What a trie does without a store it does beside any, node by node. -/
theorem nodewise_spares :
    Nodewise fun (step : TrieM σ _) (stepAlone : TrieM Content _) => Spares step stepAlone where
  done := .done
  failed := .failed
  bind := .bind
  load := spares_load
  loadTop := ⟨fun mounted => (spares_load mounted.trie.root).same mounted,
    fun mounted => (spares_load mounted.trie.root).grows mounted⟩
  keep node := by
    unfold keep
    split
    · exact .done _
    · refine .bind (.changed (fun _ => ⟨rfl, rfl⟩) fun mounted => ?_) fun _ => .done _
      exact Overlay.records_mono fun _ member => List.mem_cons_of_mem _ member
  become root := .changed (fun _ => ⟨rfl, rfl⟩) fun _ => Set.Subset.refl _

omit [ByteStore σ]

/-- A trie whose pending records are those of given data and have among them all of a map, which its
root is the root of. -/
structure Mounted.Bears (data : Set Bytes) (mounted : Mounted σ) (map : Bytes → Option Bytes) :
    Prop where
  made : mounted.trie.overlay.Made
  within : mounted.trie.overlay.records ⊆ data
  keeps : Keeps mounted.trie.overlay.records mounted.trie.root map

namespace Mounted.Bears

variable {data : Set Bytes} {mounted : Mounted σ} {map : Bytes → Option Bytes}

theorem empty (data : Set Bytes) (keyspace : Keyspace) (store : σ) :
    Bears data ⟨Trie.empty keyspace, store⟩ fun _ => none :=
  ⟨nofun, nofun, .empty⟩

theorem records_alone (mounted : Mounted σ) :
    mounted.alone.records = mounted.trie.overlay.records := by
  refine Set.Subset.antisymm ?_ Set.subset_union_left
  exact Set.union_subset (Set.Subset.refl _) nofun

theorem orderly (bears : mounted.Bears data map) :
    mounted.alone.trie.Orderly data mounted.alone.store :=
  ⟨⟨Nat.zero_lt_succ _, nofun⟩, bears.made, bears.within⟩

theorem resolved (bears : mounted.Bears data map) :
    ∃ tree : Tree, tree.Spells map ∧ mounted.alone.trie.root = tree.hash ∧
      tree.Stored mounted.alone.records := by
  obtain ⟨tree, spells, root, stored⟩ := bears.keeps
  rw [← records_alone] at stored
  exact ⟨tree, spells, root.symm, stored⟩

/-- The roots of two tries are the same if and only if their maps are. -/
theorem root_iff {τ : Type} {other : Mounted τ} {mapOther : Bytes → Option Bytes}
    (faithful : Faithful data) (bears : mounted.Bears data map) (again : other.Bears data mapOther) :
    mounted.trie.root = other.trie.root ↔ map = mapOther := by
  have keeps := bears.keeps
  constructor
  · intro same
    rw [same] at keeps
    exact keeps.map_unique faithful bears.within again.keeps again.within
  · rintro rfl
    exact keeps.root_unique again.keeps

private theorem rooted {α : Type} {step : TrieM σ α} {stepAlone : TrieM Content α} {value : α}
    {tree : Tree} {next : Bytes → Option Bytes} (bears : mounted.Bears data map)
    (spares : Spares step stepAlone) (spells : tree.Spells next)
    (roots : Roots mounted.alone stepAlone value tree)
    (within : (ending (step mounted)).trie.overlay.records ⊆ data) :
    ∃ after, step mounted = .ok value after ∧ after.Bears data next := by
  obtain ⟨fresh, ranAlone, made, stored⟩ := roots
  obtain ⟨ran, same⟩ := spares.same mounted value _ ranAlone
  rw [ran] at within
  rw [← same, records_alone] at stored
  exact ⟨_, ran, made.append bears.made, within, ⟨tree, spells, rfl, stored⟩⟩

variable [ByteStore σ]

theorem get (faithful : Faithful data) (bears : mounted.Bears data map) (key : Bytes) :
    Trie.get key mounted = .ok (map key) mounted := by
  obtain ⟨tree, spells, root, stored⟩ := bears.resolved
  have ran := get_tree faithful bears.orderly spells.canonical stored root key
  rw [spells.get] at ran
  exact ((nodewise_spares.get key).same mounted _ _ ran).1

theorem pairs (faithful : Faithful data) (bears : mounted.Bears data map) :
    ∃ listed, Trie.pairs mounted = .ok listed mounted ∧ Enumerates listed map := by
  obtain ⟨tree, spells, root, stored⟩ := bears.resolved
  obtain ⟨listed, ran, enumerates⟩ := pairs_tree faithful bears.orderly spells stored root
  exact ⟨listed, (nodewise_spares.pairs.same mounted _ _ ran).1, enumerates⟩

theorem insert (faithful : Faithful data) (bears : mounted.Bears data map) (key value : Bytes)
    (within : (ending (Trie.insert key value mounted)).trie.overlay.records ⊆ data) :
    ∃ after, Trie.insert key value mounted = .ok () after ∧
      after.Bears data (Tree.written map key value) := by
  obtain ⟨tree, spells, root, stored⟩ := bears.resolved
  exact bears.rooted (nodewise_spares.insert key value) (spells.put key value)
    (insert_tree faithful bears.orderly spells.canonical stored root key value) within

theorem remove (faithful : Faithful data) (bears : mounted.Bears data map) (key : Bytes)
    (within : (ending (Trie.remove key mounted)).trie.overlay.records ⊆ data) :
    ∃ after, Trie.remove key mounted = .ok (map key).isSome after ∧
      after.Bears data (Tree.written map key []) := by
  obtain ⟨tree, spells, root, stored⟩ := bears.resolved
  have roots := remove_tree faithful bears.orderly spells.canonical stored root key
  rw [spells.get] at roots
  exact bears.rooted (nodewise_spares.remove key) (spells.put key []) roots within

end Mounted.Bears

end ContractLedger.Trie
