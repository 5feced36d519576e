import ContractLedger.Proofs.Trie.Alone
import ContractLedger.Store.Memory

/-!
What becomes of a new trie. A sequence of insertions and removals leaves under every key what the
last change of the key left there, which can be read and listed; and the root is determined by what
is left and determines it.
-/

namespace ContractLedger.Trie

inductive Change where
  | insert (key value : Bytes)
  | remove (key : Bytes)
deriving DecidableEq

namespace Change

def key : Change → Bytes
  | insert key _ | remove key => key

/-- The value that a change leaves under its key. -/
def kept : Change → Option Bytes
  | insert _ value => if value = [] then none else some value
  | remove _ => none

/-- What a sequence of changes leaves under a key. -/
def left (changes : List Change) (key : Bytes) : Option Bytes :=
  (changes.reverse.find? (·.key = key)).bind kept

/-- What a change tells after others: a removal, whether its key was there. -/
def reply (earlier : List Change) : Change → Option Bool
  | insert _ _ => none
  | remove key => some (left earlier key).isSome

def replies (earlier : List Change) : List Change → List (Option Bool)
  | [] => []
  | change :: changes => change.reply earlier :: replies (earlier ++ [change]) changes

theorem left_snoc (earlier : List Change) (change : Change) :
    left (earlier ++ [change]) = Function.update (left earlier) change.key change.kept := by
  funext key
  rw [left, List.reverse_concat, List.find?_cons, Function.update_apply]
  by_cases same : change.key = key
  · rw [if_pos same.symm]
    simp [same]
  · rw [if_neg (Ne.symm same)]
    simp [same, left]

theorem left_of_not_mem {changes : List Change} {key : Bytes}
    (never : key ∉ changes.map Change.key) : left changes key = none := by
  rw [left, List.find?_eq_none.mpr, Option.bind_none]
  intro change member same
  refine never (List.mem_map.mpr ⟨change, List.mem_reverse.mp member, ?_⟩)
  exact of_decide_eq_true same

variable {σ τ : Type} [ByteStore σ] [ByteStore τ]

def step : Change → TrieM σ (Option Bool)
  | insert key value => (fun _ => none) <$> Trie.insert key value
  | remove key => some <$> Trie.remove key

def run (changes : List Change) : TrieM σ (List (Option Bool)) :=
  changes.mapM step

/-- The records that a sequence of changes makes. -/
def made (changes : List Change) (mounted : Mounted σ) : List Bytes :=
  (ending (run changes mounted)).trie.overlay.map (·.2)

private theorem spares_step (change : Change) :
    Spares (change.step : TrieM σ (Option Bool)) change.step := by
  cases change with
  | insert key value => exact nodewise_spares.map _ (nodewise_spares.insert key value)
  | remove key => exact nodewise_spares.map _ (nodewise_spares.remove key)

private theorem spares_run (changes : List Change) :
    Spares (run changes : TrieM σ _) (run changes) :=
  nodewise_spares.mapM changes spares_step

private theorem ending_run_cons {change : Change} {mounted middle : Mounted σ} {told : Option Bool}
    (ran : change.step mounted = .ok told middle) (changes : List Change) :
    ending (run (change :: changes) mounted) = ending (run changes middle) := by
  rw [run, List.mapM_cons, Step.bind_ok ran, Step.bind_apply, ← run]
  cases run changes middle <;> rfl

private theorem grows_head (change : Change) (changes : List Change) (mounted : Mounted σ) :
    (ending (change.step mounted)).Grows (ending (run (change :: changes) mounted)) := by
  cases ran : change.step mounted with
  | ok told middle =>
    rw [ending_run_cons ran]
    exact (spares_run changes).grows middle
  | error error middle =>
    rw [run, List.mapM_cons, Step.bind_error ran]
    exact Set.Subset.refl _

variable {data : Set Bytes} {mounted : Mounted σ} {earlier : List Change}

theorem step_bears (faithful : Faithful data) (bears : mounted.Bears data (left earlier))
    (change : Change) (within : (ending (change.step mounted)).trie.overlay.records ⊆ data) :
    ∃ after, change.step mounted = .ok (change.reply earlier) after ∧
      after.Bears data (left (earlier ++ [change])) := by
  rw [left_snoc]
  cases change with
  | insert key value =>
    rw [step, ending_map] at within
    obtain ⟨after, ran, bearsAfter⟩ := bears.insert faithful key value within
    exact ⟨after, Step.map_ok ran _, bearsAfter⟩
  | remove key =>
    rw [step, ending_map] at within
    obtain ⟨after, ran, bearsAfter⟩ := bears.remove faithful key within
    exact ⟨after, Step.map_ok ran _, bearsAfter⟩

/-- A sequence of changes of a trie that bears what earlier ones left. -/
theorem run_bears (faithful : Faithful data) (bears : mounted.Bears data (left earlier))
    (changes : List Change) (within : ∀ record ∈ made changes mounted, record ∈ data) :
    ∃ after, run changes mounted = .ok (replies earlier changes) after ∧
      after.Bears data (left (earlier ++ changes)) := by
  induction changes generalizing mounted earlier with
  | nil => exact ⟨mounted, rfl, by rwa [List.append_nil]⟩
  | cons change changes ih =>
    obtain ⟨middle, ran, bearsMiddle⟩ := step_bears faithful bears change
      ((grows_head change changes mounted).trans within)
    rw [made, ending_run_cons ran] at within
    obtain ⟨after, ranRest, bearsAfter⟩ := ih bearsMiddle within
    refine ⟨after, ?_, ?_⟩
    · rw [run, List.mapM_cons, Step.bind_ok ran, ← run, Step.bind_ok ranRest]
      rfl
    · rwa [List.append_assoc] at bearsAfter

/-- A new trie is a finite map: whatever changes are made of it, over whatever store, all succeed
and tell what they should, every key has what was left under it, and the list of all entries has
each once and in order. -/
theorem run_empty (keyspace : Keyspace) (store : σ) (changes : List Change)
    (faithful : Faithful { record | record ∈ made changes ⟨Trie.empty keyspace, store⟩ }) :
    ∃ after, run changes ⟨Trie.empty keyspace, store⟩ = .ok (replies [] changes) after ∧
      (∀ key, Trie.get key after = .ok (left changes key) after) ∧
      (∀ key, Trie.insert key [] after = ((fun _ => ()) <$> Trie.remove key) after) ∧
      ∃ listed, Trie.pairs after = .ok listed after ∧ Enumerates listed (left changes) := by
  have bears := Mounted.Bears.empty { record | record ∈ made changes ⟨Trie.empty keyspace, store⟩ }
    keyspace store
  obtain ⟨after, ran, bearsAfter⟩ := @run_bears _ _ _ _ [] faithful bears changes fun _ member => member
  exact ⟨after, ran, bearsAfter.get faithful, fun _ => rfl, bearsAfter.pairs faithful⟩

/-- Two keys of which one starts the other and is removed again, and one that is never there. -/
def nested : List Change :=
  [.insert [] [1], .insert [18, 52] [3], .remove [], .insert [7] []]

set_option maxRecDepth 100000 in
theorem run_empty_nested :
    ∃ after, run nested ⟨Trie.empty (.ofColumn Column.accounts), Memory.empty⟩ =
        .ok [none, none, some true, none] after ∧
      Trie.get [] after = .ok none after ∧ Trie.get [18, 52] after = .ok (some [3]) after := by
  obtain ⟨after, ran, got, _⟩ := run_empty (.ofColumn Column.accounts) Memory.empty nested
    (.of_nodup (by decide +kernel) (by decide +kernel))
  exact ⟨after, ran, got [], got [18, 52]⟩

/-- The roots of two new tries, over whatever stores, are the same after changes of them if and only
if these leave the same map, and the root of the empty node if and only if they leave nothing. -/
theorem root_eq_iff_left_eq (keyspace keyspaceOther : Keyspace) (store : σ) (storeOther : τ)
    (changes others : List Change)
    (faithful : Faithful { record | record ∈ made changes ⟨Trie.empty keyspace, store⟩ ++
      made others ⟨Trie.empty keyspaceOther, storeOther⟩ }) :
    ∃ after afterOther,
      run changes ⟨Trie.empty keyspace, store⟩ = .ok (replies [] changes) after ∧
      run others ⟨Trie.empty keyspaceOther, storeOther⟩ = .ok (replies [] others) afterOther ∧
      (∀ key, Trie.get key after = .ok (left changes key) after) ∧
      (∀ key, Trie.get key afterOther = .ok (left others key) afterOther) ∧
      (after.trie.root = afterOther.trie.root ↔ left changes = left others) ∧
      (after.trie.root = Node.emptyRoot ↔ ∀ key, left changes key = none) := by
  obtain ⟨after, ran, bears⟩ := @run_bears _ _ _ _ [] faithful (.empty _ keyspace store) changes
    fun _ member => List.mem_append_left _ member
  obtain ⟨afterOther, ranOther, bearsOther⟩ := @run_bears _ _ _ _ [] faithful
    (.empty _ keyspaceOther storeOther) others fun _ member => List.mem_append_right _ member
  refine ⟨after, afterOther, ran, ranOther, bears.get faithful, bearsOther.get faithful,
    bears.root_iff faithful bearsOther, ?_⟩
  rw [← funext_iff (g := fun _ => none)]
  exact bears.root_iff faithful (.empty _ keyspace store)

def plain : List Change :=
  [.insert [18, 52] [3]]

set_option maxRecDepth 100000 in
theorem root_eq_iff_left_eq_nested :
    ∃ after afterOther : Mounted Memory,
      run nested ⟨Trie.empty (.ofColumn Column.accounts), Memory.empty⟩ =
        .ok [none, none, some true, none] after ∧
      run plain ⟨Trie.empty (.ofOwner (.ofNat 1)), Memory.empty⟩ = .ok [none] afterOther ∧
      after.trie.root = afterOther.trie.root := by
  obtain ⟨after, afterOther, ran, ranOther, _, _, same, _⟩ := root_eq_iff_left_eq
    (.ofColumn Column.accounts) (.ofOwner (.ofNat 1)) Memory.empty Memory.empty nested plain
    (.of_nodup (by decide +kernel) (by decide +kernel))
  refine ⟨after, afterOther, ran, ranOther, same.mpr ?_⟩
  funext key
  by_cases changed : key ∈ nested.map Change.key
  · revert key
    decide
  · have within : plain.map Change.key ⊆ nested.map Change.key := by decide
    rw [left_of_not_mem changed, left_of_not_mem (mt (@within key) changed)]

end Change

end ContractLedger.Trie
