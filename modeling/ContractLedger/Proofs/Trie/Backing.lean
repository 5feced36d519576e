import ContractLedger.Proofs.Trie.Nodewise
import ContractLedger.Proofs.Trie.Written

/-!
Stores that hold more than a trie needs. Whatever a trie does over a content it does over any larger
one, unless it fails; so what else a store holds makes no difference to a trie that has enough, not even
if it is kept where the records of the trie would be.
-/

namespace ContractLedger

namespace Keyspace

variable {data : Set Bytes} {space : Keyspace} {content larger : Content} {overlay : Overlay}

/-- Whatever the one content holds in a keyspace, the other holds there as well. -/
def Within (space : Keyspace) (content larger : Content) : Prop :=
  ∀ hash record, space.held content hash = some record → space.held larger hash = some record

private theorem fullKey_inj {first second : Hash} :
    space.fullKey first.bytes = space.fullKey second.bytes ↔ first = second := by
  refine ⟨fun same => ?_, fun same => same ▸ rfl⟩
  have bytes : first.bytes = second.bytes := by
    unfold fullKey at same
    split at same
    · exact List.append_cancel_left same
    · exact same
  cases first
  cases second
  cases bytes
  rfl

theorem held_put (column : space.column < Column.count) (content : Content) (hash again : Hash)
    (record : Bytes) :
    space.held (content.apply (space.put hash.bytes record)) again =
      if again = hash then some record else space.held content again := by
  rw [put, held, Content.apply_put content column]
  simp only [true_and, fullKey_inj, held]

theorem Within.puts (within : space.Within content larger) (column : space.column < Column.count)
    (overlay : Overlay) :
    space.Within (content.applyAll (space.puts overlay)) (larger.applyAll (space.puts overlay)) := by
  induction overlay generalizing content larger with
  | nil => exact within
  | cons entry overlay ih =>
    refine ih fun hash record => ?_
    rw [held_put column, held_put column]
    split
    · exact id
    · exact within hash record

/-- Records that are put under their digests are there in the end, and no other is lost. -/
theorem Orderly.puts (faithful : Faithful data) (orderly : space.Orderly data content)
    (each : ∀ entry ∈ overlay, entry.1 = Keccak.digest entry.2 ∧ entry.2 ∈ data) :
    space.Orderly data (content.applyAll (space.puts overlay)) ∧
      space.records (content.applyAll (space.puts overlay)) =
        overlay.records ∪ space.records content := by
  induction overlay generalizing content with
  | nil => exact ⟨orderly, by rw [Overlay.records_nil, Set.empty_union]; rfl⟩
  | cons entry overlay ih =>
    obtain ⟨hash, record⟩ := entry
    obtain ⟨named, member⟩ := each _ List.mem_cons_self
    obtain rfl : hash = Keccak.digest record := named
    have first : space.Orderly data
        (content.apply (space.put (Keccak.digest record).bytes record)) := by
      refine ⟨orderly.column, fun hash found => ?_⟩
      rw [held_put orderly.column]
      split
      · rintro ⟨⟩
        next same => exact ⟨same, member⟩
      · exact orderly.named hash found
    have gained : space.records (content.apply (space.put (Keccak.digest record).bytes record)) =
        insert record (space.records content) := by
      ext found
      simp only [records, held_put orderly.column, Set.mem_ofPred_eq, Set.mem_insert_iff]
      split
      · next same =>
        rw [Option.some.injEq]
        constructor
        · exact fun here => .inl here.symm
        · rintro (rfl | kept)
          · rfl
          · exact faithful.apart (.inr member) (.inr (orderly.named _ _ kept).2) same.symm
      · next differ =>
        refine ⟨.inr, ?_⟩
        rintro (rfl | kept)
        · exact absurd rfl differ
        · exact kept
    obtain ⟨orderlyAfter, records⟩ := ih first fun other inside =>
      each other (List.mem_cons_of_mem _ inside)
    refine ⟨orderlyAfter, records.trans ?_⟩
    rw [gained]
    ext found
    simp only [Overlay.records, List.map_cons, List.mem_cons, Set.mem_ofPred_eq, Set.mem_union,
      Set.mem_insert_iff]
    tauto

end Keyspace

namespace Trie

/-- A step that, when it succeeds, does the same over any larger content, and leaves the content and the
keyspace as they are. -/
def Suffices {α : Type} (step other : TrieM Content α) : Prop :=
  ∀ mounted larger value last, mounted.trie.keyspace.Within mounted.store larger →
    step mounted = .ok value last →
      last.store = mounted.store ∧ last.trie.keyspace = mounted.trie.keyspace ∧
        other { mounted with store := larger } = .ok value { last with store := larger }

namespace Suffices

private theorem done {α : Type} (value : α) : Suffices (pure value) (pure value) := by
  intro mounted larger found last _ ran
  cases ran
  exact ⟨rfl, rfl, rfl⟩

private theorem bind {α β : Type} {step other : TrieM Content α}
    {next nextOther : α → TrieM Content β} (first : Suffices step other)
    (rest : ∀ value, Suffices (next value) (nextOther value)) :
    Suffices (step >>= next) (other >>= nextOther) := by
  intro mounted larger result last within ran
  obtain ⟨value, middle, ranFirst, ranRest⟩ := Step.bind_eq_ok.mp ran
  obtain ⟨store, keyspace, same⟩ := first mounted larger value middle within ranFirst
  have withinMiddle : middle.trie.keyspace.Within middle.store larger := by
    rwa [store, keyspace]
  obtain ⟨storeLast, keyspaceLast, sameRest⟩ :=
    rest value middle larger result last withinMiddle ranRest
  exact ⟨storeLast.trans store, keyspaceLast.trans keyspace, (Step.bind_ok same _).trans sameRest⟩

private theorem changed {change : Mounted Content → Mounted Content}
    (store : ∀ mounted, (change mounted).store = mounted.store)
    (keyspace : ∀ mounted, (change mounted).trie.keyspace = mounted.trie.keyspace)
    (same : ∀ mounted larger,
      change { mounted with store := larger } = { change mounted with store := larger }) :
    Suffices (modify change : TrieM Content PUnit) (modify change) := by
  intro mounted larger value last _ ran
  cases ran
  exact ⟨store mounted, keyspace mounted, congrArg (EStateM.Result.ok PUnit.unit) (same mounted larger)⟩

private theorem readNode (record : Bytes) : Suffices (readNode record) (readNode record) := by
  unfold Trie.readNode
  cases Node.decode record with
  | ok node => exact done node
  | error error => exact fun _ _ _ _ _ => nofun

private theorem load (hash : Hash) : Suffices (load hash) (load hash) := by
  intro mounted larger node last within ran
  unfold Trie.load at ran ⊢
  by_cases empty : hash = Node.emptyRoot
  · rw [if_pos empty] at ran ⊢
    cases ran
    exact ⟨rfl, rfl, rfl⟩
  · rw [if_neg empty] at ran ⊢
    rw [Step.bind_ok (Step.get_apply _)] at ran ⊢
    cases pending : mounted.trie.overlay.lookup hash with
    | some record =>
      simp only [pending] at ran ⊢
      exact readNode record mounted larger node last within ran
    | none =>
      simp only [pending] at ran ⊢
      by_cases column : mounted.trie.keyspace.column < Column.count
      · have reads (content : Content) :
            onStore (mounted.trie.keyspace.read hash.bytes) { mounted with store := content } =
              .ok (mounted.trie.keyspace.held content hash) { mounted with store := content } := by
          rw [onStore, Keyspace.read_content _ column]
        rw [Step.bind_ok (reads mounted.store)] at ran
        rw [Step.bind_ok (reads larger)]
        cases held : mounted.trie.keyspace.held mounted.store hash with
        | none =>
          rw [held] at ran
          cases ran
        | some record =>
          rw [held] at ran
          rw [within hash record held]
          exact readNode record mounted larger node last within ran
      · have refused : onStore (mounted.trie.keyspace.read hash.bytes) mounted =
            .error (.store (.noColumn mounted.trie.keyspace.column)) mounted := by
          simp only [onStore, Keyspace.read, ByteStore.read, if_neg column]
        rw [Step.bind_error refused] at ran
        cases ran

end Suffices

/-- What a trie does over a content it does over any larger one, node by node. -/
theorem nodewise_suffices :
    Nodewise fun (step other : TrieM Content _) => Suffices step other where
  done := .done
  failed _ := fun _ _ _ _ _ => nofun
  bind := .bind
  load := .load
  loadTop mounted := Suffices.load mounted.trie.root mounted
  keep node := by
    unfold keep
    split
    · exact .done _
    · exact .bind (.changed (fun _ => rfl) (fun _ => rfl) fun _ _ => rfl) fun _ => .done _
  become root := .changed (fun _ => rfl) (fun _ => rfl) fun _ _ => rfl

end Trie

end ContractLedger
