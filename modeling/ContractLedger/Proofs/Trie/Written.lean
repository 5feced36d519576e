import ContractLedger.Ledger.Basic
import ContractLedger.Proofs.Trie.Orderly

/-!
Writing records to a store. The keyspaces that a ledger uses never share a key, and none has the key
of the latest root. So a record written under its digest is there afterwards, and what was there
before stays.
-/

namespace ContractLedger

namespace Content

theorem applyAll_append (content : Content) (first second : List StoreOp) :
    content.applyAll (first ++ second) = (content.applyAll first).applyAll second :=
  List.foldl_append

theorem apply_put (content : Content) {column : Nat} (bound : column < Column.count)
    (key value : Bytes) (other : Nat) (again : Bytes) :
    content.apply (.put column key value) other again =
      if other = column ∧ again = key then some value else content other again := by
  rw [apply, updateColumn, if_pos bound]
  by_cases same : other = column
  · subst other
    rw [Function.update_self, Function.update_apply]
    simp
  · rw [Function.update_of_ne same]
    simp [same]

end Content

namespace Keyspace

/-- The keyspaces of a ledger: account records, code, and the storage of each address. -/
def Used (space : Keyspace) : Prop :=
  space = .ofColumn Column.accounts ∨ space = .ofColumn Column.code ∨
    ∃ owner, space = .ofOwner owner

/-- The operations that store records in a keyspace. -/
def puts (space : Keyspace) (records : Overlay) : List StoreOp :=
  records.map fun entry => space.put entry.1.bytes entry.2

variable {data : Set Bytes} {content : Content} {space other : Keyspace}

theorem used_accounts : (ofColumn Column.accounts).Used :=
  .inl rfl

theorem used_code : (ofColumn Column.code).Used :=
  .inr (.inl rfl)

theorem used_ofOwner (owner : Address) : (ofOwner owner).Used :=
  .inr (.inr ⟨owner, rfl⟩)

theorem Used.column (used : space.Used) : space.column < Column.count := by
  rcases used with rfl | rfl | ⟨owner, rfl⟩
  · decide
  · decide
  · exact Nat.lt_succ_self 2

private theorem bytes_eq_iff (hash again : Hash) : hash.bytes = again.bytes ↔ hash = again := by
  cases hash
  cases again
  simp

/-- No two keyspaces share a key. -/
theorem Used.fullKey_eq_iff (used : space.Used) (usedOther : other.Used) (hash again : Hash) :
    (space.column = other.column ∧ space.fullKey hash.bytes = other.fullKey again.bytes) ↔
      space = other ∧ hash = again := by
  constructor
  · rintro ⟨columns, keys⟩
    rcases used with rfl | rfl | ⟨owner, rfl⟩ <;> rcases usedOther with rfl | rfl | ⟨owner', rfl⟩
    · exact ⟨rfl, (bytes_eq_iff _ _).mp keys⟩
    · cases columns
    · cases columns
    · cases columns
    · exact ⟨rfl, (bytes_eq_iff _ _).mp keys⟩
    · cases columns
    · cases columns
    · cases columns
    · obtain ⟨owners, hashes⟩ := List.append_inj keys (owner.size.trans owner'.size.symm)
      cases owner
      cases owner'
      cases owners
      exact ⟨rfl, (bytes_eq_iff _ _).mp hashes⟩
  · rintro ⟨rfl, rfl⟩
    exact ⟨rfl, rfl⟩

/-- What a keyspace holds after a value was put under a hash. -/
theorem Used.held_put (used : space.Used) (usedOther : other.Used) (hash again : Hash)
    (record : Bytes) :
    space.held (content.apply (other.put hash.bytes record)) again =
      if space = other ∧ again = hash then some record else space.held content again := by
  rw [put, held, Content.apply_put content usedOther.column]
  simp only [used.fullKey_eq_iff usedOther, held]

private theorem length_latestRootKey : Ledger.latestRootKey.length = 11 := by
  decide +kernel

theorem Used.held_latest (used : space.Used) (hash : Hash) (bytes : Bytes) :
    space.held (content.apply (.put Column.accounts Ledger.latestRootKey bytes)) hash =
      space.held content hash := by
  rw [held, Content.apply_put content (by decide), if_neg, held]
  rintro ⟨column, key⟩
  rcases used with rfl | rfl | ⟨owner, rfl⟩
  · have lengths := congrArg List.length key
    rw [length_latestRootKey] at lengths
    exact absurd (hash.size.symm.trans lengths) (by decide)
  · cases column
  · cases column

end Keyspace

namespace Content

/-- A store that has gained records, each under its digest in its keyspace, and has lost none. -/
structure Gains (data : Set Bytes) (before after : Content) (added : Keyspace → Set Bytes) :
    Prop where
  orderly : ∀ space : Keyspace, space.Used → space.Orderly data after
  records : ∀ space : Keyspace, space.Used →
    space.records after = added space ∪ space.records before

variable {data : Set Bytes} {content middle after : Content} {added more : Keyspace → Set Bytes}

theorem Gains.trans (first : Gains data content middle added)
    (second : Gains data middle after more) :
    Gains data content after fun space => added space ∪ more space := by
  refine ⟨second.orderly, fun space used => ?_⟩
  rw [second.records space used, first.records space used]
  ac_rfl

theorem gains_put (faithful : Faithful data)
    (orderly : ∀ space : Keyspace, space.Used → space.Orderly data content) {other : Keyspace}
    (usedOther : other.Used) {record : Bytes} (member : record ∈ data) :
    Gains data content (content.apply (other.put (Keccak.digest record).bytes record))
      fun space => { found | space = other ∧ found = record } := by
  refine ⟨fun space used => ⟨used.column, fun hash found => ?_⟩, fun space used => ?_⟩
  · rw [used.held_put usedOther]
    split
    · rintro ⟨⟩
      next same => exact ⟨same.2, member⟩
    · exact (orderly space used).named hash found
  · ext found
    simp only [Keyspace.records, used.held_put usedOther, Set.mem_ofPred_eq, Set.mem_union]
    by_cases same : space = other ∧ Keccak.digest found = Keccak.digest record
    · rw [if_pos same, Option.some.injEq]
      constructor
      · rintro rfl
        exact .inl ⟨same.1, rfl⟩
      · rintro (⟨_, rfl⟩ | kept)
        · rfl
        · exact faithful.apart (.inr member) (.inr ((orderly space used).named _ _ kept).2)
            same.2.symm
    · rw [if_neg same]
      constructor
      · exact .inr
      · rintro (⟨here, rfl⟩ | kept)
        · exact absurd ⟨here, rfl⟩ same
        · exact kept

theorem Gains.congr (gains : Gains data content after added)
    (same : ∀ space : Keyspace, space.Used → more space = added space) :
    Gains data content after more := by
  refine ⟨gains.orderly, fun space used => ?_⟩
  rw [gains.records space used, same space used]

private theorem gains_puts (faithful : Faithful data) {other : Keyspace} (usedOther : other.Used)
    (overlay : Overlay) (orderly : ∀ space : Keyspace, space.Used → space.Orderly data content)
    (each : ∀ entry ∈ overlay, entry.1 = Keccak.digest entry.2 ∧ entry.2 ∈ data) :
    Gains data content (content.applyAll (other.puts overlay))
      fun space => { record | space = other ∧ record ∈ overlay.records } := by
  induction overlay generalizing content with
  | nil => exact ⟨orderly, fun space used => by simp [Overlay.records_nil, applyAll, Keyspace.puts]⟩
  | cons entry overlay ih =>
    obtain ⟨named, member⟩ := each entry List.mem_cons_self
    have first := gains_put faithful orderly usedOther member
    have rest := ih first.orderly fun other inside => each other (List.mem_cons_of_mem _ inside)
    rw [← named] at rest first
    refine (first.trans rest).congr fun space _ => ?_
    ext record
    simp only [Overlay.records, List.map_cons, List.mem_cons, Set.mem_ofPred_eq, Set.mem_union]
    tauto

/-- Putting records into one keyspace after another, each under its digest. -/
theorem gains_applyAll (faithful : Faithful data) (parts : List (Keyspace × Overlay))
    (orderly : ∀ space : Keyspace, space.Used → space.Orderly data content)
    (each : ∀ part ∈ parts, part.1.Used ∧ ∀ entry ∈ part.2,
      entry.1 = Keccak.digest entry.2 ∧ entry.2 ∈ data) :
    Gains data content (content.applyAll (parts.flatMap fun part => part.1.puts part.2))
      fun space => { record | ∃ overlay, (space, overlay) ∈ parts ∧ record ∈ overlay.records } := by
  induction parts generalizing content with
  | nil => exact ⟨orderly, fun space used => by simp [applyAll]⟩
  | cons part parts ih =>
    obtain ⟨used, entries⟩ := each part List.mem_cons_self
    have first := gains_puts faithful used part.2 orderly entries
    have rest := ih first.orderly fun other inside => each other (List.mem_cons_of_mem _ inside)
    rw [List.flatMap_cons, applyAll_append]
    refine (first.trans rest).congr fun space _ => ?_
    ext record
    constructor
    · rintro ⟨overlay, _ | ⟨_, inside⟩, member⟩
      · exact .inl ⟨rfl, member⟩
      · exact .inr ⟨overlay, inside, member⟩
    · rintro (⟨rfl, member⟩ | ⟨overlay, inside, member⟩)
      · exact ⟨part.2, List.mem_cons_self, member⟩
      · exact ⟨overlay, List.mem_cons_of_mem _ inside, member⟩

theorem gains_latest (orderly : ∀ space : Keyspace, space.Used → space.Orderly data content)
    (bytes : Bytes) :
    Gains data content (content.apply (.put Column.accounts Ledger.latestRootKey bytes))
      fun _ => ∅ := by
  refine ⟨fun space used => ⟨used.column, fun hash record => ?_⟩, fun space used => ?_⟩
  · rw [used.held_latest]
    exact (orderly space used).named hash record
  · ext record
    simp [Keyspace.records, used.held_latest]

end Content

end ContractLedger
