import ContractLedger.Proofs.Trie.Update
import Mathlib.Data.Set.Function
import Mathlib.Data.Fintype.Card

/-!
Resolved tries whose records belong to a set. Where digests tell the records of the set apart, the
hash of a trie determines it, and no trie is higher than there are hashes.
-/

namespace ContractLedger

/-- The digests of a set of byte strings tell them apart, and apart from the record of the empty
node; and every one of them is short enough to be held in memory. -/
structure Faithful (data : Set Bytes) : Prop where
  apart : Set.InjOn Keccak.digest (insert Node.empty.encode data)
  short : ∀ record ∈ data, record.length < 2 ^ 63

theorem Faithful.of_nodup {records : List Bytes}
    (apart : ((Node.empty.encode :: records).dedup.map Keccak.digest).Nodup)
    (short : ∀ record ∈ records, record.length < 2 ^ 63) : Faithful { record | record ∈ records } := by
  refine ⟨fun first here second there same => ?_, short⟩
  have member (record : Bytes)
      (inside : record ∈ insert Node.empty.encode { record | record ∈ records }) :
      record ∈ (Node.empty.encode :: records).dedup := by
    rw [List.mem_dedup, List.mem_cons]
    exact inside
  exact List.inj_on_of_nodup_map apart (member first here) (member second there) same

set_option maxRecDepth 10000 in
theorem Node.digest_empty : Keccak.digest Node.empty.encode = Node.emptyRoot := by
  decide +kernel

namespace Hash

private theorem toNat_injective {first second : Bytes} (length : first.length = second.length)
    (same : Bytes.toNat first = Bytes.toNat second) : first = second := by
  induction first using List.reverseRecOn generalizing second with
  | nil => exact (List.length_eq_zero_iff.mp length.symm).symm
  | append_singleton first last ih =>
    cases second using List.reverseRecOn with
    | nil => simp at length
    | append_singleton second other =>
      rw [Bytes.toNat_snoc, Bytes.toNat_snoc] at same
      have lastBound := last.toNat_lt
      have otherBound := other.toNat_lt
      have front : first = second := ih (by simpa using length) (by omega)
      have back : last = other := UInt8.toNat_inj.mp (by omega)
      rw [front, back]

private theorem toNat_lt (bytes : Bytes) : Bytes.toNat bytes < 256 ^ bytes.length := by
  induction bytes using List.reverseRecOn with
  | nil => exact Nat.one_pos
  | append_singleton bytes last ih =>
    have bound := last.toNat_lt
    rw [Bytes.toNat_snoc, List.length_append, List.length_singleton, Nat.pow_succ]
    omega

theorem length_le_count {hashes : List Hash} (distinct : hashes.Nodup) :
    hashes.length ≤ count := by
  have bound (hash : Hash) : Bytes.toNat hash.bytes < count := by
    have below := toNat_lt hash.bytes
    rwa [hash.size] at below
  let number (hash : Hash) : Fin count := ⟨Bytes.toNat hash.bytes, bound hash⟩
  have injective : Function.Injective number := by
    intro first second same
    have bytes := toNat_injective (first.size.trans second.size.symm) (Fin.mk.inj same)
    cases first
    cases second
    cases bytes
    rfl
  have numbers := (distinct.map injective).length_le_card
  rwa [List.length_map, Fintype.card_fin] at numbers

end Hash

namespace Tree

/-- What holds of every node of a trie. -/
def Every (holds : Tree → Prop) : Tree → Prop
  | empty => True
  | leaf path value => holds (leaf path value)
  | extension path child => holds (extension path child) ∧ child.Every holds
  | branch children value =>
    holds (branch children value) ∧ ∀ nibble, (children nibble).Every holds

def Below (holds : Tree → Prop) : Tree → Prop
  | extension _ child => child.Every holds
  | branch children _ => ∀ nibble, (children nibble).Every holds
  | _ => True

/-- The records of all nodes belong to a set. -/
def Stored (records : Set Bytes) : Tree → Prop :=
  Every fun tree => tree.record ∈ records

/-- The records of all nodes below the top belong to a set. -/
def Rooted (records : Set Bytes) : Tree → Prop :=
  Below fun tree => tree.record ∈ records

variable {tree first second child : Tree} {children : UInt8 → Tree} {value : Option Bytes}
  {holds weaker : Tree → Prop} {records larger data : Set Bytes}

theorem every_of_ne_empty (some : tree ≠ empty) :
    tree.Every holds ↔ holds tree ∧ tree.Below holds := by
  cases tree <;> simp_all [Every, Below]

theorem Every.below (every : tree.Every holds) : tree.Below holds := by
  cases tree with
  | extension lead child => exact every.2
  | branch children value => exact every.2
  | _ => exact trivial

theorem Every.imp (every : tree.Every holds) (implies : ∀ tree, holds tree → weaker tree) :
    tree.Every weaker := by
  induction tree with
  | empty => exact trivial
  | leaf path value => exact implies _ every
  | extension lead child ih => exact ⟨implies _ every.1, ih every.2⟩
  | branch children value ih => exact ⟨implies _ every.1, fun nibble => ih nibble (every.2 nibble)⟩

theorem Every.and (every : tree.Every holds) (also : tree.Every weaker) :
    tree.Every fun tree => holds tree ∧ weaker tree := by
  induction tree with
  | empty => exact trivial
  | leaf path value => exact ⟨every, also⟩
  | extension lead child ih => exact ⟨⟨every.1, also.1⟩, ih every.2 also.2⟩
  | branch children value ih =>
    exact ⟨⟨every.1, also.1⟩, fun nibble => ih nibble (every.2 nibble) (also.2 nibble)⟩

theorem stored_empty : empty.Stored records := trivial

theorem stored_of_ne_empty (some : tree ≠ empty) :
    tree.Stored records ↔ tree.record ∈ records ∧ tree.Rooted records :=
  every_of_ne_empty some

theorem Stored.rooted (stored : tree.Stored records) : tree.Rooted records :=
  Every.below stored

theorem Stored.mono (stored : tree.Stored records) (within : records ⊆ larger) :
    tree.Stored larger :=
  Every.imp stored fun _ member => within member

theorem Rooted.mono (rooted : tree.Rooted records) (within : records ⊆ larger) :
    tree.Rooted larger := by
  cases tree with
  | extension lead child => exact Stored.mono rooted within
  | branch children value => exact fun nibble => Stored.mono (rooted nibble) within
  | _ => exact trivial

theorem rooted_extension {lead : Path} :
    (extension lead child).Rooted records ↔ child.Stored records := Iff.rfl

theorem rooted_branch :
    (branch children value).Rooted records ↔ ∀ nibble, (children nibble).Stored records := Iff.rfl

/-! A hash determines its trie. -/

/-- The record of a trie that is not empty differs from that of the empty one. -/
theorem Canonical.record_ne_empty (canonical : tree.Canonical)
    (short : tree.record.length < 2 ^ 63) (some : tree ≠ empty) :
    tree.record ≠ Node.empty.encode := by
  intro same
  exact some (node_eq_empty.mp (Node.encode_injective (canonical.readable short) trivial same))

theorem Canonical.hash_ne_emptyRoot (canonical : tree.Canonical) (faithful : Faithful data)
    (member : tree.record ∈ data) (some : tree ≠ empty) : tree.hash ≠ Node.emptyRoot := by
  intro same
  rw [hash_of_ne_empty some, ← Node.digest_empty] at same
  exact canonical.record_ne_empty (faithful.short _ member) some
    (faithful.apart (.inr member) (.inl rfl) same)

private theorem node_eq_of_hash_eq (faithful : Faithful data) (canonical : first.Canonical)
    (stored : first.Stored data) (canonicalSecond : second.Canonical)
    (storedSecond : second.Stored data) (same : first.hash = second.hash) :
    first.node = second.node := by
  by_cases none : first = empty
  · by_cases noneSecond : second = empty
    · rw [none, noneSecond]
    · have member := ((stored_of_ne_empty noneSecond).mp storedSecond).1
      rw [none] at same
      exact absurd same.symm (canonicalSecond.hash_ne_emptyRoot faithful member noneSecond)
  · have member := ((stored_of_ne_empty none).mp stored).1
    by_cases noneSecond : second = empty
    · rw [noneSecond] at same
      exact absurd same (canonical.hash_ne_emptyRoot faithful member none)
    · have memberSecond := ((stored_of_ne_empty noneSecond).mp storedSecond).1
      rw [hash_of_ne_empty none, hash_of_ne_empty noneSecond] at same
      exact Node.encode_injective (canonical.readable (faithful.short _ member))
        (canonicalSecond.readable (faithful.short _ memberSecond))
        (faithful.apart (.inr member) (.inr memberSecond) same)

private theorem hash_eq_of_ref_eq (same : first.ref = second.ref) : first.hash = second.hash := by
  unfold ref at same
  split at same
  · next none =>
    split at same
    · next noneSecond => rw [none, noneSecond]
    · cases same
  · split at same
    · cases same
    · exact Option.some.inj same

/-- Canonical tries of one hash are the same, if their records are among faithful data. -/
theorem Canonical.eq_of_hash_eq (faithful : Faithful data) (canonical : first.Canonical)
    (stored : first.Stored data) (canonicalSecond : second.Canonical)
    (storedSecond : second.Stored data) (same : first.hash = second.hash) : first = second := by
  induction first generalizing second with
  | empty =>
    have nodes := node_eq_of_hash_eq faithful canonical stored canonicalSecond storedSecond same
    exact (node_eq_empty.mp nodes.symm).symm
  | leaf path value =>
    have nodes := node_eq_of_hash_eq faithful canonical stored canonicalSecond storedSecond same
    cases second with
    | leaf other found =>
      cases nodes
      rfl
    | _ => cases nodes
  | extension lead child ih =>
    have nodes := node_eq_of_hash_eq faithful canonical stored canonicalSecond storedSecond same
    cases second with
    | extension other below =>
      obtain ⟨leads, hashes⟩ := Node.extension.inj nodes
      rw [leads, ih canonical.2.2.2 stored.2 canonicalSecond.2.2.2 storedSecond.2 hashes]
    | _ => cases nodes
  | branch children value ih =>
    have nodes := node_eq_of_hash_eq faithful canonical stored canonicalSecond storedSecond same
    cases second with
    | branch others slot =>
      obtain ⟨references, values⟩ := Node.branch.inj nodes
      have below : children = others := by
        funext nibble
        by_cases bound : nibble.toNat < 16
        · have slots : (refs children).child? nibble = (refs others).child? nibble :=
            congrArg (Children.child? · nibble) references
          rw [child?_refs _ bound, child?_refs _ bound] at slots
          exact ih nibble (canonical.1 nibble) (stored.2 nibble) (canonicalSecond.1 nibble)
            (storedSecond.2 nibble) (hash_eq_of_ref_eq slots)
        · rw [canonical.2.1 nibble (Nat.le_of_not_lt bound),
            canonicalSecond.2.1 nibble (Nat.le_of_not_lt bound)]
      rw [below, values]
    | _ => cases nodes

/-! Heights. -/

/-- The number of nodes on the longest way down. -/
def height : Tree → Nat
  | empty => 0
  | leaf _ _ => 1
  | extension _ child => child.height + 1
  | branch children _ =>
    ((List.range 256).map fun index => (children (UInt8.ofNat index)).height).foldr max 0 + 1

private theorem le_foldr_max {heights : List Nat} {height : Nat} (member : height ∈ heights) :
    height ≤ heights.foldr max 0 := by
  induction heights with
  | nil => cases member
  | cons first rest ih =>
    rw [List.foldr_cons]
    rcases List.mem_cons.mp member with rfl | later
    · exact Nat.le_max_left _ _
    · exact Nat.le_trans (ih later) (Nat.le_max_right _ _)

private theorem foldr_max_le {heights : List Nat} {bound : Nat}
    (below : ∀ height ∈ heights, height ≤ bound) : heights.foldr max 0 ≤ bound := by
  induction heights with
  | nil => exact Nat.zero_le _
  | cons first rest ih =>
    exact Nat.max_le.mpr ⟨below first List.mem_cons_self,
      ih fun height member => below height (List.mem_cons_of_mem _ member)⟩

theorem height_child_lt (children : UInt8 → Tree) (value : Option Bytes) (nibble : UInt8) :
    (children nibble).height < (branch children value).height := by
  refine Nat.lt_succ_of_le (le_foldr_max ?_)
  exact List.mem_map.mpr
    ⟨nibble.toNat, List.mem_range.mpr nibble.toNat_lt, by rw [UInt8.ofNat_toNat]⟩

private theorem every_height_le (tree : Tree) :
    tree.Every fun inner => inner.height ≤ tree.height := by
  induction tree with
  | empty => exact trivial
  | leaf path value => exact Nat.le_refl _
  | extension lead child ih =>
    exact ⟨Nat.le_refl _, ih.imp fun _ below => Nat.le_succ_of_le below⟩
  | branch children value ih =>
    refine ⟨Nat.le_refl _, fun nibble => (ih nibble).imp fun _ below => ?_⟩
    exact Nat.le_trans below (Nat.le_of_lt (height_child_lt children value nibble))

theorem Canonical.every (canonical : tree.Canonical) : tree.Every Canonical := by
  induction tree with
  | empty => exact trivial
  | leaf path value => exact canonical
  | extension lead child ih => exact ⟨canonical, ih canonical.2.2.2⟩
  | branch children value ih => exact ⟨canonical, fun nibble => ih nibble (canonical.1 nibble)⟩

theorem Stored.every (stored : tree.Stored records) : tree.Every (Stored records) := by
  induction tree with
  | empty => exact trivial
  | leaf path value => exact stored
  | extension lead child ih => exact ⟨stored, ih stored.2⟩
  | branch children value ih => exact ⟨stored, fun nibble => ih nibble (stored.2 nibble)⟩

private theorem hash_ne_of_lower (faithful : Faithful data) (canonical : tree.Canonical)
    (stored : tree.Stored data) (canonicalChild : child.Canonical) (storedChild : child.Stored data)
    (lower : child.height < tree.height) : child.Every fun inner => inner.hash ≠ tree.hash := by
  refine ((canonicalChild.every.and storedChild.every).and (every_height_le child)).imp ?_
  rintro inner ⟨⟨canonicalInner, storedInner⟩, bound⟩ same
  obtain rfl := canonicalInner.eq_of_hash_eq faithful storedInner canonical stored same
  omega

private theorem height_add_le (faithful : Faithful data) (canonical : tree.Canonical)
    (stored : tree.Stored data) {above : List Hash} (distinct : above.Nodup)
    (outside : tree.Every fun inner => inner.hash ∉ above) :
    tree.height + above.length ≤ Hash.count := by
  induction tree generalizing above with
  | empty =>
    have all := Hash.length_le_count distinct
    rwa [height, Nat.zero_add]
  | leaf path value =>
    have all := Hash.length_le_count (distinct.cons outside)
    rwa [height, Nat.add_comm]
  | extension lead child ih =>
    have apart := hash_ne_of_lower faithful canonical stored canonical.2.2.2 stored.2
      (Nat.lt_succ_self _)
    have below := ih canonical.2.2.2 stored.2 (distinct.cons outside.1)
      ((outside.2.and apart).imp fun inner both member =>
        (List.mem_cons.mp member).elim both.2 both.1)
    rw [List.length_cons] at below
    rw [height]
    omega
  | branch children value ih =>
    have all := Hash.length_le_count (distinct.cons outside.1)
    rw [List.length_cons] at all
    have below (nibble : UInt8) : (children nibble).height + (above.length + 1) ≤ Hash.count := by
      have apart := hash_ne_of_lower faithful canonical stored (canonical.1 nibble)
        (stored.2 nibble) (height_child_lt children value nibble)
      exact ih nibble (canonical.1 nibble) (stored.2 nibble) (distinct.cons outside.1)
        (((outside.2 nibble).and apart).imp fun inner both member =>
          (List.mem_cons.mp member).elim both.2 both.1)
    have highest : (branch children value).height - 1 ≤ Hash.count - (above.length + 1) := by
      refine foldr_max_le fun height member => ?_
      obtain ⟨index, _, rfl⟩ := List.mem_map.mp member
      have := below (UInt8.ofNat index)
      omega
    simp only [height] at highest ⊢
    omega

/-- The hashes on the way down are distinct, so there are at most as many as there are hashes. -/
theorem Canonical.height_le_count (faithful : Faithful data) (canonical : tree.Canonical)
    (stored : tree.Stored data) : tree.height ≤ Hash.count := by
  have none : tree.Every fun inner => inner.hash ∉ ([] : List Hash) :=
    canonical.every.imp fun _ _ => List.not_mem_nil
  exact height_add_le faithful canonical stored .nil none

end Tree

end ContractLedger
