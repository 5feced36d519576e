import ContractLedger.Proofs.Trie.Accepted
import ContractLedger.Proofs.Trie.Changes
import ContractLedger.Proofs.Trie.Descent

/-!
Updates over any store, whatever it holds under whatever key. An insertion loads what a lookup of the
key loads and keeps nothing before that, so that it fails where the lookup fails. A removal may
also fail where a branch is left with a single child, which it loads last of all; and then it has kept
nothing either, because what is left below such a branch is nothing.
-/

namespace ContractLedger

/-- The entries on top of those that there were before. -/
def Overlay.since (before after : Overlay) : Overlay :=
  after.take (after.length - before.length)

/-- Records that have another digest than that of the empty node, and are held in memory. -/
def Overlay.Apart (overlay : Overlay) : Prop :=
  ∀ entry ∈ overlay, entry.1 ≠ Node.emptyRoot ∧ entry.2.length < 2 ^ 63

theorem Overlay.mem_since {before after fresh : Overlay} (within : fresh ++ before <:+ after)
    {entry : Hash × Bytes} (member : entry ∈ fresh) : entry ∈ since before after := by
  obtain ⟨more, rfl⟩ := within
  have counted : (more ++ (fresh ++ before)).length - before.length = (more ++ fresh).length := by
    simp only [List.length_append]
    omega
  rw [since, counted, ← List.append_assoc, List.take_left]
  exact List.mem_append_right _ member

namespace Children

theorem child?_lt {children : Children} {nibble : UInt8} {hash : Hash}
    (present : children.child? nibble = some hash) : nibble.toNat < 16 := by
  by_cases inside : nibble.toNat < 16
  · exact inside
  · rw [child?, Vector.getElem?_eq_none (Nat.le_of_not_lt inside)] at present
    cases present

theorem mem_present {children : Children} {nibble : UInt8} {hash : Hash} :
    (nibble, hash) ∈ children.present ↔ children.child? nibble = some hash := by
  simp only [present, List.mem_filterMap, Prod.exists, List.mk_mem_zipIdx_iff_getElem?,
    Option.map_eq_some_iff, Prod.mk.injEq]
  constructor
  · rintro ⟨_, index, found, _, rfl, rfl, rfl⟩
    obtain ⟨bound, _⟩ := List.getElem?_eq_some_iff.mp found
    have within : (UInt8.ofNat index).toNat = index := by
      rw [Vector.length_toList] at bound
      exact UInt8.toNat_ofNat_of_lt' (Nat.lt_trans bound (by decide))
    rw [child?, within, ← Vector.getElem?_toList, found]
    rfl
  · intro found
    have bound := child?_lt found
    rw [child?, Option.join_eq_some_iff] at found
    exact ⟨some hash, nibble.toNat, by rw [Vector.getElem?_toList, found], hash, rfl,
      UInt8.ofNat_toNat, rfl⟩

theorem child?_put_self {children : Children} {nibble : UInt8} (bound : nibble.toNat < 16)
    (child : Option Hash) : (children.put nibble child).child? nibble = child := by
  simp [child?, put, bound]

end Children

namespace Trie

private theorem wellFormed_of_readNode {mounted after : Mounted Content} {record : Bytes}
    {node : Node} (read : readNode record mounted = .ok node after) : node.WellFormed := by
  unfold readNode at read
  cases decoded : Node.decode record with
  | error error =>
    rw [decoded] at read
    cases read
  | ok found =>
    rw [decoded] at read
    cases read
    exact (Node.decode_ok decoded).1

/-- Whatever the store holds, a node that is loaded is well formed. -/
theorem wellFormed_of_load {mounted after : Mounted Content} {hash : Hash} {node : Node}
    (loaded : load hash mounted = .ok node after) : node.WellFormed := by
  unfold load at loaded
  split at loaded
  · cases loaded
    exact trivial
  · rw [Step.bind_ok (Step.get_apply mounted)] at loaded
    cases pending : mounted.trie.overlay.lookup hash with
    | some record =>
      rw [pending] at loaded
      exact wellFormed_of_readNode loaded
    | none =>
      rw [pending] at loaded
      obtain ⟨stored, middle, _, read⟩ := Step.bind_eq_ok.mp loaded
      cases stored with
      | none => cases read
      | some record => exact wellFormed_of_readNode read

/-! What is left of an entry that is removed. -/

/-- Children that are left without an entry: there are none, or a single one that is the empty node. -/
def Hollow (loads : Hash → Except TrieError Node) (children : Children) : Prop :=
  children.present = [] ∨
    ∃ nibble hash, children.present = [(nibble, hash)] ∧ loads hash = .ok .empty

/-- Nothing is left of a node without the entry at a path. -/
inductive Clears (loads : Hash → Except TrieError Node) : Node → Path → Prop
  | leaf {path : Path} {value : Bytes} : Clears loads (.leaf path value) path
  | extension {lead rest : Path} {child : Hash} {node : Node} (loaded : loads child = .ok node)
      (below : Clears loads node rest) : Clears loads (.extension lead child) (lead ++ rest)
  | value {children : Children} {value : Bytes} (hollow : Hollow loads children) :
      Clears loads (.branch children (some value)) []
  | child {children : Children} {nibble : UInt8} {rest : Path} {child : Hash} {node : Node}
      (present : children.child? nibble = some child) (loaded : loads child = .ok node)
      (below : Clears loads node rest) (hollow : Hollow loads (children.put nibble none)) :
      Clears loads (.branch children none) (nibble :: rest)

/-- Without the entry at a path, a branch on the way there is left with a single child. -/
inductive Strands (loads : Hash → Except TrieError Node) (hash : Hash) : Node → Path → Prop
  | extension {lead rest : Path} {child : Hash} {node : Node} (loaded : loads child = .ok node)
      (below : Strands loads hash node rest) : Strands loads hash (.extension lead child) (lead ++ rest)
  | branch {children : Children} {value : Option Bytes} {nibble : UInt8} {rest : Path} {child : Hash}
      {node : Node} (present : children.child? nibble = some child) (loaded : loads child = .ok node)
      (below : Strands loads hash node rest) :
      Strands loads hash (.branch children value) (nibble :: rest)
  | value {children : Children} {value : Bytes} {nibble : UInt8}
      (single : children.present = [(nibble, hash)]) :
      Strands loads hash (.branch children (some value)) []
  | child {children : Children} {nibble other : UInt8} {rest : Path} {child : Hash} {node : Node}
      (present : children.child? nibble = some child) (loaded : loads child = .ok node)
      (below : Clears loads node rest)
      (single : (children.put nibble none).present = [(other, hash)]) :
      Strands loads hash (.branch children none) (nibble :: rest)

/-! What the steps of an update keep. -/

variable {mounted : Mounted Content} {node : Node} {children : Children} {value : Option Bytes}
  {lead path : Path} {hash : Hash}

/-- The node that is left of another after a step that keeps entries on top of the others. -/
def Remains (mounted : Mounted Content) (result : EStateM.Result TrieError (Mounted Content) Node) :
    Prop :=
  ∃ node fresh, result = .ok node (mounted.adding fresh) ∧ node ≠ .empty ∧ node.WellFormed

theorem Remains.here (full : node ≠ .empty) (wellFormed : node.WellFormed) :
    Remains mounted (.ok node mounted) :=
  ⟨node, [], rfl, full, wellFormed⟩

theorem keep_apply (full : node ≠ .empty) (mounted : Mounted Content) :
    keep node mounted = .ok (Keccak.digest node.encode)
      (mounted.adding [(Keccak.digest node.encode, node.encode)]) := by
  rw [keep, if_neg full]
  rfl

theorem load_kept (wellFormed : node.WellFormed)
    (apart : Overlay.Apart [(Keccak.digest node.encode, node.encode)]) :
    load (Keccak.digest node.encode) (mounted.adding [(Keccak.digest node.encode, node.encode)]) =
      .ok node (mounted.adding [(Keccak.digest node.encode, node.encode)]) := by
  obtain ⟨named, short⟩ := apart _ (List.mem_singleton_self _)
  have decoded : Node.decode node.encode = .ok node := by
    refine Node.decode_encode_of_room wellFormed ?_
    have room := node.room_le
    dsimp only at short
    omega
  rw [load, if_neg named, Step.bind_ok (Step.get_apply _)]
  simp only [Mounted.adding, List.singleton_append, List.lookup_cons_self, readNode, decoded]
  rfl

theorem extend_remains (full : node ≠ .empty) (wellFormed : node.WellFormed) (nibbles : lead.Nibbles)
    (mounted : Mounted Content) : Remains mounted (extend lead node mounted) := by
  unfold extend
  split
  · exact .here full wellFormed
  · rw [Step.bind_ok (keep_apply full mounted)]
    exact ⟨_, _, rfl, nofun, nibbles⟩

theorem prepend_remains (full : node ≠ .empty) (wellFormed : node.WellFormed) (nibbles : lead.Nibbles)
    (mounted : Mounted Content) : Remains mounted (prepend lead node mounted) := by
  cases node with
  | empty => exact absurd rfl full
  | leaf rest value => exact .here nofun (Path.nibbles_append.mpr ⟨nibbles, wellFormed⟩)
  | extension rest child => exact .here nofun (Path.nibbles_append.mpr ⟨nibbles, wellFormed⟩)
  | branch children value => exact extend_remains full wellFormed nibbles mounted

/-! Removal. -/

inductive Collapses (mounted : Mounted Content) (children : Children) (value : Option Bytes) :
    EStateM.Result TrieError (Mounted Content) Node → Prop
  | hollow (none : value = none) (hollow : Hollow mounted.loads children) :
      Collapses mounted children value (.ok .empty mounted)
  | stranded {nibble : UInt8} {hash : Hash} {error : TrieError} (none : value = none)
      (single : children.present = [(nibble, hash)]) (missing : mounted.loads hash = .error error) :
      Collapses mounted children value (.error error mounted)
  | left {result : EStateM.Result TrieError (Mounted Content) Node} (remains : Remains mounted result) :
      Collapses mounted children value result

theorem collapse_cases (mounted : Mounted Content) (notEmpty : value ≠ some []) :
    Collapses mounted children value (collapse children value mounted) := by
  rcases entries : children.present with _ | ⟨⟨nibble, hash⟩, _ | ⟨second, rest⟩⟩
  · cases value with
    | none =>
      simp only [collapse, entries]
      exact .hollow rfl (.inl entries)
    | some value =>
      simp only [collapse, entries]
      exact .left (.here nofun .nil)
  · cases value with
    | some value =>
      simp only [collapse, entries]
      exact .left (.here nofun notEmpty)
    | none =>
      have bound : nibble.toNat < 16 :=
        Children.child?_lt (Children.mem_present.mp (entries ▸ List.mem_singleton_self _))
      have single : collapse children none mounted = (load hash >>= prepend [nibble]) mounted := by
        simp only [collapse, entries]
      rw [single]
      cases loaded : mounted.loads hash with
      | error error =>
        rw [Step.bind_error ((readwise_same.load hash).error_of_answer loaded)]
        exact .stranded rfl entries loaded
      | ok node =>
        have ran := (readwise_same.load hash).ok_of_answer loaded
        rw [Step.bind_ok ran]
        by_cases none : node = .empty
        · subst node
          exact .hollow rfl (.inr ⟨nibble, hash, entries, loaded⟩)
        · exact .left (prepend_remains none (wellFormed_of_load ran)
            (Path.nibbles_cons.mpr ⟨bound, .nil⟩) mounted)
  · simp only [collapse, entries]
    exact .left (.here nofun notEmpty)

/-- A branch does not collapse to nothing after a node below it was kept. -/
theorem collapse_kept (wellFormed : node.WellFormed) (notEmpty : value ≠ some []) {nibble : UInt8}
    (bound : nibble.toNat < 16) (apart : Overlay.Apart [(Keccak.digest node.encode, node.encode)])
    (full : node ≠ .empty) :
    Remains (mounted.adding [(Keccak.digest node.encode, node.encode)])
      (collapse (children.put nibble (some (Keccak.digest node.encode))) value
        (mounted.adding [(Keccak.digest node.encode, node.encode)])) := by
  have kept : (nibble, Keccak.digest node.encode) ∈
      (children.put nibble (some (Keccak.digest node.encode))).present :=
    Children.mem_present.mpr (Children.child?_put_self bound _)
  rcases entries : (children.put nibble (some (Keccak.digest node.encode))).present with
    _ | ⟨entry, _ | ⟨second, rest⟩⟩
  · exact absurd (entries ▸ kept) List.not_mem_nil
  · obtain rfl := List.mem_singleton.mp (entries ▸ kept)
    cases value with
    | some value =>
      simp only [collapse, entries]
      exact .here nofun notEmpty
    | none =>
      have single : collapse (children.put nibble (some (Keccak.digest node.encode))) none =
          (load (Keccak.digest node.encode) >>= prepend [nibble] : TrieM Content Node) := by
        simp only [collapse, entries]
      rw [single, Step.bind_ok (load_kept wellFormed apart)]
      exact prepend_remains full wellFormed (Path.nibbles_cons.mpr ⟨bound, .nil⟩) _
  · simp only [collapse, entries]
    exact .here nofun notEmpty

/-- What comes of removing an entry that is there. -/
inductive Removes (mounted : Mounted Content) (node : Node) (path : Path) :
    EStateM.Result TrieError (Mounted Content) (Option Node) → Prop
  | cleared (clears : Clears mounted.loads node path) :
      Removes mounted node path (.ok (some .empty) mounted)
  | stranded {hash : Hash} {error : TrieError} (strands : Strands mounted.loads hash node path)
      (missing : mounted.loads hash = .error error) :
      Removes mounted node path (.error error mounted)
  | left {below : Node} {fresh : Overlay} (full : below ≠ .empty) (wellFormed : below.WellFormed) :
      Removes mounted node path (.ok (some below) (mounted.adding fresh))

/-- What comes of removing an entry, given what a lookup of it comes to. -/
def Follows (mounted : Mounted Content) (node : Node) (path : Path) :
    Except TrieError (Option Bytes) → EStateM.Result TrieError (Mounted Content) (Option Node) → Prop
  | .error error, result => result = .error error mounted
  | .ok none, result => result = .ok none mounted
  | .ok (some _), result => Removes mounted node path result

theorem Removes.of_remains {step : TrieM Content Node} {fresh : Overlay}
    (remains : Remains (mounted.adding fresh) (step (mounted.adding fresh))) :
    Removes mounted node path ((some <$> step) (mounted.adding fresh)) := by
  obtain ⟨below, more, ran, full, wellFormed⟩ := remains
  rw [Step.map_ok ran, Mounted.adding_adding]
  exact .left full wellFormed

/-- A branch that loses a child or its own value, and may be left with a single child. -/
theorem Removes.of_collapses {rest : Children} {slot : Option Bytes}
    (collapses : Collapses mounted rest slot (collapse rest slot mounted))
    (clears : slot = none → Hollow mounted.loads rest → Clears mounted.loads node path)
    (strands : ∀ nibble hash, slot = none → rest.present = [(nibble, hash)] →
      Strands mounted.loads hash node path) :
    Removes mounted node path ((some <$> collapse rest slot) mounted) := by
  cases ran : collapse rest slot mounted with
  | error error after =>
    rw [ran] at collapses
    rw [Step.map_apply, ran]
    cases collapses with
    | stranded absent single missing => exact .stranded (strands _ _ absent single) missing
    | left remains =>
      obtain ⟨_, _, impossible, _⟩ := remains
      cases impossible
  | ok below after =>
    rw [ran] at collapses
    cases collapses with
    | hollow absent hollow =>
      rw [Step.map_ok ran]
      exact .cleared (clears absent hollow)
    | left remains =>
      rw [← ran] at remains
      exact @Removes.of_remains mounted _ _ _ [] remains

def Stacks (before after : Mounted Content) : Prop :=
  before.trie.overlay <:+ after.trie.overlay

instance : IsPreorder (Mounted Content) Stacks where
  refl _ := List.suffix_refl _
  trans _ _ _ first second := List.IsSuffix.trans first second

theorem nodewise_stacks : Nodewise fun (step _ : TrieM Content _) => Along Stacks step :=
  nodewise_along
    (fun space key mounted => by
      have same : (ending (onStore (Keyspace.read space key) mounted)).trie = mounted.trie :=
        keeping_onStore _ mounted
      rw [Stacks, same])
    (fun _ entry => List.suffix_cons entry _) fun _ _ => List.suffix_refl _

/-- What the first part of a sequence has kept is kept in the end. -/
theorem Stacks.first {α β : Type} {step : TrieM Content α} {next : α → TrieM Content β}
    (rest : ∀ value, Along Stacks (next value)) {final : Overlay}
    (within : (ending ((step >>= next) mounted)).trie.overlay <:+ final) :
    (ending (step mounted)).trie.overlay <:+ final :=
  List.IsSuffix.trans (Along.first rest mounted) within

theorem Follows.onward {below : Node} {rest : Path} {found : Except TrieError (Option Bytes)}
    {step : TrieM Content (Option Node)} {next : Option Node → TrieM Content (Option Node)}
    (inner : Follows mounted below rest found (step mounted)) (absent : next none = pure none)
    (cleared : Clears mounted.loads below rest → Removes mounted node path (next (some .empty) mounted))
    (stranded : ∀ hash, Strands mounted.loads hash below rest → Strands mounted.loads hash node path)
    (left : ∀ kept fresh, step mounted = .ok (some kept) (mounted.adding fresh) → kept ≠ .empty →
      kept.WellFormed → Removes mounted node path (next (some kept) (mounted.adding fresh))) :
    Follows mounted node path found ((step >>= next) mounted) := by
  cases found with
  | error error => exact Step.bind_error inner next
  | ok found =>
    cases found with
    | none =>
      change (step >>= next) mounted = .ok none mounted
      rw [Step.bind_ok (show step mounted = .ok none mounted from inner), absent]
      rfl
    | some value =>
      change Removes mounted below rest (step mounted) at inner
      change Removes mounted node path ((step >>= next) mounted)
      cases ran : step mounted with
      | error error after =>
        rw [ran] at inner
        rw [Step.bind_error ran]
        cases inner with
        | stranded strands missing => exact .stranded (stranded _ strands) missing
      | ok removed after =>
        rw [ran] at inner
        rw [Step.bind_ok ran]
        cases inner with
        | cleared clears => exact cleared clears
        | left full wellFormed => exact left _ _ ran full wellFormed

/-- A removal that goes on below a child, where the lookup does. -/
theorem Follows.below {child : Hash} {rest : Path} {steps : Nat}
    {next : Option Node → TrieM Content (Option Node)}
    (inner : ∀ below, load child mounted = .ok below mounted →
      Follows mounted node path (answer (lookupFrom steps below rest mounted))
        ((removeAt steps below rest >>= next) mounted)) :
    Follows mounted node path
      (answer ((load child >>= fun below => lookupFrom steps below rest) mounted))
      ((load child >>= fun below => removeAt steps below rest >>= next) mounted) := by
  cases loaded : mounted.loads child with
  | error error =>
    have ran := (readwise_same.load child).error_of_answer loaded
    rw [Step.bind_error ran, Step.bind_error ran]
    rfl
  | ok below =>
    have ran := (readwise_same.load child).ok_of_answer loaded
    rw [Step.bind_ok ran, Step.bind_ok ran]
    exact inner below ran

theorem Removes.of_kept {kept : Node} {nibble : UInt8} {fresh final : Overlay}
    (notEmpty : value ≠ some []) (bound : nibble.toNat < 16) (full : kept ≠ .empty)
    (formed : kept.WellFormed) (apart : Overlay.Apart (.since mounted.trie.overlay final))
    (within : (ending ((keep kept >>= fun hash =>
      some <$> collapse (children.put nibble (some hash)) value) (mounted.adding fresh))).trie.overlay <:+
        final) :
    Removes mounted node path ((keep kept >>= fun hash =>
      some <$> collapse (children.put nibble (some hash)) value) (mounted.adding fresh)) := by
  have first := Stacks.first (fun hash => .bind (nodewise_stacks.collapse _ value) fun _ => .done _) within
  rw [keep_apply full] at first
  rw [Step.bind_ok (keep_apply full _), Mounted.adding_adding]
  refine .of_remains ?_
  rw [← Mounted.adding_adding]
  refine collapse_kept formed notEmpty bound (fun entry member => apart entry ?_) full
  refine @Overlay.mem_since _ _ ((_, _) :: fresh) first entry ?_
  exact List.mem_cons.mpr (.inl (List.mem_singleton.mp member))

section

variable {steps : Nat} {final : Overlay} {rest : Path}

/-- A removal below an extension, given what is known of removals with one step less. -/
theorem removeAt_follows_extension {child : Hash}
    (ih : ∀ below : Node, below.WellFormed →
      (ending (removeAt steps below rest mounted)).trie.overlay <:+ final →
      Follows mounted below rest (answer (lookupFrom steps below rest mounted))
        (removeAt steps below rest mounted))
    (nibbles : lead.Nibbles)
    (within : (ending (removeAt (steps + 1) (.extension lead child) (lead ++ rest) mounted)).trie.overlay
      <:+ final) :
    Follows mounted (.extension lead child) (lead ++ rest)
      (answer (lookupFrom (steps + 1) (.extension lead child) (lead ++ rest) mounted))
      (removeAt (steps + 1) (.extension lead child) (lead ++ rest) mounted) := by
  simp only [lookupFrom, removeAt, Path.after?_append] at within ⊢
  refine .below fun below loaded => ?_
  rw [Step.bind_ok loaded] at within
  have inner := Stacks.first (fun removed => ?_) within
  · refine (ih below (wellFormed_of_load loaded) inner).onward rfl
      (fun clears => .cleared (.extension (loads_of_load loaded) clears))
      (fun hash strands => .extension (loads_of_load loaded) strands)
      fun kept fresh ran full formed => ?_
    exact .of_remains (prepend_remains full formed nibbles _)
  · cases removed with
    | none => exact .done none
    | some kept => exact .bind (nodewise_stacks.prepend lead kept) fun _ => .done _

/-- A removal below a child of a branch, given what is known of removals with one step less. -/
theorem removeAt_follows_child {nibble : UInt8} {child : Hash}
    (ih : ∀ below : Node, below.WellFormed →
      (ending (removeAt steps below rest mounted)).trie.overlay <:+ final →
      Follows mounted below rest (answer (lookupFrom steps below rest mounted))
        (removeAt steps below rest mounted))
    (notEmpty : value ≠ some []) (apart : Overlay.Apart (.since mounted.trie.overlay final))
    (present : children.child? nibble = some child)
    (within : (ending (removeAt (steps + 1) (.branch children value) (nibble :: rest) mounted)).trie.overlay
      <:+ final) :
    Follows mounted (.branch children value) (nibble :: rest)
      (answer (lookupFrom (steps + 1) (.branch children value) (nibble :: rest) mounted))
      (removeAt (steps + 1) (.branch children value) (nibble :: rest) mounted) := by
  simp only [lookupFrom, removeAt, present] at within ⊢
  refine .below fun below loaded => ?_
  rw [Step.bind_ok loaded] at within
  have inner := Stacks.first (fun removed => ?_) within
  · refine (ih below (wellFormed_of_load loaded) inner).onward rfl
      (fun clears => ?_) (fun hash strands => .branch present (loads_of_load loaded) strands)
      fun kept fresh ran full formed => ?_
    · refine .of_collapses (collapse_cases mounted notEmpty) (fun absent hollow => ?_)
        fun other hash absent single => ?_
      · subst absent
        exact .child present (loads_of_load loaded) clears hollow
      · subst absent
        exact .child present (loads_of_load loaded) clears single
    · have onward := within
      rw [Step.bind_ok ran] at onward
      have bound := Children.child?_lt present
      cases kept with
      | empty => exact absurd rfl full
      | _ => exact .of_kept notEmpty bound full formed apart onward
  · cases removed with
    | none => exact .done none
    | some kept =>
      cases kept with
      | empty => exact .bind (nodewise_stacks.collapse _ _) fun _ => .done _
      | _ => exact .bind (nodewise_stacks.keep _) fun _ =>
          .bind (nodewise_stacks.collapse _ _) fun _ => .done _

end

/-- A removal fails with the lookup, or with a child that alone is left; and then it has kept nothing. -/
theorem removeAt_follows (steps : Nat) (wellFormed : node.WellFormed) {final : Overlay}
    (apart : Overlay.Apart (.since mounted.trie.overlay final))
    (within : (ending (removeAt steps node path mounted)).trie.overlay <:+ final) :
    Follows mounted node path (answer (lookupFrom steps node path mounted))
      (removeAt steps node path mounted) := by
  induction steps generalizing node path with
  | zero => rfl
  | succ steps ih =>
    cases node with
    | empty => rfl
    | leaf rest value =>
      simp only [lookupFrom, removeAt]
      split
      · next same =>
        subst rest
        exact .cleared .leaf
      · rfl
    | extension lead child =>
      cases after : lead.after? path with
      | none =>
        simp only [lookupFrom, removeAt, after]
        rfl
      | some rest =>
        obtain rfl := Path.after?_eq_some.mp after
        exact removeAt_follows_extension (fun _ => ih) wellFormed within
    | branch children value =>
      cases path with
      | nil =>
        cases value with
        | none => rfl
        | some value =>
          exact Removes.of_collapses (collapse_cases mounted (Option.some_ne_none []).symm)
            (fun _ hollow => .value hollow) fun nibble hash _ single => .value single
      | cons nibble rest =>
        cases present : children.child? nibble with
        | none =>
          simp only [lookupFrom, removeAt, present]
          rfl
        | some child => exact removeAt_follows_child (fun _ => ih) wellFormed apart present within

theorem removed_follows {α : Type} {steps : Nat} {next : Option Node → TrieM Content α}
    (rest : ∀ removed, Along Stacks (next removed)) (wellFormed : node.WellFormed)
    (apart : Overlay.Apart (.since mounted.trie.overlay
      (ending ((removeAt steps node path >>= next) mounted)).trie.overlay)) :
    Follows mounted node path (answer (lookupFrom steps node path mounted))
      (removeAt steps node path mounted) :=
  removeAt_follows steps wellFormed apart (Stacks.first rest (List.suffix_refl _))

/-! Insertion. -/

/-- A step that succeeds, and keeps entries on top of the others if it changes anything. -/
def Succeeds {α : Type} (mounted : Mounted Content) (step : TrieM Content α) : Prop :=
  ∃ value fresh, step mounted = .ok value (mounted.adding fresh)

namespace Succeeds

variable {α β : Type} {step : TrieM Content α} {next : α → TrieM Content β}

theorem done (value : α) (mounted : Mounted Content) : Succeeds mounted (pure value) :=
  ⟨value, [], rfl⟩

theorem bind (first : Succeeds mounted step) (rest : ∀ value after, Succeeds after (next value)) :
    Succeeds mounted (step >>= next) := by
  obtain ⟨value, fresh, ran⟩ := first
  obtain ⟨result, more, ranRest⟩ := rest value (mounted.adding fresh)
  refine ⟨result, more ++ fresh, ?_⟩
  rw [Step.bind_ok ran, ranRest, Mounted.adding_adding]

theorem of_read {value : α} (ran : step mounted = .ok value mounted)
    (rest : Succeeds mounted (next value)) : Succeeds mounted (step >>= next) := by
  rw [Succeeds, Step.bind_ok ran]
  exact rest

theorem keep (node : Node) (mounted : Mounted Content) : Succeeds mounted (keep node) := by
  by_cases empty : node = .empty
  · exact ⟨Node.emptyRoot, [], by rw [Trie.keep, if_pos empty]; rfl⟩
  · exact ⟨_, _, keep_apply empty mounted⟩

theorem place (branch : Children × Option Bytes) (path : Path) (value : Bytes)
    (mounted : Mounted Content) : Succeeds mounted (place branch path value) := by
  cases path with
  | nil => exact done _ mounted
  | cons nibble rest => exact (keep _ mounted).bind fun _ => done _

theorem extend (path : Path) (node : Node) (mounted : Mounted Content) :
    Succeeds mounted (extend path node) := by
  unfold Trie.extend
  split
  · exact done node mounted
  · exact (keep node mounted).bind fun _ => done _

end Succeeds

theorem insertAt_extension {rest : Path} (after : lead.after? path = some rest) (steps : Nat)
    (child : Hash) (stored : Bytes) :
    (insertAt (steps + 1) (.extension lead child) path stored : TrieM Content Node) = do
      let node ← insertAt steps (← load child) rest stored
      return .extension lead (← keep node) := by
  obtain rfl := Path.after?_eq_some.mp after
  have shares : lead.shared (lead ++ rest) = lead.length := by
    clear after
    induction lead with
    | nil => rw [Path.shared.eq_def]; cases rest <;> rfl
    | cons nibble lead ih => simp [Path.shared, ih]
  rw [insertAt]
  simp only [shares, List.drop_length, List.drop_left]

theorem insertAt_beside (aside : lead.after? path = none) (steps : Nat) (child : Hash)
    (stored : Bytes) (mounted : Mounted Content) :
    Succeeds mounted (insertAt (steps + 1) (.extension lead child) path stored) := by
  obtain ⟨common, first, second, length, rfl, rfl, -⟩ := lead.shared_split path
  rw [insertAt]
  simp only [length, List.take_left, List.drop_left]
  cases first with
  | nil =>
    rw [List.append_nil, Path.after?_append] at aside
    cases aside
  | cons nibble rest =>
    have fork (below : Hash) (mounted : Mounted Content) : Succeeds mounted (do
        let branch ← place (Children.none.put nibble (some below), none) second stored
        extend common (.branch branch.1 branch.2)) :=
      (Succeeds.place _ _ _ mounted).bind fun _ => .extend _ _
    dsimp only
    split
    · exact fork child mounted
    · exact (Succeeds.keep _ mounted).bind fork

private theorem insertBelow_error {child : Hash} {rest : Path} {steps : Nat} {error : TrieError}
    {stored : Bytes} {next : Node → TrieM Content Node}
    (ih : ∀ node, answer (lookupFrom steps node rest mounted) = .error error →
      insertAt steps node rest stored mounted = .error error mounted)
    (fails : answer ((load child >>= fun node => lookupFrom steps node rest) mounted) =
      .error error) :
    (load child >>= fun node => insertAt steps node rest stored >>= next) mounted =
      .error error mounted := by
  cases loaded : mounted.loads child with
  | error cause =>
    have ran := (readwise_same.load child).error_of_answer loaded
    rw [Step.bind_error ran] at fails ⊢
    cases fails
    rfl
  | ok node =>
    have ran := load_of_loads loaded
    rw [Step.bind_ok ran] at fails ⊢
    exact Step.bind_error (ih node fails) _

/-- An insertion fails with the lookup, before anything is kept. -/
theorem insertAt_error {steps : Nat} {error : TrieError} (stored : Bytes)
    (fails : answer (lookupFrom steps node path mounted) = .error error) :
    insertAt steps node path stored mounted = .error error mounted := by
  induction steps generalizing node path with
  | zero =>
    cases fails
    rfl
  | succ steps ih =>
    cases node with
    | empty => cases fails
    | leaf rest value => cases fails
    | extension lead child =>
      rw [lookupFrom] at fails
      cases after : lead.after? path with
      | none =>
        rw [after] at fails
        cases fails
      | some rest =>
        rw [after] at fails
        rw [insertAt_extension after]
        exact insertBelow_error (fun _ => ih) fails
    | branch children value =>
      cases path with
      | nil => cases fails
      | cons nibble rest =>
        rw [lookupFrom] at fails
        cases present : children.child? nibble with
        | none =>
          rw [present] at fails
          cases fails
        | some child =>
          rw [present] at fails
          rw [insertAt, loadChild, present]
          exact insertBelow_error (fun _ => ih) fails

private theorem insertAt_last (stored : Bytes) (steps : Nat) (loaded : mounted.loads hash = .ok node)
    (last : onward mounted.loads (hash, path) = none) :
    Succeeds mounted (insertAt (steps + 1) node path stored) := by
  cases node with
  | empty => exact .done _ _
  | leaf rest old =>
    rw [insertAt]
    split
    · exact .done _ _
    · exact (Succeeds.place _ _ _ _).bind fun _ _ =>
        (Succeeds.place _ _ _ _).bind fun _ => .extend _ _
  | extension lead child =>
    cases after : lead.after? path with
    | none => exact insertAt_beside after steps child stored mounted
    | some rest => simp [onward, loaded, after] at last
  | branch children value =>
    cases path with
    | nil => exact .done _ _
    | cons nibble rest => simp [onward, loaded] at last

private theorem loadChild_eq (children : Children) (nibble : UInt8) :
    (loadChild children nibble : TrieM Content Node) =
      load ((children.child? nibble).getD Node.emptyRoot) := by
  rw [loadChild]
  cases children.child? nibble <;> rfl

private theorem insertAt_onward {stored : Bytes} {steps : Nat} {next : Hash × Path} {inner : Node}
    (loaded : mounted.loads hash = .ok node)
    (leads : onward mounted.loads (hash, path) = some next)
    (ran : load next.1 mounted = .ok inner mounted)
    (inserts : Succeeds mounted (insertAt steps inner next.2 stored)) :
    Succeeds mounted (insertAt (steps + 1) node path stored) := by
  simp only [onward, loaded] at leads
  cases node with
  | empty => cases leads
  | leaf rest value => cases leads
  | extension lead child =>
    obtain ⟨rest, after, rfl⟩ := Option.map_eq_some_iff.mp leads
    rw [insertAt_extension after]
    exact .of_read ran (inserts.bind fun _ _ => (Succeeds.keep _ _).bind fun _ => .done _)
  | branch children value =>
    cases path with
    | nil => cases leads
    | cons nibble rest =>
      cases leads
      rw [insertAt, loadChild_eq]
      exact .of_read ran (inserts.bind fun _ _ => (Succeeds.keep _ _).bind fun _ => .done _)

/-- An insertion succeeds if the way of the path ends before it is given up. -/
theorem insertAt_ok {steps length : Nat} {place : Hash × Path} (stored : Bytes)
    (ends : Ends mounted.loads length place) (loaded : mounted.loads place.1 = .ok node)
    (enough : length < steps) : Succeeds mounted (insertAt steps node place.2 stored) := by
  obtain ⟨steps, rfl⟩ : ∃ fewer, steps = fewer + 1 := Nat.exists_eq_add_one.mpr (by omega)
  induction ends generalizing node steps with
  | here _ last => exact insertAt_last stored steps loaded last
  | further leads below ih =>
    obtain ⟨fewer, rfl⟩ : ∃ fewer, steps = fewer + 1 := Nat.exists_eq_add_one.mpr (by omega)
    obtain ⟨inner, loadedBelow⟩ := below.exists_loads
    exact insertAt_onward loaded leads (load_of_loads loadedBelow) (ih loadedBelow fewer (by omega))

/-! The operations on a whole trie. -/

/-- The entries that the removal of a key keeps have another digest than that of the empty node, and are
held in memory. -/
def RemovesApart {σ : Type} [ByteStore σ] (key : Bytes) (mounted : Mounted σ) : Prop :=
  Overlay.Apart (.since mounted.trie.overlay (ending (remove key mounted)).trie.overlay)

/-- At a key, a branch on the way is left with a single child when the entry is removed, and loading
that child fails. -/
def Stranded {σ : Type} [ByteStore σ] (key : Bytes) (error : TrieError) (mounted : Mounted σ) : Prop :=
  ∃ top hash, mounted.loads mounted.trie.root = .ok top ∧
    Strands mounted.loads hash top (Path.ofBytes key) ∧ mounted.loads hash = .error error

theorem insert_follows (key : Bytes) {stored : Bytes} (notEmpty : stored ≠ [])
    (mounted : Mounted Content) :
    match answer (get key mounted) with
    | .error error => insert key stored mounted = .error error mounted
    | .ok _ => ∃ after, insert key stored mounted = .ok () after := by
  have inserts : insert key stored mounted = (load mounted.trie.root >>= fun top =>
      insertAt (walkLimit (Path.ofBytes key)) top (Path.ofBytes key) stored >>= setRootNode)
        mounted := by
    rw [insert, if_neg (by simpa using notEmpty), Step.bind_ok (Step.getThe_apply mounted)]
  rw [inserts, get, Step.bind_ok (Step.getThe_apply mounted)]
  cases loaded : mounted.loads mounted.trie.root with
  | error error =>
    have ran := (readwise_same.load _).error_of_answer loaded
    rw [Step.bind_error ran, Step.bind_error ran]
    rfl
  | ok top =>
    have ran := load_of_loads loaded
    rw [Step.bind_ok ran, Step.bind_ok ran]
    cases finds : answer (lookupFrom (walkLimit (Path.ofBytes key)) top (Path.ofBytes key) mounted) with
    | error error => exact Step.bind_error (insertAt_error stored finds) _
    | ok found =>
      obtain ⟨length, ends⟩ := ends_of_lookupFrom loaded finds
      obtain ⟨node, fresh, ran⟩ := insertAt_ok stored ends loaded ends.lt_walkLimit
      obtain ⟨root, more, kept⟩ := Succeeds.keep node (mounted.adding fresh)
      rw [Step.bind_ok ran, setRootNode, Step.bind_ok kept]
      exact ⟨_, rfl⟩

private theorem removed_ends {top : Node} {removal : TrieM Content (Option Node)}
    (removes : Removes mounted top path (removal mounted)) {next : Option Node → TrieM Content Bool}
    (kept : ∀ node, next (some node) = setRootNode node >>= fun _ => pure true) :
    (∃ present after, (removal >>= next) mounted = .ok present after) ∨
      ∃ hash error, Strands mounted.loads hash top path ∧ mounted.loads hash = .error error ∧
        (removal >>= next) mounted = .error error mounted := by
  have ends (below : Node) (after : Mounted Content) :
      ∃ last, next (some below) after = .ok true last := by
    obtain ⟨root, more, ran⟩ := Succeeds.keep below after
    rw [kept, setRootNode, bind_assoc, Step.bind_ok ran]
    exact ⟨_, rfl⟩
  cases ran : removal mounted with
  | error error after =>
    rw [ran] at removes
    rw [Step.bind_error ran]
    cases removes with
    | stranded strands missing => exact .inr ⟨_, error, strands, missing, rfl⟩
  | ok removed after =>
    rw [ran] at removes
    rw [Step.bind_ok ran]
    cases removes with
    | cleared clears => exact .inl ⟨true, ends .empty mounted⟩
    | left full wellFormed => exact .inl ⟨true, ends _ _⟩

theorem remove_follows {key : Bytes} {mounted : Mounted Content} (apart : RemovesApart key mounted) :
    match answer (get key mounted) with
    | .error error => remove key mounted = .error error mounted
    | .ok _ => (∃ present after, remove key mounted = .ok present after) ∨
        ∃ error, Stranded key error mounted ∧ remove key mounted = .error error mounted := by
  rw [RemovesApart] at apart
  rw [remove, Step.bind_ok (Step.getThe_apply mounted)] at apart ⊢
  rw [get, Step.bind_ok (Step.getThe_apply mounted)]
  cases loaded : mounted.loads mounted.trie.root with
  | error error =>
    have ran := (readwise_same.load _).error_of_answer loaded
    rw [Step.bind_error ran, Step.bind_error ran]
    rfl
  | ok top =>
    have ran := load_of_loads loaded
    rw [Step.bind_ok ran] at apart ⊢
    rw [Step.bind_ok ran]
    have follows := removed_follows (fun removed => ?_) (wellFormed_of_load ran) apart
    · cases finds : answer
          (lookupFrom (walkLimit (Path.ofBytes key)) top (Path.ofBytes key) mounted) with
      | error error =>
        rw [finds] at follows
        exact Step.bind_error follows _
      | ok found =>
        rw [finds] at follows
        cases found with
        | none => exact .inl ⟨false, _, Step.bind_ok follows _⟩
        | some value =>
          refine (removed_ends follows fun _ => rfl).imp_right ?_
          rintro ⟨hash, error, strands, missing, same⟩
          exact ⟨error, ⟨top, hash, loaded, strands, missing⟩, same⟩
    · cases removed with
      | none => exact .done false
      | some node => exact .bind (nodewise_stacks.setRootNode node) fun _ => .done true

/-- The insertion of an empty value fails as the removal of the key does. -/
theorem remove_of_insert_nil {key : Bytes} {error : TrieError} {mounted after : Mounted Content}
    (failed : insert key [] mounted = .error error after) : remove key mounted = .error error after := by
  rw [insert, if_pos (by rfl)] at failed
  cases ran : remove key mounted with
  | ok present last =>
    rw [Step.bind_ok ran] at failed
    cases failed
  | error cause last =>
    rw [Step.bind_error ran] at failed
    cases failed
    rfl

/-- A removal that fails does so with the lookup, or with a child that alone is left; it has changed
nothing. -/
theorem remove_error {key : Bytes} {error : TrieError} {mounted after : Mounted Content}
    (apart : RemovesApart key mounted) (failed : remove key mounted = .error error after) :
    (answer (get key mounted) = .error error ∨ Stranded key error mounted) ∧ after = mounted := by
  have follows := remove_follows apart
  cases gets : answer (get key mounted) with
  | error cause =>
    rw [gets] at follows
    cases follows.symm.trans failed
    exact ⟨.inl rfl, rfl⟩
  | ok found =>
    rw [gets] at follows
    rcases follows with ⟨_, _, impossible⟩ | ⟨cause, stranded, same⟩
    · cases impossible.symm.trans failed
    · cases same.symm.trans failed
      exact ⟨.inr stranded, rfl⟩

/-- An insertion that fails has changed nothing. -/
theorem insert_error {key stored : Bytes} {error : TrieError} {mounted after : Mounted Content}
    (apart : stored = [] → RemovesApart key mounted)
    (failed : insert key stored mounted = .error error after) : after = mounted := by
  by_cases empty : stored = []
  · subst empty
    exact (remove_error (apart rfl) (remove_of_insert_nil failed)).2
  · have follows := insert_follows key empty mounted
    cases gets : answer (get key mounted) with
    | error cause =>
      rw [gets] at follows
      cases follows.symm.trans failed
      rfl
    | ok found =>
      rw [gets] at follows
      obtain ⟨_, impossible⟩ := follows
      cases impossible.symm.trans failed

theorem setRoot_follows (root : Hash) (mounted : Mounted Content) :
    (∃ after, setRoot root mounted = .ok () after) ∨
      ∃ error, setRoot root mounted = .error error mounted := by
  unfold setRoot
  rw [Step.bind_ok (Step.getThe_apply mounted)]
  split
  · cases reading : onStore (mounted.trie.keyspace.read root.bytes) mounted with
    | error error after =>
      have same : mounted = after := by
        have along := along_read mounted.trie.keyspace root.bytes mounted
        rwa [reading] at along
      exact .inr ⟨error, by rw [Step.bind_error reading, same]⟩
    | ok record after =>
      have same : mounted = after := by
        have along := along_read mounted.trie.keyspace root.bytes mounted
        rwa [reading] at along
      rw [← same] at reading
      rw [Step.bind_ok reading]
      cases record with
      | none => exact .inr ⟨_, rfl⟩
      | some record => exact .inl ⟨_, rfl⟩
  · exact .inl ⟨_, rfl⟩

/-! The same over any store that answers as its content does. -/

variable {σ : Type} [ByteStore σ] [ReliableStore σ]

/-- Nothing is changed, and everything that is read later is as if nothing had been done. -/
structure Unchanged (before after : Mounted σ) : Prop where
  trie : after.trie = before.trie
  content : content after.store = content before.store
  get : ∀ key, answer (get key after) = answer (get key before)
  pairs : answer (pairs after) = answer (pairs before)
  flush : after.trie.flush = before.trie.flush

/-- A step that leaves the view of a trie as it is leaves everything unchanged. -/
theorem Unchanged.of_view {before after : Mounted σ} (same : after.view = before.view) :
    Unchanged before after where
  trie := congrArg (·.trie) same
  content := congrArg (·.store) same
  get key := by
    rw [← answer_view (agree_get key), same, answer_view (agree_get key)]
  pairs := by
    rw [← answer_view nodewise_agree.pairs, same, answer_view nodewise_agree.pairs]
  flush := congrArg (·.trie.flush) same

theorem Unchanged.of_agree {α : Type} {step : TrieM σ α} {stepView : TrieM Content α} {γ : Type}
    {measure : Mounted Content → Set γ} {before after : Mounted σ} {error : TrieError}
    (agree : Agree Mounted.view measure step stepView) (failed : step before = .error error after)
    (same : ∀ cause last, stepView before.view = .error cause last → last = before.view) :
    Unchanged before after := by
  have ran := agree.same before
  rw [failed] at ran
  exact .of_view (same _ _ ran.symm)

theorem removesApart_view {key : Bytes} {mounted : Mounted σ} :
    RemovesApart key mounted.view ↔ RemovesApart key mounted := by
  rw [RemovesApart, RemovesApart, ← (nodewise_agree.remove key).same, ending_through]
  rfl

theorem stranded_view {key : Bytes} {error : TrieError} {mounted : Mounted σ} :
    Stranded key error mounted.view ↔ Stranded key error mounted := by
  rw [Stranded, Stranded, loads_view]
  rfl

/-- An update that fails changes nothing, and so nothing that is read later. It fails where a lookup of
the key does, except that a removal also fails if it leaves a branch with a single child that cannot be
loaded. -/
theorem failing_update_changes_nothing (mounted : Mounted σ) (key : Bytes) :
    (∀ root error after, setRoot root mounted = .error error after → Unchanged mounted after) ∧
    (∀ stored error after, (stored = [] → RemovesApart key mounted) →
      insert key stored mounted = .error error after → Unchanged mounted after) ∧
    (∀ error after, RemovesApart key mounted → remove key mounted = .error error after →
      Unchanged mounted after) ∧
    (∀ stored, stored ≠ [] →
      answer (insert key stored mounted) = (answer (get key mounted)).map fun _ => ()) ∧
    (∀ error, RemovesApart key mounted → answer (remove key mounted) = .error error →
      answer (get key mounted) = .error error ∨ Stranded key error mounted) := by
  refine ⟨fun root error after failed => ?_, fun stored error after apart failed => ?_,
    fun error after apart failed => ?_, fun stored notEmpty => ?_, fun error apart failed => ?_⟩
  · refine .of_agree (agree_setRoot root) failed fun cause last ran => ?_
    rcases setRoot_follows root mounted.view with ⟨_, impossible⟩ | ⟨_, same⟩
    · cases impossible.symm.trans ran
    · cases same.symm.trans ran
      rfl
  · exact .of_agree (agree_insert key stored) failed fun cause last ran =>
      insert_error (fun empty => removesApart_view.mpr (apart empty)) ran
  · exact .of_agree (nodewise_agree.remove key) failed fun cause last ran =>
      (remove_error (removesApart_view.mpr apart) ran).2
  · rw [← answer_view (agree_insert key stored), ← answer_view (agree_get key)]
    have follows := insert_follows key notEmpty mounted.view
    cases gets : answer (get key mounted.view) with
    | error error =>
      rw [gets] at follows
      rw [follows]
      rfl
    | ok found =>
      rw [gets] at follows
      obtain ⟨after, ran⟩ := follows
      rw [ran]
      rfl
  · rw [← answer_view (nodewise_agree.remove key)] at failed
    rw [← answer_view (agree_get key), ← stranded_view]
    cases ran : remove key mounted.view with
    | ok present after =>
      rw [ran] at failed
      cases failed
    | error cause after =>
      rw [ran] at failed
      cases failed
      exact (remove_error (removesApart_view.mpr apart) ran).1

/-- A branch over two leaves of which the store has only the first. -/
def torn : Mounted Memory :=
  let first := Node.leaf [0] [7]
  let top := Node.branch ((Children.none.put 1 (some (Keccak.digest first.encode))).put 2
    (some (Keccak.digest (Node.leaf [0] [8]).encode))) none
  let root := Keccak.digest top.encode
  ⟨⟨.ofColumn Column.accounts, [(root, top.encode)], root, Node.emptyRoot⟩,
    Memory.empty.apply
      ((Keyspace.ofColumn Column.accounts).put (Keccak.digest first.encode).bytes first.encode)⟩

theorem failing_update_changes_nothing_torn :
    RemovesApart [0x10] torn ∧
      (∃ error after, remove [0x10] torn = .error error after ∧ Unchanged torn after ∧
        Stranded [0x10] error torn) ∧
      answer (get [0x10] torn) = .ok (some [7]) ∧ answer (insert [0x10] [9] torn) = .ok () := by
  obtain ⟨-, -, removes, inserts, fails⟩ := failing_update_changes_nothing torn [0x10]
  have overlay : (ending (remove [0x10] torn)).trie.overlay = torn.trie.overlay := by decide +kernel
  have apart : RemovesApart [0x10] torn := by
    rw [RemovesApart, overlay]
    simp [Overlay.since, Overlay.Apart]
  have found : answer (get [0x10] torn) = .ok (some [7]) := by decide +kernel
  refine ⟨apart, ?_, found, by rw [inserts _ (by decide), found]; rfl⟩
  have failed : (answer (remove [0x10] torn)).toOption = none := by decide +kernel
  cases ran : remove [0x10] torn with
  | ok present after =>
    rw [ran] at failed
    cases failed
  | error error after =>
    refine ⟨error, after, rfl, removes error after apart ran, ?_⟩
    rcases fails error apart (by rw [ran]; rfl) with impossible | stranded
    · cases found.symm.trans impossible
    · exact stranded

end Trie

end ContractLedger
