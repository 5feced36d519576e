import ContractLedger.Proofs.Trie.Tree

/-!
Updates of resolved tries. Inserting and removing change the map at one path only, and keep the
canonical shape.
-/

namespace ContractLedger.Tree

/-- Children and value of a branch without entries. -/
def noEntries : (UInt8 → Tree) × Option Bytes :=
  (fun _ => empty, none)

/-- Hangs a value below a branch, or in its own slot when no path is left. -/
def placed (entries : (UInt8 → Tree) × Option Bytes) (path : Path) (value : Bytes) :
    (UInt8 → Tree) × Option Bytes :=
  match path with
  | [] => (entries.1, some value)
  | nibble :: rest => (Function.update entries.1 nibble (leaf rest value), entries.2)

/-- Hangs a trie below an extension, unless the path is empty. -/
def extended (lead : Path) (tree : Tree) : Tree :=
  if lead = [] then tree else extension lead tree

/-- Puts a path in front of a trie. -/
def joined (lead : Path) : Tree → Tree
  | empty => empty
  | leaf rest value => leaf (lead ++ rest) value
  | extension rest child => extension (lead ++ rest) child
  | branch children value => extended lead (branch children value)

/-- The nibbles under which a branch has children. -/
def present (children : UInt8 → Tree) : List UInt8 :=
  ((List.range 16).map UInt8.ofNat).filter fun nibble => children nibble ≠ empty

/-- A branch with a single entry as a leaf or an extension, and one with none as the empty trie. -/
def merged (children : UInt8 → Tree) (value : Option Bytes) : Tree :=
  match present children, value with
  | [], none => empty
  | [], some value => leaf [] value
  | [nibble], none => (children nibble).joined [nibble]
  | _, value => branch children value

def fork (lead : Path) (entries : (UInt8 → Tree) × Option Bytes) : Tree :=
  extended lead (branch entries.1 entries.2)

def insert : Tree → Path → Bytes → Tree
  | empty, path, value => leaf path value
  | leaf rest old, path, value =>
    if rest = path then leaf rest value
    else
      let common := rest.shared path
      fork (path.take common)
        (placed (placed noEntries (rest.drop common) old) (path.drop common) value)
  | extension lead child, path, value =>
    let common := lead.shared path
    match lead.drop common with
    | [] => extension lead (child.insert (path.drop common) value)
    | nibble :: rest =>
      fork (lead.take common)
        (placed (Function.update noEntries.1 nibble (extended rest child), none)
          (path.drop common) value)
  | branch children _, [], value => branch children (some value)
  | branch children slot, nibble :: rest, value =>
    branch (Function.update children nibble ((children nibble).insert rest value)) slot

/-- The trie without a path, or nothing where the path is absent. -/
def remove : Tree → Path → Option Tree
  | empty, _ => none
  | leaf rest _, path => if rest = path then some empty else none
  | extension lead child, path =>
    match lead.after? path with
    | none => none
    | some rest => (child.remove rest).map (joined lead)
  | branch _ none, [] => none
  | branch children (some _), [] => some (merged children none)
  | branch children value, nibble :: rest =>
    ((children nibble).remove rest).map fun child =>
      merged (Function.update children nibble child) value

variable {tree : Tree} {children : UInt8 → Tree} {value : Option Bytes} {lead path : Path}
  {entries : (UInt8 → Tree) × Option Bytes} {new : Bytes}

/-! References. -/

theorem refs_noEntries : refs noEntries.1 = Children.none := by
  apply Vector.ext
  intro index bound
  simp [refs, noEntries, ref, Children.none]

theorem present_refs (children : UInt8 → Tree) :
    (refs children).present =
      (present children).map fun nibble => (nibble, (children nibble).hash) := by
  have slots : (refs children).toList.zipIdx =
      (List.range 16).map fun index => ((children (UInt8.ofNat index)).ref, index) := by
    apply List.ext_getElem
    · simp
    · intro index bound _
      simp [refs]
  rw [Children.present, slots, present, ← List.filterMap_eq_filter, List.filterMap_map,
    List.filterMap_map, List.map_filterMap]
  congr 1
  funext index
  by_cases none : children (UInt8.ofNat index) = empty <;> simp [ref, none, Option.guard]

/-! Entries. -/

theorem get_update (children : UInt8 → Tree) (value : Option Bytes) (nibble : UInt8) (child : Tree)
    (other : UInt8) (rest : Path) :
    (branch (Function.update children nibble child) value).get (other :: rest) =
      if other = nibble then child.get rest else (children other).get rest := by
  by_cases same : other = nibble
  · subst other
    simp [get]
  · simp [get, same]

theorem get_extended (lead : Path) (tree : Tree) (path : Path) :
    (extended lead tree).get path = (lead.after? path).bind tree.get := by
  unfold extended
  split
  · next none =>
    have whole : Path.after? [] path = some path := Path.after?_append [] path
    rw [none, whole, Option.bind_some]
  · rfl

private theorem append_eq_iff_after? (rest : Path) :
    lead ++ rest = path ↔ lead.after? path = some rest := by
  rw [Path.after?_eq_some, eq_comm]

theorem after?_append (lead rest path : Path) :
    (lead ++ rest).after? path = (lead.after? path).bind rest.after? := by
  apply Option.ext
  intro found
  simp only [Path.after?_eq_some, Option.bind_eq_some_iff]
  constructor
  · rintro rfl
    exact ⟨rest ++ found, List.append_assoc .., rfl⟩
  · rintro ⟨_, rfl, rfl⟩
    exact (List.append_assoc ..).symm

theorem get_joined (lead : Path) (tree : Tree) (path : Path) :
    (tree.joined lead).get path = (lead.after? path).bind tree.get := by
  cases tree with
  | empty => cases lead.after? path <;> rfl
  | leaf rest value =>
    rw [joined, get]
    cases after : lead.after? path with
    | none =>
      have apart : lead ++ rest ≠ path := fun same => by
        rw [(append_eq_iff_after? rest).mp same] at after
        cases after
      rw [if_neg apart, Option.bind_none]
    | some found =>
      obtain rfl := Path.after?_eq_some.mp after
      simp [get]
  | extension rest child =>
    rw [joined, get, after?_append, Option.bind_assoc]
    rfl
  | branch children value => exact get_extended lead _ path

theorem get_placed (free : ∀ nibble rest, path = nibble :: rest → entries.1 nibble = empty)
    (other : Path) :
    (branch (placed entries path new).1 (placed entries path new).2).get other =
      if other = path then some new else (branch entries.1 entries.2).get other := by
  cases path with
  | nil =>
    cases other with
    | nil => rfl
    | cons nibble rest => rfl
  | cons nibble rest =>
    cases other with
    | nil => simp [placed, get]
    | cons otherNibble otherRest =>
      simp only [placed, get_update]
      by_cases same : otherNibble = nibble
      · subst otherNibble
        simp [get, free nibble rest rfl, eq_comm]
      · simp [get, same]

theorem mem_present (closed : ∀ nibble, 16 ≤ nibble.toNat → children nibble = empty)
    (nibble : UInt8) : nibble ∈ present children ↔ children nibble ≠ empty := by
  simp only [present, List.mem_filter, List.mem_map, List.mem_range, decide_eq_true_eq]
  constructor
  · exact fun both => both.2
  · intro some
    refine ⟨⟨nibble.toNat, ?_, UInt8.ofNat_toNat⟩, some⟩
    apply Classical.byContradiction
    intro large
    exact some (closed nibble (Nat.le_of_not_lt large))

theorem get_merged (closed : ∀ nibble, 16 ≤ nibble.toNat → children nibble = empty)
    (path : Path) : (merged children value).get path = (branch children value).get path := by
  have member := mem_present closed
  unfold merged
  split
  · next none =>
    cases path with
    | nil => rfl
    | cons nibble rest =>
      have absent : children nibble = empty := by simpa [none] using member nibble
      rw [get, get, absent]
      rfl
  · next value none =>
    cases path with
    | nil => rfl
    | cons nibble rest =>
      have absent : children nibble = empty := by simpa [none] using member nibble
      rw [get, get, absent, if_neg (by simp)]
      rfl
  · next only single =>
    rw [get_joined]
    cases path with
    | nil => rfl
    | cons nibble rest =>
      by_cases same : nibble = only
      · subst only
        exact congrArg (Option.bind · _) (Path.after?_append [nibble] rest)
      · have absent : children nibble = empty := by simpa [single, same] using member nibble
        have away : Path.after? [only] (nibble :: rest) = none := by
          rw [Option.eq_none_iff_forall_ne_some]
          intro found starts
          exact same (List.cons.inj (Path.after?_eq_some.mp starts)).1
        rw [away, get, absent]
        rfl
  · rfl

private theorem get_placed_twice {first second : Path} {old : Bytes}
    (apart : Path.Diverge first second) (other : Path) :
    (branch (placed (placed noEntries first old) second new).1
        (placed (placed noEntries first old) second new).2).get other =
      if other = second then some new else (leaf first old).get other := by
  have noEntry : (branch noEntries.1 noEntries.2).get other = none := by
    cases other <;> rfl
  rw [get_placed, get_placed, noEntry, get]
  · simp only [eq_comm]
  · intro nibble rest _
    rfl
  · intro nibble rest secondIs
    cases first with
    | nil => rfl
    | cons head tail =>
      have differ : nibble ≠ head := by
        rintro rfl
        exact apart nibble tail rest rfl secondIs
      simp [placed, noEntries, differ]

private theorem get_split {nibble : UInt8} {rest second : Path} {child : Tree}
    (apart : Path.Diverge (nibble :: rest) second) (other : Path) :
    (branch (placed (Function.update noEntries.1 nibble (extended rest child), none) second new).1
        (placed (Function.update noEntries.1 nibble (extended rest child), none) second new).2).get
          other =
      if other = second then some new
      else (Path.after? (nibble :: rest) other).bind child.get := by
  rw [get_placed]
  · congr 1
    cases other with
    | nil => rfl
    | cons head tail =>
      rw [get_update, get_extended]
      by_cases same : head = nibble
      · subst head
        simp [Path.after?, List.isPrefixOf?]
      · simp [Path.after?, List.isPrefixOf?, same, Ne.symm same, noEntries, get]
  · intro head tail secondIs
    have differ : head ≠ nibble := by
      rintro rfl
      exact apart head rest tail rfl secondIs
    simp [noEntries, differ]

/-! Maps that differ at one path. -/

private theorem get_below {after before : Path → Option Bytes} {rest : Path} {entry : Option Bytes}
    (differ : ∀ found, after found = if found = rest then entry else before found) (other : Path) :
    (lead.after? other).bind after =
      if other = lead ++ rest then entry else (lead.after? other).bind before := by
  cases starts : lead.after? other with
  | none =>
    have outside : other ≠ lead ++ rest := by
      rintro rfl
      rw [Path.after?_append] at starts
      cases starts
    rw [if_neg outside]
    rfl
  | some found =>
    obtain rfl := Path.after?_eq_some.mp starts
    simp [differ]

private theorem get_exchanged {nibble : UInt8} {rest : Path} {child : Tree} {entry : Option Bytes}
    (differ : ∀ found, child.get found = if found = rest then entry else (children nibble).get found)
    (other : Path) :
    (branch (Function.update children nibble child) value).get other =
      if other = nibble :: rest then entry else (branch children value).get other := by
  cases other with
  | nil => simp [get]
  | cons head tail =>
    rw [get_update]
    by_cases same : head = nibble
    · subst head
      simp [differ, get]
    · simp [get, same]

/-- Inserting changes the map at its own path only. -/
theorem get_insert (tree : Tree) (path : Path) (value : Bytes) (other : Path) :
    (tree.insert path value).get other = if other = path then some value else tree.get other := by
  induction tree generalizing path other with
  | empty => simp [insert, get, eq_comm]
  | leaf rest old =>
    rw [insert]
    split
    · next same =>
      subst rest
      by_cases at_ : path = other
      · simp [get, at_]
      · simp [get, at_, Ne.symm at_]
    · next differ =>
      obtain ⟨common, first, second, length, restIs, pathIs, apart⟩ := rest.shared_split path
      subst restIs pathIs
      have whole : (leaf (common ++ first) old).get other = _ := get_joined common (leaf first old) other
      simp only [length, List.take_left, List.drop_left, fork, get_extended, whole]
      exact get_below (get_placed_twice apart) other
  | extension lead child ih =>
    obtain ⟨common, first, second, length, leadIs, pathIs, apart⟩ := lead.shared_split path
    subst leadIs pathIs
    simp only [insert, length, List.take_left, List.drop_left]
    cases first with
    | nil =>
      simp only [List.append_nil]
      exact get_below (ih second) other
    | cons nibble rest =>
      have whole : (extension (common ++ nibble :: rest) child).get other = _ :=
        get_joined common (extension (nibble :: rest) child) other
      simp only [fork, get_extended, whole]
      exact get_below (get_split apart) other
  | branch children slot ih =>
    cases path with
    | nil => cases other <;> simp [insert, get]
    | cons nibble rest => exact get_exchanged (ih nibble rest) other

/-- A path is found absent just where the map has no value. -/
theorem remove_eq_none_iff (tree : Tree) (path : Path) :
    tree.remove path = none ↔ tree.get path = none := by
  induction tree generalizing path with
  | empty => simp [remove, get]
  | leaf rest value => by_cases same : rest = path <;> simp [remove, get, same]
  | extension lead child ih => cases after : lead.after? path <;> simp [remove, get, after, ih]
  | branch children slot ih =>
    cases path with
    | nil => cases slot <;> simp [remove, get]
    | cons nibble rest => simp [remove, get, ih]

/-! Shape. -/

/-- Children of a branch in canonical shape, all under half-bytes. -/
def Closed (children : UInt8 → Tree) : Prop :=
  (∀ nibble, (children nibble).Canonical) ∧
    ∀ nibble, 16 ≤ nibble.toNat → children nibble = empty

theorem Closed.update (closed : Closed children) {nibble : UInt8} (bound : nibble.toNat < 16)
    {child : Tree} (canonical : child.Canonical) :
    Closed (Function.update children nibble child) := by
  constructor
  · intro other
    by_cases same : other = nibble
    · subst other
      simpa using canonical
    · simpa [same] using closed.1 other
  · intro other large
    have differ : other ≠ nibble := by
      rintro rfl
      omega
    simpa [differ] using closed.2 other large

/-- Exchanging one child for another that is not empty leaves as many entries. -/
theorem Crowded.update (crowded : Crowded children value) {nibble : UInt8} {child : Tree}
    (some : child ≠ empty) : Crowded (Function.update children nibble child) value := by
  have kept : ∀ other, children other ≠ empty →
      Function.update children nibble child other ≠ empty := by
    intro other present
    by_cases same : other = nibble
    · subst other
      rwa [Function.update_self]
    · rwa [Function.update_of_ne same]
  rcases crowded with ⟨one, two, apart, presentOne, presentTwo⟩ | ⟨valued, one, presentOne⟩
  · exact .inl ⟨one, two, apart, kept one presentOne, kept two presentTwo⟩
  · exact .inr ⟨valued, one, kept one presentOne⟩

theorem closed_noEntries : Closed noEntries.1 :=
  ⟨fun _ => trivial, fun _ _ => rfl⟩

theorem closed_placed (closed : Closed entries.1) (nibbles : path.Nibbles) (some : new ≠ []) :
    Closed (placed entries path new).1 := by
  cases path with
  | nil => exact closed
  | cons nibble rest =>
    obtain ⟨bound, restNibbles⟩ := Path.nibbles_cons.mp nibbles
    exact closed.update bound ⟨restNibbles, some⟩

theorem placed_value (notEmpty : entries.2 ≠ some []) (some : new ≠ []) :
    (placed entries path new).2 ≠ Option.some [] := by
  cases path with
  | nil => simpa [placed] using some
  | cons nibble rest => exact notEmpty

/-- A branch with two entries that part ways at once is crowded. -/
theorem crowded_of_entries {first second : Path} {found another : Bytes}
    (entry : (branch children value).get first = some found)
    (other : (branch children value).get second = some another) (apart : Path.Diverge first second)
    (differ : first ≠ second) : Crowded children value := by
  have child {nibble : UInt8} {rest : Path} {found : Bytes}
      (entry : (branch children value).get (nibble :: rest) = some found) :
      children nibble ≠ empty := by
    intro absent
    rw [get, absent] at entry
    cases entry
  cases first with
  | nil =>
    cases second with
    | nil => exact absurd rfl differ
    | cons nibble rest =>
      exact .inr ⟨Option.isSome_iff_exists.mpr ⟨found, entry⟩, nibble, child other⟩
  | cons nibble rest =>
    cases second with
    | nil => exact .inr ⟨Option.isSome_iff_exists.mpr ⟨another, other⟩, nibble, child entry⟩
    | cons head tail =>
      refine .inl ⟨nibble, head, ?_, child entry, child other⟩
      rintro rfl
      exact apart nibble rest tail rfl rfl

theorem canonical_extended (nibbles : lead.Nibbles) (isBranch : tree.IsBranch)
    (canonical : tree.Canonical) : (extended lead tree).Canonical := by
  unfold extended
  split
  · exact canonical
  · next some => exact ⟨nibbles, some, isBranch, canonical⟩

theorem canonical_joined (nibbles : lead.Nibbles) (canonical : tree.Canonical) :
    (tree.joined lead).Canonical := by
  cases tree with
  | empty => trivial
  | leaf rest value =>
    exact ⟨Path.nibbles_append.mpr ⟨nibbles, canonical.1⟩, canonical.2⟩
  | extension rest child =>
    obtain ⟨restNibbles, some, isBranch, canonicalChild⟩ := canonical
    refine ⟨Path.nibbles_append.mpr ⟨nibbles, restNibbles⟩, ?_, isBranch, canonicalChild⟩
    exact fun none => some (List.append_eq_nil_iff.mp none).2
  | branch children value => exact canonical_extended nibbles trivial canonical

theorem joined_ne_empty (some : tree ≠ empty) : tree.joined lead ≠ empty := by
  cases tree with
  | empty => exact absurd rfl some
  | leaf rest value => simp [joined]
  | extension rest child => simp [joined]
  | branch children value =>
    rw [joined, extended]
    split <;> simp

theorem nodup_present (children : UInt8 → Tree) : (present children).Nodup := by
  have nibbles : ((List.range 16).map UInt8.ofNat).Nodup := by decide
  exact nibbles.sublist List.filter_sublist

theorem canonical_merged {slot : Option Bytes} (closed : Closed children) (notEmpty : slot ≠ some []) :
    (merged children slot).Canonical := by
  have member := mem_present closed.2
  unfold merged
  split
  · trivial
  · next value none => exact ⟨Path.Nibbles.nil, by simpa using notEmpty⟩
  · next nibble single =>
    have some : children nibble ≠ empty := (member nibble).mp (by simp [single])
    have bound : nibble.toNat < 16 := by
      apply Classical.byContradiction
      intro large
      exact some (closed.2 nibble (Nat.le_of_not_lt large))
    exact canonical_joined (Path.nibbles_cons.mpr ⟨bound, Path.Nibbles.nil⟩) (closed.1 nibble)
  · next slot _ _ notNone notValue notSingle =>
    refine ⟨closed.1, closed.2, notEmpty, ?_⟩
    cases list : present children with
    | nil =>
      cases slot with
      | none => exact (notNone list rfl).elim
      | some found => exact (notValue found list rfl).elim
    | cons first others =>
      have presentFirst : children first ≠ empty := (member first).mp (by simp [list])
      cases others with
      | nil =>
        cases slot with
        | none => exact (notSingle first list rfl).elim
        | some found => exact .inr ⟨rfl, first, presentFirst⟩
      | cons second others =>
        have presentSecond : children second ≠ empty := (member second).mp (by simp [list])
        have distinct := nodup_present children
        rw [list, List.nodup_cons] at distinct
        have apart : first ≠ second := by
          rintro rfl
          exact distinct.1 List.mem_cons_self
        exact .inl ⟨first, second, apart, presentFirst, presentSecond⟩

theorem insert_ne_empty (tree : Tree) (path : Path) (value : Bytes) :
    tree.insert path value ≠ empty := by
  intro none
  have entry := get_insert tree path value path
  rw [none, if_pos rfl] at entry
  cases entry

theorem insert_isBranch (isBranch : tree.IsBranch) (path : Path) (value : Bytes) :
    (tree.insert path value).IsBranch := by
  obtain ⟨children, slot, rfl⟩ := exists_branch_of_isBranch isBranch
  cases path <;> trivial

private theorem canonical_fork (nibbles : lead.Nibbles) (closed : Closed entries.1)
    (notEmpty : entries.2 ≠ some []) (first second : Path) (found another : Bytes)
    (entry : (branch entries.1 entries.2).get first = some found)
    (other : (branch entries.1 entries.2).get second = some another)
    (apart : Path.Diverge first second) (differ : first ≠ second) :
    (fork lead entries).Canonical :=
  canonical_extended nibbles trivial
    ⟨closed.1, closed.2, notEmpty, crowded_of_entries entry other apart differ⟩

private theorem canonical_parted {first second : Path} {old : Bytes} (nibbles : lead.Nibbles)
    (leafCanonical : (leaf first old).Canonical) (secondNibbles : second.Nibbles) (some : new ≠ [])
    (apart : Path.Diverge first second) (differ : first ≠ second) :
    (fork lead (placed (placed noEntries first old) second new)).Canonical := by
  apply canonical_fork nibbles _ _ first second old new _ _ apart differ
  · exact closed_placed (closed_placed closed_noEntries leafCanonical.1 leafCanonical.2)
      secondNibbles some
  · exact placed_value (placed_value (by simp [noEntries]) leafCanonical.2) some
  · rw [get_placed_twice apart, if_neg differ, get, if_pos rfl]
  · rw [get_placed_twice apart, if_pos rfl]

private theorem canonical_split {nibble : UInt8} {rest second : Path} {child : Tree}
    (nibbles : lead.Nibbles) (firstNibbles : Path.Nibbles (nibble :: rest)) (isBranch : child.IsBranch)
    (canonical : child.Canonical) (secondNibbles : second.Nibbles) (some : new ≠ [])
    (apart : Path.Diverge (nibble :: rest) second) :
    (fork lead (placed (Function.update noEntries.1 nibble (extended rest child), none)
      second new)).Canonical := by
  obtain ⟨bound, restNibbles⟩ := Path.nibbles_cons.mp firstNibbles
  obtain ⟨below, found, entry⟩ := canonical.exists_entry isBranch.ne_empty
  have outside : nibble :: rest ++ below ≠ second := by
    intro same
    exact apart nibble rest (rest ++ below) rfl same.symm
  apply canonical_fork nibbles _ _ (nibble :: rest ++ below) second found new _ _ _ outside
  · exact closed_placed (closed_noEntries.update bound
      (canonical_extended restNibbles isBranch canonical)) secondNibbles some
  · exact placed_value (by simp) some
  · rw [get_split apart, if_neg outside, Path.after?_append, Option.bind_some, entry]
  · rw [get_split apart, if_pos rfl]
  · intro head restFirst restSecond firstIs secondIs
    exact apart nibble rest restSecond rfl ((List.cons.inj firstIs).1 ▸ secondIs)

/-- Inserting a value keeps the canonical shape. -/
theorem canonical_insert (canonical : tree.Canonical) (nibbles : path.Nibbles) (some : new ≠ []) :
    (tree.insert path new).Canonical := by
  induction tree generalizing path with
  | empty => exact ⟨nibbles, some⟩
  | leaf rest old =>
    rw [insert]
    split
    · exact ⟨canonical.1, some⟩
    · next differ =>
      obtain ⟨common, first, second, length, restIs, pathIs, apart⟩ := rest.shared_split path
      subst restIs pathIs
      obtain ⟨commonNibbles, firstNibbles⟩ := Path.nibbles_append.mp canonical.1
      obtain ⟨_, secondNibbles⟩ := Path.nibbles_append.mp nibbles
      simp only [length, List.take_left, List.drop_left]
      refine canonical_parted commonNibbles ⟨firstNibbles, canonical.2⟩ secondNibbles some apart ?_
      rintro rfl
      exact differ rfl
  | extension lead child ih =>
    obtain ⟨leadNibbles, leadSome, isBranch, canonicalChild⟩ := canonical
    obtain ⟨common, first, second, length, leadIs, pathIs, apart⟩ := lead.shared_split path
    subst leadIs pathIs
    obtain ⟨commonNibbles, firstNibbles⟩ := Path.nibbles_append.mp leadNibbles
    obtain ⟨_, secondNibbles⟩ := Path.nibbles_append.mp nibbles
    simp only [insert, length, List.take_left, List.drop_left]
    cases first with
    | nil =>
      exact ⟨leadNibbles, leadSome, insert_isBranch isBranch _ _, ih canonicalChild secondNibbles⟩
    | cons nibble rest =>
      exact canonical_split commonNibbles firstNibbles isBranch canonicalChild secondNibbles some apart
  | branch children slot ih =>
    obtain ⟨canonicalChildren, closed, notEmpty, crowded⟩ := canonical
    cases path with
    | nil =>
      refine ⟨canonicalChildren, closed, by simpa using some, ?_⟩
      exact crowded.imp_right fun both => ⟨rfl, both.2⟩
    | cons nibble rest =>
      obtain ⟨bound, restNibbles⟩ := Path.nibbles_cons.mp nibbles
      have updated := Closed.update ⟨canonicalChildren, closed⟩ bound
        (ih nibble (canonicalChildren nibble) restNibbles)
      exact ⟨updated.1, updated.2, notEmpty, crowded.update (insert_ne_empty _ _ _)⟩

/-- Removing a path keeps the canonical shape. -/
theorem canonical_remove (canonical : tree.Canonical) (nibbles : path.Nibbles) {after : Tree}
    (removed : tree.remove path = some after) : after.Canonical := by
  induction tree generalizing path after with
  | empty => cases removed
  | leaf rest value =>
    rw [remove] at removed
    split at removed <;> cases removed
    trivial
  | extension lead child ih =>
    rw [remove] at removed
    split at removed
    · cases removed
    · next rest starts =>
      obtain ⟨below, gone, rfl⟩ := Option.map_eq_some_iff.mp removed
      obtain rfl := Path.after?_eq_some.mp starts
      obtain ⟨_, restNibbles⟩ := Path.nibbles_append.mp nibbles
      exact canonical_joined canonical.1 (ih canonical.2.2.2 restNibbles gone)
  | branch children slot ih =>
    obtain ⟨canonicalChildren, closed, notEmpty, _⟩ := canonical
    cases path with
    | nil =>
      cases slot with
      | none => cases removed
      | some value =>
        cases removed
        exact canonical_merged ⟨canonicalChildren, closed⟩ (by simp)
    | cons nibble rest =>
      obtain ⟨bound, restNibbles⟩ := Path.nibbles_cons.mp nibbles
      rw [remove] at removed
      obtain ⟨below, gone, rfl⟩ := Option.map_eq_some_iff.mp removed
      exact canonical_merged (Closed.update ⟨canonicalChildren, closed⟩ bound
        (ih nibble (canonicalChildren nibble) restNibbles gone)) notEmpty

/-- Removing changes the map at its own path only. -/
theorem get_remove (canonical : tree.Canonical) (nibbles : path.Nibbles) {after : Tree}
    (removed : tree.remove path = some after) (other : Path) :
    after.get other = if other = path then none else tree.get other := by
  induction tree generalizing path after other with
  | empty => cases removed
  | leaf rest value =>
    rw [remove] at removed
    split at removed
    · next same =>
      cases removed
      subst rest
      simp [get, eq_comm]
    · cases removed
  | extension lead child ih =>
    rw [remove] at removed
    split at removed
    · cases removed
    · next rest starts =>
      obtain ⟨below, gone, rfl⟩ := Option.map_eq_some_iff.mp removed
      obtain rfl := Path.after?_eq_some.mp starts
      obtain ⟨_, restNibbles⟩ := Path.nibbles_append.mp nibbles
      rw [get_joined]
      exact get_below (ih canonical.2.2.2 restNibbles gone) other
  | branch children slot ih =>
    obtain ⟨canonicalChildren, closed, notEmpty, _⟩ := canonical
    cases path with
    | nil =>
      cases slot with
      | none => cases removed
      | some value =>
        cases removed
        rw [get_merged closed]
        cases other <;> simp [get]
    | cons nibble rest =>
      obtain ⟨bound, restNibbles⟩ := Path.nibbles_cons.mp nibbles
      rw [remove] at removed
      obtain ⟨below, gone, rfl⟩ := Option.map_eq_some_iff.mp removed
      have updated := Closed.update ⟨canonicalChildren, closed⟩ bound
        (canonical_remove (canonicalChildren nibble) restNibbles gone)
      rw [get_merged updated.2]
      exact get_exchanged (ih nibble (canonicalChildren nibble) restNibbles gone) other

end ContractLedger.Tree
