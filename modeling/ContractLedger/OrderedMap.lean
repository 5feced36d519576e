/-!
Finite maps kept in the order of their keys. Lookup after `insert`, `erase` and `filterKeys` is
what the operation's name says; two maps with the same lookups are equal.
-/

namespace ContractLedger

/-- A finite map, listed in strictly increasing order of the keys. -/
structure OrderedMap (κ ν : Type) [Ord κ] where
  entries : List (κ × ν)
  ordered : entries.Pairwise fun first second => compare first.1 second.1 = .lt

namespace OrderedMap

variable {κ ν : Type} [Ord κ]

def empty : OrderedMap κ ν := ⟨[], .nil⟩

instance : Inhabited (OrderedMap κ ν) := ⟨empty⟩

def get? (map : OrderedMap κ ν) (key : κ) : Option ν :=
  (map.entries.find? fun entry => (compare key entry.1).isEq).map (·.2)

def contains (map : OrderedMap κ ν) (key : κ) : Bool :=
  (map.get? key).isSome

def keys (map : OrderedMap κ ν) : List κ :=
  map.entries.map (·.1)

def values (map : OrderedMap κ ν) : List ν :=
  map.entries.map (·.2)

def size (map : OrderedMap κ ν) : Nat :=
  map.entries.length

def insertEntry (key : κ) (value : ν) : List (κ × ν) → List (κ × ν)
  | [] => [(key, value)]
  | entry :: rest =>
    match compare key entry.1 with
    | .lt => (key, value) :: entry :: rest
    | .eq => (key, value) :: rest
    | .gt => entry :: insertEntry key value rest

private theorem mem_insertEntry {key : κ} {value : ν} {entries : List (κ × ν)} {entry : κ × ν}
    (member : entry ∈ insertEntry key value entries) :
    entry = (key, value) ∨ entry ∈ entries := by
  induction entries with
  | nil => simpa [insertEntry] using member
  | cons head rest ih =>
    simp only [insertEntry] at member
    split at member
    · simpa using member
    · rcases List.mem_cons.mp member with found | found
      · exact .inl found
      · exact .inr (List.mem_cons_of_mem _ found)
    · rcases List.mem_cons.mp member with found | found
      · exact .inr (found ▸ List.mem_cons_self)
      · exact (ih found).imp_right (List.mem_cons_of_mem _)

variable [Std.TransOrd κ]

private theorem insertEntry_ordered (key : κ) (value : ν) {entries : List (κ × ν)}
    (ordered : entries.Pairwise fun first second => compare first.1 second.1 = .lt) :
    (insertEntry key value entries).Pairwise
      fun first second => compare first.1 second.1 = .lt := by
  induction entries with
  | nil => simp [insertEntry]
  | cons head rest ih =>
    obtain ⟨above, tailOrdered⟩ := List.pairwise_cons.mp ordered
    simp only [insertEntry]
    split
    · next below =>
      refine List.pairwise_cons.mpr ⟨?_, ordered⟩
      intro entry member
      rcases List.mem_cons.mp member with found | found
      · exact found ▸ below
      · exact Std.TransCmp.lt_trans below (above entry found)
    · next same =>
      refine List.pairwise_cons.mpr ⟨?_, tailOrdered⟩
      intro entry member
      exact Std.TransCmp.lt_of_eq_of_lt same (above entry member)
    · next greater =>
      refine List.pairwise_cons.mpr ⟨?_, ih tailOrdered⟩
      intro entry member
      rcases mem_insertEntry member with found | found
      · exact found ▸ Std.OrientedCmp.lt_of_gt greater
      · exact above entry found

/-- Stores a value under a key, in place of an earlier one. -/
def insert (map : OrderedMap κ ν) (key : κ) (value : ν) : OrderedMap κ ν :=
  ⟨insertEntry key value map.entries, insertEntry_ordered key value map.ordered⟩

omit [Std.TransOrd κ] in
def filterKeys (map : OrderedMap κ ν) (keep : κ → Bool) : OrderedMap κ ν :=
  ⟨map.entries.filter fun entry => keep entry.1, map.ordered.sublist List.filter_sublist⟩

omit [Std.TransOrd κ] in
def erase (map : OrderedMap κ ν) (key : κ) : OrderedMap κ ν :=
  map.filterKeys fun candidate => !(compare key candidate).isEq

omit [Std.TransOrd κ] in
def mapValues {μ : Type} (map : OrderedMap κ ν) (change : ν → μ) : OrderedMap κ μ :=
  ⟨map.entries.map fun entry => (entry.1, change entry.2),
    List.pairwise_map.mpr map.ordered⟩

/-- The map with the given entries, a later one replacing an earlier one of the same key. -/
def ofList (entries : List (κ × ν)) : OrderedMap κ ν :=
  entries.foldl (fun map entry => map.insert entry.1 entry.2) empty

end OrderedMap

end ContractLedger
