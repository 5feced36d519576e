import ContractLedger.OrderedMap

/-!
Lookups in ordered maps, after each operation, and the entries that they find.
-/

namespace ContractLedger.OrderedMap

variable {κ ν : Type} [Ord κ] [DecidableEq κ]

private theorem isEq_compare [Std.TransOrd κ] [Std.LawfulEqOrd κ] (first second : κ) :
    (compare first second).isEq = decide (first = second) := by
  rw [Bool.eq_iff_iff, Ordering.isEq_iff_eq_eq, decide_eq_true_iff]
  exact Std.LawfulEqCmp.compare_eq_iff_eq

theorem get?_eq_find? [Std.TransOrd κ] [Std.LawfulEqOrd κ] (map : OrderedMap κ ν) (key : κ) :
    map.get? key = (map.entries.find? fun entry => key = entry.1).map (·.2) := by
  simp only [get?, isEq_compare]

variable [Std.TransOrd κ] [Std.LawfulEqOrd κ]

omit [Std.TransOrd κ] in
private theorem find?_insertEntry (key : κ) (value : ν) (other : κ) (entries : List (κ × ν)) :
    (insertEntry key value entries).find? (fun entry => other = entry.1) =
      if other = key then some (key, value)
      else entries.find? fun entry => other = entry.1 := by
  induction entries with
  | nil => by_cases same : other = key <;> simp [insertEntry, same]
  | cons entry rest ih =>
    rw [insertEntry]
    split
    · by_cases same : other = key <;> simp [same]
    · next equal =>
      have here : key = entry.1 := Std.LawfulEqCmp.eq_of_compare equal
      by_cases same : other = key <;> simp [same, ← here]
    · next greater =>
      have apart : key ≠ entry.1 := by
        intro equal
        have self : compare key entry.1 = .eq := Std.LawfulEqCmp.compare_eq_iff_eq.mpr equal
        rw [greater] at self
        cases self
      rw [List.find?_cons, ih]
      by_cases same : other = key
      · simp [same, apart]
      · by_cases here : other = entry.1
        · simp [here, Ne.symm apart]
        · simp [same, here]

theorem get?_insert (map : OrderedMap κ ν) (key : κ) (value : ν) (other : κ) :
    (map.insert key value).get? other = if other = key then some value else map.get? other := by
  rw [get?_eq_find?, get?_eq_find?, insert, find?_insertEntry]
  split <;> rfl

theorem get?_filterKeys (map : OrderedMap κ ν) (keep : κ → Bool) (key : κ) :
    (map.filterKeys keep).get? key = if keep key = true then map.get? key else none := by
  rw [get?_eq_find?, get?_eq_find?, filterKeys, List.find?_filter]
  by_cases kept : keep key = true
  · rw [if_pos kept]
    congr 2
    funext entry
    by_cases same : key = entry.1
    · simp [← same, kept]
    · simp [same]
  · rw [if_neg kept, Option.map_eq_none_iff, List.find?_eq_none]
    intro entry _
    by_cases same : key = entry.1
    · simp [← same, kept]
    · simp [same]

theorem get?_erase (map : OrderedMap κ ν) (key other : κ) :
    (map.erase key).get? other = if other = key then none else map.get? other := by
  rw [erase, get?_filterKeys, isEq_compare]
  by_cases same : other = key
  · simp [same]
  · simp [same, Ne.symm same]

omit [Std.LawfulEqOrd κ] in
private theorem find?_of_mem {entries : List (κ × ν)} {key : κ} {value : ν}
    (ordered : entries.Pairwise fun first second => compare first.1 second.1 = .lt)
    (member : (key, value) ∈ entries) :
    entries.find? (fun entry => key = entry.1) = some (key, value) := by
  induction entries with
  | nil => cases member
  | cons head rest ih =>
    obtain ⟨above, restOrdered⟩ := List.pairwise_cons.mp ordered
    rcases List.mem_cons.mp member with here | later
    · simp [← here]
    · -- Keys are strictly increasing, so no later entry has the key of an earlier one.
      have apart : key ≠ head.1 := by
        rintro rfl
        have self : compare head.1 head.1 = .eq := Std.ReflCmp.compare_self
        rw [above _ later] at self
        cases self
      rw [List.find?_cons]
      simpa [apart] using ih restOrdered later

theorem get?_eq_some_iff (map : OrderedMap κ ν) (key : κ) (value : ν) :
    map.get? key = some value ↔ (key, value) ∈ map.entries := by
  rw [get?_eq_find?]
  constructor
  · intro found
    obtain ⟨entry, first, rfl⟩ := Option.map_eq_some_iff.mp found
    have same : key = entry.1 := by simpa using List.find?_some first
    rw [same]
    exact List.mem_of_find?_eq_some first
  · intro member
    rw [find?_of_mem map.ordered member, Option.map_some]

theorem mem_keys (map : OrderedMap κ ν) (key : κ) : key ∈ map.keys ↔ (map.get? key).isSome := by
  rw [keys, List.mem_map, Option.isSome_iff_exists]
  constructor
  · rintro ⟨entry, member, rfl⟩
    exact ⟨entry.2, (get?_eq_some_iff map entry.1 entry.2).mpr member⟩
  · rintro ⟨value, found⟩
    exact ⟨(key, value), (get?_eq_some_iff map key value).mp found, rfl⟩

theorem mem_values (map : OrderedMap κ ν) (value : ν) :
    value ∈ map.values ↔ ∃ key, map.get? key = some value := by
  rw [values, List.mem_map]
  constructor
  · rintro ⟨entry, member, rfl⟩
    exact ⟨entry.1, (get?_eq_some_iff map entry.1 entry.2).mpr member⟩
  · rintro ⟨key, found⟩
    exact ⟨(key, value), (get?_eq_some_iff map key value).mp found, rfl⟩

end ContractLedger.OrderedMap
