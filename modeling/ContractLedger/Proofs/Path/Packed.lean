import ContractLedger.Proofs.Path

/-!
The hex-prefix form is exact. A path and a flag have one packed form, and whatever is read as a packed
form is the one of the path and the flag that are read, so that no node is written in two ways. A view
of a key is the key and an offset; moved again and again, it shows the half-bytes that come after all
that was cut off.
-/

namespace ContractLedger

namespace Path

/-- The nibble at a place of a key is a half of the byte at half of the place. -/
theorem getElem?_ofBytes (key : Bytes) (place : Nat) :
    (ofBytes key)[place]? = key[place / 2]?.map (half place) := by
  induction key generalizing place with
  | nil => simp [ofBytes]
  | cons byte key ih =>
    rw [ofBytes_cons]
    match place with
    | 0 => simp [half]
    | 1 => simp [half]
    | place + 2 =>
      have below : (place + 2) / 2 = place / 2 + 1 := by omega
      have parity : half (place + 2) = half place := by
        funext byte
        simp [half]
      simp [below, parity, ih]

/-! What is read as a packed form is one. -/

theorem packTail_ofBytes (key : Bytes) : packTail (ofBytes key) = key := by
  induction key with
  | nil => rfl
  | cons byte key ih => rw [ofBytes_cons, packTail, packPair_halves, ih]

private theorem flags_of_bits {high : UInt8} (accepted : ¬3 < high) :
    flags (high &&& 2 == 2) (high &&& 1 == 1) = high := by
  have bound : high.toNat ≤ 3 := by
    simpa [UInt8.lt_iff_toNat_lt] using accepted
  have kinds : high = 0 ∨ high = 1 ∨ high = 2 ∨ high = 3 := by
    simp only [← UInt8.toNat_inj]
    have cases : high.toNat = 0 ∨ high.toNat = 1 ∨ high.toNat = 2 ∨ high.toNat = 3 := by omega
    simpa using cases
  rcases kinds with rfl | rfl | rfl | rfl <;> rfl

private theorem pack_ofBytes_odd (nibble : UInt8) (key : Bytes) (leaf : Bool) :
    pack (nibble :: ofBytes key) leaf = packPair (flags leaf true) nibble :: key := by
  have odd : (nibble :: ofBytes key).length % 2 = 1 := by
    simp [length_ofBytes]
  unfold pack
  rw [if_pos odd]
  simp only [packTail_ofBytes]

private theorem pack_ofBytes_even (key : Bytes) (leaf : Bool) :
    (ofBytes key).pack leaf = packPair (flags leaf false) 0 :: key := by
  have even : ¬(ofBytes key).length % 2 = 1 := by
    simp [length_ofBytes]
  unfold pack
  rw [if_neg even, packTail_ofBytes]

/-- What is read as a packed path and flag is their packed form. -/
theorem pack_of_unpack? {packed : Bytes} {path : Path} {leaf : Bool}
    (unpacked : unpack? packed = some (path, leaf)) : path.pack leaf = packed := by
  cases packed with
  | nil => cases unpacked
  | cons first rest =>
    simp only [unpack?] at unpacked
    split at unpacked
    · cases unpacked
    next accepted =>
    have kind := flags_of_bits accepted
    split at unpacked
    · next odd =>
      cases unpacked
      rw [odd] at kind
      rw [pack_ofBytes_odd, kind, packPair_halves]
    split at unpacked
    · cases unpacked
    · next notOdd unpadded =>
      have even := Bool.eq_false_iff.mpr notOdd
      have padding : first &&& 0x0f = 0 := not_not.mp unpadded
      have halves := packPair_halves first
      cases unpacked
      rw [even] at kind
      rw [padding] at halves
      rw [pack_ofBytes_even, kind, halves]

theorem unpack?_eq_some_iff {packed : Bytes} {path : Path} {leaf : Bool} :
    unpack? packed = some (path, leaf) ↔ path.Nibbles ∧ path.pack leaf = packed := by
  constructor
  · intro unpacked
    exact ⟨(unpack?_eq_some unpacked).1, pack_of_unpack? unpacked⟩
  · rintro ⟨nibbles, rfl⟩
    exact unpack?_pack nibbles leaf

/-- The bytes that are refused are those that no path is packed to. -/
theorem unpack?_eq_none_iff {packed : Bytes} :
    unpack? packed = none ↔ ∀ path leaf, Nibbles path → path.pack leaf ≠ packed := by
  rw [Option.eq_none_iff_forall_ne_some]
  simp only [ne_eq, Prod.forall, unpack?_eq_some_iff, not_and]

/-! Views. -/

theorem foldlM_cut?_eq_some {path view : Path} {cuts : List Nat} :
    cuts.foldlM cut? path = some view ↔ cuts.sum ≤ path.length ∧ path.drop cuts.sum = view := by
  induction cuts generalizing path with
  | nil => simp [eq_comm]
  | cons count cuts ih =>
    by_cases short : count ≤ path.length
    · have cut : path.cut? count = some (path.drop count) := if_pos short
      rw [List.foldlM_cons, cut, Option.bind_eq_bind, Option.bind_some, ih]
      simp only [List.length_drop, List.drop_drop, List.sum_cons]
      refine and_congr_left' ?_
      omega
    · have cut : path.cut? count = none := if_neg short
      rw [List.foldlM_cons, cut, List.sum_cons]
      constructor
      · intro impossible
        cases impossible
      · intro both
        omega

private theorem filterMap_getElem?_range (path : Path) :
    (List.range path.length).filterMap (path[·]?) = path := by
  induction path with
  | nil => rfl
  | cons nibble path ih =>
    simpa [List.range_succ_eq_map, List.filterMap_map, Function.comp_def] using ih

end Path

namespace NibbleView

variable {view rest : NibbleView} {count : Nat} {cuts : List Nat}

theorem at?_eq (view : NibbleView) :
    view.at? = fun place => ((Path.ofBytes view.data).drop view.offset)[place]? := by
  funext place
  rw [at?, List.getElem?_drop, Path.getElem?_ofBytes]

theorem length_eq (view : NibbleView) :
    view.length = ((Path.ofBytes view.data).drop view.offset).length := by
  rw [length, List.length_drop, Path.length_ofBytes]

/-- What is in view is what comes after the offset in the path of the key. -/
theorem path_eq (view : NibbleView) : view.path = (Path.ofBytes view.data).drop view.offset := by
  rw [path, at?_eq, length_eq, Path.filterMap_getElem?_range]

theorem path_ofBytes (key : Bytes) : (ofBytes key).path = Path.ofBytes key :=
  path_eq (ofBytes key)

@[simp]
theorem length_path (view : NibbleView) : view.path.length = view.length := by
  rw [path_eq, length_eq]

theorem getElem?_path (view : NibbleView) (place : Nat) : view.path[place]? = view.at? place := by
  rw [path_eq, at?_eq]

theorem mid?_eq_some :
    view.mid? count = some rest ↔
      count ≤ view.length ∧ rest.data = view.data ∧ rest.offset = view.offset + count := by
  have inside := view.inside
  unfold mid? length
  split
  · next short =>
    rw [Option.some.injEq, NibbleView.ext_iff]
    constructor
    · rintro ⟨data, offset⟩
      exact ⟨by omega, data.symm, offset.symm⟩
    · rintro ⟨-, data, offset⟩
      exact ⟨data.symm, offset.symm⟩
  · next long =>
    simp only [reduceCtorEq, false_iff, not_and]
    omega

theorem map_path_mid? (view : NibbleView) (count : Nat) :
    (view.mid? count).map path = view.path.cut? count := by
  rw [Path.cut?, length_path]
  split
  · next short =>
    have inside : view.offset + count ≤ 2 * view.data.length := by
      have start := view.inside
      unfold length at short
      omega
    have moved : view.mid? count = some ⟨view.data, view.offset + count, inside⟩ := dif_pos inside
    rw [moved, Option.map_some, path_eq, path_eq, List.drop_drop]
  · next short =>
    rw [Option.map_eq_none_iff, Option.eq_none_iff_forall_ne_some]
    exact fun rest moved => short (mid?_eq_some.mp moved).1

theorem map_path_foldlM_mid? (view : NibbleView) (cuts : List Nat) :
    (cuts.foldlM mid? view).map path = cuts.foldlM Path.cut? view.path := by
  induction cuts generalizing view with
  | nil => rfl
  | cons count cuts ih =>
    rw [List.foldlM_cons, List.foldlM_cons, ← map_path_mid?]
    cases view.mid? count with
    | none => rfl
    | some rest => exact ih rest

theorem foldlM_mid?_eq_some (moved : cuts.foldlM mid? view = some rest) :
    rest.data = view.data ∧ rest.offset = view.offset + cuts.sum := by
  induction cuts generalizing view with
  | nil =>
    cases moved
    exact ⟨rfl, rfl⟩
  | cons count cuts ih =>
    rw [List.foldlM_cons] at moved
    obtain ⟨next, first, moved⟩ := Option.bind_eq_some_iff.mp moved
    obtain ⟨-, data, offset⟩ := mid?_eq_some.mp first
    obtain ⟨dataRest, offsetRest⟩ := ih moved
    refine ⟨dataRest.trans data, ?_⟩
    rw [offsetRest, offset, List.sum_cons, Nat.add_assoc]

end NibbleView

namespace Path

/-- Packing is a bijection onto what is accepted: packed paths are read back, and what is accepted is
the packed form of what is read. A key is recovered from its nibbles, and cutting its view in turn, for
as long as nibbles are left, shows those that come after all that was cut off. -/
theorem packing_exact :
    (∀ path leaf, Nibbles path → unpack? (path.pack leaf) = some (path, leaf)) ∧
    (∀ packed path leaf, unpack? packed = some (path, leaf) →
      path.Nibbles ∧ path.pack leaf = packed) ∧
    (∀ packed, unpack? packed = none ↔ ∀ path leaf, Nibbles path → path.pack leaf ≠ packed) ∧
    (∀ key, (NibbleView.ofBytes key).path = ofBytes key ∧ toBytes? (ofBytes key) = some key) ∧
    (∀ (key : Bytes) (cuts : List Nat), cuts.sum ≤ 2 * key.length →
      ∃ view, cuts.foldlM NibbleView.mid? (.ofBytes key) = some view ∧
        cuts.foldlM cut? (ofBytes key) = some view.path ∧
        view.length = 2 * key.length - cuts.sum ∧ view.path.length = view.length ∧
        ∀ place, view.at? place = key[(cuts.sum + place) / 2]?.map (half (cuts.sum + place)) ∧
          view.path[place]? = view.at? place) := by
  refine ⟨fun path leaf nibbles => unpack?_pack nibbles leaf,
    fun packed path leaf => unpack?_eq_some_iff.mp, fun packed => unpack?_eq_none_iff,
    fun key => ⟨NibbleView.path_ofBytes key, toBytes?_ofBytes key⟩, fun key cuts inside => ?_⟩
  rw [← length_ofBytes] at inside ⊢
  have cut := foldlM_cut?_eq_some.mpr ⟨inside, rfl⟩
  have onView := NibbleView.map_path_foldlM_mid? (.ofBytes key) cuts
  rw [NibbleView.path_ofBytes, cut] at onView
  obtain ⟨view, moved, shown⟩ := Option.map_eq_some_iff.mp onView
  obtain ⟨data, offset⟩ := NibbleView.foldlM_mid?_eq_some moved
  have start : view.offset = cuts.sum := offset.trans (Nat.zero_add _)
  refine ⟨view, moved, shown ▸ cut, ?_, view.length_path, fun place => ⟨?_, view.getElem?_path place⟩⟩
  · rw [length_ofBytes, NibbleView.length, data, start]
    rfl
  · rw [NibbleView.at?, data, start]
    rfl

/-- An odd leaf's path, and a view that starts within a byte. -/
theorem packing_exact_odd :
    Nibbles [0xf, 1, 0xc, 0xb, 8] ∧
      unpack? (pack [0xf, 1, 0xc, 0xb, 8] true) = some ([0xf, 1, 0xc, 0xb, 8], true) ∧
      unpack? [0x3f, 0x1c, 0xb8] = some ([0xf, 1, 0xc, 0xb, 8], true) ∧
      pack [0xf, 1, 0xc, 0xb, 8] true = [0x3f, 0x1c, 0xb8] ∧
      [1, 2].sum ≤ 2 * [(1 : UInt8), 2, 3].length ∧
      ∃ view, [1, 2].foldlM NibbleView.mid? (.ofBytes [1, 2, 3]) = some view ∧
        [1, 2].foldlM cut? (ofBytes [1, 2, 3]) = some view.path ∧ view.at? 0 = some 2 ∧
        view.path[0]? = some 2 := by
  obtain ⟨reads, accepts, -, -, views⟩ := packing_exact
  have nibbles : Nibbles [0xf, 1, 0xc, 0xb, 8] := by
    simp [Nibbles]
  have accepted : unpack? [0x3f, 0x1c, 0xb8] = some ([0xf, 1, 0xc, 0xb, 8], true) := by decide
  obtain ⟨view, moved, cut, -, -, shown⟩ := views [1, 2, 3] [1, 2] (by decide)
  have first := (shown 0).1
  exact ⟨nibbles, reads _ true nibbles, accepted, (accepts _ _ _ accepted).2, by decide, view, moved,
    cut, first, (shown 0).2.trans first⟩

end Path

end ContractLedger
