import ContractLedger.Proofs.Rlp.Written
import ContractLedger.Proofs.Step

/-!
Walking through a written list. Whatever item was read last, the item at any index of the list is
found, and counting the items gives their number.
-/

namespace ContractLedger.Rlp

/-- The written list of some items, none of them longer than its own extent. -/
structure Walkable (items : List Bytes) : Prop where
  whole : ∀ item ∈ items, Whole item
  bound : items.flatten.length < 2 ^ 64

/-- The place where the item at an index begins. -/
def placeOf (items : List Bytes) (index : Nat) : Nat :=
  (header 0xc0 items.flatten.length).length + (items.take index).flatten.length

/-- A reader of a written list, its bookmark at the beginning of some item or at the end. -/
structure Reading (items : List Bytes) (reader : Reader) : Prop where
  bytes : reader.bytes = encodeList items
  marked : ∀ index offset, reader.bookmark = some (index, offset) →
    index ≤ items.length ∧ offset = placeOf items index

variable {items : List Bytes} {reader : Reader}

theorem Reading.start (items : List Bytes) : Reading items (.start (encodeList items)) := by
  refine ⟨rfl, ?_⟩
  intro index offset impossible
  cases impossible

private theorem Whole.extent {item : Bytes} (whole : Whole item) (rest : Bytes) :
    ∃ found : Extent, Rlp.extent (item ++ rest) = .ok found ∧ found.total = item.length := by
  obtain ⟨headerLength, within, spans⟩ := whole
  exact ⟨_, spans rest, Nat.add_sub_cancel' within⟩

private theorem Whole.ne_nil {item : Bytes} (whole : Whole item) : item ≠ [] := by
  rintro rfl
  obtain ⟨found, extent, _⟩ := whole.extent []
  cases extent

private theorem encodeList_split (items : List Bytes) (index : Nat) :
    encodeList items =
      (header 0xc0 items.flatten.length ++ (items.take index).flatten) ++
        (items.drop index).flatten := by
  rw [List.append_assoc, ← List.flatten_append, List.take_append_drop, encodeList]

private theorem drop_placeOf (items : List Bytes) (index : Nat) :
    (encodeList items).drop (placeOf items index) = (items.drop index).flatten := by
  rw [encodeList_split items index]
  exact List.drop_left' (by rw [List.length_append, placeOf])

private theorem placeOf_le (items : List Bytes) (index : Nat) :
    placeOf items index ≤ (encodeList items).length := by
  rw [encodeList_split items index]
  simp only [List.length_append, placeOf]
  exact Nat.le_add_right _ _

private theorem skipItems_whole (whole : ∀ item ∈ items, Whole item) (count first : Nat)
    (inside : first + count ≤ items.length) :
    skipItems count (placeOf items first) (items.drop first).flatten =
      .ok (placeOf items (first + count), (items.drop (first + count)).flatten) := by
  induction count generalizing first with
  | zero => rfl
  | succ count ih =>
    have present : first < items.length := by omega
    obtain ⟨found, extent, total⟩ :=
      (whole items[first] (List.getElem_mem present)).extent (items.drop (first + 1)).flatten
    have next : placeOf items first + found.total = placeOf items (first + 1) := by
      simp only [placeOf, total, List.take_succ_eq_append_getElem present, List.flatten_append,
        List.length_append, List.flatten_singleton, Nat.add_assoc]
    rw [List.drop_eq_getElem_cons present, List.flatten_cons, skipItems, extent]
    change skipItems count (placeOf items first + found.total) _ = _
    rw [next, total, List.drop_left, ih (first + 1) (by omega), Nat.add_right_comm, Nat.add_assoc]

private theorem origin_reading (walkable : Walkable items) (reading : Reading items reader)
    (index : Nat) :
    ∃ first, first ≤ index ∧ first ≤ items.length ∧
      reader.origin index = .ok (first, placeOf items first, (items.drop first).flatten) := by
  have fresh : extent reader.bytes =
      .ok ⟨placeOf items 0, items.flatten.length⟩ := by
    have found := (spans_encodeList walkable.bound).2 []
    simpa [placeOf, encodeList, reading.bytes] using found
  have begin : (reader.bytes.drop (placeOf items 0)).take items.flatten.length =
      items.flatten := by
    rw [reading.bytes, drop_placeOf, List.drop_zero, List.take_length]
  have fromStart : (do
      let found ← extent reader.bytes
      return (0, found.header, (reader.bytes.drop found.header).take found.content) :
      Except DecodeError (Nat × Nat × Bytes)) = .ok (0, placeOf items 0, items.flatten) := by
    rw [fresh]
    exact congrArg (fun rest => Except.ok (0, placeOf items 0, rest)) begin
  unfold Reader.origin
  cases bookmark : reader.bookmark with
  | none => exact ⟨0, Nat.zero_le _, Nat.zero_le _, fromStart⟩
  | some mark =>
    obtain ⟨marked, offset⟩ := mark
    obtain ⟨inside, place⟩ := reading.marked marked offset bookmark
    by_cases before : marked ≤ index
    · refine ⟨marked, before, inside, ?_⟩
      have fits : ¬ (encodeList items).length < placeOf items marked :=
        Nat.not_lt.mpr (placeOf_le items marked)
      simp only [if_pos before, place, reading.bytes, if_neg fits, drop_placeOf]
      rfl
    · refine ⟨0, Nat.zero_le _, Nat.zero_le _, ?_⟩
      simp only [if_neg before]
      exact fromStart

private theorem item_reading (walkable : Walkable items) (reading : Reading items reader)
    {index : Nat} (inside : index ≤ items.length) :
    ∃ after, Reading items after ∧
      item index reader =
        match items[index]? with
        | some found => .ok found after
        | none => .error .tooShort after := by
  obtain ⟨first, before, firstInside, origin⟩ := origin_reading walkable reading index
  have skipped := skipItems_whole walkable.whole (index - first) first (by omega)
  rw [Nat.add_sub_cancel' before] at skipped
  have list : isList reader.bytes = true := by
    rw [reading.bytes]
    exact (list_encodeList walkable.bound).1
  have after : Reading items { reader with bookmark := some (index, placeOf items index) } := by
    refine ⟨reading.bytes, ?_⟩
    intro marked offset bookmark
    cases bookmark
    exact ⟨inside, rfl⟩
  refine ⟨_, after, ?_⟩
  simp only [item, Step.bind_apply, Step.get_apply, list, Bool.not_true, Bool.false_eq_true, if_false,
    origin, liftExcept, skipped, Step.pure_apply, Step.set_apply]
  by_cases present : index < items.length
  · obtain ⟨found, extent, total⟩ :=
      (walkable.whole items[index] (List.getElem_mem present)).extent
        (items.drop (index + 1)).flatten
    rw [List.drop_eq_getElem_cons present, List.flatten_cons, extent,
      List.getElem?_eq_getElem present]
    simp only [Step.pure_apply, total, List.take_left]
  · rw [List.drop_of_length_le (by omega), List.getElem?_eq_none (by omega)]
    rfl

theorem item_found (walkable : Walkable items) (reading : Reading items reader) (index : Nat)
    (present : index < items.length) :
    ∃ after, Reading items after ∧ item index reader = .ok items[index] after := by
  obtain ⟨after, still, ran⟩ := item_reading walkable reading (Nat.le_of_lt present)
  exact ⟨after, still, by rw [ran, List.getElem?_eq_getElem present]⟩

private theorem countFrom_reading (walkable : Walkable items) (steps index : Nat)
    (inside : index ≤ items.length) (enough : items.length < index + steps)
    (reading : Reading items reader) :
    ∃ after, Reading items after ∧ countFrom steps index reader = .ok items.length after := by
  induction steps generalizing index reader with
  | zero => omega
  | succ steps ih =>
    obtain ⟨after, still, ran⟩ := item_reading walkable reading inside
    by_cases present : index < items.length
    · rw [List.getElem?_eq_getElem present] at ran
      simp only [countFrom, ran]
      exact ih (index + 1) present (by omega) still
    · rw [List.getElem?_eq_none (by omega)] at ran
      have last : index = items.length := by omega
      simp only [countFrom, ran]
      exact ⟨after, still, by rw [last]⟩

theorem length_le_flatten (whole : ∀ item ∈ items, Whole item) :
    items.length ≤ items.flatten.length := by
  induction items with
  | nil => simp
  | cons item items ih =>
    have positive := List.length_pos_iff.mpr (whole item List.mem_cons_self).ne_nil
    have rest := ih fun other member => whole other (List.mem_cons_of_mem _ member)
    rw [List.flatten_cons, List.length_append, List.length_cons]
    omega

theorem itemCount_reading (walkable : Walkable items) (reading : Reading items reader) :
    ∃ after, Reading items after ∧ itemCount reader = .ok items.length after := by
  have list : isList reader.bytes = true := by
    rw [reading.bytes]
    exact (list_encodeList walkable.bound).1
  have enough : items.length < 0 + (reader.bytes.length + 1) := by
    have inside := length_le_flatten walkable.whole
    rw [reading.bytes, encodeList, List.length_append]
    omega
  obtain ⟨after, still, counted⟩ :=
    countFrom_reading walkable (reader.bytes.length + 1) 0 (Nat.zero_le _) enough reading
  refine ⟨after, still, ?_⟩
  simp only [itemCount, Step.bind_apply, Step.get_apply, list, Bool.not_true, Bool.false_eq_true,
    if_false]
  exact counted

theorem length_encodeItems_le {contents : List Bytes}
    (bounds : ∀ content ∈ contents, content.length < 2 ^ 64) :
    (contents.map encodeBytes).flatten.length ≤ contents.flatten.length + 9 * contents.length := by
  induction contents with
  | nil => simp
  | cons content rest ih =>
    have first := length_encodeBytes_le (bounds content List.mem_cons_self)
    have others := ih fun other member => bounds other (List.mem_cons_of_mem _ member)
    simp only [List.map_cons, List.flatten_cons, List.length_append, List.length_cons]
    omega

/-- Byte strings whose total length leaves room for their headers, as the items of a list. -/
theorem walkable_encodeBytes {contents : List Bytes}
    (bound : contents.flatten.length + 9 * contents.length < 2 ^ 64) :
    Walkable (contents.map encodeBytes) := by
  have each : ∀ content ∈ contents, content.length < 2 ^ 64 := by
    intro content member
    have := (List.sublist_flatten_of_mem member).length_le
    omega
  constructor
  · intro item member
    obtain ⟨content, present, rfl⟩ := List.mem_map.mp member
    exact whole_encodeBytes (each content present)
  · have := length_encodeItems_le each
    omega

theorem mapM_reading {α : Type} (step : Nat → ReadM α) {value : Nat → α}
    {indices : List Nat} (each : ∀ index ∈ indices, ∀ reader, Reading items reader →
      ∃ after, Reading items after ∧ step index reader = .ok (value index) after)
    (reading : Reading items reader) :
    ∃ after, Reading items after ∧ indices.mapM step reader = .ok (indices.map value) after := by
  induction indices generalizing reader with
  | nil => exact ⟨reader, reading, rfl⟩
  | cons index indices ih =>
    obtain ⟨middle, still, first⟩ := each index List.mem_cons_self reader reading
    obtain ⟨after, last, rest⟩ :=
      ih (fun other member => each other (List.mem_cons_of_mem _ member)) still
    refine ⟨after, last, ?_⟩
    rw [List.mapM_cons, Step.bind_ok first, Step.bind_ok rest]
    rfl

theorem runReader_reading {α : Type} {step : ReadM α} {value : α}
    (ran : ∃ after, Reading items after ∧ step (.start (encodeList items)) = .ok value after) :
    runReader step (encodeList items) = .ok value := by
  obtain ⟨after, _, result⟩ := ran
  rw [runReader, result]

end ContractLedger.Rlp
