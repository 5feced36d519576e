import ContractLedger.Proofs.Path
import ContractLedger.Proofs.Rlp.Walk
import ContractLedger.Trie.Node

/-!
Records of nodes. A node is recovered from its record if its nibbles are half-bytes, its sizes fit
a word and its value is not an empty one.
-/

namespace ContractLedger

namespace Path

/-- A path and a value that together fit an item: the rest of a key, and what it leads to. -/
def Fits (path : Path) (value : Bytes) : Prop :=
  path.length + 2 * value.length < 2 ^ 64

end Path

namespace Node

/-- A node whose nibbles are half-bytes and whose value, if a branch has one, is not an empty one. -/
def WellFormed : Node → Prop
  | empty => True
  | leaf path _ | extension path _ => path.Nibbles
  | branch _ value => value ≠ some []

/-- The number of bytes that the record of a node has for its path and its value, the headers apart. -/
def room : Node → Nat
  | empty => 0
  | leaf path value => path.length / 2 + value.length
  | extension path _ => path.length / 2
  | branch _ value => (value.getD []).length

/-- A node that its record tells apart from all others. -/
def Readable : Node → Prop
  | empty => True
  | leaf path value => path.Nibbles ∧ path.Fits value
  | extension path _ => path.Nibbles ∧ path.Fits []
  | branch _ value => value ≠ some [] ∧ Path.Fits [] (value.getD [])

open Rlp hiding liftExcept

private theorem decode_list {items : List Bytes} {node : Node} (walkable : Walkable items)
    (nonempty : items ≠ [])
    (ran : ∃ after, Reading items after ∧ read (.start (encodeList items)) = .ok node after) :
    decode (encodeList items) = .ok node := by
  have notEmpty : ¬ isEmptyItem (encodeList items) = true := by
    rw [(list_encodeList walkable.bound).2, ← List.length_eq_zero_iff]
    have inside := length_le_flatten walkable.whole
    have some := List.length_pos_iff.mpr nonempty
    omega
  rw [decode, if_neg notEmpty, runReader_reading ran]

private theorem read_pair {packed second : Bytes} {path : Path} {leaf : Bool} {node : Node}
    (walkable : Walkable ([packed, second].map encodeBytes)) (small : packed.length < 2 ^ 64)
    (unpacked : Path.unpack? packed = some (path, leaf))
    (found : ∀ reader, (if leaf = true then
        Node.leaf path <$> Rlp.liftExcept (decodeBytes (encodeBytes second))
      else Node.extension path <$> Rlp.liftExcept (decodeHash (encodeBytes second))) reader =
        .ok node reader) :
    ∃ after, Reading ([packed, second].map encodeBytes) after ∧
      read (.start (encodeList ([packed, second].map encodeBytes))) = .ok node after := by
  obtain ⟨counted, reading, count⟩ := itemCount_reading walkable (.start _)
  obtain ⟨first, readingFirst, itemFirst⟩ := item_found walkable reading 0 (by simp)
  obtain ⟨last, readingLast, itemLast⟩ := item_found walkable readingFirst 1 (by simp)
  refine ⟨last, readingLast, ?_⟩
  have content : Rlp.liftExcept (Rlp.content (encodeBytes packed)) first = .ok packed first := by
    rw [content_encodeBytes small]
    rfl
  have pair : readPair counted = .ok node last := by
    rw [readPair, Step.bind_ok itemFirst, List.getElem_map, List.getElem_cons_zero,
      Step.bind_ok content, unpacked]
    cases leaf with
    | true =>
      simp only
      rw [Step.bind_ok itemLast]
      exact found last
    | false =>
      simp only
      rw [Step.bind_ok itemLast]
      exact found last
  rw [read, Step.bind_ok count]
  exact pair

private theorem readChild_found {items : List Bytes} {reader : Reader} (walkable : Walkable items)
    (reading : Reading items reader) {index : Nat} {child : Option Hash}
    (found : items[index]? = some (encodeChild child)) :
    ∃ after, Reading items after ∧ readChild index reader = .ok child after := by
  obtain ⟨present, value⟩ := List.getElem?_eq_some_iff.mp found
  obtain ⟨after, still, item⟩ := item_found walkable reading index present
  refine ⟨after, still, ?_⟩
  rw [readChild, Step.bind_ok item, value]
  cases child with
  | none => rfl
  | some hash =>
    have size := hash.size
    have nonempty : ¬ isEmptyItem (encodeChild (some hash)) = true := by
      rw [encodeChild, isEmptyItem_encodeBytes (by omega), List.isEmpty_iff]
      intro none
      simp [none] at size
    rw [if_neg nonempty, encodeChild, decodeHash_encodeBytes]
    rfl

def childContent (child : Option Hash) : Bytes :=
  child.elim [] Hash.bytes

theorem encodeChild_eq (child : Option Hash) :
    encodeChild child = encodeBytes (childContent child) := by
  cases child <;> rfl

private theorem length_childContent_le (child : Option Hash) :
    (childContent child).length ≤ 32 := by
  cases child with
  | none => exact Nat.zero_le _
  | some hash => exact Nat.le_of_eq hash.size

private theorem length_childContents_le (slots : List (Option Hash)) :
    (slots.map childContent).flatten.length ≤ 32 * slots.length := by
  induction slots with
  | nil => exact Nat.zero_le _
  | cons child slots ih =>
    have first := length_childContent_le child
    simp only [List.map_cons, List.flatten_cons, List.length_append, List.length_cons]
    omega

private theorem ofList_join (children : Children) :
    Children.ofList ((List.range 16).map fun index => children.toList[index]?.join) = children := by
  apply Vector.ext
  intro index bound
  simp [Children.ofList]

private theorem read_branch {children : Children} {value : Option Bytes}
    (notEmptyValue : value ≠ some []) (fits : (value.getD []).length < 2 ^ 64)
    (walkable : Walkable (children.toList.map encodeChild ++ [encodeBytes (value.getD [])])) :
    ∃ after, Reading (children.toList.map encodeChild ++ [encodeBytes (value.getD [])]) after ∧
      read (.start (encodeList (children.toList.map encodeChild ++ [encodeBytes (value.getD [])]))) =
        .ok (branch children value) after := by
  generalize itemsIs : children.toList.map encodeChild ++ [encodeBytes (value.getD [])] = items at *
  have length : items.length = 17 := by simp [← itemsIs]
  have slots : ∀ index ∈ List.range 16,
      items[index]? = some (encodeChild children.toList[index]?.join) := by
    intro index member
    have bound := List.mem_range.mp member
    rw [← itemsIs, List.getElem?_append_left (by simpa using bound), List.getElem?_map,
      List.getElem?_eq_getElem (by simpa using bound)]
    rfl
  have last : items[16]? = some (encodeBytes (value.getD [])) := by
    simp [← itemsIs]
  obtain ⟨counted, reading, count⟩ := itemCount_reading walkable (.start items)
  obtain ⟨listed, readingListed, list⟩ := mapM_reading readChild
    (fun index member reader reading => readChild_found walkable reading (slots index member)) reading
  obtain ⟨after, readingAfter, item⟩ := item_found walkable readingListed 16 (by omega)
  refine ⟨after, readingAfter, ?_⟩
  have branches : readBranch counted = .ok (branch children value) after := by
    rw [readBranch, Step.bind_ok list, ofList_join, Step.bind_ok item,
      (List.getElem?_eq_some_iff.mp last).2, isEmptyItem_encodeBytes fits]
    cases value with
    | none => rfl
    | some value =>
      have nonempty : ¬ ((some value).getD []).isEmpty = true := by
        rintro empty
        exact notEmptyValue (congrArg some (List.isEmpty_iff.mp empty))
      rw [if_neg nonempty, content_encodeBytes fits]
      rfl
  rw [read, Step.bind_ok count, length]
  exact branches

/-- A well-formed node is recovered from its record, if that leaves room for headers below a word. -/
theorem decode_encode_of_room {node : Node} (wellFormed : node.WellFormed)
    (fits : node.room + 1024 < 2 ^ 64) : decode node.encode = .ok node := by
  cases node with
  | empty => rfl
  | leaf path value =>
    have packed := Path.length_pack path true
    simp only [room] at fits
    have walkable : Walkable ([path.pack true, value].map encodeBytes) := by
      apply walkable_encodeBytes
      simp [packed]
      omega
    refine decode_list walkable (by simp)
      (read_pair walkable ?_ (Path.unpack?_pack wellFormed true) ?_)
    · omega
    · intro reader
      rw [if_pos rfl, decodeBytes_encodeBytes (by omega)]
      rfl
  | extension path child =>
    have packed := Path.length_pack path false
    have size := child.size
    simp only [room] at fits
    have walkable : Walkable ([path.pack false, child.bytes].map encodeBytes) := by
      apply walkable_encodeBytes
      simp [packed, size]
      omega
    refine decode_list walkable (by simp)
      (read_pair walkable ?_ (Path.unpack?_pack wellFormed false) ?_)
    · omega
    · intro reader
      rw [if_neg (by simp), decodeHash_encodeBytes]
      rfl
  | branch children value =>
    simp only [room] at fits
    have contents : children.toList.map encodeChild ++ [encodeBytes (value.getD [])] =
        (children.toList.map childContent ++ [value.getD []]).map encodeBytes := by
      simp [encodeChild_eq]
    have walkable : Walkable (children.toList.map encodeChild ++ [encodeBytes (value.getD [])]) := by
      have slots := length_childContents_le children.toList
      rw [contents]
      apply walkable_encodeBytes
      simp only [List.flatten_append, List.length_append, List.length_map, Vector.length_toList,
        List.flatten_cons, List.flatten_nil, List.append_nil, List.length_singleton] at slots ⊢
      omega
    exact decode_list walkable (by simp) (read_branch wellFormed (by omega) walkable)

theorem decode_encode {node : Node} (readable : node.Readable) : decode node.encode = .ok node := by
  cases node with
  | empty => rfl
  | leaf path value =>
    obtain ⟨nibbles, fits⟩ := readable
    refine decode_encode_of_room nibbles ?_
    simp only [Path.Fits, room] at fits ⊢
    omega
  | extension path child =>
    obtain ⟨nibbles, fits⟩ := readable
    refine decode_encode_of_room nibbles ?_
    simp only [Path.Fits, List.length_nil, room] at fits ⊢
    omega
  | branch children value =>
    obtain ⟨notEmptyValue, fits⟩ := readable
    refine decode_encode_of_room notEmptyValue ?_
    simp only [Path.Fits, List.length_nil, room] at fits ⊢
    omega

/-- A record is longer than the path and the value that it holds. -/
theorem length_leaf_le (path : Path) (value : Bytes) :
    path.length + 2 * value.length ≤ 2 * (leaf path value).encode.length := by
  have packed := length_le_encodeBytes (path.pack true)
  have held := length_le_encodeBytes value
  rw [Path.length_pack] at packed
  simp only [encode, encodeList, List.flatten_cons, List.flatten_nil, List.append_nil,
    List.length_append]
  omega

theorem length_extension_le (path : Path) (child : Hash) :
    path.length ≤ 2 * (extension path child).encode.length := by
  have packed := length_le_encodeBytes (path.pack false)
  rw [Path.length_pack] at packed
  simp only [encode, encodeList, List.flatten_cons, List.flatten_nil, List.append_nil,
    List.length_append]
  omega

theorem length_branch_le (children : Children) (value : Option Bytes) :
    (value.getD []).length ≤ (branch children value).encode.length := by
  have held := length_le_encodeBytes (value.getD [])
  simp only [encode, encodeList, List.flatten_append, List.flatten_cons, List.flatten_nil,
    List.append_nil, List.length_append]
  omega

/-- A record has room for the path and the value that it holds. -/
theorem room_le (node : Node) : node.room ≤ node.encode.length := by
  cases node with
  | empty => exact Nat.zero_le _
  | leaf path value =>
    have held := length_leaf_le path value
    rw [room]
    omega
  | extension path child =>
    have held := length_extension_le path child
    rw [room]
    omega
  | branch children value => exact length_branch_le children value

theorem encode_injective {first second : Node} (readableFirst : first.Readable)
    (readableSecond : second.Readable) (same : first.encode = second.encode) : first = second := by
  have decoded := decode_encode readableFirst
  rw [same, decode_encode readableSecond] at decoded
  exact (Except.ok.inj decoded).symm

end Node

end ContractLedger
