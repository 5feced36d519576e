import ContractLedger.Rlp.Decoding
import ContractLedger.Proofs.Along

/-!
What can be read from any bytes at all, well written or not. The content of an item lies within the
item and is empty only where the item counts as empty; an item lies within the bytes of its reader,
and so do two that are read one after the other, side by side.
-/

namespace ContractLedger.Rlp

variable {bytes rest item first second found : Bytes} {reader middle after : Reader} {index : Nat}

theorem extent_ok {held : Extent} (stated : extent bytes = .ok held) :
    statedExtent bytes = .ok held ∧ held.total ≤ bytes.length := by
  unfold extent at stated
  cases states : statedExtent bytes with
  | error error =>
    rw [states] at stated
    cases stated
  | ok other =>
    rw [states] at stated
    change (if bytes.length < other.total then _ else _) = _ at stated
    split at stated
    · cases stated
    · next fits =>
      cases stated
      exact ⟨rfl, Nat.le_of_not_lt fits⟩

private theorem longExtent_append {lengthSize : Nat} {held : Extent} (sized : 0 < lengthSize)
    (stated : longExtent lengthSize rest = .ok held) (more : Bytes) :
    longExtent lengthSize (rest ++ more) = .ok held := by
  unfold longExtent at stated ⊢
  split at stated
  · cases stated
  · next head =>
    split at stated
    · cases stated
    · next enough =>
      have some : rest.head?.isSome := by
        cases rest with
        | nil => exact absurd sized enough
        | cons first rest => rfl
      rw [List.head?_append, Option.or_of_isSome some, if_neg head, List.length_append,
        if_neg (by omega), List.take_append_of_le_length (Nat.le_of_not_lt enough)]
      exact stated

private theorem statedExtent_append {held : Extent} (stated : statedExtent bytes = .ok held)
    (more : Bytes) : statedExtent (bytes ++ more) = .ok held := by
  cases bytes with
  | nil => cases stated
  | cons lead rest =>
    simp only [List.cons_append, statedExtent, UInt8.le_iff_toNat_le, UInt8.reduceToNat] at stated ⊢
    split at stated
    · next single => rwa [if_pos single]
    next notSingle =>
    rw [if_neg notSingle]
    split at stated
    · next shortString => rwa [if_pos shortString]
    next notShort =>
    rw [if_neg notShort]
    split at stated
    · next longString =>
      rw [if_pos longString]
      exact longExtent_append (by omega) stated more
    next notString =>
    rw [if_neg notString]
    split at stated
    · next shortList => rwa [if_pos shortList]
    next longList =>
    rw [if_neg longList]
    exact longExtent_append (by omega) stated more

/-- The extent of the first item does not depend on what follows it. -/
theorem extent_append {held : Extent} (stated : extent bytes = .ok held) (more : Bytes) :
    extent (bytes ++ more) = .ok held := by
  obtain ⟨states, fits⟩ := extent_ok stated
  rw [extent, statedExtent_append states more]
  change (if (bytes ++ more).length < held.total then _ else _) = _
  rw [if_neg (by rw [List.length_append]; omega)]
  rfl

theorem content_ok (read : content item = .ok found) :
    ∃ held, extent item = .ok held ∧ found = (item.drop held.header).take held.content := by
  unfold content at read
  cases stated : extent item with
  | error error =>
    rw [stated] at read
    cases read
  | ok held =>
    rw [stated] at read
    cases read
    exact ⟨held, rfl, rfl⟩

theorem length_content_le (read : content item = .ok found) : found.length ≤ item.length := by
  obtain ⟨held, _, rfl⟩ := content_ok read
  rw [List.length_take, List.length_drop]
  omega

private theorem content_pos {held : Extent} (stated : statedExtent item = .ok held)
    (some : isEmptyItem item = false) : 0 < held.content := by
  have long {lengthSize : Nat} {rest : Bytes} (stated : longExtent lengthSize rest = .ok held) :
      0 < held.content := by
    unfold longExtent at stated
    split at stated
    · cases stated
    · split at stated
      · cases stated
      · dsimp only at stated
        split at stated
        · cases stated
        · cases stated
          dsimp only
          omega
  cases item with
  | nil => cases stated
  | cons lead rest =>
    simp only [isEmptyItem, Bool.or_eq_false_iff, beq_eq_false_iff_ne, ne_eq, ← UInt8.toNat_inj,
      UInt8.reduceToNat] at some
    unfold statedExtent at stated
    simp only [UInt8.le_iff_toNat_le, UInt8.reduceToNat] at stated
    split at stated
    · cases stated
      exact Nat.one_pos
    · split at stated
      · cases stated
        dsimp only
        omega
      · split at stated
        · exact long stated
        · split at stated
          · cases stated
            dsimp only
            omega
          · exact long stated

/-- The content of an item that does not count as empty is not empty. -/
theorem content_ne_nil (read : content item = .ok found) (some : isEmptyItem item = false) :
    found ≠ [] := by
  obtain ⟨held, stated, rfl⟩ := content_ok read
  obtain ⟨states, fits⟩ := extent_ok stated
  have positive := content_pos states some
  rw [← List.length_pos_iff, List.length_take, List.length_drop]
  simp only [Extent.total] at fits
  omega

theorem length_decodeBytes_le (read : decodeBytes item = .ok found) : found.length ≤ item.length := by
  cases item with
  | nil => cases read
  | cons lead rest =>
    have inside {content : Bytes} (sublist : content.Sublist rest) :
        content.length ≤ (lead :: rest).length :=
      Nat.le_succ_of_le sublist.length_le
    simp only [decodeBytes] at read
    split at read
    · cases read
      exact Nat.succ_le_succ (Nat.zero_le _)
    split at read
    · split at read
      · cases read
      split at read
      · cases read
      rw [← Except.ok.inj read]
      exact inside (List.take_sublist _ _)
    split at read
    · split at read
      · cases read
      split at read
      · cases read
      split at read
      · cases read
      split at read
      · cases read
      rw [← Except.ok.inj read]
      exact inside ((List.take_sublist _ _).trans (List.drop_sublist _ _))
    · cases read

/-! Readers. -/

/-- Reading an item moves the bookmark alone, however it ends. -/
theorem along_item (index : Nat) : Along (Keeping Reader.bytes) (Rlp.item index) := by
  intro reader
  cases list : isList reader.bytes with
  | false => simp only [Rlp.item, Step.bind_apply, Step.get_apply, list]; rfl
  | true =>
    simp only [Rlp.item, Step.bind_apply, Step.get_apply, list, Bool.not_true, Bool.false_eq_true,
      if_false]
    cases origin : reader.origin index with
    | error error => rfl
    | ok place =>
      obtain ⟨marked, start, whole⟩ := place
      simp only [Rlp.liftExcept, Step.pure_apply]
      cases skipped : skipItems (index - marked) start whole with
      | error error => rfl
      | ok place =>
        simp only [Step.pure_apply, Step.set_apply]
        cases extent place.2 <;> rfl

theorem along_liftExcept {α : Type} (result : Except DecodeError α) :
    Along (Keeping Reader.bytes) (Rlp.liftExcept result) := by
  cases result with
  | ok value => exact .done value
  | error error => exact .failed error

private theorem along_countFrom (steps index : Nat) :
    Along (Keeping Reader.bytes) (countFrom steps index) := by
  induction steps generalizing index with
  | zero => exact .done index
  | succ steps ih =>
    intro reader
    have here := along_item index reader
    simp only [countFrom]
    cases read : Rlp.item index reader with
    | ok item middle =>
      rw [read] at here
      exact trans_of (Keeping Reader.bytes) here (ih (index + 1) middle)
    | error error middle =>
      rw [read] at here
      exact here

theorem along_itemCount : Along (Keeping Reader.bytes) itemCount :=
  .reading fun _ => .ite (.bind (.failed _) fun _ => along_countFrom _ _) (along_countFrom _ _)

/-- What a step that keeps the bytes leaves when it succeeds. -/
theorem bytes_of_ok {α : Type} {step : ReadM α} {value : α}
    (along : Along (Keeping Reader.bytes) step) (read : step reader = .ok value after) :
    after.bytes = reader.bytes := by
  have kept := along reader
  rwa [read] at kept

theorem runReader_ok {α : Type} {step : ReadM α} {value : α}
    (read : runReader step bytes = .ok value) : ∃ after, step (.start bytes) = .ok value after := by
  unfold runReader at read
  cases ran : step (.start bytes) with
  | ok found after =>
    rw [ran] at read
    cases read
    exact ⟨after, rfl⟩
  | error error after =>
    rw [ran] at read
    cases read

theorem liftExcept_ok {α : Type} {result : Except DecodeError α} {value : α}
    (read : Rlp.liftExcept result reader = .ok value after) : result = .ok value ∧ after = reader := by
  cases result with
  | ok found =>
    cases read
    exact ⟨rfl, rfl⟩
  | error error => cases read

/-- Bytes that begin at an offset of a reader's bytes and may stop short of their end. -/
private def StartsAt (bytes : Bytes) (offset : Nat) (rest : Bytes) : Prop :=
  offset ≤ bytes.length ∧ rest <+: bytes.drop offset

private theorem StartsAt.skip {offset count last : Nat} {end_ : Bytes}
    (starts : StartsAt bytes offset rest) (skipped : skipItems count offset rest = .ok (last, end_)) :
    StartsAt bytes last end_ := by
  induction count generalizing offset rest with
  | zero =>
    cases skipped
    exact starts
  | succ count ih =>
    rw [skipItems] at skipped
    cases stated : extent rest with
    | error error =>
      rw [stated] at skipped
      cases skipped
    | ok held =>
      rw [stated] at skipped
      refine ih ?_ skipped
      have fits := (extent_ok stated).2
      have within := starts.2.length_le
      rw [List.length_drop] at within
      refine ⟨by have := starts.1; omega, ?_⟩
      rw [← List.drop_drop]
      obtain ⟨more, whole⟩ := starts.2
      rw [← whole, List.drop_append_of_le_length fits]
      exact List.prefix_append _ _

private theorem startsAt_origin {first offset : Nat}
    (origin : reader.origin index = .ok (first, offset, rest)) :
    StartsAt reader.bytes offset rest := by
  have fresh {first offset : Nat} {rest : Bytes} (origin : (do
      let found ← extent reader.bytes
      return (0, found.header, (reader.bytes.drop found.header).take found.content) :
      Except DecodeError (Nat × Nat × Bytes)) = .ok (first, offset, rest)) :
      StartsAt reader.bytes offset rest := by
    cases stated : extent reader.bytes with
    | error error =>
      rw [stated] at origin
      cases origin
    | ok held =>
      rw [stated] at origin
      cases origin
      have fits := (extent_ok stated).2
      simp only [Extent.total] at fits
      exact ⟨by omega, List.take_prefix _ _⟩
  unfold Reader.origin at origin
  cases bookmark : reader.bookmark with
  | none =>
    rw [bookmark] at origin
    exact fresh origin
  | some mark =>
    rw [bookmark] at origin
    dsimp only at origin
    split at origin
    · split at origin
      · cases origin
      · next inside =>
        cases origin
        exact ⟨Nat.le_of_not_lt inside, List.prefix_refl _⟩
    · exact fresh origin

private theorem item_ok (read : Rlp.item index reader = .ok item after) :
    ∃ offset rest held, after.bookmark = some (index, offset) ∧
      StartsAt reader.bytes offset rest ∧ extent rest = .ok held ∧ item = rest.take held.total := by
  cases list : isList reader.bytes with
  | false =>
    simp only [Rlp.item, Step.bind_apply, Step.get_apply, list] at read
    cases read
  | true =>
    simp only [Rlp.item, Step.bind_apply, Step.get_apply, list, Bool.not_true, Bool.false_eq_true,
      if_false] at read
    cases origin : reader.origin index with
    | error error =>
      rw [origin] at read
      cases read
    | ok place =>
      obtain ⟨marked, start, whole⟩ := place
      simp only [origin, Rlp.liftExcept, Step.pure_apply] at read
      cases skipped : skipItems (index - marked) start whole with
      | error error =>
        rw [skipped] at read
        cases read
      | ok place =>
        obtain ⟨offset, rest⟩ := place
        simp only [skipped, Step.pure_apply, Step.set_apply] at read
        cases stated : extent rest with
        | error error =>
          rw [stated] at read
          cases read
        | ok held =>
          rw [stated] at read
          cases read
          exact ⟨offset, rest, held, rfl, (startsAt_origin origin).skip skipped, stated, rfl⟩

theorem length_item_le (read : Rlp.item index reader = .ok item after) :
    item.length ≤ reader.bytes.length := by
  obtain ⟨offset, rest, held, _, starts, _, rfl⟩ := item_ok read
  have within := starts.2.length_le
  rw [List.length_drop] at within
  rw [List.length_take]
  omega

/-- Two items that are read one after the other do not overlap. -/
theorem length_items_le (read : Rlp.item index reader = .ok first middle)
    (again : Rlp.item (index + 1) middle = .ok second after) :
    first.length + second.length ≤ reader.bytes.length := by
  have bytes := bytes_of_ok (along_item index) read
  obtain ⟨offset, rest, held, bookmark, starts, stated, rfl⟩ := item_ok read
  obtain ⟨more, whole⟩ := starts.2
  have fits := (extent_ok stated).2
  have beyond : (reader.bytes.drop offset).length = rest.length + more.length := by
    rw [← whole, List.length_append]
  -- The second item is looked for behind the first, whose extent is what it was when it was read.
  have onward : middle.origin (index + 1) = .ok (index, offset, reader.bytes.drop offset) := by
    simp only [Reader.origin, bookmark, bytes, if_pos (Nat.le_succ index),
      if_neg (Nat.not_lt.mpr starts.1)]
    rfl
  have behind : skipItems (index + 1 - index) offset (reader.bytes.drop offset) =
      .ok (offset + held.total, (reader.bytes.drop offset).drop held.total) := by
    rw [Nat.add_sub_cancel_left, skipItems, ← whole, extent_append stated more]
    rfl
  have list : isList middle.bytes = true := by
    cases list : isList middle.bytes with
    | true => rfl
    | false =>
      simp only [Rlp.item, Step.bind_apply, Step.get_apply, list] at again
      cases again
  simp only [Rlp.item, Step.bind_apply, Step.get_apply, list, Bool.not_true, Bool.false_eq_true,
    if_false, onward, Rlp.liftExcept, Step.pure_apply, behind, Step.set_apply] at again
  cases statedAgain : extent ((reader.bytes.drop offset).drop held.total) with
  | error error =>
    rw [statedAgain] at again
    cases again
  | ok heldAgain =>
    rw [statedAgain] at again
    cases again
    simp only [List.length_take, List.length_drop] at beyond ⊢
    omega

end ContractLedger.Rlp
