import ContractLedger.Ledger.Account
import ContractLedger.Proofs.Trie.Record

/-!
Records of accounts. Every account is recovered from its record, which is never empty and of
bounded size.
-/

namespace ContractLedger.Account

open Rlp hiding liftExcept

/-- The contents of the three items of a record. -/
def contents (account : Account) : List Bytes :=
  [account.codeHash.elim [] Hash.bytes, account.storageRoot.bytes,
    Bytes.ofNat account.balance.toNat]

theorem encode_eq (account : Account) :
    account.encode = encodeList (account.contents.map encodeBytes) := rfl

private theorem length_contents (account : Account) : account.contents.flatten.length ≤ 72 := by
  have code : (account.codeHash.elim [] Hash.bytes).length ≤ 32 := by
    cases account.codeHash with
    | none => exact Nat.zero_le _
    | some hash => exact Nat.le_of_eq hash.size
  have root := account.storageRoot.size
  have balance : (Bytes.ofNat account.balance.toNat).length ≤ 8 :=
    Bytes.length_ofNat_le 8 account.balance.toNat_lt
  simp only [contents, List.flatten_cons, List.flatten_nil, List.append_nil, List.length_append]
  omega

private theorem walkable (account : Account) : Walkable (account.contents.map encodeBytes) := by
  have few := account.length_contents
  apply walkable_encodeBytes
  simp only [contents, List.length_cons, List.length_nil] at few ⊢
  omega

theorem decode_encode (account : Account) : decode account.encode = .ok account := by
  have walkable := account.walkable
  obtain ⟨counted, reading, count⟩ :=
    itemCount_reading walkable (.start (account.contents.map encodeBytes))
  obtain ⟨first, readingFirst, codeItem⟩ := item_found walkable reading 0 (by simp [contents])
  obtain ⟨second, readingSecond, rootItem⟩ :=
    item_found walkable readingFirst 1 (by simp [contents])
  obtain ⟨last, readingLast, balanceItem⟩ :=
    item_found walkable readingSecond 2 (by simp [contents])
  rw [encode_eq, decode]
  apply runReader_reading
  refine ⟨last, readingLast, ?_⟩
  have items : account.contents.map encodeBytes =
      [encodeBytes (account.codeHash.elim [] Hash.bytes), encodeBytes account.storageRoot.bytes,
        encodeNat account.balance.toNat] := rfl
  simp only [items, List.getElem_cons_zero, List.getElem_cons_succ, List.length_cons,
    List.length_nil] at count codeItem rootItem balanceItem ⊢
  have code : isEmptyItem (encodeBytes (account.codeHash.elim [] Hash.bytes)) =
      account.codeHash.isNone := by
    cases codeHash : account.codeHash with
    | none => rfl
    | some hash =>
      have size := hash.size
      rw [Option.elim_some, isEmptyItem_encodeBytes (by omega), Option.isNone_some,
        Bool.eq_false_iff, Ne, List.isEmpty_iff]
      intro none
      simp [none] at size
  simp only [read, Step.bind_apply, count, ne_eq, not_true_eq_false, if_false, codeItem, code]
  cases codeHash : account.codeHash with
  | none =>
    simp only [Option.isNone_none, if_true, Step.bind_apply, Step.pure_apply, rootItem, balanceItem,
      Rlp.liftExcept, decodeHash_encodeBytes, decodeWord_encodeNat]
    rw [← codeHash]
  | some hash =>
    simp only [Option.isNone_some, Bool.false_eq_true, if_false, Option.elim_some, Step.bind_apply,
      Step.map_apply, Step.pure_apply, rootItem, balanceItem, Rlp.liftExcept, decodeHash_encodeBytes,
      decodeWord_encodeNat]
    rw [← codeHash]

theorem encode_injective {first second : Account} (same : first.encode = second.encode) :
    first = second := by
  have decoded := decode_encode first
  rw [same, decode_encode second] at decoded
  exact (Except.ok.inj decoded).symm

theorem encode_ne_nil (account : Account) : account.encode ≠ [] := by
  have header := length_header_pos 0xc0 (account.contents.map encodeBytes).flatten.length
  rw [encode_eq, encodeList, ← List.length_pos_iff, List.length_append]
  omega

end ContractLedger.Account
