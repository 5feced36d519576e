import ContractLedger.Proofs.Rlp.Accepted
import ContractLedger.Proofs.Trie.Record

/-!
Nodes read from any bytes at all. Whatever is accepted as a record, be it written differently or
followed by other bytes, the node is well formed and its own record is hardly longer, so that the
node is recovered from that.
-/

namespace ContractLedger.Node

open Rlp hiding liftExcept

variable {node : Node} {record : Bytes} {reader after : Reader}

private theorem readPair_ok (read : readPair reader = .ok node after) :
    node.WellFormed ∧ node.room ≤ reader.bytes.length := by
  obtain ⟨first, middle, readFirst, readRest⟩ := Step.bind_eq_ok.mp read
  obtain ⟨packed, again, readPacked, rest⟩ := Step.bind_eq_ok.mp readRest
  obtain ⟨packedIs, rfl⟩ := liftExcept_ok readPacked
  have within := length_content_le packedIs
  cases unpacked : Path.unpack? packed with
  | none =>
    rw [unpacked] at rest
    cases rest
  | some found =>
    obtain ⟨path, leaf⟩ := found
    obtain ⟨nibbles, length⟩ := Path.unpack?_eq_some unpacked
    rw [unpacked] at rest
    cases leaf with
    | true =>
      obtain ⟨second, last, readSecond, rest⟩ := Step.bind_eq_ok.mp rest
      obtain ⟨value, _, readValue, done⟩ := Step.bind_eq_ok.mp rest
      cases done
      have held := length_decodeBytes_le (liftExcept_ok readValue).1
      have apart := length_items_le readFirst readSecond
      refine ⟨nibbles, ?_⟩
      rw [room]
      omega
    | false =>
      obtain ⟨second, last, readSecond, rest⟩ := Step.bind_eq_ok.mp rest
      obtain ⟨child, _, readChild, done⟩ := Step.bind_eq_ok.mp rest
      cases done
      have inside := length_item_le readFirst
      refine ⟨nibbles, ?_⟩
      rw [room]
      omega

private theorem along_readChild (index : Nat) : Along (Keeping Reader.bytes) (readChild index) :=
  .bind (along_item index) fun _ =>
    .ite (.done _) (.bind (along_liftExcept _) fun _ => .done _)

private theorem readBranch_ok (read : readBranch reader = .ok node after) :
    node.WellFormed ∧ node.room ≤ reader.bytes.length := by
  obtain ⟨slots, middle, readSlots, rest⟩ := Step.bind_eq_ok.mp read
  have same := bytes_of_ok (.mapM _ along_readChild) readSlots
  obtain ⟨item, last, readItem, rest⟩ := Step.bind_eq_ok.mp rest
  have inside := length_item_le readItem
  cases empty : isEmptyItem item with
  | true =>
    rw [empty] at rest
    cases rest
    exact ⟨nofun, Nat.zero_le _⟩
  | false =>
    rw [empty] at rest
    obtain ⟨value, _, readValue, done⟩ := Step.bind_eq_ok.mp rest
    cases done
    have valueIs := (liftExcept_ok readValue).1
    have held := length_content_le valueIs
    refine ⟨?_, ?_⟩
    · rintro ⟨⟩
      exact content_ne_nil valueIs empty rfl
    · rw [← same]
      exact Nat.le_trans held inside

/-- Whatever is accepted as a record, its node is well formed and needs no more room than it had. -/
theorem decode_ok (read : decode record = .ok node) :
    node.WellFormed ∧ node.room ≤ record.length := by
  unfold decode at read
  split at read
  · cases read
    exact ⟨trivial, Nat.zero_le _⟩
  · obtain ⟨after, ran⟩ := runReader_ok read
    obtain ⟨count, counted, ranCount, rest⟩ := Step.bind_eq_ok.mp ran
    have same := bytes_of_ok along_itemCount ranCount
    rw [show record = counted.bytes from same.symm]
    split at rest
    · exact readPair_ok rest
    · exact readBranch_ok rest
    · cases rest

/-- A node that was read from a record is recovered from the record that it is written to. -/
theorem decode_encode_of_decode (short : record.length < 2 ^ 63) (read : decode record = .ok node) :
    decode node.encode = .ok node := by
  obtain ⟨wellFormed, fits⟩ := decode_ok read
  exact decode_encode_of_room wellFormed (by omega)

end ContractLedger.Node
