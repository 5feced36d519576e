import ContractLedger.Proofs.Ledger.Record
import ContractLedger.Proofs.Trie.Accepted

/-!
The formats in which nodes and accounts are stored. Each is read back as what was written, so that
no two nodes share a record; and what is read from other bytes, however they were made, is a node
that could have been written.
-/

namespace ContractLedger

namespace Node

/-- A node whose path and value are byte strings that an address space holds, where no string takes
more than half of the addresses. -/
def InMemory : Node → Prop
  | empty => True
  | leaf path value => path.length < 2 ^ 63 ∧ value.length < 2 ^ 63
  | extension path _ => path.length < 2 ^ 63
  | branch _ value => (value.getD []).length < 2 ^ 63

theorem InMemory.decode_encode {node : Node} (inMemory : node.InMemory)
    (wellFormed : node.WellFormed) : decode node.encode = .ok node := by
  apply decode_encode_of_room wellFormed
  cases node <;> simp only [InMemory] at inMemory <;> simp only [room] <;> omega

end Node

/-- Every well-formed node is recovered from its record, which no other has; every node that is read
from any bytes is well formed and recovered from its own record; and every account is recovered from
its record. -/
theorem formats_recovered :
    (∀ node : Node, node.WellFormed → node.InMemory → Node.decode node.encode = .ok node) ∧
      (∀ first second : Node, first.WellFormed → first.InMemory → second.WellFormed →
        second.InMemory → (first.encode = second.encode ↔ first = second)) ∧
      (∀ (record : Bytes) (node : Node), Node.decode record = .ok node →
        node.WellFormed ∧ (record.length < 2 ^ 63 → Node.decode node.encode = .ok node)) ∧
      ∀ account : Account, Account.decode account.encode = .ok account := by
  refine ⟨fun node wellFormed inMemory => inMemory.decode_encode wellFormed, ?_, ?_,
    Account.decode_encode⟩
  · intro first second wellFormed inMemory wellFormedSecond inMemorySecond
    refine ⟨fun same => ?_, congrArg Node.encode⟩
    have decoded := inMemory.decode_encode wellFormed
    rw [same, inMemorySecond.decode_encode wellFormedSecond] at decoded
    exact (Except.ok.inj decoded).symm
  · intro record node read
    exact ⟨(Node.decode_ok read).1, fun short => Node.decode_encode_of_decode short read⟩

/-- A leaf whose value is one byte too long for a short header. -/
def longLeaf : Node :=
  .leaf [1, 2, 3] (List.replicate 56 7)

/-- A record of a leaf whose value lies behind the end of the list, followed by half an item. -/
def looseRecord : Bytes :=
  [0xc1, 0x31, 0x02, 0xb8]

theorem formats_recovered_loose :
    Node.decode longLeaf.encode = .ok longLeaf ∧ longLeaf.encode ≠ (Node.leaf [1] [2]).encode ∧
      Node.decode looseRecord = .ok (.leaf [1] [2]) ∧
      Node.decode (Node.leaf [1] [2]).encode = .ok (.leaf [1] [2]) ∧
      Account.decode Account.fresh.encode = .ok .fresh := by
  obtain ⟨recovered, apart, accepted, accounts⟩ := formats_recovered
  have long : longLeaf.WellFormed ∧ longLeaf.InMemory := by
    simp [longLeaf, Node.WellFormed, Node.InMemory, Path.Nibbles]
  have single : (Node.leaf [1] [2]).WellFormed ∧ (Node.leaf [1] [2]).InMemory := by
    simp [Node.WellFormed, Node.InMemory, Path.Nibbles]
  have loose : Node.decode looseRecord = .ok (.leaf [1] [2]) := by decide +kernel
  refine ⟨recovered _ long.1 long.2, ?_, loose, (accepted _ _ loose).2 (by decide), accounts _⟩
  exact mt (apart _ _ long.1 long.2 single.1 single.2).mp (by decide)

end ContractLedger
