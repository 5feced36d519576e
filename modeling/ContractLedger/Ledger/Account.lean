import ContractLedger.Trie.Node
import ContractLedger.Amount

/-!
The record that the account trie keeps for an address: the hash of its code, the root of its
storage trie and its balance. The record is a list of three items, the first of them empty for
an account without code.
-/

namespace ContractLedger

structure Account where
  codeHash : Option Hash
  storageRoot : Hash
  balance : Amount
deriving DecidableEq

namespace Account

/-- An account that was never written: no code, no storage, no balance. -/
def fresh : Account := ⟨none, Node.emptyRoot, 0⟩

/-- Whether code was ever set. -/
def isContract (account : Account) : Bool :=
  account.codeHash.isSome

def encode (account : Account) : Bytes :=
  Rlp.encodeList [Rlp.encodeBytes (account.codeHash.elim [] Hash.bytes),
    Rlp.encodeBytes account.storageRoot.bytes, Rlp.encodeNat account.balance.toNat]

def read : Rlp.ReadM Account := do
  if (← Rlp.itemCount) ≠ 3 then throw .wrongItemCount
  let code ← Rlp.item 0
  let codeHash ← if Rlp.isEmptyItem code then pure none
    else some <$> Rlp.liftExcept (Rlp.decodeHash code)
  let storageRoot ← Rlp.liftExcept (Rlp.decodeHash (← Rlp.item 1))
  let balance ← Rlp.liftExcept (Rlp.decodeWord (← Rlp.item 2))
  return { codeHash, storageRoot, balance }

def decode (record : Bytes) : Except Rlp.DecodeError Account :=
  Rlp.runReader read record

end Account

end ContractLedger
