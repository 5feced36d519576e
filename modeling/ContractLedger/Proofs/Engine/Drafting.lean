import ContractLedger.Proofs.Engine.Along
import ContractLedger.Proofs.Ledger.Draft
import ContractLedger.Proofs.Store.Content
import Mathlib.Logic.Relation

/-!
Invocations over any store. All that an invocation does to a ledger is part of its batch, so a relation
that holds across what a batch does holds across what an invocation does. In particular the store is read
and never written.
-/

namespace ContractLedger

variable {σ ε α : Type} [ByteStore σ] {rel : Ledger.Mounted σ → Ledger.Mounted σ → Prop}

def Host.Drafts (rel : Ledger.Mounted σ → Ledger.Mounted σ → Prop) (before after : Host σ) : Prop :=
  rel before.ledger after.ledger

def World.Drafts (rel : Ledger.Mounted σ → Ledger.Mounted σ → Prop) (before after : World σ) : Prop :=
  rel before.host.ledger after.host.ledger

instance [IsPreorder (Ledger.Mounted σ) rel] : IsPreorder (World σ) (World.Drafts rel) where
  refl world := refl_of rel world.host.ledger
  trans _ _ _ first second := trans_of rel first second

omit [ByteStore σ] in
theorem Host.drafts_run {step : LedgerM σ α} {wrap : LedgerError → ε} (along : Along rel step) :
    Along (Host.Drafts rel) (Host.run step wrap) := by
  intro host
  rw [Host.ending_run]
  exact along host.ledger

omit [ByteStore σ] in
theorem Service.drafts_onLedger {step : LedgerM σ α} (along : Along rel step) :
    Along (World.Drafts rel) (onLedger step) := by
  intro world
  rw [Service.ending_onLedger]
  exact Host.drafts_run along world.host

theorem Ledger.Batchwise.respected {trieRel : Trie.Mounted σ → Trie.Mounted σ → Prop}
    [IsPreorder (Trie.Mounted σ) trieRel] [IsPreorder (Ledger.Mounted σ) rel]
    (batchwise : Batchwise trieRel rel) : Respected (World.Drafts rel) where
  spend amount world := by
    rw [Service.ending_spend]
    exact refl_of rel world.host.ledger
  read _ _ := Service.drafts_onLedger (batchwise.getObject _ _)
  write _ _ _ := Service.drafts_onLedger (batchwise.setObject _ _ _)
  balance _ := Service.drafts_onLedger (batchwise.getBalance _)
  code _ := Service.drafts_onLedger (batchwise.getCode _)
  record _ _ _ := .changed fun world => refl_of rel world.host.ledger
  observe _ _ := .changed fun world => refl_of rel world.host.ledger
  undo before after related := by
    have undoes : Along (World.Drafts rel) (Engine.undo before.host.ledger.ledger.root
        before.transfers.length : ServiceM σ Unit) :=
      .bind (Service.drafts_onLedger (batchwise.revertTo _)) fun _ =>
        .changed fun world => refl_of rel world.host.ledger
    exact trans_of (World.Drafts rel) related (undoes after)

/-- A store to which nothing happened but reads. -/
def ByteStore.Reads : σ → σ → Prop :=
  Relation.ReflTransGen fun before after => ∃ column key, after = ending (read column key before)

instance : IsPreorder σ ByteStore.Reads where
  refl _ := .refl
  trans _ _ _ first second := first.trans second

theorem ByteStore.Reads.content [ReliableStore σ] {before after : σ} (reads : Reads before after) :
    content after = content before := by
  induction reads with
  | refl => rfl
  | @tail middle last _ read ih =>
    obtain ⟨column, key, rfl⟩ := read
    have ended := ending_through ReliableStore.content (ByteStore.read column key middle)
    have kept : ending (ByteStore.read column key (ReliableStore.content middle)) =
        ReliableStore.content middle := by
      change ending (if _ then _ else _) = _
      split <;> rfl
    rw [ReliableStore.read_content, kept] at ended
    exact ended.symm.trans ih

/-- Tries beside stores to which nothing happened but reads. -/
def Trie.Mounted.Reads (before after : Trie.Mounted σ) : Prop :=
  ByteStore.Reads before.store after.store

instance : IsPreorder (Trie.Mounted σ) Trie.Mounted.Reads where
  refl mounted := refl_of ByteStore.Reads mounted.store
  trans _ _ _ first second := trans_of ByteStore.Reads first second

/-- Ledgers beside stores to which nothing happened but reads. -/
def Ledger.Mounted.Reads (before after : Ledger.Mounted σ) : Prop :=
  ByteStore.Reads before.store after.store

instance : IsPreorder (Ledger.Mounted σ) Ledger.Mounted.Reads where
  refl mounted := refl_of ByteStore.Reads mounted.store
  trans _ _ _ first second := trans_of ByteStore.Reads first second

theorem Trie.nodewise_reads : Nodewise fun (step _ : TrieM σ _) => Along Mounted.Reads step := by
  refine nodewise_along (fun space key mounted => ?_) (fun mounted _ => refl_of Mounted.Reads mounted)
    fun mounted _ => refl_of Mounted.Reads mounted
  have read : ByteStore.Reads mounted.store (ending (space.read key mounted.store)) :=
    .single ⟨_, _, rfl⟩
  rw [onStore]
  cases ran : space.read key mounted.store <;> rw [ran] at read <;> exact read

theorem Ledger.batchwise_reads : Batchwise Trie.Mounted.Reads (Mounted.Reads : Mounted σ → _ → Prop) where
  nodes := Trie.nodewise_reads.toReadwise
  accounts {_ step} along mounted := by
    have reads := along ⟨mounted.ledger.accounts, mounted.store⟩
    rw [onAccounts]
    cases ran : step ⟨mounted.ledger.accounts, mounted.store⟩ <;> rw [ran] at reads <;> exact reads
  store column key mounted := by
    have read : ByteStore.Reads mounted.store (ending (ByteStore.read column key mounted.store)) :=
      .single ⟨_, _, rfl⟩
    rw [onStore]
    cases ran : ByteStore.read column key mounted.store <;> rw [ran] at read <;> exact read
  tell _ _ mounted := refl_of Mounted.Reads mounted
  updates := Trie.nodewise_reads
  opened {_} address trie {step} along mounted := by
    have reads := along ⟨trie, mounted.store⟩
    unfold onOpened
    cases ran : step ⟨trie, mounted.store⟩ <;> rw [ran] at reads <;> exact reads
  staged mounted _ _ := refl_of Mounted.Reads mounted
  reverted mounted _ := refl_of Mounted.Reads mounted

theorem respected_reads : Respected (World.Drafts (Ledger.Mounted.Reads : Ledger.Mounted σ → _ → Prop)) :=
  Ledger.batchwise_reads.respected

end ContractLedger
