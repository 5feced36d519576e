import ContractLedger.Proofs.Ledger.Growth
import ContractLedger.Proofs.Ledger.Sight

/-!
Checkpoints. Whatever a session does in the rest of a batch, returns to other checkpoints included,
and whatever others do to the store, the session can return to a checkpoint of the batch and shows
then what it showed when the checkpoint was taken. If it commits after that, the same is shown to
whoever opens the store.
-/

namespace ContractLedger.Site

variable {σ : Type} [ByteStore σ] [ReliableStore σ] {data : Set Bytes} {site : Site σ} {index : Nat}

/-- What a session finds, in memory or in the store. -/
def found (site : Site σ) (index : Nat) : Shelves :=
  (site.mounted index).view.shelves

/-- The moves of a batch of one session, among moves of others that do not empty the store. -/
def Batch (index : Nat) (moves : List (Nat × Move)) : Prop :=
  ∀ step ∈ moves, step.2 ≠ .refresh ∧ (step.1 = index → step.2.Continues)

/-- A session goes on to find what it found as long as its batch lasts. -/
theorem Reached.found_run (faithful : Faithful data) (reached : Reached data site)
    {moves : List (Nat × Move)} (permits : site.Permits moves)
    (seen : ∀ bytes ∈ site.seen moves, bytes ∈ data) (batch : Batch index moves) :
    (site.found index).Within ((site.run moves).found index) := by
  refine reached.run_induction (motive := fun later => (site.found index).Within (later.found index))
    faithful permits seen (fun before mover move member outcome within => within.trans ?_) (.refl _)
  obtain ⟨kept, continues⟩ := batch _ member
  by_cases same : mover = index
  · subst mover
    have grows := (outcome.leads (continues rfl)).within
    rwa [← view_after_here] at grows
  · have session : (before.after mover move).sessions index = before.sessions index :=
      after_there (Ne.symm same)
    rw [found, found, Ledger.Mounted.shelves, Ledger.Mounted.shelves, mounted, mounted,
      Ledger.Mounted.view, Ledger.Mounted.view, session]
    exact Ledger.shelves_grow (shelves_after outcome kept)

omit [ReliableStore σ] in
private theorem after_checkpoint (site : Site σ) (index : Nat) :
    (site.after index .checkpoint).mounted index = site.mounted index := by
  rw [after_here]
  rfl

private theorem Reached.checkpointed (faithful : Faithful data) (reached : Reached data site)
    (index : Nat) : Reached data (site.after index .checkpoint) := by
  obtain ⟨_, _, here⟩ := reached.mounted_sound faithful index
  refine .move reached trivial nofun ?_
  rw [show ((site.after index .checkpoint).sessions index).ledger = (site.mounted index).ledger from
    congrArg Ledger.Mounted.ledger (after_checkpoint site index)]
  exact here.orderly.pending

/-- A session returns to a checkpoint of its batch, whatever it did since and however often it
returned to others, and shows what it showed there. A commit then makes that what is opened. -/
theorem Reached.revertTo_checkpoint (faithful : Faithful data) (reached : Reached data site)
    (index : Nat) (moves : List (Nat × Move))
    (permits : (site.after index .checkpoint).Permits moves)
    (seen : ∀ bytes ∈ (site.after index .checkpoint).seen moves, bytes ∈ data)
    (batch : Batch index moves) :
    ∃ root reverted committed,
      Ledger.checkpoint (site.mounted index) =
        .ok root ((site.after index .checkpoint).mounted index) ∧
      Ledger.revertTo root (((site.after index .checkpoint).run moves).mounted index) =
        .ok () reverted ∧
      reverted.sight.Complete ∧ reverted.sight = (site.mounted index).sight ∧
      Ledger.commit reverted = .ok () committed ∧
      committed.sight = (site.mounted index).sight ∧
      committed.Reopens Ledger.openLatest ∧ committed.Reopens (Ledger.openAt root) := by
  obtain ⟨book, roots, here⟩ := reached.mounted_sound faithful index
  have checkpointed := reached.checkpointed faithful index
  obtain ⟨_, _, later⟩ := (checkpointed.run moves permits seen).mounted_sound faithful index
  have within := checkpointed.found_run faithful permits seen batch
  rw [found, after_checkpoint] at within
  have shows : (((site.after index .checkpoint).run moves).found index).Shows
      (site.mounted index).ledger.root book := ⟨roots, here.lists.mono within⟩
  obtain ⟨_, _, ranView, _, left⟩ := Ledger.revertTo_sound faithful later shows
  obtain ⟨_, wroteView, commits⟩ := Ledger.commit_sound faithful left
  obtain ⟨reverted, ran, rfl⟩ := through_eq_ok (((Ledger.agree_revertTo _).same _).trans ranView)
  obtain ⟨committed, wrote, rfl⟩ := through_eq_ok ((Ledger.agree_commit.same reverted).trans wroteView)
  have complete := left.complete faithful
  have same := left.sight_eq faithful here
  have kept := commits.sound.sight_eq faithful here
  obtain ⟨latest, again⟩ := commits.reopens faithful
  rw [left.root_eq here] at again
  rw [Ledger.sight_view] at complete
  rw [Ledger.sight_view, Ledger.sight_view] at same kept
  refine ⟨_, reverted, committed, ?_, ran, complete, same, wrote, kept,
    latest.of_view Ledger.agree_openLatest, again.of_view (Ledger.agree_openAt _)⟩
  rw [after_checkpoint]
  rfl

def stored : List (Nat × Move) :=
  [(0, .run (.setObject (.ofNat 1) [1] [7]))]

/-- The account is replaced and, after a second checkpoint, as it was again. Then it is what it was
at that checkpoint, while another session commits. -/
def wandering : List (Nat × Move) :=
  let first := ((unused.run stored).mounted 0).ledger.root
  let second := (((unused.run stored).after 0 (.run (.createAccount (.ofNat 1)))).mounted 0).ledger.root
  [(0, .run (.createAccount (.ofNat 1))), (0, .checkpoint), (0, .revertTo first),
    (0, .run (.getObject (.ofNat 1) [1])), (1, .commit), (0, .revertTo second)]

set_option maxRecDepth 100000 in
theorem revertTo_checkpoint_wandering :
    ∃ reverted committed,
      Ledger.revertTo ((unused.run stored).mounted 0).ledger.root
        ((((unused.run stored).after 0 .checkpoint).run wandering).mounted 0) = .ok () reverted ∧
      Ledger.commit reverted = .ok () committed ∧
      committed.sight.object (.ofNat 1) [1] = .ok (some [7]) ∧
      committed.Reopens Ledger.openLatest := by
  have faithful : Faithful { bytes | bytes ∈ unused.seen stored ++
      ((unused.run stored).after 0 .checkpoint).seen wandering } :=
    .of_nodup (by decide +kernel) (by decide +kernel)
  have reached := (reached_unused _).run stored ⟨trivial, trivial⟩
    fun bytes member => List.mem_append_left
      (((unused.run stored).after 0 .checkpoint).seen wandering) member
  have batch : Batch 0 wandering := by
    simp [Batch, wandering, Move.Continues]
  have permits : ((unused.run stored).after 0 .checkpoint).Permits wandering := by
    refine ⟨trivial, trivial, ?_, trivial, trivial, ?_, trivial⟩ <;>
      change _ ∈ Session.checkpoints _ <;> decide +kernel
  obtain ⟨root, reverted, committed, taken, ran, _, _, wrote, kept, latest, _⟩ :=
    Reached.revertTo_checkpoint faithful reached 0 wandering permits
      (fun bytes member => List.mem_append_right (unused.seen stored) member) batch
  cases taken
  refine ⟨reverted, committed, ran, wrote, ?_, latest⟩
  rw [kept]
  decide +kernel

end ContractLedger.Site
