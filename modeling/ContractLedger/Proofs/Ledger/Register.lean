import ContractLedger.Proofs.Ledger.Sight

/-!
The ledger as a plain register: a current book and a committed one. A ledger that starts over an
empty store goes along with the register through every sequence of operations. Each of them succeeds
with the reply that the register gives, and only a commit changes what the store holds.
-/

namespace ContractLedger

/-- A command, or the end of a batch. -/
inductive Operation where
  | run (command : Command)
  | commit
  | rollback
deriving DecidableEq

/-- The book of the batch, and the one that was committed last. -/
structure Register where
  current : Book
  committed : Book

def Register.empty : Register := ⟨.empty, .empty⟩

namespace Operation

/-- The step of the ledger that an operation is. -/
def step {σ : Type} [ByteStore σ] : Operation → LedgerM σ Reply
  | run command => command.run
  | commit => (fun _ => .done) <$> Ledger.commit
  | rollback => (fun _ => .done) <$> Ledger.rollback

def effect : Operation → Register → Register
  | run command, register => { register with current := command.effect register.current }
  | commit, register => { register with committed := register.current }
  | rollback, register => { register with current := register.committed }

noncomputable def reply : Operation → Register → Reply
  | run command, register => command.reply register.current
  | commit, _ | rollback, _ => .done

def code : Operation → List Bytes
  | run command => command.code
  | commit | rollback => []

section Sequences

variable {σ : Type} [ByteStore σ]

/-- The data of a sequence of operations: what is pending after each, and the code brought in. -/
def seen (mounted : Ledger.Mounted σ) : List Operation → List Bytes
  | [] => []
  | operation :: operations =>
    let after := ending (operation.step mounted)
    operation.code ++ after.ledger.pendingList ++ seen after operations

variable [ReliableStore σ]

/-- A ledger that goes along with a register through a sequence of operations. -/
def Follows (mounted : Ledger.Mounted σ) (register : Register) : List Operation → Prop
  | [] => True
  | operation :: operations =>
    ∃ after, operation.step mounted = .ok (operation.reply register) after ∧
      (operation ≠ .commit → content after.store = content mounted.store) ∧
      Follows after (operation.effect register) operations

private theorem agree_step (operation : Operation) :
    Agree Ledger.Mounted.view unmeasured (operation.step : LedgerM σ Reply) operation.step := by
  cases operation with
  | run command => exact command.agree_run.forget
  | commit => exact .map _ Ledger.agree_commit
  | rollback => exact .map _ Ledger.agree_rollback

end Sequences

/-- A ledger that holds the books of a register. -/
structure Holds (data : Set Bytes) (mounted : Ledger.Mounted Content) (register : Register) :
    Prop where
  current : ∃ roots, Ledger.Sound data mounted register.current roots
  committed :
    mounted.store.shelves.Shows mounted.ledger.accounts.committedRoot register.committed

variable {data : Set Bytes} {mounted : Ledger.Mounted Content} {register : Register}

open Ledger in
/-- One operation on a ledger that holds the books of a register. -/
theorem Holds.step (faithful : Faithful data) (holds : Holds data mounted register)
    (operation : Operation) (within : ∀ code ∈ operation.code, code ∈ data)
    (pending : (ending (operation.step mounted)).pending ⊆ data) :
    ∃ after, operation.step mounted = .ok (operation.reply register) after ∧
      (operation ≠ .commit → after.store = mounted.store) ∧
      Holds data after (operation.effect register) := by
  obtain ⟨⟨roots, sound⟩, committed⟩ := holds
  cases operation with
  | run command =>
    obtain ⟨after, rootsAfter, ran, leads, left⟩ := command.succeeds faithful sound within pending
    refine ⟨after, ran, fun _ => leads.store, ⟨rootsAfter, left⟩, ?_⟩
    rw [leads.store, leads.committed]
    exact committed
  | commit =>
    obtain ⟨after, ran, commits⟩ := commit_sound faithful sound
    have shows : after.store.shelves.Shows after.ledger.accounts.committedRoot register.current := by
      rw [commits.ledger]
      exact ⟨roots, commits.lists⟩
    exact ⟨after, Step.map_ok ran _, fun other => absurd rfl other, ⟨roots, commits.sound⟩, shows⟩
  | rollback =>
    obtain ⟨journal, ran⟩ := rollback_apply sound.orderly.space
    obtain ⟨rootsBefore, lists⟩ := committed
    have left := sound_ofRoot sound.orderly.store lists journal
    exact ⟨⟨.ofRoot mounted.ledger.accounts.committedRoot, mounted.store, journal⟩,
      Step.map_ok ran _, fun _ => rfl, ⟨rootsBefore, left⟩, ⟨rootsBefore, lists⟩⟩

variable {σ : Type} [ByteStore σ] [ReliableStore σ]

/-- A ledger whose content holds the books of a register goes along with it. -/
theorem Holds.follows (faithful : Faithful data) (operations : List Operation)
    {mounted : Ledger.Mounted σ} {register : Register} (holds : Holds data mounted.view register)
    (within : ∀ bytes ∈ seen mounted operations, bytes ∈ data) :
    Follows mounted register operations := by
  induction operations generalizing mounted register with
  | nil => trivial
  | cons operation operations ih =>
    have same := (agree_step operation).same mounted
    have last := ending_through Ledger.Mounted.view (operation.step mounted)
    rw [same] at last
    have code (bytes : Bytes) (member : bytes ∈ operation.code) : bytes ∈ data :=
      within bytes (List.mem_append_left _ (List.mem_append_left _ member))
    have pending : (ending (operation.step mounted.view)).pending ⊆ data := by
      rw [last]
      exact fun bytes member => within bytes (List.mem_append_left _ (List.mem_append_right _
        (Ledger.mem_pendingList.mpr member)))
    obtain ⟨afterView, ran, kept, holdsAfter⟩ := holds.step faithful operation code pending
    rw [ran] at same
    obtain ⟨after, ranHere, rfl⟩ := through_eq_ok same
    refine ⟨after, ranHere, kept, ih holdsAfter fun bytes member => ?_⟩
    refine within bytes (List.mem_append_right _ ?_)
    rwa [ranHere]

/-- A ledger opened over a store that holds nothing goes along with an empty register, whatever is
asked of it. -/
theorem follows_empty {store : σ} (blank : (content store).Blank) (ledger : Ledger)
    (journal : Journal) :
    ∃ opened, Ledger.openLatest ⟨ledger, store, journal⟩ = .ok () opened ∧
      content opened.store = content store ∧
      ∀ operations, Faithful { bytes | bytes ∈ seen opened operations } →
        Follows opened .empty operations := by
  have absent : content store Column.accounts Ledger.latestRootKey = none := blank _ (by decide) _
  have same := Ledger.agree_openLatest.same (⟨ledger, store, journal⟩ : Ledger.Mounted σ)
  obtain ⟨journalAfter, ran⟩ :=
    @Ledger.openLatest_none (Ledger.Mounted.view ⟨ledger, store, journal⟩) absent
  rw [ran] at same
  obtain ⟨opened, ranHere, view⟩ := through_eq_ok same
  refine ⟨opened, ranHere, congrArg Ledger.Mounted.store view, fun operations faithful => ?_⟩
  refine Holds.follows faithful operations ?_ fun bytes member => member
  rw [view]
  obtain ⟨roots, lists⟩ : (content store).shelves.Shows Node.emptyRoot Book.empty :=
    Shelves.shows_empty
  exact ⟨⟨roots, Ledger.sound_ofRoot (blank.orderly _) lists journalAfter⟩, ⟨roots, lists⟩⟩

/-- A value that is committed, removed, and back after a rollback. -/
def removal : List Operation :=
  [.run (.setObject (.ofNat 1) [1] [7]), .commit, .run (.setCode (.ofNat 1) [3]),
    .run (.setObject (.ofNat 1) [1] []), .run (.getObject (.ofNat 1) [1]), .rollback,
    .run (.getObject (.ofNat 1) [1])]

set_option maxRecDepth 100000 in
theorem follows_empty_removal :
    ∃ opened, Ledger.openLatest ⟨.ofRoot Node.emptyRoot, Memory.empty, []⟩ = .ok () opened ∧
      Follows opened .empty removal := by
  obtain ⟨opened, ran, _, follows⟩ := follows_empty Memory.blank_empty (.ofRoot Node.emptyRoot) []
  have here : opened = ending (Ledger.openLatest ⟨.ofRoot Node.emptyRoot, Memory.empty, []⟩) := by
    rw [ran]
    rfl
  refine ⟨opened, ran, follows removal ?_⟩
  rw [here]
  exact .of_nodup (by decide +kernel) (by decide +kernel)

end Operation

/-- A session that is reached goes along with a register from then on, as long as no other session
makes a move. -/
theorem Site.Reached.follows {σ : Type} [ByteStore σ] [ReliableStore σ] {data : Set Bytes}
    {site : Site σ} (faithful : Faithful data) (reached : Reached data site) (index : Nat) :
    ∃ register : Register,
      (site.mounted index).sight = .ofBook (site.mounted index).ledger.root register.current ∧
      ∀ operations, (∀ bytes ∈ Operation.seen (site.mounted index) operations, bytes ∈ data) →
        Operation.Follows (site.mounted index) register operations := by
  have whole := reached.view.sound faithful
  obtain ⟨current, roots, sound⟩ := whole.sessions index
  obtain ⟨committed, shows⟩ := whole.committed index
  refine ⟨⟨current, committed⟩, ?_, fun operations within => ?_⟩
  · rw [← Ledger.sight_view]
    exact sound.sight faithful
  · exact Operation.Holds.follows faithful operations ⟨⟨roots, sound⟩, shows⟩ within

end ContractLedger
