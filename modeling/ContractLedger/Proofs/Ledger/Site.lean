import ContractLedger.Proofs.Ledger.Command

/-!
Ledgers that share a store. A site is a store with any number of sessions, each of them a ledger with
the checkpoints of its batch, and it remembers the roots of the commits that were made. Whatever
sequence of moves a site is reached by, every session is sound, every checkpoint of its batch can be
returned to, and the store shows every root that was committed.
-/

namespace ContractLedger

inductive Move where
  | run (command : Command)
  | checkpoint
  | revertTo (root : Hash)
  | commit
  | rollback
  | loadSnapshot (root : Hash)
  | openAt (root : Hash)
  | openLatest
  | refresh
deriving DecidableEq

/-- A ledger with the checkpoints of its batch. -/
structure Session where
  ledger : Ledger
  checkpoints : List Hash

def Session.idle : Session := ⟨.ofRoot Node.emptyRoot, []⟩

/-- Sessions that share a store, and the roots of the commits so far. -/
structure Site (σ : Type) where
  store : σ
  journal : Journal
  sessions : Nat → Session
  commits : List Hash

namespace Move

def step {σ : Type} [ByteStore σ] : Move → LedgerM σ Unit
  | run command => (fun _ => ()) <$> command.run
  | checkpoint => (fun _ => ()) <$> Ledger.checkpoint
  | revertTo root => Ledger.revertTo root
  | commit => Ledger.commit
  | rollback => Ledger.rollback
  | loadSnapshot root => Ledger.loadSnapshot root
  | openAt root => Ledger.openAt root
  | openLatest => Ledger.openLatest
  | refresh => Ledger.refresh

/-- The checkpoints of the batch after a move that was made at a root. -/
def checkpoints : Move → Hash → List Hash → List Hash
  | checkpoint, root, before => root :: before
  | run _, _, before | revertTo _, _, before => before
  | _, _, _ => []

/-- The roots of the commits after a move that was made at a root. -/
def commits : Move → Hash → List Hash → List Hash
  | commit, root, before => root :: before
  | refresh, _, _ => []
  | _, _, before => before

def code : Move → List Bytes
  | run command => command.code
  | _ => []

def Continues : Move → Prop
  | run _ | checkpoint | revertTo _ => True
  | _ => False

def Drops : Move → Prop
  | rollback | loadSnapshot _ | openAt _ | openLatest => True
  | _ => False

theorem Continues.mem_checkpoints {move : Move} (continues : move.Continues) {root other : Hash}
    {before : List Hash} (member : other ∈ move.checkpoints root before) :
    other = root ∨ other ∈ before := by
  cases move with
  | run command => exact .inr member
  | checkpoint => exact List.mem_cons.mp member
  | revertTo root => exact .inr member
  | _ => exact continues.elim

theorem Continues.commits {move : Move} (continues : move.Continues) (root : Hash)
    (before : List Hash) : move.commits root before = before := by
  cases move <;> first | rfl | exact continues.elim

theorem Drops.checkpoints {move : Move} (drops : move.Drops) (root : Hash) (before : List Hash) :
    move.checkpoints root before = [] := by
  cases move <;> first | rfl | exact drops.elim

theorem Drops.commits {move : Move} (drops : move.Drops) (root : Hash) (before : List Hash) :
    move.commits root before = before := by
  cases move <;> first | rfl | exact drops.elim

end Move

namespace Site

section Moves

variable {σ : Type}

/-- A store to which no session has turned yet. -/
def start (store : σ) (journal : Journal) : Site σ :=
  ⟨store, journal, fun _ => .idle, []⟩

def mounted (site : Site σ) (index : Nat) : Ledger.Mounted σ :=
  ⟨(site.sessions index).ledger, site.store, site.journal⟩

def leave (site : Site σ) (index : Nat) (after : Ledger.Mounted σ) (checkpoints commits : List Hash) :
    Site σ :=
  ⟨after.store, after.journal,
    Function.update site.sessions index ⟨after.ledger, checkpoints⟩, commits⟩

def after [ByteStore σ] (site : Site σ) (index : Nat) (move : Move) : Site σ :=
  let session := site.sessions index
  match move.step (site.mounted index) with
  | .ok _ after =>
    site.leave index after (move.checkpoints session.ledger.root session.checkpoints)
      (move.commits session.ledger.root site.commits)
  | .error _ after => site.leave index after session.checkpoints site.commits

variable [ByteStore σ] [ReliableStore σ]

/-- The moves that a session may make: it returns to checkpoints of its batch only, of the roots that
the store has it opens only those of commits, and it empties the store only if no other session is
in use. -/
def Allows (site : Site σ) (index : Nat) : Move → Prop
  | .revertTo root => root ∈ (site.sessions index).checkpoints
  | .loadSnapshot root | .openAt root =>
    (content site.store).Knows root → root = Node.emptyRoot ∨ root ∈ site.commits
  | .refresh => ∀ other, other ≠ index → site.sessions other = .idle
  | _ => True

/-- The sites that are reached from a store that holds nothing, all their records and code being
among given data. -/
inductive Reached (data : Set Bytes) : Site σ → Prop
  | start {store : σ} {journal : Journal} (blank : (content store).Blank) :
      Reached data (start store journal)
  | move {site : Site σ} {index : Nat} {move : Move} (before : Reached data site)
      (allowed : site.Allows index move) (within : ∀ code ∈ move.code, code ∈ data)
      (pending : ((site.after index move).sessions index).ledger.pending ⊆ data) :
      Reached data (site.after index move)

def view (site : Site σ) : Site Content :=
  ⟨content site.store, site.journal, site.sessions, site.commits⟩

end Moves

/-! What a move leaves of the store and of the sessions. -/

section Leaving

variable {σ : Type} {site : Site σ} {index other : Nat} {after : Ledger.Mounted σ}
  {checkpoints commits : List Hash}

private theorem leave_here : (site.leave index after checkpoints commits).sessions index =
    ⟨after.ledger, checkpoints⟩ :=
  Function.update_self ..

private theorem leave_there (apart : other ≠ index) :
    (site.leave index after checkpoints commits).sessions other = site.sessions other :=
  Function.update_of_ne apart ..

variable [ByteStore σ] {move : Move}

theorem after_ok (ran : move.step (site.mounted index) = .ok () after) :
    site.after index move = site.leave index after
      (move.checkpoints (site.sessions index).ledger.root (site.sessions index).checkpoints)
      (move.commits (site.sessions index).ledger.root site.commits) := by
  rw [Site.after, ran]

theorem after_error {error : LedgerError}
    (ran : move.step (site.mounted index) = .error error after) :
    site.after index move =
      site.leave index after (site.sessions index).checkpoints site.commits := by
  rw [Site.after, ran]

/-- The session that moves is left where the step of the move ends, and so is the store. -/
theorem after_here (site : Site σ) (index : Nat) (move : Move) :
    (site.after index move).mounted index = ending (move.step (site.mounted index)) := by
  cases ran : move.step (site.mounted index) with
  | ok value after =>
    rw [after_ok ran, mounted, leave_here]
    rfl
  | error error after =>
    rw [after_error ran, mounted, leave_here]
    rfl

theorem after_there (apart : other ≠ index) :
    (site.after index move).sessions other = site.sessions other := by
  cases ran : move.step (site.mounted index) with
  | ok value after => rw [after_ok ran, leave_there apart]
  | error error after => rw [after_error ran, leave_there apart]

end Leaving

/-! A site over a reliable store goes the way of its content. -/

variable {σ : Type} [ByteStore σ] [ReliableStore σ] {data : Set Bytes}

private theorem agree_step (move : Move) :
    Agree Ledger.Mounted.view unmeasured (move.step : LedgerM σ Unit) move.step := by
  cases move with
  | run command => exact .map _ command.agree_run.forget
  | checkpoint => exact .map _ Ledger.agree_checkpoint.forget
  | revertTo root => exact (Ledger.agree_revertTo root).forget
  | commit => exact Ledger.agree_commit
  | rollback => exact Ledger.agree_rollback
  | loadSnapshot root => exact Ledger.agree_loadSnapshot root
  | openAt root => exact Ledger.agree_openAt root
  | openLatest => exact Ledger.agree_openLatest
  | refresh => exact Ledger.agree_refresh

theorem view_after (site : Site σ) (index : Nat) (move : Move) :
    (site.after index move).view = site.view.after index move := by
  have same : through Ledger.Mounted.view (move.step (site.mounted index)) =
      move.step (site.view.mounted index) := (agree_step move).same (site.mounted index)
  rw [after, after, ← same]
  cases move.step (site.mounted index) <;> rfl

theorem Allows.view {site : Site σ} {index : Nat} {move : Move} (allowed : site.Allows index move) :
    site.view.Allows index move := by
  cases move <;> exact allowed

theorem Reached.view {site : Site σ} (reached : Reached data site) : Reached data site.view := by
  induction reached with
  | start blank => exact .start blank
  | @move site index move before allowed within pending ih =>
    rw [view_after]
    refine .move ih allowed.view within ?_
    rw [← view_after]
    exact pending

/-! Soundness. -/

/-- A site whose sessions are sound, with a book behind every root that it remembers. The store names
the root of the latest commit. -/
structure Sound (data : Set Bytes) (site : Site Content) : Prop where
  store : site.store.Orderly data
  sessions : ∀ index, ∃ book roots, Ledger.Sound data (site.mounted index) book roots
  committed : ∀ index, ∃ book,
    site.store.shelves.Shows (site.sessions index).ledger.accounts.committedRoot book
  checkpoints : ∀ index, ∀ root ∈ (site.sessions index).checkpoints,
    ∃ book, ((site.sessions index).ledger.shelves site.store).Shows root book
  commits : ∀ root ∈ site.commits, ∃ book, site.store.shelves.Shows root book
  latest : site.store Column.accounts Ledger.latestRootKey = site.commits.head?.map Hash.bytes

variable {site : Site Content} {index : Nat} {move : Move} {after : Ledger.Mounted Content}
  {checkpoints commits : List Hash} {book : Book} {roots : Address → Hash} {root : Hash}

private theorem Sound.leave (sound : site.Sound data)
    (within : site.store.shelves.Within after.store.shelves)
    (left : Ledger.Sound data after book roots)
    (committed : ∃ book, after.store.shelves.Shows after.ledger.accounts.committedRoot book)
    (shown : ∀ root ∈ checkpoints, ∃ book, after.shelves.Shows root book)
    (recorded : ∀ root ∈ commits, ∃ book, after.store.shelves.Shows root book)
    (latest : after.store Column.accounts Ledger.latestRootKey = commits.head?.map Hash.bytes) :
    (site.leave index after checkpoints commits).Sound data := by
  have store := left.orderly.store
  refine ⟨store, fun other => ?_, fun other => ?_, fun other root member => ?_, recorded, latest⟩
  · by_cases same : other = index
    · subst other
      rw [mounted, leave_here]
      exact ⟨book, roots, left⟩
    · obtain ⟨book, roots, soundOther⟩ := sound.sessions other
      rw [mounted, leave_there same]
      exact ⟨book, roots, soundOther.grow store within _⟩
  · by_cases same : other = index
    · subst other
      rw [leave_here]
      exact committed
    · obtain ⟨book, shows⟩ := sound.committed other
      rw [leave_there same]
      exact ⟨book, shows.mono within⟩
  · by_cases same : other = index
    · subst other
      rw [leave_here] at member ⊢
      exact shown root member
    · rw [leave_there same] at member ⊢
      obtain ⟨book, shows⟩ := sound.checkpoints other root member
      exact ⟨book, shows.mono (Ledger.shelves_grow within)⟩

private theorem Sound.shows (sound : site.Sound data)
    (allowed : root = Node.emptyRoot ∨ root ∈ site.commits) :
    ∃ book, site.store.shelves.Shows root book := by
  rcases allowed with rfl | member
  · exact ⟨Book.empty, Shelves.shows_empty⟩
  · exact sound.commits root member

/-- What can come of a move of a ledger. -/
inductive Outcome (data : Set Bytes) (mounted : Ledger.Mounted Content) (move : Move) : Prop
  | continued {after : Ledger.Mounted Content} {book : Book} {roots : Address → Hash}
      (continues : move.Continues) (ran : move.step mounted = .ok () after)
      (leads : Ledger.Leads mounted after) (left : Ledger.Sound data after book roots)
  | committed {after : Ledger.Mounted Content} {book : Book} {roots : Address → Hash}
      (same : move = .commit) (ran : move.step mounted = .ok () after)
      (here : Ledger.Sound data mounted book roots)
      (commits : Ledger.Commits data mounted after book roots)
  | dropped {root : Hash} {book : Book} {journal : Journal} (drops : move.Drops)
      (ran : move.step mounted = .ok () ⟨.ofRoot root, mounted.store, journal⟩)
      (shows : mounted.store.shelves.Shows root book)
  | refused {error : LedgerError} (drops : move.Drops)
      (ran : move.step mounted = .error error mounted)
  | emptied {after : Ledger.Mounted Content} (same : move = .refresh)
      (ran : move.step mounted = .ok () after)
      (ledger : after.ledger = .ofRoot Node.emptyRoot) (blank : after.store.Blank)

open Ledger in
/-- What comes of a move that a session of a sound site may make. -/
theorem Sound.outcome (faithful : Faithful data) (sound : site.Sound data)
    (allowed : site.Allows index move) (within : ∀ code ∈ move.code, code ∈ data)
    (pending : ((site.after index move).sessions index).ledger.pending ⊆ data) :
    Outcome data (site.mounted index) move := by
  obtain ⟨book, roots, here⟩ := sound.sessions index
  have space := here.orderly.space
  replace pending : (ending (move.step (site.mounted index))).pending ⊆ data := by
    rwa [← after_here]
  cases move with
  | run command =>
    have ran := (command.succeeds faithful here within).map fun _ => ()
    obtain ⟨after, rootsAfter, ran, leads, left⟩ := ran pending
    exact .continued trivial ran leads left
  | checkpoint => exact .continued trivial rfl (.refl _) here
  | revertTo root =>
    obtain ⟨earlier, shows⟩ := sound.checkpoints index root allowed
    obtain ⟨after, rootsAfter, ran, leads, left⟩ := revertTo_sound faithful here shows
    exact .continued trivial ran leads left
  | commit =>
    obtain ⟨after, ran, commits⟩ := commit_sound faithful here
    exact .committed rfl ran here commits
  | rollback =>
    obtain ⟨journal, ran⟩ := rollback_apply space
    obtain ⟨book, shows⟩ := sound.committed index
    exact .dropped trivial ran shows
  | loadSnapshot root =>
    by_cases known : site.store.Knows root
    · obtain ⟨journal, ran⟩ := loadSnapshot_known space known
      obtain ⟨book, shows⟩ := sound.shows (allowed known)
      exact .dropped trivial ran shows
    · exact .refused trivial (loadSnapshot_unknown space known)
  | openAt root =>
    by_cases known : site.store.Knows root
    · obtain ⟨journal, ran⟩ := @openAt_known (site.mounted index) root known
      obtain ⟨book, shows⟩ := sound.shows (allowed known)
      exact .dropped trivial ran shows
    · exact .refused trivial (openAt_unknown known)
  | openLatest =>
    have latest := sound.latest
    cases made : site.commits with
    | nil =>
      rw [made] at latest
      obtain ⟨journal, ran⟩ := @openLatest_none (site.mounted index) latest
      exact .dropped trivial ran Shelves.shows_empty
    | cons root older =>
      rw [made] at latest
      obtain ⟨book, shows⟩ := sound.commits root (made ▸ List.mem_cons_self)
      obtain ⟨journal, ran⟩ :=
        @openLatest_some (site.mounted index) root latest shows.choose_spec.knows
      exact .dropped trivial ran shows
  | refresh =>
    obtain ⟨after, ran, ledger, blank⟩ := refresh_apply (site.mounted index)
    exact .emptied rfl ran ledger blank

private theorem Sound.lead (sound : site.Sound data)
    (leads : Ledger.Leads (site.mounted index) after) (left : Ledger.Sound data after book roots)
    (shown : ∀ root ∈ checkpoints, ∃ book, after.shelves.Shows root book) :
    (site.leave index after checkpoints site.commits).Sound data := by
  have store : after.store = site.store := leads.store
  refine sound.leave ?_ left ?_ shown ?_ ?_
  · rw [store]
    exact .refl _
  · rw [store, leads.committed]
    exact sound.committed index
  · rw [store]
    exact sound.commits
  · rw [store]
    exact sound.latest

private theorem Sound.shown (sound : site.Sound data)
    (leads : Ledger.Leads (site.mounted index) after) (root : Hash)
    (member : root ∈ (site.sessions index).checkpoints) :
    ∃ book, after.shelves.Shows root book := by
  obtain ⟨book, shows⟩ := sound.checkpoints index root member
  exact ⟨book, shows.mono leads.within⟩

private theorem sound_blank (blank : site.store.Blank) (idle : ∀ index, site.sessions index = .idle)
    (commits : site.commits = []) : site.Sound data := by
  have shows : site.store.shelves.Shows Node.emptyRoot Book.empty := Shelves.shows_empty
  obtain ⟨roots, lists⟩ := shows
  have absent : site.store Column.accounts Ledger.latestRootKey = none := blank _ (by decide) _
  refine ⟨blank.orderly data, fun index => ⟨Book.empty, roots, ?_⟩, fun index => ⟨Book.empty, ?_⟩,
    fun index root member => ?_, ?_, ?_⟩
  · rw [mounted, idle]
    exact Ledger.sound_ofRoot (blank.orderly data) lists site.journal
  · rw [idle]
    exact Shelves.shows_empty
  · rw [idle] at member
    cases member
  · rw [commits]
    nofun
  · rw [commits, absent]
    rfl

/-- What a move leaves of a sound site is sound. -/
theorem Sound.step (faithful : Faithful data) (sound : site.Sound data)
    (allowed : site.Allows index move) (within : ∀ code ∈ move.code, code ∈ data)
    (pending : ((site.after index move).sessions index).ledger.pending ⊆ data) :
    (site.after index move).Sound data := by
  obtain ⟨book, roots, here⟩ := sound.sessions index
  cases sound.outcome faithful allowed within pending with
  | continued continues ran leads left =>
    rw [after_ok ran, continues.commits]
    refine sound.lead leads left fun root member => ?_
    rcases continues.mem_checkpoints member with rfl | member
    · exact ⟨book, roots, here.lists.mono leads.within⟩
    · exact sound.shown leads root member
  | @committed after book roots same ran here commits =>
    subst move
    have shows : after.store.shelves.Shows (site.mounted index).ledger.root book :=
      ⟨roots, commits.lists⟩
    rw [after_ok ran]
    refine sound.leave commits.within commits.sound ?_ nofun ?_ commits.latest
    · rw [commits.ledger]
      exact ⟨book, shows⟩
    · rintro root (_ | ⟨_, member⟩)
      · exact ⟨book, shows⟩
      · obtain ⟨book, earlier⟩ := sound.commits root member
        exact ⟨book, earlier.mono commits.within⟩
  | dropped drops ran shows =>
    obtain ⟨roots, lists⟩ := shows
    rw [after_ok ran, drops.checkpoints, drops.commits]
    exact sound.leave (.refl _) (Ledger.sound_ofRoot sound.store lists _) ⟨_, roots, lists⟩ nofun
      sound.commits sound.latest
  | refused drops ran =>
    rw [after_error ran]
    exact sound.lead (.refl _) here (sound.shown (.refl _))
  | emptied same ran ledger blank =>
    subst move
    rw [after_ok ran]
    refine sound_blank blank (fun other => ?_) rfl
    by_cases same : other = index
    · rw [same, leave_here, ledger]
      rfl
    · rw [leave_there same]
      exact allowed other same

/-- Every site that is reached is sound. -/
theorem Reached.sound (faithful : Faithful data) (reached : Reached data site) :
    site.Sound data := by
  induction reached with
  | start blank => exact sound_blank blank (fun _ => rfl) rfl
  | move before allowed within pending ih => exact ih.step faithful allowed within pending

theorem Reached.mounted_sound {σ : Type} [ByteStore σ] [ReliableStore σ] {data : Set Bytes}
    {site : Site σ} (faithful : Faithful data) (reached : Reached data site) (index : Nat) :
    ∃ book roots, Ledger.Sound data (site.mounted index).view book roots :=
  (reached.view.sound faithful).sessions index

/-! Runs. The data of a run is what was pending after one of its moves and the code brought in. -/

section Runs

variable {σ : Type} [ByteStore σ] {data : Set Bytes}

/-- The site after a sequence of moves, each with the session that makes it. -/
def run (site : Site σ) : List (Nat × Move) → Site σ
  | [] => site
  | (index, move) :: moves => (site.after index move).run moves

def seen (site : Site σ) : List (Nat × Move) → List Bytes
  | [] => []
  | (index, move) :: moves =>
    move.code ++ ((site.after index move).sessions index).ledger.pendingList ++
      (site.after index move).seen moves

variable {site : Site σ} {index : Nat} {move : Move} {moves : List (Nat × Move)}

private theorem seen_code (seen : ∀ bytes ∈ site.seen ((index, move) :: moves), bytes ∈ data) :
    ∀ code ∈ move.code, code ∈ data :=
  fun code member => seen code (List.mem_append_left _ (List.mem_append_left _ member))

theorem seen_pending (seen : ∀ bytes ∈ site.seen ((index, move) :: moves), bytes ∈ data) :
    ((site.after index move).sessions index).ledger.pending ⊆ data :=
  fun bytes pending => seen bytes (List.mem_append_left _ (List.mem_append_right _
    (Ledger.mem_pendingList.mpr pending)))

theorem seen_tail (seen : ∀ bytes ∈ site.seen ((index, move) :: moves), bytes ∈ data) :
    ∀ bytes ∈ (site.after index move).seen moves, bytes ∈ data :=
  fun bytes member => seen bytes (List.mem_append_right _ member)

variable [ReliableStore σ]

/-- Whether every move of a sequence may be made in its turn. -/
def Permits (site : Site σ) : List (Nat × Move) → Prop
  | [] => True
  | (index, move) :: moves => site.Allows index move ∧ (site.after index move).Permits moves

/-- What the first of a sequence of moves leads to is reached. -/
theorem Reached.head (reached : Reached data site)
    (permits : site.Permits ((index, move) :: moves))
    (seen : ∀ bytes ∈ site.seen ((index, move) :: moves), bytes ∈ data) :
    Reached data (site.after index move) :=
  .move reached permits.1 (seen_code seen) (seen_pending seen)

theorem Reached.outcome (faithful : Faithful data) (reached : Reached data site)
    (permits : site.Permits ((index, move) :: moves))
    (seen : ∀ bytes ∈ site.seen ((index, move) :: moves), bytes ∈ data) :
    Outcome data (site.mounted index).view move := by
  refine (reached.view.sound faithful).outcome faithful permits.1.view (seen_code seen) ?_
  rw [← view_after]
  exact seen_pending seen

theorem Reached.run (reached : Reached data site) (moves : List (Nat × Move))
    (permits : site.Permits moves) (seen : ∀ bytes ∈ site.seen moves, bytes ∈ data) :
    Reached data (site.run moves) := by
  induction moves generalizing site with
  | nil => exact reached
  | cons head moves ih => exact ih (reached.head permits seen) permits.2 (seen_tail seen)

def unused : Site Memory := start Memory.empty []

theorem reached_unused (data : Set Bytes) : Reached data unused :=
  .start Memory.blank_empty

end Runs

end Site

end ContractLedger
