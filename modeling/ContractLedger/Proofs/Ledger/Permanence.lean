import ContractLedger.Proofs.Ledger.Growth
import ContractLedger.Proofs.Ledger.Sight

/-!
Commits are for good. Whatever sessions do over one store, as long as none empties it, none of them
notices what the others do, every state that was committed can be loaded and opened as it was, and
the store opens at the latest of them.
-/

namespace ContractLedger.Site

variable {data : Set Bytes}

private theorem Outcome.commits {site : Site Content} {index : Nat} {move : Move}
    (outcome : Outcome data (site.mounted index) move) :
    (site.after index move).commits =
      move.commits (site.mounted index).ledger.root site.commits := by
  cases outcome with
  | continued _ ran | committed _ ran | dropped _ ran | emptied _ ran =>
    rw [after_ok ran]
    rfl
  | refused drops ran =>
    rw [after_error ran, drops.commits]
    rfl

private theorem commits_other {move : Move} (other : move ≠ .commit) (kept : move ≠ .refresh)
    (root : Hash) (before : List Hash) : move.commits root before = before := by
  cases move <;> first | rfl | contradiction

section Committed

variable {σ : Type} [ByteStore σ]

/-- What was seen at the commits of a sequence of moves, the latest first. -/
def committed (site : Site σ) : List (Nat × Move) → List Sight
  | [] => []
  | (index, move) :: moves =>
    (site.after index move).committed moves ++
      if move = .commit then [(site.mounted index).sight] else []

variable [ReliableStore σ] {site : Site σ}

theorem Reached.commits_run (faithful : Faithful data) (reached : Reached data site)
    {moves : List (Nat × Move)} (permits : site.Permits moves)
    (seen : ∀ bytes ∈ site.seen moves, bytes ∈ data) (kept : ∀ step ∈ moves, step.2 ≠ .refresh) :
    (site.run moves).commits = (site.committed moves).map Sight.root ++ site.commits := by
  induction moves generalizing site with
  | nil => rfl
  | cons head moves ih =>
    obtain ⟨index, move⟩ := head
    obtain ⟨keptHere, keptRest⟩ := List.forall_mem_cons.mp kept
    have rest := ih (reached.head permits seen) permits.2 (seen_tail seen) keptRest
    have here : (site.after index move).commits =
        move.commits (site.mounted index).ledger.root site.commits := by
      have outcome := reached.outcome faithful permits seen
      have recorded := @Outcome.commits data site.view index move outcome
      rwa [← view_after] at recorded
    rw [Site.run, rest, here, committed, List.map_append, List.append_assoc]
    by_cases same : move = .commit
    · subst move
      rfl
    · rw [commits_other same keptHere, if_neg same]
      rfl

private theorem Reached.shows_commit (faithful : Faithful data) (reached : Reached data site)
    {index : Nat} {moves : List (Nat × Move)} (permits : site.Permits ((index, .commit) :: moves))
    (seen : ∀ bytes ∈ site.seen ((index, .commit) :: moves), bytes ∈ data) :
    ∃ book, (site.after index .commit).shelves.Shows (site.mounted index).sight.root book ∧
      (site.mounted index).sight = .ofBook (site.mounted index).sight.root book := by
  cases reached.outcome faithful permits seen with
  | @committed after book roots _ ran here commits =>
    have store : (site.after index .commit).shelves = after.store.shelves := by
      have left := view_after_here site index .commit
      rw [ran] at left
      exact congrArg (fun mounted => mounted.store.shelves) left
    rw [store, ← Ledger.sight_view]
    exact ⟨book, ⟨roots, commits.lists⟩, here.sight faithful⟩
  | continued continues | dropped continues | refused continues => exact continues.elim
  | emptied same => cases same

/-- The store goes on to show every state that was committed. -/
theorem Reached.committed_shows (faithful : Faithful data) (reached : Reached data site)
    {moves : List (Nat × Move)} (permits : site.Permits moves)
    (seen : ∀ bytes ∈ site.seen moves, bytes ∈ data) (kept : ∀ step ∈ moves, step.2 ≠ .refresh)
    {sight : Sight} (member : sight ∈ site.committed moves) :
    ∃ book, (site.run moves).shelves.Shows sight.root book ∧ sight = .ofBook sight.root book := by
  induction moves generalizing site with
  | nil => cases member
  | cons head moves ih =>
    obtain ⟨index, move⟩ := head
    obtain ⟨keptHere, keptRest⟩ := List.forall_mem_cons.mp kept
    have next := reached.head permits seen
    rcases List.mem_append.mp member with later | here
    · exact ih next permits.2 (seen_tail seen) keptRest later
    · split at here
      · next same =>
        obtain rfl := List.mem_singleton.mp here
        subst move
        obtain ⟨book, shows, whole⟩ := reached.shows_commit faithful permits seen
        exact ⟨book, shows.mono (next.shelves_run faithful permits.2 (seen_tail seen) keptRest),
          whole⟩
      · cases here

private theorem Reached.gives (faithful : Faithful data) (reached : Reached data site) {root : Hash}
    {book : Book} (shows : site.shelves.Shows root book) (index : Nat) :
    (site.mounted index).Gives (Ledger.loadSnapshot root) (.ofBook root book) ∧
      (site.mounted index).Gives (Ledger.openAt root) (.ofBook root book) := by
  obtain ⟨_, _, here⟩ := reached.mounted_sound faithful index
  have orderly := here.orderly
  have known : (site.mounted index).view.store.Knows root := shows.choose_spec.knows
  have loaded := Ledger.Mounted.Gives.of_shows faithful orderly.store shows
    (Ledger.loadSnapshot_known orderly.space known)
  have opened := Ledger.Mounted.Gives.of_shows faithful orderly.store shows
    (Ledger.openAt_known known)
  exact ⟨loaded.of_view (Ledger.agree_loadSnapshot root), opened.of_view (Ledger.agree_openAt root)⟩

private theorem Reached.gives_latest (faithful : Faithful data) (reached : Reached data site)
    {root : Hash} {book : Book} (shows : site.shelves.Shows root book)
    (latest : site.commits.head? = some root) (index : Nat) :
    (site.mounted index).Gives Ledger.openLatest (.ofBook root book) := by
  have sound := reached.view.sound faithful
  have known : (site.mounted index).view.store.Knows root := shows.choose_spec.knows
  have named : (site.mounted index).view.store Column.accounts Ledger.latestRootKey =
      some root.bytes := sound.latest.trans (congrArg (Option.map Hash.bytes) latest)
  have opened := @Ledger.Mounted.Gives.of_shows data (site.mounted index).view book faithful
    sound.store root shows _ (Ledger.openLatest_some named known)
  exact opened.of_view Ledger.agree_openLatest

/-- Sessions over a store that none of them empties leave each other alone, whatever they do; what
was seen at a commit is seen ever after by who loads or opens its root; and the store opens at the
latest commit. -/
theorem Reached.committed_stays (faithful : Faithful data) (reached : Reached data site)
    (moves : List (Nat × Move)) (permits : site.Permits moves)
    (seen : ∀ bytes ∈ site.seen moves, bytes ∈ data) (kept : ∀ step ∈ moves, step.2 ≠ .refresh) :
    (∀ other, (∀ step ∈ moves, step.1 ≠ other) →
      ((site.run moves).mounted other).sight = (site.mounted other).sight) ∧
    (∀ sight ∈ site.committed moves, sight.Complete ∧ ∀ index,
      ((site.run moves).mounted index).Gives (Ledger.loadSnapshot sight.root) sight ∧
      ((site.run moves).mounted index).Gives (Ledger.openAt sight.root) sight) ∧
    ∀ sight, (site.committed moves).head? = some sight → ∀ index,
      ((site.run moves).mounted index).Gives Ledger.openLatest sight := by
  have later := reached.run moves permits seen
  refine ⟨fun other still => ?_, fun sight member => ?_, fun sight first index => ?_⟩
  · obtain ⟨_, _, here⟩ := reached.mounted_sound faithful other
    have within := reached.shelves_run faithful permits seen kept
    have grown := here.grow (later.view.sound faithful).store within (site.run moves).journal
    have same : ((site.run moves).mounted other).view.sight = (site.mounted other).view.sight := by
      rw [mounted, run_there still]
      exact grown.sight_eq faithful here
    rwa [Ledger.sight_view, Ledger.sight_view] at same
  · obtain ⟨book, shows, whole⟩ := reached.committed_shows faithful permits seen kept member
    have gives := later.gives faithful shows
    rw [← whole] at gives
    refine ⟨?_, gives⟩
    rw [whole]
    exact Sight.complete_ofBook _ _
  · obtain ⟨book, shows, whole⟩ := reached.committed_shows faithful permits seen kept
      (List.mem_of_mem_head? first)
    have latest : (site.run moves).commits.head? = some sight.root := by
      rw [reached.commits_run faithful permits seen kept, List.head?_append, List.head?_map, first]
      rfl
    have gives := later.gives_latest faithful shows latest index
    rwa [← whole] at gives

end Committed

/-- Two sessions that commit, neither knowing of the other. -/
def forked : List (Nat × Move) :=
  [(0, .run (.setObject (.ofNat 1) [1] [7])), (0, .commit), (1, .run (.setBalance (.ofNat 2) 5)),
    (1, .commit)]

set_option maxRecDepth 100000 in
theorem committed_stays_forked :
    ((unused.run forked).mounted 2).sight = (unused.mounted 2).sight ∧
    (∃ loaded, Ledger.loadSnapshot ((unused.run (forked.take 1)).mounted 0).ledger.root
      ((unused.run forked).mounted 1) = .ok () loaded ∧
      loaded.sight.object (.ofNat 1) [1] = .ok (some [7])) ∧
    ∃ opened, Ledger.openLatest ((unused.run forked).mounted 0) = .ok () opened ∧
      opened.sight.balance (.ofNat 2) = .ok 5 := by
  have faithful : Faithful { bytes | bytes ∈ unused.seen forked } :=
    .of_nodup (by decide +kernel) (by decide +kernel)
  have still : ∀ step ∈ forked, step.1 ≠ 2 := by decide
  have kept : ∀ step ∈ forked, step.2 ≠ .refresh := by decide
  obtain ⟨apart, stays, latest⟩ := Reached.committed_stays faithful (reached_unused _) forked
    ⟨trivial, trivial, trivial, trivial, trivial⟩ (fun bytes member => member) kept
  have whole : unused.committed forked = [((unused.run (forked.take 3)).mounted 1).sight,
      ((unused.run (forked.take 1)).mounted 0).sight] := rfl
  rw [whole] at stays latest
  obtain ⟨loaded, ranLoad, same⟩ := ((stays _ (List.mem_cons_of_mem _ List.mem_cons_self)).2 1).1
  obtain ⟨opened, ranOpen, sameLatest⟩ := latest _ rfl 0
  refine ⟨apart 2 still, ⟨loaded, ranLoad, ?_⟩, opened, ranOpen, ?_⟩
  · rw [same]
    decide +kernel
  · rw [sameLatest]
    decide +kernel

end ContractLedger.Site
