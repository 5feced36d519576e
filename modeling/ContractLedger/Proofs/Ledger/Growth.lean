import ContractLedger.Proofs.Ledger.Site

/-!
What sessions leave to each other. Unless a move empties the store, everything that was found in the
store before it is found there afterwards; a session that makes no move stays as it is; and one that
goes on with its batch still finds everything that it found before.
-/

namespace ContractLedger.Site

variable {data : Set Bytes}

namespace Outcome

variable {mounted : Ledger.Mounted Content} {move : Move}

theorem store_within (outcome : Outcome data mounted move) (kept : move ≠ .refresh) :
    mounted.store.shelves.Within (ending (move.step mounted)).store.shelves := by
  cases outcome with
  | continued continues ran leads left =>
    rw [ran, ending, leads.store]
    exact .refl _
  | committed same ran here commits =>
    rw [ran]
    exact commits.within
  | dropped drops ran shows =>
    rw [ran]
    exact .refl _
  | refused drops ran =>
    rw [ran]
    exact .refl _
  | emptied same => exact absurd same kept

theorem leads (outcome : Outcome data mounted move) (continues : move.Continues) :
    Ledger.Leads mounted (ending (move.step mounted)) := by
  cases outcome with
  | continued continues ran leads left =>
    rw [ran]
    exact leads
  | committed same => exact (same ▸ continues : Move.Continues .commit).elim
  | dropped drops | refused drops => cases move <;> first | exact continues.elim | exact drops.elim
  | emptied same => exact (same ▸ continues : Move.Continues .refresh).elim

end Outcome

variable {σ : Type} [ByteStore σ]

theorem run_there {site : Site σ} {other : Nat} {moves : List (Nat × Move)}
    (still : ∀ step ∈ moves, step.1 ≠ other) :
    (site.run moves).sessions other = site.sessions other := by
  induction moves generalizing site with
  | nil => rfl
  | cons head moves ih =>
    obtain ⟨apart, stillRest⟩ := List.forall_mem_cons.mp still
    exact (ih stillRest).trans (after_there apart.symm)

variable [ReliableStore σ] {site : Site σ}

/-- What every move of a sequence preserves holds after all of them. -/
theorem Reached.run_induction {motive : Site σ → Prop} (faithful : Faithful data)
    (reached : Reached data site) {moves : List (Nat × Move)} (permits : site.Permits moves)
    (seen : ∀ bytes ∈ site.seen moves, bytes ∈ data)
    (keeps : ∀ (before : Site σ) (index : Nat) (move : Move), (index, move) ∈ moves →
      Outcome data (before.mounted index).view move → motive before →
      motive (before.after index move))
    (start : motive site) : motive (site.run moves) := by
  induction moves generalizing site with
  | nil => exact start
  | cons head moves ih =>
    obtain ⟨index, move⟩ := head
    refine ih (reached.head permits seen) permits.2 (seen_tail seen)
      (fun before index move member => keeps before index move (List.mem_cons_of_mem _ member)) ?_
    exact keeps site index move List.mem_cons_self (reached.outcome faithful permits seen) start

def shelves (site : Site σ) : Shelves :=
  (content site.store).shelves

theorem view_after_here (site : Site σ) (index : Nat) (move : Move) :
    ((site.after index move).mounted index).view =
      ending (move.step (site.mounted index).view) := by
  have here := after_here site.view index move
  rw [← view_after] at here
  exact here

/-- A move that does not empty the store takes nothing from it. -/
theorem shelves_after {index : Nat} {move : Move}
    (outcome : Outcome data (site.mounted index).view move) (kept : move ≠ .refresh) :
    site.shelves.Within (site.after index move).shelves := by
  have within := outcome.store_within kept
  rw [← view_after_here] at within
  exact within

/-- The store loses nothing unless it is emptied. -/
theorem Reached.shelves_run (faithful : Faithful data) (reached : Reached data site)
    {moves : List (Nat × Move)} (permits : site.Permits moves)
    (seen : ∀ bytes ∈ site.seen moves, bytes ∈ data) (kept : ∀ step ∈ moves, step.2 ≠ .refresh) :
    site.shelves.Within (site.run moves).shelves := by
  refine reached.run_induction (motive := fun later => site.shelves.Within later.shelves) faithful
    permits seen (fun before index move member outcome within => ?_) (.refl _)
  exact within.trans (shelves_after outcome (kept _ member))

/-! A session that carries out one command after another. -/

/-- The moves of a session that carries commands out. -/
def carrying (index : Nat) (commands : List Command) : List (Nat × Move) :=
  commands.map fun command => (index, .run command)

theorem grows_carrying (site : Site σ) (index : Nat) (commands : List Command) :
    (site.mounted index).view.pending ⊆
      ((site.run (carrying index commands)).mounted index).view.pending := by
  induction commands generalizing site with
  | nil => exact Set.Subset.refl _
  | cons command commands ih =>
    refine Set.Subset.trans ?_ (ih (site.after index (.run command)))
    rw [view_after_here, Move.step, ending_map]
    exact command.agree_run.grows (site.mounted index)

/-- A session that carries commands out does to its book what they do to any book, and what it leads
to is reached. -/
theorem Reached.carry (faithful : Faithful data) {index : Nat} (commands : List Command)
    (reached : Reached data site) {book : Book} {roots : Address → Hash}
    (sound : Ledger.Sound data (site.mounted index).view book roots)
    (within : ∀ command ∈ commands, ∀ code ∈ command.code, code ∈ data)
    (pending : ((site.run (carrying index commands)).mounted index).view.pending ⊆ data) :
    Reached data (site.run (carrying index commands)) ∧
      ∃ rootsAfter, Ledger.Sound data ((site.run (carrying index commands)).mounted index).view
        (commands.foldl (fun book command => command.effect book) book) rootsAfter := by
  induction commands generalizing site book roots with
  | nil => exact ⟨reached, roots, sound⟩
  | cons command commands ih =>
    obtain ⟨code, withinRest⟩ := List.forall_mem_cons.mp within
    have here := view_after_here site index (.run command)
    have first : ((site.after index (.run command)).mounted index).view.pending ⊆ data :=
      (grows_carrying _ index commands).trans pending
    have ran := (command.succeeds faithful sound code).map fun _ => ()
    obtain ⟨after, rootsAfter, same, _, left⟩ := ran (by
      rw [← Move.step, ← here]
      exact first)
    rw [← Move.step] at same
    rw [same, ending] at here
    rw [← here] at left
    have next : Reached data (site.after index (.run command)) := .move reached trivial code first
    exact ih next left withinRest pending

theorem sound_unused (data : Set Bytes) (index : Nat) :
    ∃ roots, Ledger.Sound data (unused.mounted index).view Book.empty roots := by
  obtain ⟨roots, lists⟩ : (content Memory.empty).shelves.Shows Node.emptyRoot Book.empty :=
    Shelves.shows_empty
  exact ⟨roots, Ledger.sound_ofRoot (Memory.blank_empty.orderly data) lists []⟩

end ContractLedger.Site
