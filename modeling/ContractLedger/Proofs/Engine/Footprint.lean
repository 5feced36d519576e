import ContractLedger.Contract.Samples
import ContractLedger.Proofs.Engine.Drafting
import ContractLedger.Proofs.Engine.Seen
import ContractLedger.Proofs.Engine.Undone

/-!
What an invocation can change. The store is only read; no balance and no code changes; and nothing else of
an address changes unless code ran there, in the outermost frame or below calls that all succeeded.
-/

namespace ContractLedger

variable {data : Set Bytes} {touched more : List Address}

/-- Books that differ in the storage of some addresses only. -/
structure Book.Confined (touched : List Address) (book other : Book) : Prop
    extends book.Alike other where
  elsewhere : ∀ address, address ∉ touched → other address = book address

namespace Book.Confined

theorem refl (touched : List Address) (book : Book) : book.Confined touched book :=
  ⟨.refl book, fun _ _ => rfl⟩

theorem trans {book other another : Book} (first : book.Confined touched other)
    (second : other.Confined touched another) : book.Confined touched another :=
  ⟨first.toAlike.trans second.toAlike, fun address apart =>
    (second.elsewhere address apart).trans (first.elsewhere address apart)⟩

theorem mono {book other : Book} (confined : book.Confined touched other) (subset : touched ⊆ more) :
    book.Confined more other :=
  ⟨confined.toAlike, fun address apart => confined.elsewhere address (mt (@subset address) apart)⟩

end Book.Confined

namespace Ledger

/-- A ledger later in the same batch, whose book changed in the storage of some addresses only. -/
structure Confined (data : Set Bytes) (touched : List Address) (before after : Mounted Content) : Prop
    extends Onward data before after where
  confined : ∀ book roots, Sound data before book roots → after.pending ⊆ data →
    ∃ bookAfter rootsAfter, Sound data after bookAfter rootsAfter ∧ book.Confined touched bookAfter

instance : IsPreorder (Mounted Content) (Confined data touched) where
  refl mounted :=
    ⟨refl_of (Onward data) mounted, fun book roots sound _ => ⟨book, roots, sound, .refl touched book⟩⟩
  trans _ _ _ before after := by
    refine ⟨trans_of (Onward data) before.toOnward after.toOnward, fun book roots sound pending => ?_⟩
    obtain ⟨_, _, soundMiddle, confined⟩ := before.confined book roots sound (after.grows.trans pending)
    obtain ⟨last, rootsLast, soundLast, confinedLast⟩ := after.confined _ _ soundMiddle pending
    exact ⟨last, rootsLast, soundLast, confined.trans confinedLast⟩

theorem Confined.mono {before after : Mounted Content} (confined : Confined data touched before after)
    (subset : touched ⊆ more) : Confined data more before after := by
  refine ⟨confined.toOnward, fun book roots sound pending => ?_⟩
  obtain ⟨last, rootsLast, soundLast, confinedLast⟩ := confined.confined book roots sound pending
  exact ⟨last, rootsLast, soundLast, confinedLast.mono subset⟩

/-- A step that succeeds on sound ledgers and changes the storage of some addresses only. -/
theorem along_confined {α : Type} {step : LedgerM Content α}
    (agree : Agree Mounted.view Mounted.pending step step)
    (succeeds : ∀ mounted book roots, Sound data mounted book roots →
      ∃ value bookAfter, Succeeds data mounted step value bookAfter ∧ book.Confined touched bookAfter) :
    Along (Confined data touched) step := by
  refine fun mounted => ⟨along_onward agree (fun mounted book roots sound => ?_) mounted,
    fun book roots sound pending => ?_⟩
  · obtain ⟨value, bookAfter, success, _⟩ := succeeds mounted book roots sound
    exact ⟨value, bookAfter, success⟩
  · obtain ⟨value, bookAfter, success, confined⟩ := succeeds mounted book roots sound
    obtain ⟨after, rootsAfter, ran, _, soundAfter⟩ := success pending
    rw [ran]
    exact ⟨bookAfter, rootsAfter, soundAfter, confined⟩

private theorem confined_read {α : Type} {step : LedgerM Content α}
    (agree : Agree Mounted.view Mounted.pending step step)
    (reads : ∀ mounted book roots, Sound data mounted book roots →
      ∃ value, Succeeds data mounted step value book) : Along (Confined data touched) step :=
  along_confined agree fun mounted book roots sound => by
    obtain ⟨value, success⟩ := reads mounted book roots sound
    exact ⟨value, book, success, .refl touched book⟩

end Ledger

/-- What a frame does by itself changes the storage of its own address only. -/
theorem serves_confined (faithful : Faithful data) (frame : Frame) :
    Serves (World.Drafts (Ledger.Confined data [frame.address])) frame where
  spend amount world := by
    rw [Service.ending_spend]
    exact refl_of (Ledger.Confined data [frame.address]) world.host.ledger
  read key := Service.drafts_onLedger (Ledger.confined_read (Ledger.agree_getObject _ key)
    fun _ _ _ sound => ⟨_, Ledger.getObject_succeeds faithful sound _ key⟩)
  write key value := by
    refine Service.drafts_onLedger (Ledger.along_confined (Ledger.agree_setObject _ key value)
      fun mounted book roots sound => ?_)
    exact ⟨_, _, Ledger.setObject_sound faithful sound frame.address key value,
      .set_storage book frame.address _, fun _ apart =>
        Book.set_other _ _ _ (mt List.mem_singleton.mpr apart)⟩
  balance address := Service.drafts_onLedger (Ledger.confined_read (Ledger.agree_getBalance address)
    fun _ _ _ sound => ⟨_, Ledger.getBalance_succeeds faithful sound address⟩)
  code address := Service.drafts_onLedger (Ledger.confined_read (Ledger.agree_getCode address)
    fun _ _ _ sound => ⟨_, Ledger.getCode_succeeds faithful sound address⟩)
  record _ _ world := refl_of (Ledger.Confined data [frame.address]) world.host.ledger
  observe _ world := refl_of (Ledger.Confined data [frame.address]) world.host.ledger

def Request.called? : Request → Option CallRequest
  | .call request => some request
  | _ => none

variable {σ : Type} [ByteStore σ]

namespace Engine

/-- What is collected from the calls that a program makes, in their order. -/
def collect (serve : (request : Request) → ServiceM σ request.Answer)
    (below : CallRequest → World σ → List Address) :
    Program ExecutionError (Option Value) → World σ → List Address
  | .ask request resume, world =>
    request.called?.elim [] (below · world) ++
      collect serve below (resume (answer (serve request world))) (ending (serve request world))
  | _, _ => []

/-- What is collected below a call, given how to collect from what runs in its frame. A call that is
refused or that fails is undone, and nothing is collected from it. -/
def kept (engine : Engine) (levels : Nat) (frame : Frame)
    (within : Frame → Program ExecutionError (Option Value) → World σ → List Address)
    (request : CallRequest) (world : World σ) : List Address :=
  match engine.enter frame request world with
  | .error _ _ => []
  | .ok entry inside =>
    match engine.runEntry levels request entry inside with
    | .error _ _ => []
    | .ok _ _ => within entry.frame (engine.nestedProgram entry.code request) inside

/-- The addresses at which code runs when a program runs in a frame, with so many levels of calls left,
but for what is undone. -/
def lasting (engine : Engine) :
    Nat → Frame → Program ExecutionError (Option Value) → World σ → List Address
  | 0, frame, _, _ => [frame.address]
  | levels + 1, frame, program, world =>
    frame.address :: collect (engine.serve (levels + 1) frame)
      (engine.kept levels frame (lasting engine levels)) program world

omit [ByteStore σ] in
theorem collect_nothing (serve : (request : Request) → ServiceM σ request.Answer)
    (program : Program ExecutionError (Option Value)) (world : World σ) :
    collect serve (fun _ _ => []) program world = [] := by
  induction program generalizing world with
  | done value => rfl
  | fail error => rfl
  | ask request resume ih =>
    rw [collect, ih, List.append_nil]
    cases request.called? <;> rfl

variable {engine : Engine}

/-- What is collected from a program is collected from one of its calls. -/
theorem mem_collect {levels : Nat} {frame : Frame} {below : CallRequest → World σ → List Address}
    {address : Address} (holds : Program ExecutionError (Option Value) → World σ → Prop)
    (next : ∀ request resume world, holds (resume (answer (engine.serve levels frame request world)))
      (ending (engine.serve levels frame request world)) → holds (.ask request resume) world)
    (called : ∀ request resume world, address ∈ below request world → holds (.ask (.call request) resume) world)
    {program : Program ExecutionError (Option Value)} {world : World σ}
    (member : address ∈ collect (engine.serve levels frame) below program world) : holds program world := by
  induction program generalizing world with
  | done value => cases member
  | fail error => cases member
  | ask request resume ih =>
    rcases List.mem_append.mp member with here | later
    · cases request with
      | call request => exact called request resume world here
      | _ => cases here
    · exact next request resume world (ih _ later)

/-- What is collected below a call is collected from what runs in its frame. -/
theorem within_of_kept {levels : Nat} {frame : Frame}
    {within : Frame → Program ExecutionError (Option Value) → World σ → List Address} {request : CallRequest}
    {world : World σ} {address : Address} (member : address ∈ engine.kept levels frame within request world) :
    ∃ entry inside, engine.enter frame request world = .ok entry inside ∧
      address ∈ within entry.frame (engine.nestedProgram entry.code request) inside := by
  unfold kept at member
  cases entered : engine.enter frame request world with
  | error error after =>
    rw [entered] at member
    cases member
  | ok entry inside =>
    simp only [entered] at member
    refine ⟨entry, inside, rfl, ?_⟩
    cases ran : engine.runEntry levels request entry inside with
    | error cause after =>
      rw [ran] at member
      cases member
    | ok value after => rwa [ran] at member

/-- Where code runs that is not undone, a frame of the run is. -/
theorem occurs_of_lasting {levels : Nat} {frame : Frame} {program : Program ExecutionError (Option Value)}
    {world : World σ} {address : Address} (member : address ∈ engine.lasting levels frame program world) :
    ∃ inner last, Occurs engine levels frame program world inner last ∧ inner.address = address := by
  induction levels generalizing frame program world with
  | zero =>
    obtain rfl := List.mem_singleton.mp member
    exact ⟨frame, world, .here, rfl⟩
  | succ levels ih =>
    rcases List.mem_cons.mp member with rfl | member
    · exact ⟨frame, world, .here, rfl⟩
    refine mem_collect (fun program world => ∃ inner last, Occurs engine (levels + 1) frame program world inner
      last ∧ inner.address = address) ?_ ?_ member
    · rintro request resume world ⟨inner, last, later, same⟩
      exact ⟨inner, last, .next later, same⟩
    · intro request resume world below
      obtain ⟨entry, inside, entered, within⟩ := within_of_kept below
      obtain ⟨inner, last, occurs, same⟩ := ih within
      exact ⟨inner, last, .within entered occurs, same⟩

variable [ReliableStore σ]

/-- Worlds whose ledgers, seen through their content, are confined. -/
abbrev Confines (data : Set Bytes) (touched : List Address) : World σ → World σ → Prop :=
  World.Seen (World.Drafts (Ledger.Confined data touched))

/-- Entering a call changes the storage of the caller at most. -/
theorem enter_confined (faithful : Faithful data) (engine : Engine) (frame : Frame) (request : CallRequest) :
    Along (Confines data [frame.address]) (engine.enter frame request : ServiceM σ Entry) :=
  ((serves_confined faithful frame).enter engine request).seen (agree_enter engine frame request)

/-- A request other than a call changes the storage of the address that makes it. -/
theorem serve_confined (faithful : Faithful data) (levels : Nat) (frame : Frame) {request : Request}
    (apart : request.called? = none) :
    Along (Confines data [frame.address]) (engine.serve levels frame request : ServiceM σ _) :=
  ((serves_confined faithful frame).answer _ fun called same => by subst same; cases apart).seen
    (agree_serve engine levels frame request)

/-- A call that fails changes nothing. -/
theorem call_error_confined (faithful : Faithful data) {levels : Nat} {frame : Frame}
    {request : CallRequest} {world after : World σ} {error : ContractError}
    (failed : engine.call levels frame request world = .error error after) :
    Confines data touched world after := by
  have same := (agree_call engine levels frame request).same world
  rw [failed] at same
  have onward := (respected_onward faithful).call engine levels frame request world.view
  rw [← same] at onward
  refine ⟨onward, fun book roots sound pending => ?_⟩
  obtain ⟨rootsAfter, soundAfter⟩ := (call_undone faithful engine levels frame request sound same.symm pending).1
  exact ⟨book, rootsAfter, soundAfter, .refl touched book⟩

/-- A program changes the storage of its own address and what its calls change. -/
theorem collect_confined (faithful : Faithful data) {levels : Nat} {frame : Frame}
    {below : CallRequest → World σ → List Address}
    (calls : ∀ request world, Confines data (frame.address :: below request world) world
      (ending (engine.call levels frame request world)))
    (program : Program ExecutionError (Option Value)) (world : World σ) :
    Confines data (frame.address :: collect (engine.serve levels frame) below program world) world
      (ending (program.run (engine.serve levels frame) world)) := by
  induction program generalizing world with
  | done value => exact refl_of (Confines data _) world
  | fail error => exact refl_of (Confines data _) world
  | ask request resume ih =>
    have first : Confines data (frame.address :: collect (engine.serve levels frame) below
        (.ask request resume) world) world (ending (engine.serve levels frame request world)) := by
      cases request with
      | call called =>
        exact Ledger.Confined.mono (calls called world)
          (List.cons_subset_cons _ (List.subset_append_left _ _))
      | _ =>
        exact Ledger.Confined.mono (serve_confined faithful levels frame rfl world)
          (List.cons_subset_cons _ (List.nil_subset _))
    rw [Program.run_ask]
    exact trans_of (Confines data _) first (Ledger.Confined.mono (ih _ _)
      (List.cons_subset_cons _ (List.subset_append_right _ _)))

/-- A program changes the storage of the addresses at which code runs and is not undone. -/
theorem lasting_confined (faithful : Faithful data) (engine : Engine) (levels : Nat) (frame : Frame)
    (program : Program ExecutionError (Option Value)) (world : World σ) :
    Confines data (engine.lasting levels frame program world) world
      (ending (program.run (engine.serve levels frame) world)) := by
  induction levels generalizing frame program world with
  | zero =>
    -- No level is left, so that every call fails where it is made.
    have calls (request : CallRequest) (world : World σ) : Confines data [frame.address] world
        (ending (engine.call 0 frame request world)) := refl_of (Confines data _) world
    have confined := collect_confined faithful calls program world
    rwa [collect_nothing] at confined
  | succ levels ih =>
    refine collect_confined faithful (fun request world => ?_) program world
    cases called : engine.call (levels + 1) frame request world with
    | error error after => exact call_error_confined faithful called
    | ok value after =>
      obtain ⟨entry, inside, entered, ran⟩ := call_ok called
      have before := enter_confined faithful engine frame request world
      have below := ih entry.frame (engine.nestedProgram entry.code request) inside
      change Confines data _ inside (ending (engine.runEntry levels request entry inside)) at below
      rw [ran] at below
      rw [entered] at before
      simp only [kept, entered, ran]
      exact trans_of (Confines data _) (Ledger.Confined.mono before (List.cons_subset_cons _ (List.nil_subset _)))
        (Ledger.Confined.mono below (List.subset_cons_self _ _))

omit [ReliableStore σ] in
/-- What an invocation leaves of a ledger is what its run leaves, but for the journal. -/
theorem perform_ledger {invocation : Invocation} {code : Bytes} {context : Context} {host : Host σ}
    {meter : GasMeter} :
    let run := engine.runOutermost context (engine.invocationProgram invocation code context)
      (startWorld host meter)
    let last := (engine.perform invocation code context host meter).2.host.ledger
    ∃ journal, last = { (ending run).host.ledger with journal } := by
  intro run last
  unfold last
  rw [perform_eq]
  change ∃ journal, (finish invocation.name context run).2.host.ledger = _
  cases run <;> exact ⟨_, rfl⟩

end Engine

/-- What is seen of ledgers whose books differ in the storage of some addresses. -/
theorem Book.Confined.sight {book other : Book} (confined : book.Confined touched other)
    (root rootAfter : Hash) :
    let before := Sight.ofBook root book
    let after := Sight.ofBook rootAfter other
    (∀ address, after.balance address = before.balance address ∧
      after.code address = before.code address ∧
      (after.account address).map (·.bind Account.codeHash) =
        (before.account address).map (·.bind Account.codeHash)) ∧
    ∀ address, address ∉ touched →
      after.account address = before.account address ∧ after.object address = before.object address := by
  intro before after
  refine ⟨fun address => ⟨?_, ?_, ?_⟩, fun address apart => ?_⟩
  · exact congrArg Except.ok (confined.balance address)
  · exact congrArg Except.ok (confined.code address)
  · rw [Sight.codeHash_ofBook, Sight.codeHash_ofBook, confined.code address]
  · have same := confined.elsewhere address apart
    simp only [before, after, Sight.ofBook, Book.holding, same, and_self]

namespace Site

open Engine

variable [ReliableStore σ] {site : Site σ} {index : Nat}

/-- The footprint of an invocation, whatever its outcome. The store is only read; every address keeps its
balance, its code and the hash of its code; and an address keeps its record and its storage unless code
that was not undone ran there. -/
theorem Reached.perform_footprint (faithful : Faithful data) (reached : Reached data site)
    (engine : Engine) (invocation : Invocation) (code : Bytes) (context : Context) (host : Host σ)
    (meter : GasMeter) (hosts : site.Hosts index host)
    (pending : (engine.perform invocation code context host meter).2.view.pending ⊆ data) :
    let last := (engine.perform invocation code context host meter).2.host.ledger
    (ByteStore.Reads host.ledger.store last.store ∧
      ReliableStore.content last.store = ReliableStore.content host.ledger.store) ∧
    (∀ address, last.sight.balance address = host.ledger.sight.balance address ∧
      last.sight.code address = host.ledger.sight.code address ∧
      (last.sight.account address).map (·.bind Account.codeHash) =
        (host.ledger.sight.account address).map (·.bind Account.codeHash)) ∧
    ∀ address, address ∉ engine.lasting engine.limits.maxCallDepth (.outermost context)
        (engine.invocationProgram invocation code context) (startWorld host meter) →
      last.sight.account address = host.ledger.sight.account address ∧
        last.sight.object address = host.ledger.sight.object address := by
  intro last
  let program := engine.invocationProgram invocation code context
  let start := startWorld host meter
  have same : ∃ journal, last =
      { (ending (engine.runOutermost context program start)).host.ledger with journal } := perform_ledger
  obtain ⟨journal, same⟩ := same
  constructor
  · have reads : ByteStore.Reads host.ledger.store last.store := by
      rw [same]
      exact respected_reads.runOutermost engine context program start
    exact ⟨reads, reads.content⟩
  · obtain ⟨book, roots, sound⟩ := reached.host_sound faithful hosts
    have confined := lasting_confined faithful engine engine.limits.maxCallDepth
      (.outermost context) program start
    rw [perform_pending] at pending
    obtain ⟨bookAfter, rootsAfter, soundAfter, changes⟩ := confined.confined book roots sound pending
    have soundLast : Ledger.Sound data last.view bookAfter rootsAfter := by
      rw [same]
      exact soundAfter.grow soundAfter.orderly.store (.refl _) journal
    have seen := sound.sight faithful
    have seenLast := soundLast.sight faithful
    rw [Ledger.sight_view] at seenLast
    change host.ledger.view.sight = _ at seen
    rw [Ledger.sight_view] at seen
    rw [seen, seenLast]
    exact changes.sight _ _

end Site

namespace Engine

/-- A contract that writes, and calls another of its kind that writes too but fails. -/
def patron : ContractType :=
  ContractType.start "Patron" "patron" (return [])
    |>.withMethod "squander" [] (fun _ _ => do
      Code.write [2] [8]
      Code.revert "nothing left")
    |>.withMethod "entrust" [] (fun _ _ => do
      Code.write [1] [7]
      return some (.bool (← Sample.tryForward (.ofNat 2) "squander" 0)))

def patrons : Engine := ⟨fun _ => .ok [patron], .none, .standard⟩

def entrusting : Context := ⟨⟨1, .ofNat 9⟩, ⟨.ofNat 4, 0, 1000⟩, .ofNat 1, []⟩

def trusted : Host Memory := Site.endowed [.setCode (.ofNat 2) [5]]

def entrusted : ExecutionResult × World Memory :=
  patrons.perform (.call (some "entrust")) [5] entrusting trusted (.start 1000)

end Engine

namespace Site

open Engine

set_option maxRecDepth 100000 in
theorem perform_footprint_entrusting :
    let last := entrusted.2.host.ledger
    entrusted.1.returned = some (.bool false) ∧ last.sight.object (.ofNat 1) [1] = .ok (some [7]) ∧
      last.sight.balance (.ofNat 1) = trusted.ledger.sight.balance (.ofNat 1) ∧
      last.sight.object (.ofNat 2) = trusted.ledger.sight.object (.ofNat 2) := by
  have ran : Distinct [.setCode (.ofNat 2) [5]] (invokedRecords [.setCode (.ofNat 2) [5]] patrons
        (.call (some "entrust")) [5] entrusting (.start 1000)) ∧
      entrusted.1.returned = some (.bool false) ∧
      entrusted.2.host.ledger.sight.object (.ofNat 1) [1] = .ok (some [7]) ∧
      .ofNat 2 ∉ patrons.lasting patrons.limits.maxCallDepth (.outermost entrusting)
        (patrons.invocationProgram (.call (some "entrust")) [5] entrusting)
        (startWorld trusted (.start 1000)) := by decide +kernel
  obtain ⟨distinct, returned, wrote, undone⟩ := ran
  obtain ⟨faithful, reached, pending⟩ := invoked_known distinct
  obtain ⟨_, kept, apart⟩ := reached.perform_footprint faithful patrons (.call (some "entrust")) [5]
    entrusting trusted (.start 1000) (hosts_endowed _) pending
  exact ⟨returned, wrote, (kept _).1, (apart _ undone).2⟩

end Site

end ContractLedger
