import ContractLedger.Proofs.Engine.Seen
import ContractLedger.Proofs.Engine.Touched
import ContractLedger.Proofs.Engine.Undone
import ContractLedger.Proofs.Ledger.Twins

/-!
Twin runs. A program that runs in two worlds whose books agree at the addresses that it touches is answered
in the same way in both, and changes both in the same way. Only the worlds of the first run are asked what
is touched, since those of the second are their twins.
-/

namespace ContractLedger

variable {data : Set Bytes} {places : Finset Address} {base other : Book}

/-- Worlds on twin ledgers with the same meter and the same transfers, none of which leaves the places. -/
structure World.Twins (data : Set Bytes) (places : Finset Address) (base other : Book)
    (world twin : World Content) : Prop where
  ledger : Ledger.Twins data places base other world.host.ledger twin.host.ledger
  meter : world.meter = twin.meter
  transfers : world.transfers = twin.transfers
  within : ∀ transfer ∈ world.transfers, transfer.sender ∈ places ∧ transfer.recipient ∈ places

/-- A transfer between two of the places is recorded in both worlds. -/
theorem World.Twins.send {world twin : World Content} (twins : World.Twins data places base other world twin)
    {sender recipient : Address} (member : sender ∈ places) (sent : recipient ∈ places) (value : Amount) :
    World.Twins data places base other
      { world with transfers := world.transfers ++ [⟨sender, recipient, value⟩] }
      { twin with transfers := twin.transfers ++ [⟨sender, recipient, value⟩] } := by
  refine ⟨twins.ledger, twins.meter, congrArg (· ++ _) twins.transfers, fun transfer present => ?_⟩
  rcases List.mem_append.mp present with before | here
  · exact twins.within transfer before
  · obtain rfl := List.mem_singleton.mp here
    exact ⟨member, sent⟩

theorem Host.twinned_run {ε α : Type} {rel : Ledger.Mounted Content → Ledger.Mounted Content → Prop}
    {step : LedgerM Content α} (wrap : LedgerError → ε) {host twin : Host Content}
    (twinned : Twinned data Ledger.Mounted.pending rel (step host.ledger) (step twin.ledger)) :
    Twinned data Host.pending (fun first second => rel first.ledger second.ledger)
      (Host.run step wrap host) (Host.run step wrap twin) := by
  intro pending pendingTwin
  rw [Host.ending_run] at pending pendingTwin
  rcases twinned.together pending pendingTwin with
    ⟨value, after, last, ran, ranTwin, related⟩ | ⟨error, after, last, ran, ranTwin, related⟩
  all_goals
    simp only [Host.run, ran, ranTwin]
    exact ⟨rfl, related⟩

/-- Results that are the same and leave twin worlds. -/
abbrev World.Mirrored {ε α : Type} (data : Set Bytes) (places : Finset Address) (base other : Book)
    (first second : EStateM.Result ε (World Content) α) : Prop :=
  Twinned data World.pending (World.Twins data places base other) first second

namespace Service

variable {world twin : World Content}

theorem mirrored_onLedger {α : Type} {step : LedgerM Content α}
    (twins : World.Twins data places base other world twin)
    (twinned : Twinned data Ledger.Mounted.pending (Ledger.Twins data places base other)
      (step world.host.ledger) (step twin.host.ledger)) :
    World.Mirrored data places base other (onLedger step world)
      (onLedger step twin) := by
  intro pending pendingTwin
  rw [ending_onLedger] at pending pendingTwin
  rcases (Host.twinned_run ContractError.state twinned).together pending pendingTwin with
    ⟨value, after, last, ran, ranTwin, related⟩ | ⟨error, after, last, ran, ranTwin, related⟩
  all_goals
    simp only [onLedger, ran, ranTwin]
    exact ⟨rfl, related, twins.meter, twins.transfers, twins.within⟩

theorem mirrored_spend (twins : World.Twins data places base other world twin) (amount : Gas) :
    World.Mirrored data places base other (spend amount world)
      (spend amount twin) := by
  intro _ _
  simp only [spend, ← twins.meter]
  cases GasMeter.spend amount world.meter <;>
    exact ⟨rfl, twins.ledger, rfl, twins.transfers, twins.within⟩

theorem mirrored_done {ε α : Type} (twins : World.Twins data places base other world twin) (value : α) :
    World.Mirrored data places base other
      ((pure value : EStateM ε (World Content) α) world) ((pure value : EStateM ε (World Content) α) twin) :=
  fun _ _ => ⟨rfl, twins⟩

theorem mirrored_failed {ε α : Type} (twins : World.Twins data places base other world twin) (error : ε) :
    World.Mirrored data places base other
      ((throw error : EStateM ε (World Content) α) world)
      ((throw error : EStateM ε (World Content) α) twin) :=
  fun _ _ => ⟨rfl, twins⟩

theorem mirrored_record (twins : World.Twins data places base other world twin) {frame : Frame}
    {recipient : Address} (member : frame.address ∈ places) (sent : recipient ∈ places) (value : Amount) :
    World.Mirrored data places base other (record frame recipient value world)
      (record frame recipient value twin) :=
  fun _ _ => ⟨rfl, twins.send member sent value⟩

variable (faithful : Faithful data)
include faithful

theorem mirrored_balanceOf (twins : World.Twins data places base other world twin) (incoming : Incoming)
    {address : Address} (member : address ∈ places) :
    World.Mirrored data places base other (balanceOf incoming address world)
      (balanceOf incoming address twin) := by
  refine .bind (mirrored_onLedger twins (twins.ledger.getBalance faithful member))
    (fun _ _ => Set.Subset.refl _) fun stored after last _ related => ?_
  rw [Step.bind_ok (Step.get_apply after), Step.bind_ok (Step.get_apply last), related.transfers]
  exact mirrored_done related _

theorem mirrored_ensureBalance (twins : World.Twins data places base other world twin) {frame : Frame}
    (member : frame.address ∈ places) (required : Amount) :
    World.Mirrored data places base other (ensureBalance frame required world)
      (ensureBalance frame required twin) := by
  refine .bind (mirrored_balanceOf faithful twins frame.incoming member) (fun available world => ?_)
    fun available after last _ related => ?_
  · split <;> exact Set.Subset.refl _
  · split
    · exact mirrored_failed related _
    · exact mirrored_done related _

theorem mirrored_transfer (twins : World.Twins data places base other world twin) {frame : Frame}
    (member : frame.address ∈ places) (schedule : Schedule) (recipient : Address) (amount : Amount)
    (sent : ∀ after, transfer schedule frame recipient amount world = .ok () after → recipient ∈ places) :
    World.Mirrored data places base other
      (transfer schedule frame recipient amount world) (transfer schedule frame recipient amount twin) := by
  refine .bind (mirrored_spend twins _) (fun _ => ((agree_ensureBalance frame amount).bind
    fun _ => agree_record frame recipient amount).grows) fun _ paid paidTwin spent related => ?_
  refine .bind (mirrored_ensureBalance faithful related member amount)
    (fun _ => (agree_record frame recipient amount).grows) fun _ covered coveredTwin ensured related => ?_
  exact mirrored_record related member
    (sent _ ((Step.bind_ok spent _).trans (Step.bind_ok ensured _))) amount

theorem mirrored_read (twins : World.Twins data places base other world twin) {frame : Frame}
    (member : frame.address ∈ places) (schedule : Schedule) (key : Bytes) :
    World.Mirrored data places base other (read schedule frame key world)
      (read schedule frame key twin) := by
  unfold read
  refine .bind (mirrored_spend twins _) (fun _ => (.bind (respected_grows.read frame.address key)
    fun value => ?_ : Along World.Grows _)) fun _ paid paidTwin _ related => ?_
  · cases value with
    | none => exact .done _
    | some bytes => exact .bind (respected_grows.spend _) fun _ => .done _
  refine .bind (mirrored_onLedger related (related.ledger.getObject faithful member key))
    (fun value world => ?_) fun value found foundTwin _ related => ?_
  · cases value with
    | none => exact Set.Subset.refl _
    | some bytes => exact (.bind (respected_grows.spend _) fun _ => .done _ : Along World.Grows _) world
  cases value with
  | none => exact mirrored_done related _
  | some bytes =>
    exact .bind (mirrored_spend related _) (fun _ _ => Set.Subset.refl _) fun _ _ _ _ related =>
      mirrored_done related _

theorem mirrored_write (twins : World.Twins data places base other world twin) {frame : Frame}
    (member : frame.address ∈ places) (schedule : Schedule) (key value : Bytes) :
    World.Mirrored data places base other (write schedule frame key value world)
      (write schedule frame key value twin) :=
  .bind (mirrored_spend twins _)
    (fun _ => (agree_onLedger (Ledger.agree_setObject frame.address key value)).grows)
    fun _ _ _ _ related => mirrored_onLedger related (related.ledger.setObject faithful member key value)

end Service

namespace Engine

open Service

variable {engine : Engine} {levels : Nat} {frame : Frame} {request : CallRequest}
  {world twin : World Content}

theorem meter_undo (checkpoint : Hash) (mark : Nat) (world : World Content) :
    (ending (undo checkpoint mark world)).meter = world.meter := by
  have kept := congrArg World.meter (Service.ending_onLedger (Ledger.revertTo checkpoint) world)
  rw [undo, Step.bind_apply]
  cases ran : Service.onLedger (Ledger.revertTo checkpoint) world <;> rw [ran] at kept <;> exact kept

theorem twins_sending (twins : World.Twins data places base other world twin)
    (member : frame.address ∈ places) (sent : request.target ∈ places) :
    World.Twins data places base other (sending frame request world) (sending frame request twin) := by
  unfold sending
  split
  · exact twins.send member sent request.amount
  · exact twins

variable (faithful : Faithful data)
include faithful

/-- What precedes a call is the same in twin worlds, if the address that it looks at is among the places. -/
theorem mirrored_approach (twins : World.Twins data places base other world twin)
    (member : frame.address ∈ places)
    (sought : ∀ code looked, engine.approach frame request world = .ok code looked →
      request.target ∈ places) :
    World.Mirrored data places base other (engine.approach frame request world)
      (engine.approach frame request twin) := by
  have looks : Agree World.view World.pending
      (onLedger (Ledger.getCode request.target) : ServiceM Content _)
      (onLedger (Ledger.getCode request.target)) := agree_onLedger (Ledger.agree_getCode request.target)
  refine .bind (mirrored_spend twins _) (fun _ => ((agree_ensureBalance frame request.amount).bind
    fun _ => looks).grows) fun _ paid paidTwin spent related => ?_
  refine .bind (mirrored_ensureBalance faithful related member request.amount) (fun _ => looks.grows)
    fun _ covered coveredTwin ensured related => ?_
  obtain ⟨laid, _, _, sound, _⟩ := related.ledger
  have found : engine.approach frame request world =
      .ok (Book.holding (places.piecewise laid base) request.target).code covered := by
    rw [approach, Step.bind_ok spent, Step.bind_ok ensured]
    exact getCode_apply faithful sound request.target
  exact mirrored_onLedger related (related.ledger.getCode faithful (sought _ _ found))

/-- A call is entered in both of two twin worlds or refused in both. -/
theorem enter_twins (twins : World.Twins data places base other world twin)
    (member : frame.address ∈ places)
    (sought : ∀ code looked, engine.approach frame request world = .ok code looked →
      request.target ∈ places) :
    (∃ entry inside entryTwin insideTwin, engine.enter frame request world = .ok entry inside ∧
      engine.enter frame request twin = .ok entryTwin insideTwin ∧ entryTwin.code = entry.code ∧
      entryTwin.frame = entry.frame ∧ World.Twins data places base other inside insideTwin) ∨
    ∃ error after last, engine.enter frame request world = .error error after ∧
      engine.enter frame request twin = .error error last ∧
      World.Twins data places base other after last := by
  have paid (world : World Content) (book : Book) (roots : Address → Hash)
      (sound : Ledger.Sound data world.host.ledger book roots) :
      (ending (engine.approach frame request world)).pending ⊆ data := by
    rw [approach_apply faithful sound, ending_spend]
    exact sound.orderly.pending
  obtain ⟨_, _, _, sound, soundTwin⟩ := twins.ledger
  rcases (mirrored_approach faithful twins member sought).together (paid _ _ _ sound)
    (paid _ _ _ soundTwin) with
    ⟨code, looked, lookedTwin, ran, ranTwin, related⟩ | ⟨error, after, last, ran, ranTwin, related⟩
  · cases code with
    | none =>
      refine .inr ⟨.noContract request.target, looked, lookedTwin, ?_, ?_, related⟩
      · exact Step.bind_ok ran _
      · exact Step.bind_ok ranTwin _
    | some code =>
      have sent := twins_sending related member (sought _ _ ran)
      refine .inl ⟨_, sending frame request looked, _, sending frame request lookedTwin,
        Step.bind_ok ran _, Step.bind_ok ranTwin _, rfl, ?_, sent⟩
      simp only [← sent.meter]
  · exact .inr ⟨error, after, last, Step.bind_error ran _, Step.bind_error ranTwin _, related⟩

/-- A call that fails in twin worlds leaves twin worlds, since it is undone in both. -/
theorem call_error_twins (twins : World.Twins data places base other world twin)
    {error : ContractError} {after last : World Content}
    (failed : engine.call levels frame request world = .error error after)
    (failedTwin : engine.call levels frame request twin = .error error last)
    (meter : after.meter = last.meter) (pending : after.pending ⊆ data) (pendingTwin : last.pending ⊆ data) :
    World.Twins data places base other after last := by
  obtain ⟨laid, roots, rootsTwin, sound, soundTwin⟩ := twins.ledger
  obtain ⟨⟨rootsAfter, soundAfter⟩, transfers⟩ :=
    call_undone faithful engine levels frame request sound failed pending
  obtain ⟨⟨rootsLast, soundLast⟩, transfersTwin⟩ :=
    call_undone faithful engine levels frame request soundTwin failedTwin pendingTwin
  refine ⟨⟨laid, rootsAfter, rootsLast, soundAfter, soundLast⟩, meter, ?_, ?_⟩
  · rw [transfers, transfersTwin, twins.transfers]
  · rw [transfers]
    exact twins.within

/-- A call whose code is run alike in twin worlds is answered alike. -/
theorem mirrored_entered (twins : World.Twins data places base other world twin)
    {entry entryTwin : Entry} {inside insideTwin : World Content}
    (entered : engine.enter frame request world = .ok entry inside)
    (enteredTwin : engine.enter frame request twin = .ok entryTwin insideTwin)
    (ran : World.Mirrored data places base other (engine.runEntry levels request entry inside)
      (engine.runEntry levels request entryTwin insideTwin)) :
    World.Mirrored data places base other (engine.call (levels + 1) frame request world)
      (engine.call (levels + 1) frame request twin) := by
  have undoes (checkpoint : Hash) (mark : Nat) : Along World.Grows (undo checkpoint mark) :=
    (agree_undo checkpoint mark).grows
  have kept {start inner : World Content} {entry : Entry}
      (entered : engine.enter frame request start = .ok entry inner) :
      (ending (engine.runEntry levels request entry inner)).pending ⊆
        (ending (engine.call (levels + 1) frame request start)).pending := by
    rw [call_entered entered]
    exact along_leave undoes request.target entry _
  have same {start inner last : World Content} {entry : Entry} {cause : ExecutionError}
      (entered : engine.enter frame request start = .ok entry inner)
      (failed : engine.runEntry levels request entry inner = .error cause last) :
      (ending (engine.call (levels + 1) frame request start)).meter = last.meter := by
    rw [call_entered entered, failed, ending_leave_error, meter_undo]
  intro pending pendingTwin
  have within := (kept entered).trans pending
  have withinTwin := (kept enteredTwin).trans pendingTwin
  rcases ran.together within withinTwin with
    ⟨value, after, last, ended, endedTwin, related⟩ | ⟨cause, after, last, failed, failedTwin, related⟩
  · rw [call_entered entered, call_entered enteredTwin, ended, endedTwin]
    exact ⟨rfl, related⟩
  · rw [failed] at within
    rw [failedTwin] at withinTwin
    obtain ⟨_, roots, rootsTwin, sound, soundTwin⟩ := twins.ledger
    have meter := same entered failed
    have meterTwin := same enteredTwin failedTwin
    obtain ⟨undone, told⟩ := call_failed faithful ⟨_, roots, sound⟩ entered failed within
    obtain ⟨undoneTwin, toldTwin⟩ := call_failed faithful ⟨_, rootsTwin, soundTwin⟩ enteredTwin failedTwin
      withinTwin
    rw [told] at meter pending ⊢
    rw [toldTwin] at meterTwin pendingTwin ⊢
    exact ⟨rfl, call_error_twins faithful twins told toldTwin (meter.trans (related.meter.trans meterTwin.symm))
      pending pendingTwin⟩

/-- What a call does in twin worlds, if programs with a level less do the same in them. -/
theorem mirrored_call
    (runs : ∀ frame program world twin, World.Twins data places base other world twin →
      (∀ address ∈ engine.touched levels frame program world, address ∈ places) →
      World.Mirrored data places base other (program.run (engine.serve levels frame) world)
        (program.run (engine.serve levels frame) twin))
    (twins : World.Twins data places base other world twin) (member : frame.address ∈ places)
    (touched : ∀ address ∈ engine.sought frame (engine.touched levels) request world, address ∈ places) :
    World.Mirrored data places base other (engine.call (levels + 1) frame request world)
      (engine.call (levels + 1) frame request twin) := by
  have sought (code : Option Bytes) (looked : World Content)
      (ran : engine.approach frame request world = .ok code looked) : request.target ∈ places := by
    refine touched _ ?_
    rw [Engine.sought, ran]
    exact List.mem_cons_self
  rcases enter_twins faithful twins member sought with
    ⟨entry, inside, entryTwin, insideTwin, entered, enteredTwin, code, inner, related⟩ |
      ⟨error, after, last, refused, refusedTwin, related⟩
  · refine mirrored_entered faithful twins entered enteredTwin ?_
    rw [runEntry, runEntry, code, inner]
    refine runs entry.frame _ inside insideTwin related fun address below => touched address ?_
    obtain ⟨looked, ran, _⟩ := enter_ok entered
    rw [Engine.sought, ran, entered]
    exact List.mem_cons_of_mem _ below
  · rw [call_refused refused, call_refused refusedTwin]
    exact fun _ _ => ⟨rfl, related⟩

theorem mirrored_serve {called : CallRequest → World Content → List Address}
    (calls : ∀ request world twin, World.Twins data places base other world twin →
      (∀ address ∈ called request world, address ∈ places) →
      World.Mirrored data places base other (engine.call levels frame request world)
        (engine.call levels frame request twin))
    (member : frame.address ∈ places) (request : Request)
    (twins : World.Twins data places base other world twin)
    (touched : ∀ address ∈ engine.touching frame called request world, address ∈ places) :
    World.Mirrored data places base other (engine.serve levels frame request world)
      (engine.serve levels frame request twin) := by
  cases request with
  | spend amount => exact mirrored_spend twins amount
  | read key => exact mirrored_read faithful twins member _ key
  | write key value => exact mirrored_write faithful twins member _ key value
  | balance => exact mirrored_balanceOf faithful twins frame.incoming member
  | transfer recipient amount =>
    refine mirrored_transfer faithful twins member _ recipient amount fun after ran => touched _ ?_
    rw [touching, ran]
    exact List.mem_singleton_self recipient
  | call request => exact calls request world twin twins touched
  | meter =>
    change World.Mirrored data places base other (.ok world.meter world) (.ok twin.meter twin)
    rw [twins.meter]
    exact fun _ _ => ⟨rfl, twins⟩
  | note note =>
    exact fun _ _ => ⟨rfl, twins.ledger, twins.meter, twins.transfers, twins.within⟩
  | _ => exact mirrored_done twins _

/-- A program is answered alike in twin worlds if its calls are. -/
theorem mirrored_gather {called : CallRequest → World Content → List Address}
    (calls : ∀ request world twin, World.Twins data places base other world twin →
      (∀ address ∈ called request world, address ∈ places) →
      World.Mirrored data places base other (engine.call levels frame request world)
        (engine.call levels frame request twin))
    (member : frame.address ∈ places) {program : Program ExecutionError (Option Value)}
    (twins : World.Twins data places base other world twin)
    (touched : ∀ address ∈ gather (engine.serve levels frame) (engine.touching frame called) program world,
      address ∈ places) :
    World.Mirrored data places base other (program.run (engine.serve levels frame) world)
      (program.run (engine.serve levels frame) twin) := by
  induction program generalizing world twin with
  | done value => exact mirrored_done twins value
  | fail error => exact mirrored_failed twins error
  | ask request resume ih =>
    rw [gather] at touched
    intro pending pendingTwin
    rw [Program.run_ask] at pending pendingTwin
    have served := mirrored_serve faithful calls member request twins fun address present =>
      touched address (List.mem_append_left _ present)
    have grows (reply : Except ContractError request.Answer) := respected_grows.run engine levels frame (resume reply)
    obtain ⟨same, related⟩ := served ((grows _ _).trans pending) ((grows _ _).trans pendingTwin)
    rw [Program.run_ask, Program.run_ask]
    rw [← same] at pendingTwin ⊢
    exact ih _ related (fun address present => touched address (List.mem_append_right _ present)) pending
      pendingTwin

/-- A program is answered alike in worlds that are twins at all places that it touches, and leaves twins. -/
theorem mirrored_run (engine : Engine) (levels : Nat) (frame : Frame)
    (program : Program ExecutionError (Option Value)) (world twin : World Content)
    (twins : World.Twins data places base other world twin)
    (touched : ∀ address ∈ engine.touched levels frame program world, address ∈ places) :
    World.Mirrored data places base other (program.run (engine.serve levels frame) world)
      (program.run (engine.serve levels frame) twin) := by
  induction levels generalizing frame program world twin with
  | zero =>
    -- No level is left, so that every call is refused where it is made.
    have refused (request : CallRequest) (world : World Content) : engine.call 0 frame request world =
        .error (.callDepth engine.limits.maxCallDepth) world := rfl
    rw [Engine.touched] at touched
    refine mirrored_gather faithful (fun request world twin twins _ => ?_) (touched _ List.mem_cons_self)
      twins fun address present => touched address (List.mem_cons_of_mem _ present)
    rw [refused, refused]
    exact fun _ _ => ⟨rfl, twins⟩
  | succ levels ih =>
    rw [Engine.touched] at touched
    have member := touched _ List.mem_cons_self
    exact mirrored_gather faithful (fun _ _ _ twins => mirrored_call faithful ih twins member) member twins
      fun address present => touched address (List.mem_cons_of_mem _ present)

end Engine

end ContractLedger
