import ContractLedger.Proofs.Engine.Along
import ContractLedger.Proofs.Engine.Entry
import ContractLedger.Proofs.Engine.View

/-!
The points of a run. A point is a frame whose code is running, at whatever depth, with the world that
its next request finds; it counts even if what leads to it is undone later. An assertion about frames
and worlds that every service upholds, and that goes into a call and out of it again, holds at every
point and at the end. A relation that the services respect, and that undoing respects too, leads from
every point to those that come after it.
-/

namespace ContractLedger

variable {σ α : Type} [ByteStore σ]

namespace Engine

/-- The points of the run of a program in a frame, with so many levels of calls left. -/
inductive Occurs (engine : Engine) : Nat → Frame → Program ExecutionError (Option Value) → World σ →
    Frame → World σ → Prop
  | here {levels : Nat} {frame : Frame} {program : Program ExecutionError (Option Value)}
      {world : World σ} : Occurs engine levels frame program world frame world
  | next {levels : Nat} {frame inner : Frame} {request : Request}
      {resume : Except ContractError request.Answer → Program ExecutionError (Option Value)}
      {world last : World σ}
      (later : Occurs engine levels frame
        (resume (answer (engine.serve levels frame request world)))
        (ending (engine.serve levels frame request world)) inner last) :
      Occurs engine levels frame (.ask request resume) world inner last
  | within {levels : Nat} {frame inner : Frame} {request : CallRequest}
      {resume : Except ContractError (Option Value) → Program ExecutionError (Option Value)}
      {world inside last : World σ} {entry : Entry}
      (entered : engine.enter frame request world = .ok entry inside)
      (below : Occurs engine levels entry.frame (engine.nestedProgram entry.code request) inside
        inner last) :
      Occurs engine (levels + 1) frame (.ask (.call request) resume) world inner last

/-- The world that a frame finds after so many of its own requests. -/
def worldAfter (engine : Engine) (levels : Nat) (frame : Frame) :
    Nat → Program ExecutionError (Option Value) → World σ → World σ
  | count + 1, .ask request resume, world =>
    let served := engine.serve levels frame request world
    worldAfter engine levels frame count (resume (answer served)) (ending served)
  | _, _, world => world

theorem occurs_worldAfter (engine : Engine) (levels : Nat) (frame : Frame) (count : Nat)
    (program : Program ExecutionError (Option Value)) (world : World σ) :
    Occurs engine levels frame program world frame
      (engine.worldAfter levels frame count program world) := by
  induction count generalizing program world with
  | zero => exact .here
  | succ count ih =>
    cases program with
    | ask request resume => exact .next (ih _ _)
    | _ => exact .here

/-! The points of a run over a reliable store are those of the run over its content. -/

section Views

variable [ReliableStore σ]

theorem agree_approach (engine : Engine) (frame : Frame) (request : CallRequest) :
    Agree World.view World.pending (engine.approach frame request : ServiceM σ _)
      (engine.approach frame request) :=
  .bind (Service.agree_spend _) fun _ => .bind (Service.agree_ensureBalance _ _) fun _ =>
    Service.agree_onLedger (Ledger.agree_getCode _)

theorem view_sending (frame : Frame) (request : CallRequest) (world : World σ) :
    (sending frame request world).view = sending frame request world.view := by
  unfold sending
  split <;> rfl

theorem agree_enter (engine : Engine) (frame : Frame) (request : CallRequest) :
    Agree World.view World.pending (engine.enter frame request : ServiceM σ _)
      (engine.enter frame request) := by
  refine .bind (agree_approach engine frame request) fun code => ?_
  cases code with
  | none => exact .failed _
  | some code =>
    refine .bind (Service.agree_onLedger Ledger.agree_checkpoint) fun _ => .reading fun _ =>
      .bind (.changed (view_sending frame request) fun world => ?_) fun _ => .reading fun _ => .done _
    unfold sending
    split <;> exact Set.Subset.refl _

theorem agree_serve (engine : Engine) (levels : Nat) (frame : Frame) (request : Request) :
    Agree World.view World.pending (engine.serve levels frame request : ServiceM σ _)
      (engine.serve levels frame request) :=
  Service.agree_answer _ _ (fun _ => agree_call engine _ _ _) request

theorem Occurs.view {engine : Engine} {levels : Nat} {frame inner : Frame}
    {program : Program ExecutionError (Option Value)} {world last : World σ}
    (occurs : Occurs engine levels frame program world inner last) :
    Occurs engine levels frame program world.view inner last.view := by
  induction occurs with
  | here => exact .here
  | @next levels frame inner request resume world last later ih =>
    have same := (agree_serve engine levels frame request).same world
    have answered := answer_through World.view (engine.serve levels frame request world)
    have ended := ending_through World.view (engine.serve levels frame request world)
    rw [same] at answered ended
    rw [← answered, ← ended] at ih
    exact .next ih
  | @within levels frame inner request resume world inside last entry entered below ih =>
    have same := (agree_enter engine frame request).same world
    rw [entered] at same
    exact .within same.symm ih

end Views

/-! Relations between worlds that the services respect. -/

end Engine

/-- Worlds that are related and have the same transfers. -/
def World.Quietly (rel : World σ → World σ → Prop) (before after : World σ) : Prop :=
  rel before after ∧ after.transfers = before.transfers

namespace Respected

variable {rel : World σ → World σ → Prop} [IsPreorder (World σ) rel]

instance : IsPreorder (World σ) (World.Quietly rel) where
  refl world := ⟨refl_of rel world, rfl⟩
  trans _ _ _ first second := ⟨trans_of rel first.1 second.1, second.2.trans first.2⟩

omit [ByteStore σ] [IsPreorder (World σ) rel] in
private theorem quietly_onLedger {step : LedgerM σ α} (along : Along rel (Service.onLedger step)) :
    Along (World.Quietly rel) (Service.onLedger step) :=
  fun world => ⟨along world, by rw [Service.ending_onLedger]⟩

omit [IsPreorder (World σ) rel] in
private theorem quietly_spend (respected : Respected rel) (amount : Gas) :
    Along (World.Quietly rel) (Service.spend amount : ServiceM σ Unit) :=
  fun world => ⟨respected.spend amount world, by rw [Service.ending_spend]⟩

private theorem quietly_balanceOf (respected : Respected rel) (incoming : Incoming)
    (address : Address) :
    Along (World.Quietly rel) (Service.balanceOf incoming address : ServiceM σ Amount) :=
  .bind (quietly_onLedger (respected.balance _)) fun _ => .reading fun _ => .done _

private theorem quietly_ensureBalance (respected : Respected rel) (frame : Frame)
    (required : Amount) :
    Along (World.Quietly rel) (Service.ensureBalance frame required : ServiceM σ Unit) :=
  .bind (respected.quietly_balanceOf _ _) fun _ => .ite (.failed _) (.done _)

theorem quietly_approach (respected : Respected rel) (engine : Engine) (frame : Frame)
    (request : CallRequest) :
    Along (World.Quietly rel) (engine.approach frame request : ServiceM σ _) :=
  .bind (respected.quietly_spend _) fun _ => .bind (respected.quietly_ensureBalance _ _) fun _ =>
    quietly_onLedger (respected.code _)

end Respected

/-- An assertion that code upholds in its frame, along a relation between worlds: by what leaves the
transfers alone, by recording a transfer whose amount was covered, by entering a call of an address
that has code and by leaving it, and by undoing what a call did. -/
structure Upheld (rel : World σ → World σ → Prop) (holds : Frame → World σ → Prop) : Prop where
  quiet : ∀ {frame before after}, holds frame before → World.Quietly rel before after →
    holds frame after
  sent : ∀ {frame before middle after recipient amount}, holds frame before →
    Service.ensureBalance frame amount before = .ok () middle → World.Quietly rel before after →
    holds frame { after with transfers := after.transfers ++ [⟨frame.address, recipient, amount⟩] }
  entered : ∀ {frame before middle after request code gas}, holds frame before →
    Service.onLedger (Ledger.getCode request.target) before = .ok (some code) middle →
    rel before after → holds frame after → holds (Engine.nestedFrame frame request gas) after
  returned : ∀ {frame before after request gas}, holds frame before → rel before after →
    holds (Engine.nestedFrame frame request gas) after → holds frame after
  undone : ∀ {frame before after}, holds frame before → rel before after → holds frame after →
    holds frame
      (ending (Engine.undo before.host.ledger.ledger.root before.transfers.length after))

namespace Upheld

open Engine

variable {rel : World σ → World σ → Prop} [IsPreorder (World σ) rel]
  {holds : Frame → World σ → Prop} {frame : Frame} {world : World σ}

omit [ByteStore σ] [IsPreorder (World σ) rel] in
private theorem run_of {serve : (request : Request) → ServiceM σ request.Answer}
    (each : ∀ request world, holds frame world → holds frame (ending (serve request world)))
    {ε : Type} (program : Program ε α) (held : holds frame world) :
    holds frame (ending (program.run serve world)) := by
  induction program generalizing world with
  | done value => exact held
  | fail error => exact held
  | ask request resume ih =>
    rw [Program.run_ask]
    exact ih _ (each request world held)

private theorem transfer (upheld : Upheld rel holds) (respected : Respected rel)
    (schedule : Schedule) (recipient : Address) (amount : Amount) (held : holds frame world) :
    holds frame (ending (Service.transfer schedule frame recipient amount world)) := by
  have paid := upheld.quiet held (respected.quietly_spend schedule.transfer world)
  simp only [Service.transfer, Step.bind_apply]
  cases spent : Service.spend schedule.transfer world with
  | error error after =>
    rw [spent] at paid
    exact paid
  | ok value after =>
    rw [spent] at paid
    have quiet := respected.quietly_ensureBalance frame amount after
    simp only
    cases checked : Service.ensureBalance frame amount after with
    | error error last =>
      rw [checked] at quiet
      exact upheld.quiet paid quiet
    | ok value last =>
      rw [checked] at quiet
      exact upheld.sent paid checked quiet

private theorem answer_of (upheld : Upheld rel holds) (respected : Respected rel)
    (schedule : Schedule) {call : CallRequest → ServiceM σ (Option Value)}
    (each : ∀ request world, holds frame world → holds frame (ending (call request world)))
    (request : Request) (held : holds frame world) :
    holds frame (ending (Service.answer schedule frame call request world)) := by
  have quiet {β : Type} {step : ServiceM σ β} (along : Along (World.Quietly rel) step) :
      holds frame (ending (step world)) := upheld.quiet held (along world)
  cases request with
  | spend amount => exact quiet (respected.quietly_spend amount)
  | read key =>
    refine quiet (.bind (respected.quietly_spend _) fun _ =>
      .bind (Respected.quietly_onLedger (respected.read _ _)) fun value => ?_)
    cases value with
    | none => exact .done _
    | some bytes => exact .bind (respected.quietly_spend _) fun _ => .done _
  | write key value =>
    exact quiet (.bind (respected.quietly_spend _) fun _ =>
      Respected.quietly_onLedger (respected.write _ _ _))
  | balance => exact quiet (respected.quietly_balanceOf _ _)
  | transfer recipient amount => exact upheld.transfer respected schedule recipient amount held
  | call request => exact each request world held
  | meter => exact held
  | note note => exact upheld.quiet held ⟨respected.observe frame note world, rfl⟩
  | _ => exact held

private theorem enter (upheld : Upheld rel holds) (respected : Respected rel) (engine : Engine)
    (request : CallRequest) (held : holds frame world) :
    (∀ error after, engine.enter frame request world = .error error after → holds frame after) ∧
    ∀ entry inside, engine.enter frame request world = .ok entry inside →
      holds entry.frame inside ∧ ∃ looked, holds frame looked ∧ rel looked inside ∧
        entry.checkpoint = looked.host.ledger.ledger.root ∧
        entry.mark = looked.transfers.length ∧
        ∃ gas, entry.frame = nestedFrame frame request gas := by
  have quiet := respected.quietly_approach engine frame request world
  constructor
  · intro error after refused
    rw [enter_error refused]
    exact upheld.quiet held quiet
  · intro entry inside entered
    obtain ⟨looked, approached, rfl, inner, root, mark⟩ := enter_ok entered
    obtain ⟨paid, covered, spent, checked, found⟩ := approach_ok approached
    have heldPaid : holds frame paid := by
      have paying := respected.quietly_spend engine.limits.schedule.call world
      rw [spent] at paying
      exact upheld.quiet held paying
    have checking := respected.quietly_ensureBalance frame request.amount paid
    rw [checked] at checking
    have heldCovered := upheld.quiet heldPaid checking
    have looking := Respected.quietly_onLedger (respected.code request.target) covered
    rw [found] at looking
    have heldLooked := upheld.quiet heldCovered looking
    have sends := respected.sending frame request looked
    have heldInside : holds frame (Engine.sending frame request looked) := by
      unfold Engine.sending
      split
      · exact upheld.sent heldPaid checked (trans_of (World.Quietly rel) checking looking)
      · exact heldLooked
    refine ⟨?_, looked, heldLooked, sends, root, mark, _, inner⟩
    rw [inner]
    exact upheld.entered heldCovered found (trans_of rel looking.1 sends) heldInside

private theorem call (upheld : Upheld rel holds) (respected : Respected rel) (engine : Engine)
    (levels : Nat) (request : CallRequest) (held : holds frame world) :
    holds frame (ending (engine.call levels frame request world)) := by
  induction levels generalizing frame request world with
  | zero => exact held
  | succ levels ih =>
    obtain ⟨refused, enters⟩ := upheld.enter respected engine request held
    cases entered : engine.enter frame request world with
    | error error after =>
      rw [call_refused entered]
      exact refused error after entered
    | ok entry inside =>
      obtain ⟨heldInside, looked, heldLooked, sends, root, mark, gas, inner⟩ :=
        enters entry inside entered
      have ran : holds entry.frame (ending (engine.runEntry levels request entry inside)) :=
        run_of (fun request _ held => upheld.answer_of respected engine.limits.schedule
          (fun request _ held => ih request held) request held) _ heldInside
      rw [inner] at ran
      have onward := trans_of rel sends (respected.runEntry engine levels request entry inside)
      have back := upheld.returned heldLooked onward ran
      rw [call_entered entered]
      cases result : engine.runEntry levels request entry inside with
      | ok value after =>
        rw [result] at back
        exact back
      | error cause after =>
        rw [result] at back onward
        rw [ending_leave_error, root, mark]
        exact upheld.undone heldLooked onward back

theorem serve (upheld : Upheld rel holds) (respected : Respected rel) (engine : Engine)
    (levels : Nat) (request : Request) (held : holds frame world) :
    holds frame (ending (engine.serve levels frame request world)) :=
  upheld.answer_of respected _ (fun request _ held => upheld.call respected engine levels request held)
    request held

theorem run (upheld : Upheld rel holds) (respected : Respected rel) (engine : Engine)
    (levels : Nat) {ε : Type} (program : Program ε α) (held : holds frame world) :
    holds frame (ending (program.run (engine.serve levels frame) world)) :=
  run_of (fun request _ held => upheld.serve respected engine levels request held) program held

theorem occurs (upheld : Upheld rel holds) (respected : Respected rel) {engine : Engine}
    {levels : Nat} {program : Program ExecutionError (Option Value)} {inner : Frame} {last : World σ}
    (occurs : Occurs engine levels frame program world inner last) (held : holds frame world) :
    holds inner last := by
  induction occurs with
  | here => exact held
  | next later ih => exact ih (upheld.serve respected engine _ _ held)
  | within entered below ih =>
    exact ih ((upheld.enter respected engine _ held).2 _ _ entered).1

end Upheld

namespace Engine.Occurs

variable {rel : World σ → World σ → Prop} [IsPreorder (World σ) rel] {engine : Engine}
  {levels : Nat} {frame inner : Frame} {program : Program ExecutionError (Option Value)}
  {world last : World σ}

theorem since (respected : Respected rel)
    (occurs : Occurs engine levels frame program world inner last) : rel world last := by
  induction occurs with
  | here => exact refl_of rel _
  | @next levels frame inner request resume world last later ih =>
    exact trans_of rel (respected.serve engine levels frame request world) ih
  | @within levels frame inner request resume world inside last entry entered below ih =>
    have before := respected.enter engine frame request world
    rw [entered] at before
    exact trans_of rel before ih

private theorem returning
    (undoes : ∀ checkpoint mark, Along rel (undo checkpoint mark : ServiceM σ Unit))
    {request : CallRequest} {inside : World σ} {entry : Entry}
    (entered : engine.enter frame request world = .ok entry inside)
    (ran : rel last (ending (engine.runEntry levels request entry inside))) :
    rel last (ending (engine.call (levels + 1) frame request world)) := by
  rw [call_entered entered]
  exact trans_of rel ran (along_leave undoes _ _ _)

/-- What leads from a point of a run to its end, along a relation that undoing respects too. -/
theorem onward (respected : Respected rel)
    (undoes : ∀ checkpoint mark, Along rel (undo checkpoint mark : ServiceM σ Unit))
    (occurs : Occurs engine levels frame program world inner last) :
    rel last (ending (program.run (engine.serve levels frame) world)) := by
  induction occurs with
  | @here levels frame program world => exact respected.run engine levels frame program world
  | next later ih =>
    rw [Program.run_ask]
    exact ih
  | @within levels frame inner request resume world inside last entry entered below ih =>
    rw [Program.run_ask]
    exact trans_of rel (returning undoes entered ih)
      (respected.run engine (levels + 1) frame _ _)

end Engine.Occurs

namespace Engine

/-- The worlds of two points of a run, the one not later than the other. After a point of a call come
those of the same call, and those that its caller comes to when the call is over. -/
inductive Precedes (engine : Engine) : Nat → Frame → Program ExecutionError (Option Value) → World σ →
    World σ → World σ → Prop
  | here {levels : Nat} {frame inner : Frame} {program : Program ExecutionError (Option Value)}
      {world last : World σ} (occurs : Occurs engine levels frame program world inner last) :
      Precedes engine levels frame program world world last
  | next {levels : Nat} {frame : Frame} {request : Request}
      {resume : Except ContractError request.Answer → Program ExecutionError (Option Value)}
      {world first last : World σ}
      (later : Precedes engine levels frame
        (resume (answer (engine.serve levels frame request world)))
        (ending (engine.serve levels frame request world)) first last) :
      Precedes engine levels frame (.ask request resume) world first last
  | within {levels : Nat} {frame : Frame} {request : CallRequest}
      {resume : Except ContractError (Option Value) → Program ExecutionError (Option Value)}
      {world inside first last : World σ} {entry : Entry}
      (entered : engine.enter frame request world = .ok entry inside)
      (below : Precedes engine levels entry.frame (engine.nestedProgram entry.code request) inside
        first last) :
      Precedes engine (levels + 1) frame (.ask (.call request) resume) world first last
  | outside {levels : Nat} {frame inner outer : Frame} {request : CallRequest}
      {resume : Except ContractError (Option Value) → Program ExecutionError (Option Value)}
      {world inside first last : World σ} {entry : Entry}
      (entered : engine.enter frame request world = .ok entry inside)
      (below : Occurs engine levels entry.frame (engine.nestedProgram entry.code request) inside
        inner first)
      (later : Occurs engine (levels + 1) frame
        (resume (answer (engine.call (levels + 1) frame request world)))
        (ending (engine.call (levels + 1) frame request world)) outer last) :
      Precedes engine (levels + 1) frame (.ask (.call request) resume) world first last

theorem Precedes.occurs {engine : Engine} {levels : Nat} {frame : Frame}
    {program : Program ExecutionError (Option Value)} {world first last : World σ}
    (precedes : Precedes engine levels frame program world first last) :
    ∃ inner, Occurs engine levels frame program world inner first := by
  induction precedes with
  | here occurs => exact ⟨_, .here⟩
  | next later ih =>
    obtain ⟨inner, occurs⟩ := ih
    exact ⟨inner, .next occurs⟩
  | within entered below ih =>
    obtain ⟨inner, occurs⟩ := ih
    exact ⟨inner, .within entered occurs⟩
  | outside entered below later => exact ⟨_, .within entered below⟩

theorem Occurs.precedes_or {engine : Engine} {levels : Nat} {frame inner outer : Frame}
    {program : Program ExecutionError (Option Value)} {world first last : World σ}
    (one : Occurs engine levels frame program world inner first)
    (other : Occurs engine levels frame program world outer last) :
    Precedes engine levels frame program world first last ∨
      Precedes engine levels frame program world last first := by
  induction one with
  | here => exact .inl (.here other)
  | next later ih =>
    cases other with
    | here => exact .inr (.here (.next later))
    | next laterOther => exact (ih laterOther).imp .next .next
    | within entered below => exact .inr (.outside entered below later)
  | within entered below ih =>
    cases other with
    | here => exact .inr (.here (.within entered below))
    | next laterOther => exact .inl (.outside entered below laterOther)
    | within enteredOther belowOther =>
      cases entered.symm.trans enteredOther
      exact (ih belowOther).imp (.within entered) (.within entered)

/-- What leads from a point of a run to a later one, along a relation that undoing respects too. -/
theorem Precedes.along {rel : World σ → World σ → Prop} [IsPreorder (World σ) rel]
    (respected : Respected rel)
    (undoes : ∀ checkpoint mark, Along rel (undo checkpoint mark : ServiceM σ Unit))
    {engine : Engine} {levels : Nat} {frame : Frame}
    {program : Program ExecutionError (Option Value)} {world first last : World σ}
    (precedes : Precedes engine levels frame program world first last) : rel first last := by
  induction precedes with
  | here occurs => exact occurs.since respected
  | next later ih => exact ih
  | within entered below ih => exact ih
  | outside entered below later =>
    exact trans_of rel (Occurs.returning undoes entered (below.onward respected undoes))
      (later.since respected)

end Engine

end ContractLedger
