import ContractLedger.Proofs.Engine.Occurrence

/-!
The addresses that a run touches: those at which code runs, those at which it is looked for, and those to
which value is sent. What fails touches them as well as what succeeds.
-/

namespace ContractLedger.Engine

variable {σ : Type} [ByteStore σ]

/-- What is gathered from the requests that a program makes, in their order. -/
def gather (serve : (request : Request) → ServiceM σ request.Answer)
    (each : Request → World σ → List Address) :
    Program ExecutionError (Option Value) → World σ → List Address
  | .ask request resume, world =>
    each request world ++
      gather serve each (resume (answer (serve request world))) (ending (serve request world))
  | _, _ => []

/-- What a request touches apart from the address that makes it, given what a call touches. Reading,
writing and asking for a balance touch no other address. -/
def touching (engine : Engine) (frame : Frame) (called : CallRequest → World σ → List Address) :
    Request → World σ → List Address
  | .transfer recipient amount, world =>
    match Service.transfer engine.limits.schedule frame recipient amount world with
    | .ok _ _ => [recipient]
    | .error _ _ => []
  | .call request, world => called request world
  | _, _ => []

/-- What a call touches, given what a program touches in a frame: the address at which code is looked for,
unless the call is refused before that, and whatever the code touches. -/
def sought (engine : Engine) (frame : Frame)
    (within : Frame → Program ExecutionError (Option Value) → World σ → List Address)
    (request : CallRequest) (world : World σ) : List Address :=
  match engine.approach frame request world with
  | .error _ _ => []
  | .ok _ _ =>
    request.target ::
      match engine.enter frame request world with
      | .error _ _ => []
      | .ok entry inside => within entry.frame (engine.nestedProgram entry.code request) inside

/-- The addresses that a program touches in a frame, with so many levels of calls left. -/
def touched (engine : Engine) :
    Nat → Frame → Program ExecutionError (Option Value) → World σ → List Address
  | 0, frame, program, world =>
    frame.address :: gather (engine.serve 0 frame) (engine.touching frame fun _ _ => []) program world
  | levels + 1, frame, program, world =>
    frame.address :: gather (engine.serve (levels + 1) frame)
      (engine.touching frame (engine.sought frame (touched engine levels))) program world

/-! What is touched is the same over the content of a store. -/

variable [ReliableStore σ]

theorem gather_view (engine : Engine) (levels : Nat) (frame : Frame)
    {each : Request → World σ → List Address} {eachContent : Request → World Content → List Address}
    (same : ∀ request world, each request world = eachContent request world.view)
    (program : Program ExecutionError (Option Value)) (world : World σ) :
    gather (engine.serve levels frame) each program world =
      gather (engine.serve levels frame) eachContent program world.view := by
  induction program generalizing world with
  | done value => rfl
  | fail error => rfl
  | ask request resume ih =>
    have served := (agree_serve engine levels frame request).same world
    rw [gather, gather, same, ih, ← served, answer_through, ending_through]

theorem touching_view (engine : Engine) (frame : Frame)
    {called : CallRequest → World σ → List Address}
    {calledContent : CallRequest → World Content → List Address}
    (same : ∀ request world, called request world = calledContent request world.view)
    (request : Request) (world : World σ) :
    engine.touching frame called request world =
      engine.touching frame calledContent request world.view := by
  cases request with
  | transfer recipient amount =>
    have sent := (Service.agree_transfer engine.limits.schedule frame recipient amount).same world
    simp only [touching, ← sent]
    cases Service.transfer engine.limits.schedule frame recipient amount world <;> rfl
  | call request => exact same request world
  | _ => rfl

theorem sought_view (engine : Engine) (frame : Frame)
    {within : Frame → Program ExecutionError (Option Value) → World σ → List Address}
    {withinContent : Frame → Program ExecutionError (Option Value) → World Content → List Address}
    (same : ∀ frame program world, within frame program world = withinContent frame program world.view)
    (request : CallRequest) (world : World σ) :
    engine.sought frame within request world = engine.sought frame withinContent request world.view := by
  have approached := (agree_approach engine frame request).same world
  have entered := (agree_enter engine frame request).same world
  simp only [sought, ← approached, ← entered]
  cases engine.approach frame request world with
  | error error after => rfl
  | ok code looked =>
    cases engine.enter frame request world with
    | error error after => rfl
    | ok entry inside => exact congrArg _ (same _ _ _)

theorem touched_view (engine : Engine) (levels : Nat) (frame : Frame)
    (program : Program ExecutionError (Option Value)) (world : World σ) :
    engine.touched levels frame program world = engine.touched levels frame program world.view := by
  induction levels generalizing frame program world with
  | zero =>
    have none := @touching_view σ _ _ engine frame (fun _ _ => []) (fun _ _ => []) fun _ _ => rfl
    rw [touched, touched, gather_view engine 0 frame none]
  | succ levels ih =>
    rw [touched, touched, gather_view engine (levels + 1) frame
      (touching_view engine frame (sought_view engine frame ih))]

end ContractLedger.Engine
