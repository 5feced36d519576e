import ContractLedger.Proofs.Engine.Metering
import ContractLedger.Proofs.Engine.Steady

/-!
Runs over a reliable store, seen through its content. A relation between worlds over content that the
services respect is a relation between the worlds that are seen in this way, and it is respected too. On a
ledger that is sound, a call that was entered and whose code fails is always undone, and what its caller is
told is that failure.
-/

namespace ContractLedger

variable {σ α : Type} [ByteStore σ] [ReliableStore σ]

def World.Seen (rel : World Content → World Content → Prop) (before after : World σ) : Prop :=
  rel before.view after.view

instance (rel : World Content → World Content → Prop) [IsPreorder (World Content) rel] :
    IsPreorder (World σ) (World.Seen rel) where
  refl world := refl_of rel world.view
  trans _ _ _ first second := trans_of rel first second

variable {rel : World Content → World Content → Prop} {ε : Type}

theorem Along.seen {γ : Type} {measure : World Content → Set γ} {step : EStateM ε (World σ) α}
    {stepView : EStateM ε (World Content) α} (along : Along rel stepView)
    (agree : Agree World.view measure step stepView) : Along (World.Seen rel) step := by
  intro world
  have onward := along world.view
  rw [← agree.same, ending_through] at onward
  exact onward

theorem Respected.seen (respected : Respected rel) :
    Respected (World.Seen rel : World σ → World σ → Prop) where
  spend amount := (respected.spend amount).seen (Service.agree_spend amount)
  read address key := (respected.read address key).seen (Service.agree_onLedger (Ledger.agree_getObject _ _))
  write address key value :=
    (respected.write address key value).seen (Service.agree_onLedger (Ledger.agree_setObject _ _ _))
  balance address := (respected.balance address).seen (Service.agree_onLedger (Ledger.agree_getBalance _))
  code address := (respected.code address).seen (Service.agree_onLedger (Ledger.agree_getCode _))
  record frame recipient value := (respected.record frame recipient value).seen (Service.agree_record _ _ _)
  observe frame note := (respected.observe frame note).seen (Service.agree_observe _ _)
  undo before after related := by
    have onward := respected.undo before.view after.view related
    have ended := ending_through World.view
      (Engine.undo before.host.ledger.ledger.root before.transfers.length after)
    rw [(Engine.agree_undo _ _).same] at ended
    rw [World.Seen, ← ended]
    exact onward

variable {data : Set Bytes}

def World.Sound (data : Set Bytes) (world : World σ) : Prop :=
  ∃ book roots, Ledger.Sound data world.view.host.ledger book roots

/-- A sound ledger stays sound as long as what is pending is among the data. -/
theorem World.Sound.onward {before after : World σ} (sound : before.Sound data)
    (onward : before.Seen (World.Onward data) after) (pending : after.view.pending ⊆ data) :
    after.Sound data := by
  obtain ⟨book, roots, sound⟩ := sound
  exact (onward.sound book roots sound pending).2

namespace Engine

variable {engine : Engine} {levels : Nat} {frame : Frame} {request : CallRequest}
  {world inside last : World σ} {entry : Entry} {cause : ExecutionError}

/-- A call whose code failed tells its caller of the failure. -/
theorem call_failed (faithful : Faithful data) (sound : world.Sound data)
    (entered : engine.enter frame request world = .ok entry inside)
    (failed : engine.runEntry levels request entry inside = .error cause last)
    (pending : last.view.pending ⊆ data) :
    ∃ after, engine.call (levels + 1) frame request world = .error (.call request.target cause) after := by
  have respected := respected_onward faithful
  have ran := (respected.seen (σ := σ)).runEntry engine levels request entry inside
  have approached := (respected.seen (σ := σ)).approach engine frame request world
  obtain ⟨looked, found, rfl, _, root, mark⟩ := enter_ok entered
  have sent := (respected.seen (σ := σ)).sending frame request looked
  rw [failed] at ran
  rw [found] at approached
  have onward := trans_of (World.Seen (World.Onward data)) sent ran
  obtain ⟨book, roots, soundLooked⟩ := sound.onward approached (onward.grows.trans pending)
  obtain ⟨final, _, undid, _⟩ := undo_sound faithful soundLooked onward entry.mark pending
  have same := (agree_undo entry.checkpoint entry.mark).same last
  rw [root] at same
  obtain ⟨after, undone, _⟩ := through_eq_ok (same.trans undid)
  refine ⟨after, ?_⟩
  rw [call_entered entered, failed, leave]
  exact Step.bind_ok (root ▸ undone) _

theorem perform_pending {invocation : Invocation} {code : Bytes} {context : Context} {host : Host σ}
    {meter : GasMeter} :
    (engine.perform invocation code context host meter).2.view.pending =
      (ending (engine.runOutermost context (engine.invocationProgram invocation code context)
        (startWorld host meter))).view.pending := by
  rw [perform_eq]
  cases engine.runOutermost context (engine.invocationProgram invocation code context)
      (startWorld host meter) <;> rfl

end Engine

namespace Site

/-- What is pending after an invocation on a host that commands have endowed. -/
def invokedRecords (commands : List Command) (engine : Engine) (invocation : Invocation) (code : Bytes)
    (context : Context) (meter : GasMeter) : List Bytes :=
  let last := engine.perform invocation code context (endowed commands) meter
  last.2.host.ledger.ledger.pendingList

theorem invoked_known {commands : List Command} {engine : Engine} {invocation : Invocation}
    {code : Bytes} {context : Context} {meter : GasMeter}
    (distinct : Distinct commands (invokedRecords commands engine invocation code context meter)) :
    let data := { bytes | bytes ∈ invokedRecords commands engine invocation code context meter }
    Faithful data ∧ Reached data (unused.run (carrying 0 commands)) ∧
      (engine.perform invocation code context (endowed commands) meter).2.view.pending ⊆ data := by
  intro data
  have pending : (engine.perform invocation code context (endowed commands) meter).2.view.pending ⊆
      data := fun bytes member => Host.mem_pendingList.mpr member
  have grows := (respected_grows.seen (σ := Memory)).runOutermost engine context
    (engine.invocationProgram invocation code context) (Engine.startWorld (endowed commands) meter)
  have before : (endowed commands).view.pending ⊆ data := by
    refine Set.Subset.trans ?_ pending
    rw [Engine.perform_pending]
    exact grows
  obtain ⟨faithful, reached, _⟩ := reached_endowed distinct before
  exact ⟨faithful, reached, pending⟩

end Site

end ContractLedger
