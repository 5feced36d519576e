import ContractLedger.Proofs.Engine.Sound

/-!
Failed calls. Whatever a contract did below a call, at whatever depth, if the call fails then the
ledger is seen as it was when the call was entered, and the transfers are those that there were.
-/

namespace ContractLedger

namespace Engine

variable {data : Set Bytes} {world after : World Content} {book : Book} {roots : Address → Hash}

private theorem undo_restores (faithful : Faithful data)
    (sound : Ledger.Sound data world.host.ledger book roots) (onward : World.Onward data world after)
    (extended : world.Extends after)
    (pending : (ending
      (undo world.host.ledger.ledger.root world.transfers.length after)).pending ⊆ data) :
    (∃ rootsAfter, Ledger.Sound data (ending (undo world.host.ledger.ledger.root
      world.transfers.length after)).host.ledger book rootsAfter) ∧
      (ending (undo world.host.ledger.ledger.root world.transfers.length after)).transfers =
        world.transfers := by
  have grows := (agree_undo world.host.ledger.ledger.root world.transfers.length).grows after
  obtain ⟨last, rootsAfter, ran, _, soundLast, transfers⟩ :=
    undo_sound faithful sound onward world.transfers.length (grows.trans pending)
  rw [ran]
  exact ⟨⟨rootsAfter, soundLast⟩, transfers.trans (List.prefix_iff_eq_take.mp extended).symm⟩

/-- A call that fails leaves the book and the transfers that there were. -/
theorem call_undone (faithful : Faithful data) (engine : Engine) (levels : Nat)
    (frame : Frame) (request : CallRequest)
    (sound : Ledger.Sound data world.host.ledger book roots) {error : ContractError}
    (failed : engine.call levels frame request world = .error error after)
    (pending : after.pending ⊆ data) :
    (∃ rootsAfter, Ledger.Sound data after.host.ledger book rootsAfter) ∧
      after.transfers = world.transfers := by
  cases levels with
  | zero =>
    cases failed
    exact ⟨⟨roots, sound⟩, rfl⟩
  | succ levels =>
    -- Up to the entry only the meter moves.
    have approached := approach_apply faithful sound engine frame request
    rw [Service.ending_spend] at approached
    cases entered : engine.enter frame request world with
    | error error last =>
      rw [call_refused entered] at failed
      cases failed
      rw [enter_error entered, approached]
      exact ⟨⟨roots, sound⟩, rfl⟩
    | ok entry inside =>
      obtain ⟨looked, found, rfl, _, root, mark⟩ := enter_ok entered
      rw [found, ending] at approached
      have soundLooked : Ledger.Sound data looked.host.ledger book roots := by
        rw [approached]
        exact sound
      have onward := (respected_onward faithful).sending frame request looked
      have extended := respected_extends.sending frame request looked
      rw [call_entered entered] at failed
      cases result : engine.runEntry levels request entry (sending frame request looked) with
      | ok value last =>
        rw [result] at failed
        cases failed
      | error cause last =>
        have ran := (respected_onward faithful).runEntry engine levels request entry
          (sending frame request looked)
        have grown := respected_extends.runEntry engine levels request entry
          (sending frame request looked)
        rw [result, ending] at ran grown
        rw [result] at failed
        have ended := ending_leave_error request.target entry cause last
        rw [failed, ending, root, mark] at ended
        subst ended
        obtain ⟨left, transfers⟩ := undo_restores faithful soundLooked
          (trans_of (World.Onward data) onward ran) (trans_of World.Extends extended grown) pending
        exact ⟨left, transfers.trans (by rw [approached])⟩

end Engine

namespace Site

variable {σ : Type} [ByteStore σ] [ReliableStore σ] {data : Set Bytes} {site : Site σ} {index : Nat}

/-- A call that fails leaves the ledger as it was seen and the transfers that there were; one that
succeeds leaves those transfers in front. The meter never goes back. -/
theorem Reached.call_atomic (faithful : Faithful data) (reached : Reached data site)
    (engine : Engine) (levels : Nat) (frame : Frame) (request : CallRequest) (world : World σ)
    (hosts : site.Hosts index world.host)
    (pending : (ending (engine.call levels frame request world)).view.pending ⊆ data) :
    (∀ error after, engine.call levels frame request world = .error error after →
      after.host.ledger.sight = world.host.ledger.sight ∧ after.transfers = world.transfers ∧
        world.Advances after) ∧
    ∀ value after, engine.call levels frame request world = .ok value after →
      world.transfers <+: after.transfers ∧ world.Advances after := by
  have extended := (respected_extends : Respected (@World.Extends σ)).call engine levels frame
    request world
  have advanced := (respected_advances : Respected (@World.Advances σ)).call engine levels frame
    request world
  constructor
  · intro error after failed
    rw [failed] at pending advanced
    obtain ⟨book, roots, sound⟩ := reached.host_sound faithful hosts
    have same := (Engine.agree_call engine levels frame request).same world
    rw [failed] at same
    obtain ⟨⟨rootsAfter, left⟩, transfers⟩ :=
      Engine.call_undone faithful engine levels frame request sound same.symm pending
    have seen := left.sight_eq faithful sound
    refine ⟨?_, transfers, advanced⟩
    rwa [← Ledger.sight_view world.host.ledger, ← Ledger.sight_view after.host.ledger]
  · intro value after succeeded
    rw [succeeded] at extended advanced
    exact ⟨extended, advanced⟩

/-- A contract that writes and calls itself until no level of calls is left. -/
def looping : ContractType :=
  ContractType.start "Looping" "looping" (return [])
    |>.withMethod "loop" [] (fun _ _ => do
      Code.write [1] [7]
      Code.call (← Program.request .self) "loop" [] 0)

/-- The world in which the contract is called. -/
def loopWorld : World Memory :=
  ⟨⟨(unused.run [(0, .run (.setCode (.ofNat 1) [5]))]).mounted 0, []⟩, .start 1000, []⟩

/-- A call that sends value and fails at its third level. -/
def loopCall : ServiceM Memory (Option Value) :=
  Engine.call ⟨fun _ => .ok [looping], .none, .standard⟩ 2
    ⟨⟨1, .ofNat 9⟩, ⟨.ofNat 3, 9, 1000⟩, .ofNat 2, ⟨.ofNat 2, 9⟩, 0⟩ ⟨.ofNat 1, "loop", [], 5⟩

set_option maxRecDepth 100000 in
theorem call_atomic_loop :
    ∃ error after, loopCall loopWorld = .error error after ∧
      after.host.ledger.sight = loopWorld.host.ledger.sight ∧ after.transfers = [] := by
  let moves : List (Nat × Move) := [(0, .run (.setCode (.ofNat 1) [5]))]
  let left := (ending (loopCall loopWorld)).host.ledger.ledger.pendingList
  obtain ⟨fails, apart, short⟩ : (answer (loopCall loopWorld)).isOk = false ∧
      ((Node.empty.encode :: (unused.seen moves ++ left)).dedup.map Keccak.digest).Nodup ∧
      ∀ record ∈ unused.seen moves ++ left, record.length < 2 ^ 63 := by decide +kernel
  have faithful := Faithful.of_nodup apart short
  have reached := (reached_unused _).run moves ⟨trivial, trivial⟩
    fun bytes member => List.mem_append_left left member
  have undone := (reached.call_atomic faithful _ _ _ _ loopWorld ⟨rfl, rfl⟩
    fun bytes member => List.mem_append_right _ (Host.mem_pendingList.mpr member)).1
  cases ran : loopCall loopWorld with
  | ok value after =>
    rw [ran] at fails
    cases fails
  | error error after =>
    obtain ⟨seen, transfers, _⟩ := undone error after ran
    exact ⟨error, after, rfl, seen, transfers⟩

end Site

end ContractLedger
