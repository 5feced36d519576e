import ContractLedger.Proofs.Engine.Steady

/-!
Solvent code. Every transfer that an invocation records was covered by its sender when it was made,
if the value on its way to the invoked contract is counted in as arrived; and it was sent by an
address that has code. Undoing a call takes transfers off the end of the list and leaves the others
covered.
-/

namespace ContractLedger

namespace Book

def balances (book : Book) : Balances := fun address => (book.holding address).balance.toNat

/-- Whether the accounts of a book back transfers that code made: each is covered in its turn, given
the incoming value, and its sender has code. -/
structure Backs (book : Book) (incoming : Incoming) (transfers : TransferList) : Prop where
  covers : (book.balances.credit incoming).Covers transfers
  senders : ∀ transfer ∈ transfers, (book.holding transfer.sender).code ≠ none

variable {book : Book} {incoming : Incoming} {transfers : TransferList}

namespace Backs

theorem nil (book : Book) (incoming : Incoming) : book.Backs incoming [] :=
  ⟨trivial, nofun⟩

theorem take (backs : book.Backs incoming transfers) (count : Nat) :
    book.Backs incoming (transfers.take count) := by
  have covers := backs.covers
  rw [← List.take_append_drop count transfers, Balances.covers_append] at covers
  exact ⟨covers.1, fun transfer member => backs.senders transfer (List.mem_of_mem_take member)⟩

theorem concat (backs : book.Backs incoming transfers) {sender recipient : Address}
    {amount : Amount} (code : (book.holding sender).code ≠ none)
    (affords : ¬ incoming.shown (book.holding sender).balance transfers sender < amount) :
    book.Backs incoming (transfers ++ [⟨sender, recipient, amount⟩]) := by
  refine ⟨Balances.covers_append.mpr ⟨backs.covers, ?_, trivial⟩, fun transfer member => ?_⟩
  · have most : (incoming.shown (book.holding sender).balance transfers sender).toNat ≤ _ :=
      Incoming.toNat_shown_le backs.covers rfl
    exact (UInt64.le_iff_toNat_le.mp (UInt64.not_lt.mp affords)).trans most
  · rcases List.mem_append.mp member with before | last
    · exact backs.senders transfer before
    · obtain rfl := List.mem_singleton.mp last
      exact code

end Backs

end Book

variable {data : Set Bytes} {base : Book} {incoming : Incoming} {frame : Frame}
  {world : World Content}

/-- Where code stands in an invocation that started from a book: the balances and the code are still
those of the book, which gives the frame code and backs the transfers so far. -/
structure Solvent (data : Set Bytes) (base : Book) (incoming : Incoming) (frame : Frame)
    (world : World Content) : Prop where
  expects : frame.incoming = incoming
  sound : world.pending ⊆ data →
    ∃ book roots, Ledger.Sound data world.host.ledger book roots ∧ base.Alike book
  code : world.pending ⊆ data → (base.holding frame.address).code ≠ none
  backs : world.pending ⊆ data → base.Backs incoming world.transfers

namespace Solvent

theorem start {roots : Address → Hash} (sound : Ledger.Sound data world.host.ledger base roots)
    (code : (base.holding frame.address).code ≠ none) (none : world.transfers = []) :
    Solvent data base frame.incoming frame world := by
  refine ⟨rfl, fun _ => ⟨base, roots, sound, .refl base⟩, fun _ => code, fun _ => ?_⟩
  rw [none]
  exact .nil base frame.incoming

/-- What code is shown is no more than what the incoming value and the transfers so far leave, and
just that if all that was received fits a word. -/
theorem balanceOf (faithful : Faithful data) (solvent : Solvent data base incoming frame world)
    (pending : world.pending ⊆ data) :
    let credited := base.balances.credit incoming
    ∃ shown, Service.balanceOf frame.incoming frame.address world = .ok shown world ∧
      shown.toNat ≤ credited.settle world.transfers frame.address ∧
      (credited frame.address + TransferList.inflow world.transfers frame.address < UInt64.size →
        shown.toNat = credited.settle world.transfers frame.address) := by
  intro credited
  obtain ⟨book, roots, sound, alike⟩ := solvent.sound pending
  refine ⟨_, Service.balanceOf_apply faithful sound frame.incoming frame.address, ?_⟩
  have covers := (solvent.backs pending).covers
  rw [alike.balance, solvent.expects]
  exact ⟨Incoming.toNat_shown_le covers rfl, Incoming.toNat_shown_eq covers rfl⟩

private theorem keep {after : World Content} (solvent : Solvent data base incoming frame world)
    (steady : World.Steady data world after) (pending : after.pending ⊆ data) :
    ∃ book roots, Ledger.Sound data after.host.ledger book roots ∧ base.Alike book := by
  obtain ⟨book, roots, sound, alike⟩ := solvent.sound (steady.grows.trans pending)
  obtain ⟨last, rootsLast, soundLast, alikeLast⟩ := steady.alike book roots sound pending
  exact ⟨last, rootsLast, soundLast, alike.trans alikeLast⟩

private theorem sent (faithful : Faithful data) (solvent : Solvent data base incoming frame world)
    (pending : world.pending ⊆ data) {recipient : Address} {amount : Amount} {after : World Content}
    (checked : Service.ensureBalance frame amount world = .ok () after) :
    base.Backs incoming (world.transfers ++ [⟨frame.address, recipient, amount⟩]) := by
  obtain ⟨book, roots, sound, alike⟩ := solvent.sound pending
  rw [Service.ensureBalance_apply faithful sound, alike.balance, solvent.expects] at checked
  refine (solvent.backs pending).concat (solvent.code pending) fun short => ?_
  rw [if_pos short] at checked
  cases checked

end Solvent

theorem upheld_solvent (faithful : Faithful data) (base : Book) (incoming : Incoming) :
    Upheld (World.Steady data) (Solvent data base incoming) where
  quiet solvent quietly := by
    obtain ⟨steady, same⟩ := quietly
    refine ⟨solvent.expects, solvent.keep steady, fun pending => ?_, fun pending => ?_⟩
    · exact solvent.code (steady.grows.trans pending)
    · rw [same]
      exact solvent.backs (steady.grows.trans pending)
  sent solvent checked quietly := by
    obtain ⟨steady, same⟩ := quietly
    refine ⟨solvent.expects, solvent.keep steady, fun pending => ?_, fun pending => ?_⟩
    · exact solvent.code (steady.grows.trans pending)
    · simp only [same]
      exact solvent.sent faithful (steady.grows.trans pending) checked
  entered {frame before middle after request code gas} solvent found steady inside := by
    refine ⟨inside.expects, inside.sound, fun pending => ?_, inside.backs⟩
    obtain ⟨book, roots, sound, alike⟩ := solvent.sound (steady.grows.trans pending)
    rw [Service.getCode_apply faithful sound, alike.code] at found
    change (base.holding request.target).code ≠ none
    intro absent
    rw [absent] at found
    cases found
  returned solvent steady inner :=
    ⟨solvent.expects, inner.sound, fun pending => solvent.code (steady.grows.trans pending),
      inner.backs⟩
  undone {frame before after} solvent steady last := by
    have grown : after.pending ⊆ _ := (Engine.agree_undo before.host.ledger.ledger.root
      before.transfers.length).grows after
    refine ⟨solvent.expects, fun pending => ?_, fun pending => last.code (grown.trans pending),
      fun pending => ?_⟩
    · exact solvent.keep ((respected_steady faithful).undo before after steady) pending
    · have backs := last.backs (grown.trans pending)
      rcases Engine.transfers_undo before.host.ledger.ledger.root before.transfers.length after with
        cut | same
      · rw [cut]
        exact backs.take _
      · rw [same]
        exact backs

end ContractLedger
