import ContractLedger.Proofs.Ledger.Draft
import ContractLedger.Proofs.Trie.Stored
import ContractLedger.Proofs.Trie.View
import Mathlib.Algebra.Order.BigOperators.Group.Finset

/-!
The way that a path leads down from a hash, over any store. It is determined by the hash and what is
left of the path, so that one that ends does not come twice to the same of both, and is shorter than
there are pairs of them: whoever gives up later than that gives up on an endless way only.
-/

namespace ContractLedger.Trie

def Mounted.loads {σ : Type} [ByteStore σ] (mounted : Mounted σ) (hash : Hash) :
    Except TrieError Node :=
  answer (load hash mounted)

/-- A step answers over a reliable store as it does over the content. -/
theorem answer_view {σ α γ : Type} [ByteStore σ] [ReliableStore σ] {step : TrieM σ α}
    {stepView : TrieM Content α} {measure : Mounted Content → Set γ}
    (agree : Agree Mounted.view measure step stepView) (mounted : Mounted σ) :
    answer (stepView mounted.view) = answer (step mounted) := by
  rw [← agree.same, answer_through]

theorem loads_view {σ : Type} [ByteStore σ] [ReliableStore σ] (mounted : Mounted σ) :
    mounted.view.loads = mounted.loads :=
  funext fun hash => answer_view (agree_load hash) mounted

/-! Over a content nothing is changed by reading. -/

section Unchanged

variable {mounted after : Mounted Content}

theorem along_read (space : Keyspace) (key : Bytes) :
    Along Eq (onStore (space.read key) : TrieM Content _) := by
  intro mounted
  simp only [onStore, Keyspace.read, ByteStore.read]
  by_cases column : space.column < Column.count <;> simp [column, ending]

theorem readwise_same : Readwise fun (step _ : TrieM Content _) => Along Eq step :=
  readwise_along along_read

theorem loads_of_load {hash : Hash} {node : Node} (loaded : load hash mounted = .ok node after) :
    mounted.loads hash = .ok node :=
  congrArg answer loaded

theorem load_of_loads {hash : Hash} {node : Node} (loaded : mounted.loads hash = .ok node) :
    load hash mounted = .ok node mounted :=
  (readwise_same.load hash).ok_of_answer loaded

end Unchanged

/-- Where a path leads from a hash: to the hash of a child, and with what is left of the path. An absent
child counts as the empty node. -/
def onward (loads : Hash → Except TrieError Node) (place : Hash × Path) : Option (Hash × Path) :=
  match loads place.1, place.2 with
  | .ok (.extension lead child), path => (lead.after? path).map (child, ·)
  | .ok (.branch children _), nibble :: rest =>
    some ((children.child? nibble).getD Node.emptyRoot, rest)
  | _, _ => none

inductive Ends (loads : Hash → Except TrieError Node) : Nat → Hash × Path → Prop
  | here {place : Hash × Path} {node : Node} (loaded : loads place.1 = .ok node)
      (last : onward loads place = none) : Ends loads 0 place
  | further {place next : Hash × Path} {steps : Nat} (leads : onward loads place = some next)
      (below : Ends loads steps next) : Ends loads (steps + 1) place

namespace Ends

variable {loads : Hash → Except TrieError Node} {steps others : Nat} {place next : Hash × Path}

theorem unique (ends : Ends loads steps place) (other : Ends loads others place) :
    steps = others := by
  induction ends generalizing others with
  | here loaded last =>
    cases other with
    | here => rfl
    | further leads below => exact nomatch last.symm.trans leads
  | further leads below ih =>
    cases other with
    | here loaded last => exact nomatch last.symm.trans leads
    | further otherLeads otherBelow =>
      obtain rfl := Option.some.inj (leads.symm.trans otherLeads)
      rw [ih otherBelow]

theorem exists_loads (ends : Ends loads steps place) : ∃ node, loads place.1 = .ok node := by
  cases ends with
  | here loaded _ => exact ⟨_, loaded⟩
  | further leads _ =>
    unfold onward at leads
    split at leads
    · next loaded => exact ⟨_, loaded⟩
    · next loaded _ => exact ⟨_, loaded⟩
    · cases leads

theorem suffix_of_onward (leads : onward loads place = some next) : next.2 <:+ place.2 := by
  obtain ⟨hash, path⟩ := place
  unfold onward at leads
  split at leads
  · obtain ⟨rest, after, rfl⟩ := Option.map_eq_some_iff.mp leads
    rw [show path = _ from Path.after?_eq_some.mp after]
    exact List.suffix_append _ _
  · next same =>
    cases leads
    dsimp only at same
    rw [same]
    exact List.suffix_cons _ _
  · cases leads

theorem exists_trail (ends : Ends loads steps place) : ∃ trail : List (Hash × Path),
    trail.length = steps + 1 ∧ trail.Nodup ∧
      ∀ other ∈ trail, other.2 <:+ place.2 ∧ ∃ fewer ≤ steps, Ends loads fewer other := by
  induction ends with
  | @here place node loaded last =>
    refine ⟨[place], rfl, List.nodup_singleton place, fun other member => ?_⟩
    obtain rfl := List.mem_singleton.mp member
    exact ⟨List.suffix_refl _, 0, Nat.le_refl 0, .here loaded last⟩
  | @further place next steps leads below ih =>
    obtain ⟨trail, long, distinct, each⟩ := ih
    refine ⟨place :: trail, by rw [List.length_cons, long], distinct.cons fun again => ?_, ?_⟩
    · -- the place is one step further from the end than any place below it
      obtain ⟨-, fewer, bound, ends⟩ := each place again
      have same := ends.unique (.further leads below)
      omega
    · rintro other (_ | ⟨_, member⟩)
      · exact ⟨List.suffix_refl _, _, Nat.le_refl _, .further leads below⟩
      · obtain ⟨shorter, fewer, bound, ends⟩ := each other member
        exact ⟨shorter.trans (suffix_of_onward leads), fewer, Nat.le_succ_of_le bound, ends⟩

theorem lt_walkLimit (ends : Ends loads steps place) : steps < walkLimit place.2 := by
  obtain ⟨trail, long, distinct, each⟩ := ends.exists_trail
  have tails : ∀ other ∈ trail.toFinset, other.2 ∈ place.2.tails.toFinset := by
    intro other member
    rw [List.mem_toFinset, List.mem_tails]
    exact (each other (List.mem_toFinset.mp member)).1
  have fibres : ∀ tail ∈ place.2.tails.toFinset,
      (trail.toFinset.filter fun other => other.2 = tail).card ≤ Hash.count := by
    intro tail _
    rw [← Finset.card_image_of_injOn (f := Prod.fst), ← Finset.length_toList]
    · exact Hash.length_le_count (Finset.nodup_toList _)
    · intro first inside second within same
      have firstTail := (Finset.mem_filter.mp (Finset.mem_coe.mp inside)).2
      have secondTail := (Finset.mem_filter.mp (Finset.mem_coe.mp within)).2
      exact Prod.ext same (firstTail.trans secondTail.symm)
  have bound := Finset.card_le_mul_card_image_of_maps_to tails Hash.count fibres
  rw [List.toFinset_card_of_nodup distinct, long] at bound
  have few : place.2.tails.toFinset.card ≤ place.2.length + 1 := by
    refine (List.toFinset_card_le _).trans ?_
    rw [List.length_tails]
  rw [walkLimit, Nat.mul_comm]
  exact bound.trans (Nat.mul_le_mul_left _ few)

end Ends

private theorem exists_ends_of_further {mounted : Mounted Content} {hash child : Hash}
    {path rest : Path} {found : Option Bytes} {next : Node → TrieM Content (Option Bytes)}
    (leads : onward mounted.loads (hash, path) = some (child, rest))
    (below : ∀ {node}, mounted.loads child = .ok node → answer (next node mounted) = .ok found →
      ∃ length, Ends mounted.loads length (child, rest))
    (finds : answer ((load child >>= next) mounted) = .ok found) :
    ∃ length, Ends mounted.loads length (hash, path) := by
  cases loaded : mounted.loads child with
  | error error =>
    rw [Step.bind_error ((readwise_same.load child).error_of_answer loaded)] at finds
    cases finds
  | ok node =>
    rw [Step.bind_ok (load_of_loads loaded)] at finds
    obtain ⟨length, ends⟩ := below loaded finds
    exact ⟨length + 1, .further leads ends⟩

theorem ends_of_lookupFrom {mounted : Mounted Content} {steps : Nat} {hash : Hash} {node : Node}
    {path : Path} {found : Option Bytes} (loaded : mounted.loads hash = .ok node)
    (finds : answer (lookupFrom steps node path mounted) = .ok found) :
    ∃ length, Ends mounted.loads length (hash, path) := by
  induction steps generalizing hash node path with
  | zero => cases finds
  | succ steps ih =>
    cases node with
    | empty => exact ⟨0, .here loaded (by simp [onward, loaded])⟩
    | leaf rest value => exact ⟨0, .here loaded (by simp [onward, loaded])⟩
    | extension lead child =>
      rw [lookupFrom] at finds
      cases after : lead.after? path with
      | none => exact ⟨0, .here loaded (by simp [onward, loaded, after])⟩
      | some rest =>
        rw [after] at finds
        have leads : onward mounted.loads (hash, path) = some (child, rest) := by
          simp [onward, loaded, after]
        exact exists_ends_of_further leads (fun loadedBelow => ih loadedBelow) finds
    | branch children value =>
      cases path with
      | nil => exact ⟨0, .here loaded (by simp [onward, loaded])⟩
      | cons nibble rest =>
        rw [lookupFrom] at finds
        cases present : children.child? nibble with
        | none =>
          have leads : onward mounted.loads (hash, nibble :: rest) = some (Node.emptyRoot, rest) := by
            simp [onward, loaded, present]
          have empty : mounted.loads Node.emptyRoot = .ok .empty := rfl
          exact ⟨1, .further leads (.here empty (by simp [onward, empty]))⟩
        | some child =>
          rw [present] at finds
          have leads : onward mounted.loads (hash, nibble :: rest) = some (child, rest) := by
            simp [onward, loaded, present]
          exact exists_ends_of_further leads (fun loadedBelow => ih loadedBelow) finds

end ContractLedger.Trie
