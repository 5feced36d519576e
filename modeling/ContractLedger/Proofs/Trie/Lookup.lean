import ContractLedger.Proofs.Trie.Descent
import Mathlib.Data.Fintype.EquivFin
import Mathlib.Logic.Relation

/-!
Lookups turn by turn, over any records at all. A turn ends the lookup, or goes on to a child, with less
left of the path unless the node is an extension with an empty path, which is read from a record like any
other. A lookup loads no more nodes than there are nibbles, one more, and one for each of these extensions
that it comes through; and it is endless exactly if it comes to a circle of them.
-/

namespace ContractLedger

/-- There are only so many hashes. -/
instance : Finite Hash := by
  refine not_infinite_iff_finite.mp fun _ => ?_
  obtain ⟨hashes, many⟩ := Infinite.exists_subset_card_eq Hash (Hash.count + 1)
  have few := Hash.length_le_count hashes.nodup_toList
  rw [Finset.length_toList, many] at few
  exact Nat.not_succ_le_self _ few

namespace Trie

/-- One turn of a lookup at a node: what it finds, or the child that it goes on to and what is then left
of the path. -/
def turn : Node → Path → Option Bytes ⊕ Hash × Path
  | .empty, _ => .inl none
  | .leaf rest value, path => .inl (if rest = path then some value else none)
  | .extension lead child, path =>
    match lead.after? path with
    | none => .inl none
    | some rest => .inr (child, rest)
  | .branch _ value, [] => .inl value
  | .branch children _, nibble :: rest =>
    match children.child? nibble with
    | none => .inl none
    | some child => .inr (child, rest)

/-- The lookup of a path from a hash, with only so many turns. -/
def lookup {σ : Type} [ByteStore σ] (turns : Nat) (hash : Hash) (path : Path) :
    TrieM σ (Option Bytes) := do
  lookupFrom turns (← load hash) path

theorem get_eq_lookup {σ : Type} [ByteStore σ] (key : Bytes) (mounted : Mounted σ) :
    get key mounted =
      lookup (walkLimit (Path.ofBytes key)) mounted.trie.root (Path.ofBytes key) mounted :=
  rfl

theorem lookupFrom_succ {σ : Type} [ByteStore σ] (turns : Nat) (node : Node) (path : Path) :
    (lookupFrom (turns + 1) node path : TrieM σ (Option Bytes)) =
      match turn node path with
      | .inl found => pure found
      | .inr (child, rest) => lookup turns child rest := by
  cases node with
  | empty => rfl
  | leaf rest value => rfl
  | extension lead child =>
    rw [lookupFrom, turn]
    cases lead.after? path <;> rfl
  | branch children value =>
    cases path with
    | nil => rfl
    | cons nibble rest =>
      rw [lookupFrom, turn]
      cases children.child? nibble <;> rfl

/-- A turn leaves less of the path, except at an extension with an empty path. -/
theorem length_lt_of_turn {node : Node} {path rest : Path} {child : Hash}
    (goes : turn node path = .inr (child, rest)) :
    rest.length < path.length ∨ node = .extension [] child ∧ rest = path := by
  cases node with
  | empty => cases goes
  | leaf left value => cases goes
  | extension lead below =>
    rw [turn] at goes
    cases after : lead.after? path with
    | none => simp [after] at goes
    | some left =>
      rw [after] at goes
      cases goes
      obtain rfl : path = lead ++ rest := Path.after?_eq_some.mp after
      cases lead with
      | nil => exact .inr ⟨rfl, rfl⟩
      | cons nibble lead =>
        refine .inl ?_
        rw [List.length_append, List.length_cons]
        omega
  | branch children value =>
    cases path with
    | nil => cases goes
    | cons nibble left =>
      rw [turn] at goes
      cases present : children.child? nibble with
      | none => simp [present] at goes
      | some below =>
        rw [present] at goes
        cases goes
        exact .inl (Nat.lt_succ_self _)

theorem turn_idle (child : Hash) (path : Path) : turn (.extension [] child) path = .inr (child, path) := by
  rw [turn, Path.after?_eq_some.mpr (List.nil_append path).symm]

/-! What a lookup comes to. -/

/-- A lookup that ends: the loads that it makes, how many of them are of extensions with an empty path,
and what it finds. -/
inductive Finds (loads : Hash → Except TrieError Node) :
    Nat → Nat → Hash → Path → Except TrieError (Option Bytes) → Prop
  | fails {hash : Hash} {path : Path} {error : TrieError} (failed : loads hash = .error error) :
      Finds loads 1 0 hash path (.error error)
  | here {hash : Hash} {path : Path} {node : Node} {found : Option Bytes}
      (loaded : loads hash = .ok node) (last : turn node path = .inl found) :
      Finds loads 1 0 hash path (.ok found)
  | idle {hash child : Hash} {path : Path} {count skipped : Nat}
      {found : Except TrieError (Option Bytes)} (loaded : loads hash = .ok (.extension [] child))
      (below : Finds loads count skipped child path found) :
      Finds loads (count + 1) (skipped + 1) hash path found
  | further {hash child : Hash} {path rest : Path} {node : Node} {count skipped : Nat}
      {found : Except TrieError (Option Bytes)} (loaded : loads hash = .ok node)
      (goes : turn node path = .inr (child, rest)) (less : rest.length < path.length)
      (below : Finds loads count skipped child rest found) :
      Finds loads (count + 1) skipped hash path found

/-- The next hash of a lookup, and what is left of the path there. -/
def Goes (loads : Hash → Except TrieError Node) (here next : Hash × Path) : Prop :=
  ∃ node, loads here.1 = .ok node ∧ turn node here.2 = .inr next

/-- A lookup of a path from a hash comes to another hash with a rest of the path. -/
def Comes (loads : Hash → Except TrieError Node) (hash : Hash) (path : Path) (other : Hash)
    (rest : Path) : Prop :=
  Relation.ReflTransGen (Goes loads) (hash, path) (other, rest)

/-- The record of a hash is an extension with an empty path. -/
def Idles (loads : Hash → Except TrieError Node) (hash child : Hash) : Prop :=
  loads hash = .ok (.extension [] child)

section Walks

variable {loads : Hash → Except TrieError Node} {hash : Hash} {path : Path} {count skipped : Nat}
  {found : Except TrieError (Option Bytes)}

theorem Idles.goes {child : Hash} (idles : Idles loads hash child) (path : Path) :
    Goes loads (hash, path) (child, path) :=
  ⟨_, idles, turn_idle child path⟩

namespace Finds

theorem count_le (finds : Finds loads count skipped hash path found) :
    count ≤ path.length + 1 + skipped := by
  induction finds with
  | fails failed => omega
  | here loaded last => omega
  | idle loaded below ih => omega
  | further loaded goes less below ih => omega

theorem skipped_eq_zero (finds : Finds loads count skipped hash path found)
    (honest : ∀ other rest child, Comes loads hash path other rest → ¬Idles loads other child) :
    skipped = 0 := by
  induction finds with
  | fails failed => rfl
  | here loaded last => rfl
  | idle loaded below ih => exact absurd loaded (honest _ _ _ .refl)
  | further loaded goes less below ih =>
    exact ih fun other rest child comes => honest other rest child (.head ⟨_, loaded, goes⟩ comes)

/-- Whichever way a lookup goes on, it still ends, and with fewer loads. -/
theorem of_goes {next : Hash × Path} (finds : Finds loads count skipped hash path found)
    (goes : Goes loads (hash, path) next) :
    ∃ fewer < count, ∃ skipped, Finds loads fewer skipped next.1 next.2 found := by
  obtain ⟨node, loads_eq, turns⟩ := goes
  cases finds with
  | fails failed => exact nomatch failed.symm.trans loads_eq
  | here loaded last =>
    obtain rfl := Except.ok.inj (loaded.symm.trans loads_eq)
    exact nomatch last.symm.trans turns
  | idle loaded below =>
    obtain rfl := Except.ok.inj (loaded.symm.trans loads_eq)
    obtain rfl := Sum.inr.inj ((turn_idle _ path).symm.trans turns)
    exact ⟨_, Nat.lt_succ_self _, _, below⟩
  | further loaded goes less below =>
    obtain rfl := Except.ok.inj (loaded.symm.trans loads_eq)
    obtain rfl := Sum.inr.inj (goes.symm.trans turns)
    exact ⟨_, Nat.lt_succ_self _, _, below⟩

theorem of_transGen {next : Hash × Path} (finds : Finds loads count skipped hash path found)
    (comes : Relation.TransGen (Goes loads) (hash, path) next) :
    ∃ fewer < count, ∃ skipped, Finds loads fewer skipped next.1 next.2 found := by
  induction comes with
  | single goes => exact finds.of_goes goes
  | tail comes goes ih =>
    obtain ⟨fewer, bound, skipped, below⟩ := ih
    obtain ⟨fewest, less, skipped, below⟩ := below.of_goes goes
    exact ⟨fewest, less.trans bound, skipped, below⟩

theorem not_circling (finds : Finds loads count skipped hash path found) :
    ¬Relation.TransGen (Goes loads) (hash, path) (hash, path) := by
  induction count using Nat.strong_induction_on generalizing skipped with
  | _ count ih =>
    intro circle
    obtain ⟨fewer, less, skipped, below⟩ := finds.of_transGen circle
    exact ih fewer less below circle

/-- A lookup that ends comes to no circle of extensions with an empty path. -/
theorem not_circles (finds : Finds loads count skipped hash path found) {other : Hash} {rest : Path}
    (comes : Comes loads hash path other rest) : ¬Relation.TransGen (Idles loads) other other := by
  intro circle
  have around : Relation.TransGen (Goes loads) (other, rest) (other, rest) :=
    circle.lift (·, rest) fun _ _ idles => idles.goes rest
  rcases Relation.reflTransGen_iff_eq_or_transGen.mp comes with same | comes
  · cases same
    exact finds.not_circling around
  · obtain ⟨fewer, -, skipped, below⟩ := finds.of_transGen comes
    exact below.not_circling around

end Finds

/-- A lookup that comes to no circle ends. The induction is on what is left of the path, and within that
on the extensions with an empty path, which lead through different hashes only. -/
theorem exists_finds
    (free : ∀ other rest, Comes loads hash path other rest →
      ¬Relation.TransGen (Idles loads) other other) :
    ∃ count skipped found, Finds loads count skipped hash path found := by
  induction len : path.length using Nat.strong_induction_on generalizing hash path with
  | _ length ihLength =>
    subst len
    let below (child other : Hash) : Prop :=
      Comes loads hash path other path ∧ Relation.TransGen (Idles loads) other child
    have : IsTrans Hash below :=
      ⟨fun _ _ _ first second => ⟨second.1, second.2.trans first.2⟩⟩
    have : Std.Irrefl below := ⟨fun other circle => free other path circle.1 circle.2⟩
    have wellFounded : WellFounded below := Finite.wellFounded_of_trans_of_irrefl below
    suffices ends : ∀ other, Comes loads hash path other path →
        ∃ count skipped found, Finds loads count skipped other path found from
      ends hash .refl
    intro other
    induction other using wellFounded.induction with
    | _ other ihBelow =>
      intro comes
      cases loaded : loads other with
      | error error => exact ⟨1, 0, _, .fails loaded⟩
      | ok node =>
        cases turns : turn node path with
        | inl value => exact ⟨1, 0, _, .here loaded turns⟩
        | inr next =>
          obtain ⟨child, rest⟩ := next
          have goes : Goes loads (other, path) (child, rest) := ⟨node, loaded, turns⟩
          rcases length_lt_of_turn turns with less | ⟨rfl, rfl⟩
          · obtain ⟨count, skipped, found, finds⟩ :=
              ihLength _ less (fun _ _ further => free _ _ ((comes.tail goes).trans further)) rfl
            exact ⟨count + 1, skipped, found, .further loaded turns less finds⟩
          · obtain ⟨count, skipped, found, finds⟩ :=
              ihBelow child ⟨comes, .single loaded⟩ (comes.tail goes)
            exact ⟨count + 1, skipped + 1, found, .idle loaded finds⟩

end Walks

/-! A lookup that ends does so within the longest walk. -/

section Limit

variable {loads : Hash → Except TrieError Node} {hash : Hash} {path : Path}

/-- What is loaded, a node that cannot be read counting as the empty one. -/
private def settled (loads : Hash → Except TrieError Node) (hash : Hash) : Except TrieError Node :=
  .ok ((loads hash).toOption.getD .empty)

private theorem settled_ok {node : Node} (loaded : loads hash = .ok node) :
    settled loads hash = .ok node := by
  rw [settled, loaded]
  rfl

private theorem onward_of_goes {node : Node} {next : Hash × Path} (loaded : loads hash = .ok node)
    (goes : turn node path = .inr next) : onward (settled loads) (hash, path) = some next := by
  have settles := settled_ok loaded
  cases node with
  | empty => cases goes
  | leaf rest value => cases goes
  | extension lead child =>
    rw [turn] at goes
    cases after : lead.after? path <;> simp_all [onward]
  | branch children value =>
    cases path with
    | nil => cases goes
    | cons nibble rest =>
      rw [turn] at goes
      cases present : children.child? nibble <;> simp_all [onward]

private theorem onward_of_last {node : Node} {found : Option Bytes} (loaded : loads hash = .ok node)
    (last : turn node path = .inl found) :
    onward (settled loads) (hash, path) = none ∨
      ∃ rest, onward (settled loads) (hash, path) = some (Node.emptyRoot, rest) := by
  have settles := settled_ok loaded
  cases node with
  | empty => simp [onward, settles]
  | leaf rest value => simp [onward, settles]
  | extension lead child =>
    rw [turn] at last
    cases after : lead.after? path <;> simp_all [onward]
  | branch children value =>
    cases path with
    | nil => simp [onward, settles]
    | cons nibble rest =>
      rw [turn] at last
      cases present : children.child? nibble <;> simp_all [onward]

theorem Finds.exists_ends {count skipped : Nat} {found : Except TrieError (Option Bytes)}
    (finds : Finds loads count skipped hash path found) (empty : loads Node.emptyRoot = .ok .empty) :
    ∃ steps, count ≤ steps + 1 ∧ Ends (settled loads) steps (hash, path) := by
  induction finds with
  | @fails hash path error failed =>
    have settles : settled loads hash = .ok .empty := by
      rw [settled, failed]
      rfl
    exact ⟨0, Nat.le_refl 1, .here settles (by simp [onward, settles])⟩
  | @here hash path node found loaded last =>
    rcases onward_of_last loaded last with last | ⟨rest, leads⟩
    · exact ⟨0, Nat.le_refl 1, .here (settled_ok loaded) last⟩
    · have settles := settled_ok empty
      exact ⟨1, Nat.le_succ 1, .further leads (.here settles (by simp [onward, settles]))⟩
  | @idle hash child path count skipped found loaded below ih =>
    obtain ⟨steps, bound, ends⟩ := ih
    exact ⟨steps + 1, Nat.succ_le_succ bound,
      .further (onward_of_goes loaded (turn_idle child path)) ends⟩
  | further loaded goes less below ih =>
    obtain ⟨steps, bound, ends⟩ := ih
    exact ⟨steps + 1, Nat.succ_le_succ bound, .further (onward_of_goes loaded goes) ends⟩

theorem Finds.le_walkLimit {count skipped : Nat} {found : Except TrieError (Option Bytes)}
    (finds : Finds loads count skipped hash path found) (empty : loads Node.emptyRoot = .ok .empty) :
    count ≤ walkLimit path := by
  obtain ⟨steps, bound, ends⟩ := finds.exists_ends empty
  exact bound.trans ends.lt_walkLimit

end Limit

/-! The lookups of the trie. -/

section Content

variable {mounted : Mounted Content} {hash : Hash} {path : Path}

theorem answer_lookup_error {error : TrieError} (turns : Nat)
    (failed : mounted.loads hash = .error error) :
    answer (lookup turns hash path mounted) = .error error := by
  rw [lookup, Step.bind_error ((readwise_same.load hash).error_of_answer failed)]
  rfl

theorem answer_lookup_ok {node : Node} (turns : Nat) (loaded : mounted.loads hash = .ok node) :
    answer (lookup turns hash path mounted) = answer (lookupFrom turns node path mounted) := by
  rw [lookup, Step.bind_ok (load_of_loads loaded)]

theorem answer_lookup_zero {node : Node} (loaded : mounted.loads hash = .ok node) :
    answer (lookup 0 hash path mounted) = .error .endless := by
  rw [answer_lookup_ok 0 loaded]
  rfl

theorem answer_lookup_last {node : Node} {found : Option Bytes} (turns : Nat)
    (loaded : mounted.loads hash = .ok node) (last : turn node path = .inl found) :
    answer (lookup (turns + 1) hash path mounted) = .ok found := by
  rw [answer_lookup_ok _ loaded, lookupFrom_succ, last]
  rfl

theorem answer_lookup_goes {node : Node} {child : Hash} {rest : Path} (turns : Nat)
    (loaded : mounted.loads hash = .ok node) (goes : turn node path = .inr (child, rest)) :
    answer (lookup (turns + 1) hash path mounted) = answer (lookup turns child rest mounted) := by
  rw [answer_lookup_ok _ loaded, lookupFrom_succ, goes]

namespace Finds

variable {count skipped : Nat} {found : Except TrieError (Option Bytes)}

/-- With a turn for each load, a lookup that ends does so with what it finds. -/
theorem answer_lookup {turns : Nat} (finds : Finds mounted.loads count skipped hash path found)
    (enough : count ≤ turns) : answer (lookup turns hash path mounted) = found := by
  induction finds generalizing turns with
  | fails failed => exact answer_lookup_error turns failed
  | here loaded last =>
    obtain ⟨turns, rfl⟩ := Nat.exists_eq_add_of_le' enough
    exact answer_lookup_last turns loaded last
  | idle loaded below ih =>
    obtain ⟨turns, rfl⟩ := Nat.exists_eq_add_of_le' ((Nat.le_add_left 1 _).trans enough)
    rw [answer_lookup_goes turns loaded (turn_idle _ _)]
    exact ih (Nat.le_of_succ_le_succ enough)
  | further loaded goes less below ih =>
    obtain ⟨turns, rfl⟩ := Nat.exists_eq_add_of_le' ((Nat.le_add_left 1 _).trans enough)
    rw [answer_lookup_goes turns loaded goes]
    exact ih (Nat.le_of_succ_le_succ enough)

/-- With too few turns to make its loads, a lookup is given up. -/
theorem answer_lookup_short {turns : Nat} (finds : Finds mounted.loads count skipped hash path found)
    (short : turns + 1 < count) : answer (lookup turns hash path mounted) = .error .endless := by
  induction finds generalizing turns with
  | fails failed => omega
  | here loaded last => omega
  | idle loaded below ih =>
    cases turns with
    | zero => exact answer_lookup_zero loaded
    | succ turns =>
      rw [answer_lookup_goes turns loaded (turn_idle _ _)]
      exact ih (Nat.lt_of_succ_lt_succ short)
  | further loaded goes less below ih =>
    cases turns with
    | zero => exact answer_lookup_zero loaded
    | succ turns =>
      rw [answer_lookup_goes turns loaded goes]
      exact ih (Nat.lt_of_succ_lt_succ short)

end Finds

theorem exists_finds_of_answer {turns : Nat} {found : Except TrieError (Option Bytes)}
    (answers : answer (lookup turns hash path mounted) = found) (kept : found ≠ .error .endless) :
    ∃ count skipped, Finds mounted.loads count skipped hash path found := by
  induction turns generalizing hash path with
  | zero =>
    cases loaded : mounted.loads hash with
    | error error =>
      rw [answer_lookup_error 0 loaded] at answers
      exact ⟨1, 0, answers ▸ .fails loaded⟩
    | ok node => exact absurd (answers.symm.trans (answer_lookup_zero loaded)) kept
  | succ turns ih =>
    cases loaded : mounted.loads hash with
    | error error =>
      rw [answer_lookup_error _ loaded] at answers
      exact ⟨1, 0, answers ▸ .fails loaded⟩
    | ok node =>
      cases step : turn node path with
      | inl value =>
        rw [answer_lookup_last turns loaded step] at answers
        exact ⟨1, 0, answers ▸ .here loaded step⟩
      | inr next =>
        obtain ⟨child, rest⟩ := next
        rw [answer_lookup_goes turns loaded step] at answers
        obtain ⟨count, skipped, finds⟩ := ih answers
        rcases length_lt_of_turn step with less | ⟨rfl, rfl⟩
        · exact ⟨count + 1, skipped, .further loaded step less finds⟩
        · exact ⟨count + 1, skipped + 1, .idle loaded finds⟩

private theorem answer_readNode_ne_endless (record : Bytes) :
    answer ((readNode record : TrieM Content Node) mounted) ≠ .error .endless := by
  intro endless
  rw [readNode] at endless
  cases decoded : Node.decode record <;> rw [decoded] at endless <;> cases endless

theorem loads_ne_endless : mounted.loads hash ≠ .error .endless := by
  intro endless
  rw [Mounted.loads, load] at endless
  by_cases empty : hash = Node.emptyRoot
  · rw [if_pos empty] at endless
    cases endless
  rw [if_neg empty, Step.bind_ok (Step.get_apply _)] at endless
  cases pending : mounted.trie.overlay.lookup hash with
  | some record =>
    rw [pending] at endless
    exact answer_readNode_ne_endless record endless
  | none =>
    simp only [pending] at endless
    rw [Step.bind_apply, onStore] at endless
    cases read : mounted.trie.keyspace.read hash.bytes mounted.store with
    | error error store =>
      simp only [read] at endless
      cases endless
    | ok found store =>
      simp only [read] at endless
      cases found with
      | none => cases endless
      | some record => exact answer_readNode_ne_endless record endless

theorem Finds.ne_endless {count skipped : Nat} {found : Except TrieError (Option Bytes)}
    (finds : Finds mounted.loads count skipped hash path found) : found ≠ .error .endless := by
  induction finds with
  | fails failed =>
    intro endless
    cases endless
    exact loads_ne_endless failed
  | here loaded last => nofun
  | idle loaded below ih => exact ih
  | further loaded goes less below ih => exact ih

theorem answer_get_iff {key : Bytes} {found : Except TrieError (Option Bytes)}
    (kept : found ≠ .error .endless) :
    answer (get key mounted) = found ↔ ∃ count skipped,
      Finds mounted.loads count skipped mounted.trie.root (Path.ofBytes key) found := by
  rw [get_eq_lookup]
  constructor
  · intro answers
    exact exists_finds_of_answer answers kept
  · rintro ⟨count, skipped, finds⟩
    exact finds.answer_lookup (finds.le_walkLimit rfl)

theorem answer_get_endless_iff {key : Bytes} :
    answer (get key mounted) = .error .endless ↔ ∃ hash rest,
      Comes mounted.loads mounted.trie.root (Path.ofBytes key) hash rest ∧
        Relation.TransGen (Idles mounted.loads) hash hash := by
  constructor
  · intro endless
    by_contra free
    push Not at free
    obtain ⟨count, skipped, found, finds⟩ := exists_finds free
    have answers := (answer_get_iff finds.ne_endless).mpr ⟨count, skipped, finds⟩
    exact finds.ne_endless (answers.symm.trans endless)
  · rintro ⟨hash, rest, comes, circle⟩
    by_contra kept
    obtain ⟨count, skipped, finds⟩ := (answer_get_iff kept).mp rfl
    exact finds.not_circles comes circle

end Content

section Lookups

variable {σ : Type} [ByteStore σ] [ReliableStore σ]

theorem agree_lookup (turns : Nat) (hash : Hash) (path : Path) :
    Agree Mounted.view Mounted.pending (lookup turns hash path : TrieM σ _) (lookup turns hash path) :=
  .bind (agree_load hash) fun node => nodewise_agree.lookupFrom turns node path

/-- Lookups over any store that reads reliably, whatever it and the overlay hold under whatever hashes. A
lookup answers what it finds, if it ends, and it makes no more loads than one, one for each nibble of the
key, and one for each extension with an empty path on its way. It is given up as endless exactly if it
comes to a circle of such extensions; if it comes to none of them, it ends within the loads that the length
of the key allows. -/
theorem get_ends (mounted : Mounted σ) (key : Bytes) :
    (∀ found, found ≠ .error .endless →
      (answer (get key mounted) = found ↔ ∃ count skipped,
        Finds mounted.loads count skipped mounted.trie.root (Path.ofBytes key) found)) ∧
    (∀ count skipped found,
      Finds mounted.loads count skipped mounted.trie.root (Path.ofBytes key) found →
        count ≤ 2 * key.length + 1 + skipped ∧
        ∀ turns, turns + 1 < count →
          answer (lookup turns mounted.trie.root (Path.ofBytes key) mounted) = .error .endless) ∧
    (answer (get key mounted) = .error .endless ↔ ∃ hash rest,
      Comes mounted.loads mounted.trie.root (Path.ofBytes key) hash rest ∧
        Relation.TransGen (Idles mounted.loads) hash hash) ∧
    ((∀ hash rest child, Comes mounted.loads mounted.trie.root (Path.ofBytes key) hash rest →
        ¬Idles mounted.loads hash child) →
      ∃ count found, Finds mounted.loads count 0 mounted.trie.root (Path.ofBytes key) found ∧
        answer (get key mounted) = found ∧ found ≠ .error .endless ∧ count ≤ 2 * key.length + 1) := by
  have length := Path.length_ofBytes key
  have same := answer_view (agree_get key) mounted
  rw [← loads_view, ← same]
  refine ⟨fun found kept => answer_get_iff kept, fun count skipped found finds => ⟨?_, ?_⟩,
    answer_get_endless_iff, fun honest => ?_⟩
  · rw [← length]
    exact finds.count_le
  · intro turns short
    rw [← answer_view (agree_lookup turns _ _) mounted]
    exact finds.answer_lookup_short short
  · obtain ⟨count, skipped, found, finds⟩ := exists_finds fun hash rest comes circle => by
      obtain ⟨child, idles, -⟩ := Relation.TransGen.head'_iff.mp circle
      exact honest hash rest child comes idles
    obtain rfl := finds.skipped_eq_zero honest
    have bound := finds.count_le
    rw [length] at bound
    exact ⟨count, found, finds, (answer_get_iff finds.ne_endless).mpr ⟨count, 0, finds⟩,
      finds.ne_endless, bound⟩

end Lookups

/-! Stores that were tampered with. -/

/-- A trie over a store of some records in its column, under hashes that need not be their digests. -/
def tampered (records : List (Hash × Node)) (root : Hash) : Mounted Content :=
  ⟨.ofRoot (.ofColumn Column.accounts) root, fun column key =>
    if column = Column.accounts then
      (records.find? (·.1.bytes = key)).map (·.2.encode)
    else none⟩

/-- A hash of one byte over and over. -/
def hashOf (byte : UInt8) : Hash :=
  ⟨List.replicate 32 byte, rfl⟩

/-- A lookup of the empty key that comes through an extension with an empty path, and one that comes to
none. -/
theorem get_ends_tampered :
    let records := [(hashOf 1, .extension [] (hashOf 2)), (hashOf 2, .leaf [] [0x76])]
    answer (get [] (tampered records (hashOf 1))) = .ok (some [0x76]) ∧
      answer (lookup 0 (hashOf 1) [] (tampered records (hashOf 1))) = .error .endless ∧
      ∃ count found, Finds (tampered records (hashOf 2)).loads count 0 (hashOf 2) [] found ∧
        answer (get [] (tampered records (hashOf 2))) = found ∧ count ≤ 1 := by
  intro records
  have first : (tampered records (hashOf 1)).loads (hashOf 1) = .ok (.extension [] (hashOf 2)) := rfl
  have second (root : Hash) : (tampered records root).loads (hashOf 2) = .ok (.leaf [] [0x76]) := rfl
  have finds : Finds (tampered records (hashOf 1)).loads 2 1 (hashOf 1) [] (.ok (some [0x76])) :=
    .idle first (.here (second _) rfl)
  obtain ⟨answers, counts, -, -⟩ := get_ends (tampered records (hashOf 1)) []
  obtain ⟨-, -, -, ends⟩ := get_ends (tampered records (hashOf 2)) []
  have stays (hash : Hash) (rest : Path)
      (comes : Comes (tampered records (hashOf 2)).loads (hashOf 2) [] hash rest) : hash = hashOf 2 := by
    rcases comes.cases_head with same | ⟨next, ⟨node, loaded, goes⟩, -⟩
    · cases same
      rfl
    · obtain rfl := Except.ok.inj ((second _).symm.trans loaded)
      cases goes
  obtain ⟨count, found, findsBelow, answersBelow, -, bound⟩ := ends fun hash rest child comes idles => by
    obtain rfl := stays hash rest comes
    exact nomatch (second _).symm.trans idles
  have short := (counts 2 1 _ finds).2 0 (Nat.lt_succ_self 1)
  exact ⟨(answers (.ok (some [0x76])) nofun).mpr ⟨2, 1, finds⟩, short, count, found, findsBelow,
    answersBelow, bound⟩

/-- An extension with an empty path that leads to itself: a lookup of the empty key does not end, however
many turns it may take. -/
theorem get_circling :
    let mounted := tampered [(hashOf 1, .extension [] (hashOf 1))] (hashOf 1)
    (∀ turns, answer (lookup turns (hashOf 1) [] mounted) = .error .endless) ∧
      answer (get [] mounted) = .error .endless ∧
      ∀ count skipped found, ¬Finds mounted.loads count skipped (hashOf 1) [] found := by
  intro mounted
  have loops : mounted.loads (hashOf 1) = .ok (.extension [] (hashOf 1)) := rfl
  have endless (turns : Nat) : answer (lookup turns (hashOf 1) [] mounted) = .error .endless := by
    induction turns with
    | zero => exact answer_lookup_zero loops
    | succ turns ih => exact (answer_lookup_goes turns loops (turn_idle _ _)).trans ih
  have never := (congrArg answer (get_eq_lookup [] mounted)).trans (endless (walkLimit []))
  refine ⟨endless, never, fun count skipped found finds => ?_⟩
  exact finds.not_circles .refl (.single loops)

end Trie

end ContractLedger
