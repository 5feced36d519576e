import ContractLedger.Proofs.Ledger.Resets
import ContractLedger.Proofs.Ledger.Tidy
import ContractLedger.Proofs.Trie.Course
import ContractLedger.Proofs.Trie.Shape

/-!
Which roots are known to a store. A commit writes what its root leads to through what is pending, so every
record of the account column is that of a node to which some commit leads, whatever the sessions that share
the store have done: roots that do not show a ledger may have been opened and committed as well. A store
keeps no list of its roots. So what can be loaded or opened, or be made the root of an account trie, is just
what commits lead to, be it a root, a node below one, or a leaf.
-/

namespace ContractLedger

/-- The node of a hash among the account records of a store. -/
def Content.node (content : Content) : Hash → Except TrieError Node :=
  Trie.Mounted.loads ⟨Trie.empty (.ofColumn Column.accounts), content⟩

namespace Content

variable {data : Set Bytes} {content larger : Content} {hash : Hash} {record : Bytes} {node : Node}

theorem node_emptyRoot (content : Content) : content.node Node.emptyRoot = .ok .empty :=
  rfl

/-- A record that is kept under its digest is read as its node. -/
theorem node_of_record (faithful : Faithful data)
    (orderly : (Keyspace.ofColumn Column.accounts).Orderly data content)
    (present : record ∈ (Keyspace.ofColumn Column.accounts).records content)
    (decoded : Node.decode record = .ok node) : content.node (Keccak.digest record) = .ok node := by
  have member := orderly.records_subset present
  by_cases none : Keccak.digest record = Node.emptyRoot
  · have same : record = Node.empty.encode :=
      faithful.apart (.inr member) (.inl rfl) (none.trans Node.digest_empty.symm)
    have empty : Node.decode Node.empty.encode = .ok .empty := rfl
    rw [same, empty] at decoded
    cases decoded
    rw [none, node_emptyRoot]
  · let mounted : Trie.Mounted Content := ⟨Trie.empty (.ofColumn Column.accounts), content⟩
    have read := Ledger.read_accounts mounted rfl (Keccak.digest record)
    rw [show (Keyspace.ofColumn Column.accounts).held mounted.store (Keccak.digest record) = some record
      from present] at read
    have loading : content.node (Keccak.digest record) =
        answer (Trie.load (Keccak.digest record) mounted) := rfl
    rw [loading, Trie.load, if_neg none, Step.bind_ok (Step.get_apply mounted)]
    simp only [mounted, Trie.empty, Trie.ofRoot, List.lookup_nil] at read ⊢
    rw [Step.bind_ok read]
    simp only [Trie.readNode, decoded]
    rfl

/-- What is read is the node of a record that is kept under its digest. -/
theorem exists_record_of_node (orderly : (Keyspace.ofColumn Column.accounts).Orderly data content)
    (full : hash ≠ Node.emptyRoot) (found : content.node hash = .ok node) :
    ∃ record ∈ (Keyspace.ofColumn Column.accounts).records content,
      hash = Keccak.digest record ∧ Node.decode record = .ok node := by
  have empty : (Trie.empty (.ofColumn Column.accounts)).Orderly data content :=
    ⟨orderly, nofun, nofun⟩
  obtain ⟨record, pending | present, named, decoded⟩ := Trie.exists_record_of_loads empty full found
  · cases pending
  · exact ⟨record, present, named, decoded⟩

/-- A store that has gained records reads every node that it read before. -/
theorem node_mono (faithful : Faithful data)
    (orderly : (Keyspace.ofColumn Column.accounts).Orderly data content)
    (orderlyLarger : (Keyspace.ofColumn Column.accounts).Orderly data larger)
    (within : (Keyspace.ofColumn Column.accounts).records content ⊆
      (Keyspace.ofColumn Column.accounts).records larger)
    (found : content.node hash = .ok node) : larger.node hash = .ok node := by
  by_cases full : hash = Node.emptyRoot
  · rw [full, node_emptyRoot] at found ⊢
    exact found
  · obtain ⟨record, present, rfl, decoded⟩ := exists_record_of_node orderly full found
    exact node_of_record faithful orderlyLarger (within present) decoded

/-- Once it is stored, what was found pending below a root can be read, and the root leads to it. -/
theorem reaches_of_pending {trie : Trie} {found : Overlay} (faithful : Faithful data)
    (orderly : (Keyspace.ofColumn Column.accounts).Orderly data content)
    (gathered : trie.pending = .ok found) (named : ∀ entry ∈ found, entry.1 = Keccak.digest entry.2)
    (stored : found.records ⊆ (Keyspace.ofColumn Column.accounts).records content) : ∀ entry ∈ found,
      (∃ node, content.node entry.1 = .ok node) ∧ Trie.Reaches content.node trie.root entry.1 := by
  have loaded (entry : Hash × Bytes) (member : entry ∈ found) (node : Node)
      (decoded : Node.decode entry.2 = .ok node) : content.node entry.1 = .ok node := by
    rw [named entry member]
    exact node_of_record faithful orderly (stored (List.mem_map.mpr ⟨entry, member, rfl⟩)) decoded
  intro entry member
  obtain ⟨node, decoded⟩ := (Trie.lookup_of_pendingFrom gathered entry member).2
  exact ⟨⟨node, loaded entry member node decoded⟩, Trie.reaches_gathered gathered loaded entry member⟩

end Content

namespace Ledger

variable {data : Set Bytes} {mounted after : Mounted Content} {ops : List StoreOp}

/-- What a commit writes of the storage: for every trie that changed, what is pending below its root. -/
theorem flush_parts {cache : StorageCache} (flushed : cache.flush = .ok ops) :
    ∃ parts : List (Keyspace × Overlay), ops = parts.flatMap (fun part => part.1.puts part.2) ∧
      ∀ part ∈ parts, ∃ owner trie, cache.get? owner = some trie ∧ part.1 = trie.keyspace ∧
        trie.pending = .ok part.2 := by
  rw [StorageCache.flush] at flushed
  cases ran : (cache.values.filter Trie.isDirty).mapM Trie.flush with
  | error error =>
    rw [ran] at flushed
    cases flushed
  | ok lists =>
    rw [ran] at flushed
    cases flushed
    have each (list : List StoreOp) (member : list ∈ lists) : ∃ part : Keyspace × Overlay,
        part.1.puts part.2 = list ∧ ∃ owner trie, cache.get? owner = some trie ∧
          part.1 = trie.keyspace ∧ trie.pending = .ok part.2 := by
      obtain ⟨trie, inside, written⟩ := Trie.mem_of_mapM_ok ran list member
      obtain ⟨owner, cached⟩ := (OrderedMap.mem_values _ trie).mp (List.mem_filter.mp inside).1
      rw [Trie.flush] at written
      cases gathered : trie.pending with
      | error error =>
        rw [gathered] at written
        cases written
      | ok found =>
        rw [gathered] at written
        cases written
        exact ⟨(trie.keyspace, found), rfl, owner, trie, cached, rfl, gathered⟩
    choose part same origin using each
    refine ⟨lists.attach.map fun list => part list.1 list.2, ?_, fun found member => ?_⟩
    · simp [List.flatMap_map, same]
    · obtain ⟨list, _, rfl⟩ := List.mem_map.mp member
      exact origin list.1 list.2

/-- A commit changes nothing if it fails, and otherwise has written what was pending. -/
theorem commit_cases (mounted : Mounted Content) :
    (∃ error, commit mounted = .error error mounted) ∨ ∃ storage found,
      mounted.ledger.storage.flush = .ok storage ∧ mounted.ledger.accounts.pending = .ok found ∧
      ∃ journal, commit mounted = .ok () ⟨⟨mounted.ledger.accounts.markCommitted, .empty, []⟩,
        mounted.store.applyAll (storage ++
          (Keyspace.ofColumn Column.code).puts mounted.ledger.pendingCode ++
          mounted.ledger.accounts.keyspace.puts found ++
          [.put Column.accounts latestRootKey mounted.ledger.root.bytes]), journal⟩ := by
  cases flushed : mounted.ledger.storage.flush with
  | error error =>
    refine .inl ⟨.trie error, ?_⟩
    rw [commit, Step.bind_ok (Step.get_apply mounted), flushed]
    rfl
  | ok storage =>
    cases gathered : mounted.ledger.accounts.pending with
    | error error =>
      refine .inl ⟨.trie error, ?_⟩
      rw [commit, Step.bind_ok (Step.get_apply mounted), flushed, Trie.flush, gathered]
      rfl
    | ok found =>
      refine .inr ⟨storage, found, rfl, rfl, ?_⟩
      rw [commit, Step.bind_ok (Step.get_apply mounted), flushed, Trie.flush, gathered]
      exact ⟨_, rfl⟩

private theorem named_of_pending {space : Keyspace} {trie : Trie} {found : Overlay}
    (tidy : trie.Tidy space) (within : trie.overlay.records ⊆ data) (gathered : trie.pending = .ok found) :
    ∀ entry ∈ found, entry.1 = Keccak.digest entry.2 ∧ entry.2 ∈ data := by
  intro entry member
  have pending := Overlay.mem_of_lookup (Trie.lookup_of_pendingFrom gathered entry member).1
  exact ⟨tidy.named _ pending, within (List.mem_map.mpr ⟨_, pending, rfl⟩)⟩

private theorem commit_parts (tidy : mounted.ledger.Tidy) (within : mounted.ledger.pending ⊆ data) :
    (∃ error, commit mounted = .error error mounted) ∨
      ∃ (found : Overlay) (parts : List (Keyspace × Overlay)) (journal : Journal),
        mounted.ledger.accounts.pending = .ok found ∧
        commit mounted = .ok () ⟨⟨mounted.ledger.accounts.markCommitted, .empty, []⟩,
          mounted.store.applyAll ((parts.flatMap fun part => part.1.puts part.2) ++
            [.put Column.accounts latestRootKey mounted.ledger.root.bytes]), journal⟩ ∧
        (∀ part ∈ parts, part.1.Used ∧
          ∀ entry ∈ part.2, entry.1 = Keccak.digest entry.2 ∧ entry.2 ∈ data) ∧
        ∀ overlay, (.ofColumn Column.accounts, overlay) ∈ parts ↔ overlay = found := by
  rcases commit_cases mounted with failed | ⟨storage, found, flushed, gathered, journal, ran⟩
  · exact .inl failed
  obtain ⟨parts, rfl, origin⟩ := flush_parts flushed
  replace origin (part : Keyspace × Overlay) (member : part ∈ parts) : ∃ owner trie,
      mounted.ledger.storage.get? owner = some trie ∧ part.1 = .ofOwner owner ∧
        trie.pending = .ok part.2 := by
    obtain ⟨owner, trie, cached, space, pending⟩ := origin part member
    exact ⟨owner, trie, cached, space.trans (tidy.storage owner trie cached).space, pending⟩
  refine .inr ⟨found, parts ++ [(.ofColumn Column.code, mounted.ledger.pendingCode),
    (.ofColumn Column.accounts, found)], journal, gathered, ?_, fun part member => ?_, fun overlay => ?_⟩
  · rw [ran, tidy.accounts.space]
    simp
  · rcases List.mem_append.mp member with inside | _ | ⟨_, _ | ⟨_, ⟨⟩⟩⟩
    · obtain ⟨owner, trie, cached, space, pending⟩ := origin part inside
      rw [space]
      exact ⟨Keyspace.used_ofOwner owner, named_of_pending (tidy.storage owner trie cached)
        (fun _ member => within (.inr (.inl ⟨owner, trie, cached, member⟩))) pending⟩
    · exact ⟨Keyspace.used_code, fun entry member => ⟨tidy.code entry member,
        within (.inr (.inr (List.mem_map.mpr ⟨entry, member, rfl⟩)))⟩⟩
    · exact ⟨Keyspace.used_accounts, named_of_pending tidy.accounts
        (fun _ member => within (.inl member)) gathered⟩
  · constructor
    · intro member
      rcases List.mem_append.mp member with inside | _ | ⟨_, _ | ⟨_, ⟨⟩⟩⟩
      · obtain ⟨_, _, _, space, _⟩ := origin _ inside
        cases space
      · rfl
    · rintro rfl
      simp

/-- A commit of a tidy ledger that does not fail puts the account records that it finds pending beside those
that were there, and leaves the store in order. -/
theorem commit_tidy (faithful : Faithful data) (tidy : mounted.ledger.Tidy)
    (within : mounted.ledger.pending ⊆ data)
    (orderly : ∀ space : Keyspace, space.Used → space.Orderly data mounted.store) :
    (∃ error, commit mounted = .error error mounted) ∨ ∃ (found : Overlay) (after : Mounted Content),
      mounted.ledger.accounts.pending = .ok found ∧ commit mounted = .ok () after ∧
      after.ledger.Tidy ∧ (∀ space : Keyspace, space.Used → space.Orderly data after.store) ∧
      (Keyspace.ofColumn Column.accounts).records after.store =
        found.records ∪ (Keyspace.ofColumn Column.accounts).records mounted.store := by
  refine (commit_parts tidy within).imp_right ?_
  rintro ⟨found, parts, journal, gathered, ran, each, only⟩
  have put := Content.gains_applyAll faithful parts orderly each
  have gains := put.trans (Content.gains_latest put.orderly mounted.ledger.root.bytes)
  rw [Content.applyAll_append] at ran
  refine ⟨found, _, gathered, ran, .fresh ⟨tidy.accounts.space, nofun⟩, gains.orderly, ?_⟩
  refine (gains.records _ Keyspace.used_accounts).trans ?_
  simp only [only, exists_eq_left, Set.union_empty]
  rfl

end Ledger

namespace Site

section Filling

variable {σ : Type} [ByteStore σ] [ReliableStore σ] {data : Set Bytes}

/-- The sites that any moves lead to from a store that holds nothing, all that was pending on the way being
among given data. -/
inductive Filled (data : Set Bytes) : Site σ → Prop
  | start {store : σ} {journal : Journal} (blank : (content store).Blank) :
      Filled data (start store journal)
  | move {site : Site σ} {index : Nat} {move : Move} (before : Filled data site)
      (pending : ((site.after index move).sessions index).ledger.pending ⊆ data) :
      Filled data (site.after index move)

theorem Filled.run {site : Site σ} (filled : Filled data site) (moves : List (Nat × Move))
    (seen : ∀ bytes ∈ site.seen moves, bytes ∈ data) : Filled data (site.run moves) := by
  induction moves generalizing site with
  | nil => exact filled
  | cons head moves ih => exact ih (.move filled (seen_pending seen)) (seen_tail seen)

theorem Filled.view {site : Site σ} (filled : Filled data site) : Filled data site.view := by
  induction filled with
  | start blank => exact .start blank
  | @move site index move before pending ih =>
    rw [view_after]
    refine .move ih ?_
    rw [← view_after]
    exact pending

/-- Whether a hash is that of a stored node to which the account root of some commit leads. -/
def Covers (site : Site σ) (hash : Hash) : Prop :=
  (∃ node, (content site.store).node hash = .ok node) ∧
    ∃ top ∈ site.commits, Trie.Reaches (content site.store).node top hash

/-- Whether all that opens a root takes it: sessions load it, ledgers are opened at it, and tries of
accounts are repointed at it. -/
structure Accepts (site : Site σ) (root : Hash) : Prop where
  loadSnapshot : ∀ index, ∃ after,
    Ledger.loadSnapshot root (site.mounted index) = .ok () after ∧ after.ledger = .ofRoot root
  openAt : ∀ index, ∃ after,
    Ledger.openAt root (site.mounted index) = .ok () after ∧ after.ledger = .ofRoot root
  setRoot : ∀ trie : Trie, trie.keyspace = .ofColumn Column.accounts → ∃ after,
    Trie.setRoot root ⟨trie, site.store⟩ = .ok () after ∧
      after.trie = .ofRoot (.ofColumn Column.accounts) root

/-- Whether all that opens a root reports it as unknown and changes nothing. -/
structure Refuses (site : Site σ) (root : Hash) : Prop where
  loadSnapshot : ∀ index, ∃ after,
    Ledger.loadSnapshot root (site.mounted index) = .error (.trie (.unknownRoot root)) after ∧
      (site.mounted index).Untouched after
  openAt : ∀ index, ∃ after,
    Ledger.openAt root (site.mounted index) = .error (.trie (.unknownRoot root)) after ∧
      (site.mounted index).Untouched after
  setRoot : ∀ trie : Trie, trie.keyspace = .ofColumn Column.accounts → ∃ store,
    Trie.setRoot root ⟨trie, site.store⟩ = .error (.unknownRoot root) ⟨trie, store⟩ ∧
      content store = content site.store

end Filling

/-! What the moves of any sessions keep. -/

variable {data : Set Bytes} {site : Site Content} {index : Nat} {move : Move} {root : Hash}

/-- A site of tidy ledgers, over a store in order of which every account record is covered by a commit. -/
structure Kept (data : Set Bytes) (site : Site Content) : Prop where
  tidy : ∀ index, (site.sessions index).ledger.Tidy
  pending : ∀ index, (site.sessions index).ledger.pending ⊆ data
  orderly : ∀ space : Keyspace, space.Used → space.Orderly data site.store
  covered : ∀ record ∈ (Keyspace.ofColumn Column.accounts).records site.store,
    site.Covers (Keccak.digest record)

private theorem not_mem_records_of_blank {content : Content} (blank : content.Blank) {record : Bytes} :
    record ∉ (Keyspace.ofColumn Column.accounts).records content :=
  fun held => nomatch (blank _ Keyspace.used_accounts.column _).symm.trans held

theorem kept_start {store : Content} {journal : Journal} (blank : store.Blank) :
    (start store journal).Kept data where
  tidy _ := Ledger.tidy_ofRoot _
  pending _ _ member := by
    rw [start, Session.idle, Ledger.pending_ofRoot] at member
    cases member
  orderly := (blank.orderly data).used
  covered _ present := absurd present (not_mem_records_of_blank blank)

private theorem commits_after (commits : move ≠ .commit) (empties : move ≠ .refresh) :
    (site.after index move).commits = site.commits := by
  cases ran : move.step (site.mounted index) with
  | ok value after =>
    rw [after_ok ran]
    cases move <;> first | rfl | exact absurd rfl ‹_›
  | error error after =>
    rw [after_error ran]
    rfl

private theorem Kept.of_ending (kept : site.Kept data)
    (pending : ((site.after index move).sessions index).ledger.pending ⊆ data)
    (tidy : (ending (move.step (site.mounted index))).ledger.Tidy)
    (orderly : ∀ space : Keyspace, space.Used →
      space.Orderly data (ending (move.step (site.mounted index))).store)
    (covered : ∀ record ∈
      (Keyspace.ofColumn Column.accounts).records (ending (move.step (site.mounted index))).store,
      (site.after index move).Covers (Keccak.digest record)) : (site.after index move).Kept data := by
  have here := after_here site index move
  rw [← here] at tidy orderly covered
  refine ⟨fun other => ?_, fun other => ?_, orderly, covered⟩
  · by_cases same : other = index
    · exact same ▸ tidy
    · rw [after_there same]
      exact kept.tidy other
  · by_cases same : other = index
    · exact same ▸ pending
    · rw [after_there same]
      exact kept.pending other

private theorem Kept.after_commit (faithful : Faithful data) (kept : site.Kept data)
    (pending : ((site.after index .commit).sessions index).ledger.pending ⊆ data) :
    (site.after index .commit).Kept data := by
  rcases @Ledger.commit_tidy data (site.mounted index) faithful (kept.tidy index) (kept.pending index)
    kept.orderly with ⟨error, failed⟩ | ⟨found, after, gathered, ran, tidy, orderly, records⟩
  · replace failed : Move.commit.step (site.mounted index) = .error error (site.mounted index) := failed
    refine kept.of_ending pending ?_ ?_ ?_
    · rw [failed]
      exact kept.tidy index
    · rw [failed]
      exact kept.orderly
    · rw [failed, after_error failed]
      exact kept.covered
  · replace ran : Move.commit.step (site.mounted index) = .ok () after := ran
    refine kept.of_ending pending ?_ ?_ ?_
    · rw [ran]
      exact tidy
    · rw [ran]
      exact orderly
    · rw [ran, after_ok ran]
      have accounts := orderly _ Keyspace.used_accounts
      intro record present
      rw [ending, records] at present
      rcases present with written | stored
      · obtain ⟨entry, member, rfl⟩ := List.mem_map.mp written
        have named := Ledger.named_of_pending (kept.tidy index).accounts
          (fun _ inside => kept.pending index (.inl inside)) gathered
        obtain ⟨read, reaches⟩ := Content.reaches_of_pending faithful accounts gathered
          (fun other inside => (named other inside).1) (records ▸ Set.subset_union_left) entry member
        rw [← (named entry member).1]
        exact ⟨read, _, List.mem_cons_self, reaches⟩
      · have grows (hash : Hash) (node : Node) : site.store.node hash = .ok node →
            after.store.node hash = .ok node :=
          Content.node_mono faithful (kept.orderly _ Keyspace.used_accounts) accounts
            (records ▸ Set.subset_union_right)
        obtain ⟨⟨node, read⟩, top, member, reaches⟩ := kept.covered record stored
        exact ⟨⟨node, grows _ _ read⟩, top, List.mem_cons_of_mem _ member, reaches.mono grows⟩

theorem Kept.after (faithful : Faithful data) (kept : site.Kept data)
    (pending : ((site.after index move).sessions index).ledger.pending ⊆ data) :
    (site.after index move).Kept data := by
  by_cases commits : move = .commit
  · subst commits
    exact kept.after_commit faithful pending
  by_cases empties : move = .refresh
  · subst empties
    obtain ⟨after, ran, ledger, blank⟩ := Ledger.refresh_apply (site.mounted index)
    replace ran : Move.refresh.step (site.mounted index) = .ok () after := ran
    refine kept.of_ending pending ?_ ?_ ?_
    · rw [ran, ending, ledger]
      exact Ledger.tidy_ofRoot _
    · rw [ran]
      exact (blank.orderly data).used
    · rw [ran]
      exact fun record present => absurd present (not_mem_records_of_blank blank)
  · have left := Move.tidies_step commits empties (site.mounted index)
    refine kept.of_ending pending (left.tidy (kept.tidy index)) ?_ ?_
    · rw [left.store]
      exact kept.orderly
    · have store : (site.after index move).store = site.store :=
        (congrArg Ledger.Mounted.store (after_here site index move)).trans left.store
      rw [left.store]
      intro record present
      have covers := kept.covered record present
      rw [Covers] at covers ⊢
      rw [store, commits_after commits empties]
      exact covers

/-- Whatever moves have led to a site, commits cover all its account records. -/
theorem Filled.kept (faithful : Faithful data) (filled : Filled data site) : site.Kept data := by
  induction filled with
  | start blank => exact kept_start blank
  | move before pending ih => exact ih.after faithful pending

/-- The roots that a store has are the empty one and the hashes that commits cover. -/
theorem Kept.knows_iff (kept : site.Kept data) :
    site.store.Knows root ↔ root = Node.emptyRoot ∨ site.Covers root := by
  have accounts := kept.orderly _ Keyspace.used_accounts
  refine ⟨fun known => known.imp_right fun present => ?_, fun either => ?_⟩
  · obtain ⟨record, held⟩ := Option.isSome_iff_exists.mp present
    obtain ⟨rfl, -⟩ := accounts.named root record held
    exact kept.covered record held
  · by_cases full : root = Node.emptyRoot
    · exact .inl full
    · obtain ⟨⟨node, read⟩, -⟩ := either.resolve_left full
      obtain ⟨record, present, rfl, -⟩ := Content.exists_record_of_node accounts full read
      exact .inr (Option.isSome_of_eq_some present)

/-! The same over any store that answers as its content does. -/

section Reliable

variable {σ : Type} [ByteStore σ] [ReliableStore σ] {site : Site σ}

private theorem accepts_of_knows
    (space : ∀ index, (site.sessions index).ledger.accounts.keyspace = .ofColumn Column.accounts)
    (known : (content site.store).Knows root) : site.Accepts root := by
  have opens (step : LedgerM σ Unit) (stepView : LedgerM Content Unit)
      (agree : Agree Ledger.Mounted.view unmeasured step stepView) (index : Nat)
      (ran : ∃ journal, stepView (site.mounted index).view =
        .ok () ⟨.ofRoot root, content site.store, journal⟩) :
      ∃ after, step (site.mounted index) = .ok () after ∧ after.ledger = .ofRoot root := by
    obtain ⟨journal, ran⟩ := ran
    obtain ⟨after, same, seen⟩ := through_eq_ok ((agree.same _).trans ran)
    exact ⟨after, same, congrArg Ledger.Mounted.ledger seen⟩
  refine ⟨fun index => ?_, fun index => ?_, fun trie here => ?_⟩
  · exact opens _ _ (Ledger.agree_loadSnapshot root) index (Ledger.loadSnapshot_known (space index) known)
  · exact opens _ _ (Ledger.agree_openAt root) index (Ledger.openAt_known known)
  · have ran := @Ledger.setRoot_known root ⟨trie, content site.store⟩ here known
    obtain ⟨after, same, seen⟩ :=
      through_eq_ok (((Trie.agree_setRoot root).same ⟨trie, site.store⟩).trans ran)
    exact ⟨after, same, congrArg Trie.Mounted.trie seen⟩

private theorem refuses_of_unknown
    (space : ∀ index, (site.sessions index).ledger.accounts.keyspace = .ofColumn Column.accounts)
    (unknown : ¬(content site.store).Knows root) : site.Refuses root := by
  have fails (step : LedgerM σ Unit) (stepView : LedgerM Content Unit)
      (agree : Agree Ledger.Mounted.view unmeasured step stepView) (index : Nat) (error : LedgerError)
      (ran : stepView (site.mounted index).view = .error error (site.mounted index).view) :
      ∃ after, step (site.mounted index) = .error error after ∧ (site.mounted index).Untouched after := by
    obtain ⟨after, same, seen⟩ := through_eq_error ((agree.same _).trans ran)
    refine ⟨after, same, Ledger.Mounted.untouched_iff.mpr ?_⟩
    rw [seen]
    exact .refl _
  refine ⟨fun index => ?_, fun index => ?_, fun trie here => ?_⟩
  · exact fails _ _ (Ledger.agree_loadSnapshot root) index _
      (Ledger.loadSnapshot_unknown (space index) unknown)
  · exact fails _ _ (Ledger.agree_openAt root) index _ (Ledger.openAt_unknown unknown)
  · have ran := @Ledger.setRoot_unknown root ⟨trie, content site.store⟩ here unknown
    obtain ⟨⟨after, store⟩, same, seen⟩ :=
      through_eq_error (((Trie.agree_setRoot root).same ⟨trie, site.store⟩).trans ran)
    obtain rfl : after = trie := congrArg Trie.Mounted.trie seen
    exact ⟨store, same, congrArg Trie.Mounted.store seen⟩

theorem Filled.knows_iff (faithful : Faithful data) (filled : Filled data site) :
    (content site.store).Knows root ↔ root = Node.emptyRoot ∨ site.Covers root :=
  (filled.view.kept faithful).knows_iff

/-- Whatever the sessions that share a store have done, what can be opened there is the empty root and the
hashes of the stored nodes to which the account root of some commit leads: such a hash is loaded by every
session, ledgers are opened at it, and tries of accounts are repointed at it. Any other one, be it a root
that is only pending, is reported as unknown, and nothing that is read changes. -/
theorem Filled.opens_exactly (faithful : Faithful data) (filled : Filled data site) (root : Hash) :
    (root = Node.emptyRoot ∨ site.Covers root → site.Accepts root) ∧
      (¬(root = Node.emptyRoot ∨ site.Covers root) → site.Refuses root) := by
  have space (index : Nat) : (site.sessions index).ledger.accounts.keyspace = .ofColumn Column.accounts :=
    ((filled.view.kept faithful).tidy index).accounts.space
  rw [← filled.knows_iff faithful]
  exact ⟨accepts_of_knows space, refuses_of_unknown space⟩

end Reliable

/-- Two accounts that are committed, and a third that is written but not committed by another session. -/
def tentative : List (Nat × Move) :=
  [(0, .run (.setBalance (.ofNat 1) 5)), (0, .run (.setBalance Ledger.distant 6)), (0, .commit),
    (1, .run (.setBalance (.ofNat 2) 7))]

/-- The leaf with the record of an account that the first nibble tells apart. -/
def leafOf (address : Address) (balance : Amount) : Node :=
  .leaf ((Path.ofBytes address.bytes).drop 1) (Account.mk none Node.emptyRoot balance).encode

private theorem faithful_tentative : Faithful { bytes | bytes ∈ unused.seen tentative } :=
  .of_nodup (by decide +kernel) (by decide +kernel)

set_option maxRecDepth 100000 in
theorem opens_exactly_tentative :
    (unused.run tentative).Accepts (leafOf (.ofNat 1) 5).hash ∧
      (unused.run tentative).Refuses ((unused.run tentative).mounted 1).ledger.root := by
  have faithful := faithful_tentative
  have filled : Filled { bytes | bytes ∈ unused.seen tentative } (unused.run tentative) :=
    .run (.start Memory.blank_empty) tentative fun bytes member => member
  have covers : (unused.run tentative).Covers (leafOf (.ofNat 1) 5).hash := by
    let top := Node.branch ((Children.none.put 0 (some (leafOf (.ofNat 1) 5).hash)).put 15
      (some (leafOf Ledger.distant 6).hash)) none
    have committed : (unused.run tentative).commits = [top.hash] := by decide +kernel
    have read : (content (unused.run tentative).store).node top.hash = .ok top := by decide +kernel
    refine ⟨⟨leafOf (.ofNat 1) 5, by decide +kernel⟩, top.hash, ?_, .child read ?_ .self⟩
    · rw [committed]
      exact List.mem_singleton_self _
    · exact List.mem_cons_self
  refine ⟨(filled.opens_exactly faithful _).1 (.inr covers), (filled.opens_exactly faithful _).2 ?_⟩
  rw [← filled.knows_iff faithful, Content.Knows]
  decide +kernel

/-- A store of one commit opens the hash of a leaf, which is no root of a commit. -/
theorem tentative_opens_leaf :
    let leaf := (leafOf (.ofNat 1) 5).hash
    Faithful { bytes | bytes ∈ unused.seen tentative } ∧
      leaf ≠ Node.emptyRoot ∧ leaf ∉ (unused.run tentative).commits ∧
      answer (Ledger.loadSnapshot leaf ((unused.run tentative).mounted 0)) = .ok () ∧
      answer (Ledger.openAt leaf ((unused.run tentative).mounted 0)) = .ok () ∧
      answer (Trie.setRoot leaf
        ⟨Trie.empty (.ofColumn Column.accounts), (unused.run tentative).store⟩) = .ok () :=
  ⟨faithful_tentative, by decide +kernel⟩

end Site

end ContractLedger
