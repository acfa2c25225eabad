import Kraalzibar.Core.Populated
import Kraalzibar.Server.LookupSubjects
import Kraalzibar.Storage.Postgres.Store

/-!
# A lookup misses no subject

Every direct subject that the check allows is in the list that a lookup of the
same object, permission and subject type returns.  The cut of an arrow target is
the same in the check and in the expansion, the excluded operand can only take
subjects away, and an intersection has an operand from which its members are
collected; an empty one would have members and nothing to collect.

* `Backend` — a store nobody writes to;
* `member_widen` — the members of a tree are among those collected from it;
* `lookupSubjects_complete` — the result.
-/

namespace Kraalzibar

open Foundations

/-- A tenant's store while nothing is written, in either backend. -/
inductive Backend where
  | memory (state : InnerState)
  | postgres (server : Postgres.Server) (db : Postgres.Database)

def Backend.query : Backend → ∀ q : StoreQuery, q.Reply
  | .memory state => InMemoryStore.store.query state
  | .postgres server db => (Postgres.PostgresStore.store server).query db

/-- Through the adapter, a table reads from the tuples visible at the snapshot,
or fails on every filter. -/
theorem readsFrom_postgres (server : Postgres.Server) (db : Postgres.Database)
    (snapshot : Option SnapshotToken) :
    ∃ T, ReadsFrom (StoreTupleReader.over (Backend.postgres server db).query)
      snapshot T := by
  cases hresolve : Postgres.PostgresStore.resolve db snapshot with
  | error e =>
      have hread : ∀ filter,
          (Backend.postgres server db).query (.read filter snapshot none) = .error e := by
        intro filter
        show Postgres.PostgresStore.read server db filter snapshot none = _
        rw [Postgres.PostgresStore.read, hresolve]
        rfl
      exact ⟨[], StoreTupleReader.readsFrom_over hread⟩
  | ok s =>
      have hread : ∀ filter,
          (Backend.postgres server db).query (.read filter snapshot none) =
            .ok (Postgres.readTuples server db.rows filter s none) := by
        intro filter
        show Postgres.PostgresStore.read server db filter snapshot none = _
        rw [Postgres.PostgresStore.read, hresolve]
        rfl
      have hrows : ∀ filter t, t ∈ Postgres.readTuples server db.rows filter s none ↔
          t ∈ Version.visible (Postgres.versions db.rows) s ∧ filter.matches t = true := by
        intro filter t
        rw [(Postgres.readTuples_perm server filter s).mem_iff, List.mem_filter]
      exact ⟨_, (StoreTupleReader.serves_over hread hrows).readsFrom⟩

/-- An unchanging store is read from one set of tuples. -/
theorem Backend.readsFrom (backend : Backend) (snapshot : Option SnapshotToken) :
    ∃ T, ReadsFrom (StoreTupleReader.over backend.query) snapshot T := by
  cases backend with
  | memory state => exact readsFrom_memory state snapshot
  | postgres server db => exact readsFrom_postgres server db snapshot

/-- **Widening loses no member** of a tree without empty intersections. -/
theorem ExpandTree.Populated.member_widen {tree : ExpandTree} (h : tree.Populated)
    {subjectType subjectId : String}
    (hmember : tree.member subjectType subjectId = true) :
    tree.widen.member subjectType subjectId = true := by
  have hsome : ∀ {children : List ExpandTree},
      (∀ c ∈ children, c.member subjectType subjectId = true →
        c.widen.member subjectType subjectId = true) →
      (∃ c ∈ children, c.member subjectType subjectId = true) →
      ExpandTree.memberAny subjectType subjectId (ExpandTree.widenEach children) =
        true := by
    intro children hwiden hmember
    obtain ⟨c, hc, hmember⟩ := hmember
    rw [ExpandTree.memberAny_eq, ExpandTree.widenEach_eq, List.any_map, List.any_eq_true]
    exact ⟨c, hc, hwiden c hc hmember⟩
  induction h with
  | leaf subject => exact hmember
  | this relation _ ih =>
      rw [ExpandTree.member, ExpandTree.memberAny_eq, List.any_eq_true] at hmember
      exact hsome ih hmember
  | union _ ih =>
      rw [ExpandTree.member, ExpandTree.memberAny_eq, List.any_eq_true] at hmember
      exact hsome ih hmember
  | @intersection children hne _ ih =>
      -- a member of the intersection is a member of its first operand
      rw [ExpandTree.member, ExpandTree.memberAll_eq, List.all_eq_true] at hmember
      obtain ⟨c, hc⟩ := List.exists_mem_of_ne_nil children hne
      exact hsome ih ⟨c, hc, hmember c hc⟩
  | exclusion _ _ ihBase _ =>
      rw [ExpandTree.member, Bool.and_eq_true] at hmember
      exact ihBase hmember.1
  | arrow rel perm _ ih =>
      rw [ExpandTree.member, ExpandTree.memberAny_eq, List.any_eq_true] at hmember
      exact hsome ih hmember

/-- **A lookup misses no subject.**  For an accepted schema and a store nobody
writes to, every direct subject of the requested type that the check allows is
in the list a successful lookup returns. -/
theorem lookupSubjects_complete (text : String) (schema : Schema) (config : EngineConfig)
    (backend : Backend) (input : LookupSubjectsInput) (output : LookupSubjectsOutput)
    (hparse : parseSchema text = .ok schema)
    (hlookup : Fallible.eval backend.query
      (AuthzService.lookupSubjects schema config input) = .ok output)
    (subjectId : String) (decision : CheckPermissionOutput)
    (hcheck : Fallible.eval backend.query (AuthzService.checkPermission schema config
      ⟨input.objectType, input.objectId, input.permission, input.subjectType, subjectId,
        input.consistency⟩) = .ok decision)
    (hallowed : decision.allowed = true) :
    SubjectRef.direct input.subjectType subjectId ∈ output.subjects := by
  obtain ⟨snapshot, tree, hsnapshot, hexpand, -, hmem⟩ := lookupSubjects_cases hlookup
  obtain ⟨T, hreads⟩ := backend.readsFrom snapshot
  have hmember : tree.member input.subjectType subjectId = true := by
    rw [checkPermission_of_expand schema config hreads hsnapshot hexpand] at hcheck
    obtain rfl := Except.ok.inj hcheck
    exact hallowed
  have hpopulated : tree.Populated :=
    @ExpandEngine.expand_populated ⟨schema, config⟩ _
      (parseSchema_populated hparse) _ _ hexpand
  rw [hmem, mem_collectSubjects_iff]
  exact hpopulated.member_widen hmember

/-- Alice and bob are viewers, and alice is approved too: the lookup names her,
and bob besides. -/
theorem lookupSubjects_complete_approved :
    Fallible.eval (Backend.memory (approvalState ["alice", "bob"] ["alice"])).query
      (AuthzService.lookupSubjects approvalSchema {}
        ⟨"document", "readme", "view", "user", .fullConsistency⟩) =
      .ok ⟨[.direct "user" "alice", .direct "user" "bob"], some 1⟩ ∧
    SubjectRef.direct "user" "alice" ∈
      [SubjectRef.direct "user" "alice", SubjectRef.direct "user" "bob"] := by
  have hlookup : Fallible.eval
      (Backend.memory (approvalState ["alice", "bob"] ["alice"])).query
      (AuthzService.lookupSubjects approvalSchema {}
        ⟨"document", "readme", "view", "user", .fullConsistency⟩) =
      .ok ⟨[.direct "user" "alice", .direct "user" "bob"], some 1⟩ := by
    decide +kernel
  have hcheck : Fallible.eval
      (Backend.memory (approvalState ["alice", "bob"] ["alice"])).query
      (AuthzService.checkPermission approvalSchema {}
        ⟨"document", "readme", "view", "user", "alice", .fullConsistency⟩) =
      .ok ⟨true, some 1⟩ := by
    decide +kernel
  exact ⟨hlookup, lookupSubjects_complete _ approvalSchema {} _ _ _
    parseSchema_approval hlookup "alice" _ hcheck rfl⟩

end Kraalzibar
