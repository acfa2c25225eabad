import Kraalzibar.Core.BreakingChanges
import Kraalzibar.Storage.MemoryHistory

/-!
# Garbage collection

When a schema loses a type or a relation, the tuples that use it stay in the store.
`run_gc_cycle` reads every tuple, makes a delete filter for each of these orphans, and
writes the filters as one batch.

* `isOrphan`, `orphanFilter`, `runGcCycle` — as in `gc.rs`;
* `orphanFilter_matches` — the filter of a tuple matches that tuple only;
* `InMemoryStore.collects_orphans` — a cycle deletes the orphans, and nothing that was
  ever read changes;
* `unbroken_orphans_nothing` — no schema change that goes unreported makes an orphan.
-/

namespace Kraalzibar

open Foundations

/-- The object's type declares the relation of the tuple. -/
def Tuple.DeclaredBy (schema : Schema) (t : Tuple) : Prop :=
  ∃ td, schema.getType t.object.objectType = some td ∧
    ∃ rel ∈ td.relations, rel.name = t.relation

def isOrphan (schema : Schema) (tuple : Tuple) : Bool :=
  match schema.getType tuple.object.objectType with
  | none => true
  | some td => !td.relations.any (fun r => r.name == tuple.relation)

/-- Every field is set, so the filter asks for this tuple. -/
def orphanFilter (tuple : Tuple) : TupleFilter :=
  { objectType := some tuple.object.objectType
    objectId := some tuple.object.objectId
    relation := some tuple.relation
    subjectType := some tuple.subject.subjectType
    subjectId := some tuple.subject.subjectId
    subjectRelation := some tuple.subject.subjectRelation }

/-- `run_gc_cycle`, over any store.  Nothing else uses the store meanwhile. -/
def runGcCycle {σ : Type} (store : RelationshipStore σ) (schema : Schema) (state : σ) :
    Except StorageError Nat × σ :=
  match store.query state .snapshot with
  | .error e => (.error e, state)
  | .ok snapshot =>
      match store.query state (.read {} (some snapshot) none) with
      | .error e => (.error e, state)
      | .ok allTuples =>
          let orphanFilters := (allTuples.filter (isOrphan schema)).map orphanFilter
          let count := orphanFilters.length
          if orphanFilters.isEmpty then (.ok count, state)
          else
            match store.write state { writes := [], deletes := orphanFilters } with
            | (.error e, state') => (.error e, state')
            | (.ok _, state') => (.ok count, state')

theorem isOrphan_iff (schema : Schema) (t : Tuple) :
    isOrphan schema t = true ↔ ¬ t.DeclaredBy schema := by
  unfold isOrphan Tuple.DeclaredBy
  cases schema.getType t.object.objectType with
  | none => simp
  | some td => simp

instance (schema : Schema) (t : Tuple) : Decidable (t.DeclaredBy schema) :=
  decidable_of_iff (¬ isOrphan schema t = true) ((isOrphan_iff schema t).not.trans not_not)

theorem isOrphan_eq_decide (schema : Schema) (t : Tuple) :
    isOrphan schema t = !decide (t.DeclaredBy schema) := by
  rw [Bool.eq_iff_iff, isOrphan_iff]
  simp

/-- **The filter of a tuple** matches that tuple, and no other. -/
theorem orphanFilter_matches {t u : Tuple} : (orphanFilter t).matches u = true ↔ t = u := by
  obtain ⟨⟨objectType, objectId⟩, relation, ⟨subjectType, subjectId, subjectRelation⟩⟩ := t
  obtain ⟨⟨objectType', objectId'⟩, relation',
    ⟨subjectType', subjectId', subjectRelation'⟩⟩ := u
  simp [TupleFilter.matches_iff, orphanFilter, and_assoc]

/-- The write of a cycle that found the tuples `orphans`. -/
def gcCall (orphans : List Tuple) : WriteCall :=
  { writes := [], deletes := orphans.map orphanFilter }

theorem gcCall_accepted (orphans : List Tuple) : (gcCall orphans).accepted = true := by
  refine List.all_eq_true.mpr fun f hf => ?_
  obtain ⟨t, -, rfl⟩ := List.mem_map.mp hf
  rfl

theorem gcCall_deleted {orphans : List Tuple} {t : Tuple} :
    (gcCall orphans).deleted t = true ↔ t ∈ orphans := by
  simp [WriteCall.deleted, gcCall, orphanFilter_matches]

namespace InMemoryStore

/-- The orphans a cycle finds. -/
def orphans (schema : Schema) (state : InnerState) : List Tuple :=
  (state.visible state.currentTx).filter (isOrphan schema)

/-- **A cycle on the in-memory store** deletes the orphans it finds in one write. -/
theorem runGcCycle_eq (schema : Schema) (state : InnerState) :
    runGcCycle store schema state =
      (.ok (orphans schema state).length,
        if orphans schema state = [] then state
        else (write state (gcCall (orphans schema state))).2) := by
  have hread : store.query state (.read {} (some state.currentTx) none) =
      .ok (state.visible state.currentTx) := by
    show read state {} (some state.currentTx) none = _
    rw [read_eq, resolve_some le_rfl]
    simp [Except.map, limited]
  have hsnapshot : store.query state .snapshot = .ok state.currentTx := rfl
  have horphans : (state.visible state.currentTx).filter (isOrphan schema) =
      orphans schema state := rfl
  have hwrite : store.write state (gcCall (orphans schema state)) =
      (.ok (state.currentTx + 1), (write state (gcCall (orphans schema state))).2) := by
    have hok := congrArg Prod.fst (write_accepted state (gcCall_accepted
      (orphans schema state)))
    exact Prod.ext hok rfl
  rw [gcCall] at hwrite
  unfold runGcCycle
  simp only [hsnapshot, hread, horphans, List.isEmpty_map, List.length_map]
  by_cases hnone : orphans schema state = []
  · rw [if_pos hnone, if_pos (List.isEmpty_iff.mpr hnone)]
  · rw [if_neg hnone, if_neg (fun h => hnone (List.isEmpty_iff.mp h)), hwrite]
    rfl

/-- A cycle leaves the active tuples that it did not find to be orphans. -/
theorem active_runGcCycle (schema : Schema) (state : InnerState) :
    (runGcCycle store schema state).2.active = state.active.filter fun t =>
      !(decide (t ∈ orphans schema state) &&
        decide (state.currentTx + 1 ≠ ACTIVE_TX_ID)) := by
  rw [runGcCycle_eq]
  by_cases hnone : orphans schema state = []
  · simp [hnone]
  · rw [if_neg hnone, active_write state (gcCall_accepted _) rfl]
    congr 1
    funext t
    rw [Bool.eq_iff_iff.mpr (gcCall_deleted.trans decide_eq_true_iff.symm)]

/-- In a recorded store the active tuples are those visible now. -/
theorem Recorded.active_eq {state : InnerState} {calls : List WriteCall}
    (h : Recorded state calls) (hcount : calls.length < ACTIVE_TX_ID) :
    state.active = state.visible state.currentTx := by
  have hle := length_successful_le calls
  have hvisible := filter_visible state state.currentTx fun _ => true
  rw [List.filter_true] at hvisible
  rw [hvisible, InnerState.active]
  congr 1
  refine List.filter_congr fun t ht => ?_
  have hbound := h.records.bounded t.toVersion (List.mem_map.mpr ⟨t, ht, rfl⟩)
  have hcurrent := h.currentTx
  have hiff : t.deletedTxId = ACTIVE_TX_ID ↔
      t.createdTxId ≤ state.currentTx ∧ state.currentTx < t.deletedTxId := by
    have hcreated : t.createdTxId ≤ _ := hbound.1
    have hdeleted : t.deletedTxId = _ ∨ t.deletedTxId ≤ _ := hbound.2
    omega
  rw [Bool.eq_iff_iff]
  simpa [StoredTuple.isActive, StoredTuple.visibleAt] using hiff

theorem Recorded.nodup_active {state : InnerState} {calls : List WriteCall}
    (h : Recorded state calls) (hcount : calls.length < ACTIVE_TX_ID) :
    state.active.Nodup := by
  rw [h.active_eq hcount, h.currentTx, h.visible le_rfl]
  exact Batch.nodup_contents_and_mem.1

/-- A cycle keeps the store recorded: it writes once, or not at all. -/
theorem Recorded.runGcCycle {state : InnerState} {calls : List WriteCall}
    (h : Recorded state calls) (hcount : calls.length + 1 < ACTIVE_TX_ID) (schema : Schema) :
    ∃ calls', calls'.length ≤ calls.length + 1 ∧
      Recorded (runGcCycle store schema state).2 calls' := by
  rw [runGcCycle_eq]
  by_cases hnone : orphans schema state = []
  · rw [if_pos hnone]
    exact ⟨calls, Nat.le_succ _, h⟩
  · have hle := length_successful_le calls
    rw [if_neg hnone]
    exact ⟨calls ++ [gcCall (orphans schema state)], by simp, h.write _ (by omega)⟩

/-- A cycle changes nothing that could be read before. -/
theorem visible_runGcCycle {state : InnerState} (htx : state.currentTx + 1 < ACTIVE_TX_ID)
    (schema : Schema) :
    state.currentTx ≤ (runGcCycle store schema state).2.currentTx ∧
    ∀ s ≤ state.currentTx, (runGcCycle store schema state).2.visible s = state.visible s := by
  rw [runGcCycle_eq]
  by_cases hnone : orphans schema state = []
  · simp [hnone]
  · rw [if_neg hnone]
    obtain ⟨-, hcurrent, -, hversions⟩ :=
      write_ok state (gcCall_accepted (orphans schema state)) htx
    refine ⟨hcurrent ▸ Nat.le_succ _, fun s hs => ?_⟩
    rw [InnerState.visible, hversions]
    exact Version.visible_commit_old (by omega) htx.le

/-- What a cycle does that took the store from `state` and answered `result`. -/
structure CollectsOrphans (schema : Schema) (state : InnerState)
    (result : Except StorageError Nat × InnerState) : Prop where
  /-- The active tuples whose relation is declared stay, and no others. -/
  active : result.2.active = state.active.filter fun t => decide (t.DeclaredBy schema)
  /-- No tuple is active twice, so the rows are counted as tuples. -/
  nodup : state.active.Nodup
  /-- The answer is the number of tuples that went. -/
  count : ∃ n, result.1 = .ok n ∧ state.active.length = result.2.active.length + n
  /-- Queries at the tokens there were before are answered as before. -/
  read : ∀ s ≤ state.currentTx, ∀ filter limit,
    store.query result.2 (.read filter (some s) limit) =
      store.query state (.read filter (some s) limit)
  listObjectIds : ∀ s ≤ state.currentTx, ∀ objectType limit,
    store.query result.2 (.listObjectIds objectType (some s) limit) =
      store.query state (.listObjectIds objectType (some s) limit)
  /-- A second cycle finds nothing, and leaves the store as it is. -/
  again : runGcCycle store schema result.2 = (.ok 0, result.2)

/-- **A cycle deletes the orphans** and rewrites no history. -/
theorem collects_orphans (schema : Schema) (calls : List WriteCall)
    (hcount : calls.length + 1 < 2 ^ 64 - 1) :
    CollectsOrphans schema (store.afterWrites new calls)
      (runGcCycle store schema (store.afterWrites new calls)) := by
  have hcount : calls.length + 1 < ACTIVE_TX_ID := hcount
  have hrec : Recorded (store.afterWrites new calls) calls := recorded_afterWrites (by omega)
  generalize store.afterWrites new calls = state at hrec
  have hvisible : state.active = state.visible state.currentTx := hrec.active_eq (by omega)
  have htx : state.currentTx + 1 < ACTIVE_TX_ID := by
    have hle := length_successful_le calls
    rw [hrec.currentTx]
    omega
  have horphans : orphans schema state = state.active.filter (isOrphan schema) := by
    rw [hvisible]
    rfl
  have hactive : (runGcCycle store schema state).2.active =
      state.active.filter fun t => !isOrphan schema t := by
    rw [active_runGcCycle]
    refine List.filter_congr fun t ht => ?_
    have hne : state.currentTx + 1 ≠ ACTIVE_TX_ID := by omega
    simp [horphans, ht, hne]
  obtain ⟨hcurrent, hold⟩ := visible_runGcCycle htx schema
  refine ⟨?active, hrec.nodup_active (by omega), ?count, ?read, ?listObjectIds, ?again⟩
  case active =>
    rw [hactive]
    congr 1
    funext t
    rw [isOrphan_eq_decide, Bool.not_not]
  case count =>
    refine ⟨_, congrArg Prod.fst (runGcCycle_eq schema state), ?_⟩
    rw [hactive, horphans, List.length_eq_length_filter_add (isOrphan schema)]
    exact Nat.add_comm _ _
  case read =>
    intro s hs filter limit
    show read _ filter (some s) limit = read _ filter (some s) limit
    rw [read_eq, read_eq, resolve_some hs, resolve_some (hs.trans hcurrent)]
    simp only [Except.map, hold s hs]
  case listObjectIds =>
    intro s hs objectType limit
    show listObjectIds _ objectType (some s) limit = listObjectIds _ objectType (some s) limit
    rw [listObjectIds_eq, listObjectIds_eq, resolve_some hs,
      resolve_some (hs.trans hcurrent)]
    simp only [Except.map, hold s hs]
  case again =>
    obtain ⟨calls', hle, hrec'⟩ := hrec.runGcCycle hcount schema
    have hnone : orphans schema (runGcCycle store schema state).2 = [] := by
      rw [orphans, ← hrec'.active_eq (by omega), hactive, List.filter_filter]
      simp
    rw [runGcCycle_eq schema (runGcCycle store schema state).2, hnone]
    rfl

/-- A document, and a folder that the schema of the documents does not know. -/
def withFolder : List WriteCall :=
  [⟨[⟨⟨"doc", "readme"⟩, "viewer", .direct "user" "alice"⟩,
    ⟨⟨"folder", "root"⟩, "viewer", .direct "user" "alice"⟩], []⟩]

theorem collects_orphans_folder :
    CollectsOrphans (viewerSchema ["user"]) (store.afterWrites new withFolder)
      (runGcCycle store (viewerSchema ["user"]) (store.afterWrites new withFolder)) :=
  collects_orphans (viewerSchema ["user"]) withFolder (by decide)

/-! ## Schema changes -/

/-- A cycle with the schema deletes the tuple. -/
def CollectedBy (schema : Schema) (state : InnerState) (t : Tuple) : Prop :=
  t ∈ state.active ∧ t ∉ (runGcCycle store schema state).2.active

theorem collectedBy_iff {schema : Schema} {state : InnerState} {t : Tuple} :
    CollectedBy schema state t ↔ t ∈ state.active ∧ t ∈ orphans schema state ∧
      state.currentTx + 1 ≠ ACTIVE_TX_ID := by
  rw [CollectedBy, active_runGcCycle, List.mem_filter]
  simp only [Bool.not_eq_true', Bool.and_eq_false_iff, decide_eq_false_iff_not]
  tauto

end InMemoryStore

/-- What the old schema declares, the new one declares. -/
theorem Unbroken.isOrphan {old new : Schema} (h : Unbroken old new) {t : Tuple}
    (horphan : isOrphan new t = true) : isOrphan old t = true := by
  rw [isOrphan_iff] at horphan ⊢
  rintro ⟨td, htype, rel, hrel, hname⟩
  obtain ⟨newType, hnewType, hkept⟩ := (detectBreakingChanges_eq_nil_iff old new).mp h td
    (List.mem_of_find?_eq_some htype)
  obtain ⟨newRel, hget, -⟩ := hkept rel hrel
  have htypeName : td.name = t.object.objectType := by simpa using List.find?_some htype
  have hrelName : newRel.name = rel.name := by simpa using List.find?_some hget
  exact horphan ⟨newType, htypeName ▸ hnewType, newRel, List.mem_of_find?_eq_some hget,
    hrelName.trans hname⟩

/-- **Changes that go unreported orphan nothing**, however many there are: they make one
such change, which keeps every allowed tuple allowed and gives the collector nothing that
it would not have deleted before. -/
theorem unbroken_orphans_nothing {old new : Schema} (h : Relation.TransGen Unbroken old new) :
    Unbroken old new ∧
    (∀ t : Tuple, t.AllowedBy old → t.AllowedBy new) ∧
    ∀ (state : InnerState) (t : Tuple),
      InMemoryStore.CollectedBy new state t → InMemoryStore.CollectedBy old state t := by
  have hunbroken := Unbroken.of_chain h
  refine ⟨hunbroken, fun t hallowed => hunbroken.lists hallowed, ?_⟩
  intro state t hcollected
  obtain ⟨hactive, horphan, htx⟩ := InMemoryStore.collectedBy_iff.mp hcollected
  obtain ⟨hvisible, horphan⟩ := List.mem_filter.mp horphan
  exact InMemoryStore.collectedBy_iff.mpr
    ⟨hactive, List.mem_filter.mpr ⟨hvisible, hunbroken.isOrphan horphan⟩, htx⟩

/-- Groups are added, then the permission to see them. -/
def withGroups (permissions : List PermissionDef) : Schema :=
  { types := (viewerSchema ["user"]).types ++
      [{ name := "group", relations := [⟨"member", [⟨"user", none⟩]⟩], permissions }] }

theorem unbroken_orphans_nothing_groups :
    Unbroken (viewerSchema ["user"]) (withGroups [⟨"see", .this "member"⟩]) ∧
    (∀ t : Tuple, t.AllowedBy (viewerSchema ["user"]) →
      t.AllowedBy (withGroups [⟨"see", .this "member"⟩])) ∧
    ∀ (state : InnerState) (t : Tuple),
      InMemoryStore.CollectedBy (withGroups [⟨"see", .this "member"⟩]) state t →
        InMemoryStore.CollectedBy (viewerSchema ["user"]) state t :=
  unbroken_orphans_nothing (.tail (.single (b := withGroups []) (by decide)) (by decide))

end Kraalzibar
