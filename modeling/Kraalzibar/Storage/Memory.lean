import Kraalzibar.Foundations.SortedDedup
import Kraalzibar.Foundations.Versions
import Kraalzibar.Storage.Traits

/-!
# The in-memory store

`InMemoryStore` keeps every version of every tuple in one vector.  A write
draws the next token, stamps the active rows its filters match, and pushes a
row for each touched tuple that has no active row left.

* `InMemoryStore.write`, `read`, `snapshot`, `listObjectIds` — as in `memory.rs`;
* `InMemoryStore.write_ok` — on the versions, a write is `Version.commit`;
* `InMemoryStore.active_write` — what a write that only deletes leaves;
* `InMemoryStore.read_eq`, `listObjectIds_eq` — the queries are functions of the
  tuples visible at the snapshot.
-/

namespace Kraalzibar

open Foundations

/-- `u64::MAX` in `deleted_tx_id` marks an active row. -/
def ACTIVE_TX_ID : Nat := 2 ^ 64 - 1

structure StoredTuple where
  objectType : String
  objectId : String
  relation : String
  subjectType : String
  subjectId : String
  subjectRelation : Option String
  createdTxId : Nat
  deletedTxId : Nat
deriving DecidableEq

namespace StoredTuple

def matchesWrite (t : StoredTuple) (write : TupleWrite) : Bool :=
  decide (t.objectType = write.object.objectType) &&
  decide (t.objectId = write.object.objectId) &&
  decide (t.relation = write.relation) &&
  decide (t.subjectType = write.subject.subjectType) &&
  decide (t.subjectId = write.subject.subjectId) &&
  decide (t.subjectRelation = write.subject.subjectRelation)

def isActive (t : StoredTuple) : Bool :=
  decide (t.deletedTxId = ACTIVE_TX_ID)

def visibleAt (t : StoredTuple) (snapshot : Nat) : Bool :=
  decide (t.createdTxId ≤ snapshot) && decide (t.deletedTxId > snapshot)

def toTuple (t : StoredTuple) : Tuple :=
  let subject :=
    match t.subjectRelation with
    | none => SubjectRef.direct t.subjectType t.subjectId
    | some rel => SubjectRef.userset t.subjectType t.subjectId rel
  { object := ⟨t.objectType, t.objectId⟩, relation := t.relation, subject }

def matchesFilter (t : StoredTuple) (filter : TupleFilter) : Bool :=
  filter.matches t.toTuple

/-- The row pushed for a touched tuple. -/
def ofWrite (write : TupleWrite) (txId : Nat) : StoredTuple :=
  { objectType := write.object.objectType
    objectId := write.object.objectId
    relation := write.relation
    subjectType := write.subject.subjectType
    subjectId := write.subject.subjectId
    subjectRelation := write.subject.subjectRelation
    createdTxId := txId
    deletedTxId := ACTIVE_TX_ID }

/-- The row as a version of its tuple. -/
def toVersion (t : StoredTuple) : Version Tuple :=
  { value := t.toTuple, created := t.createdTxId, deleted := t.deletedTxId }

end StoredTuple

structure InnerState where
  currentTx : Nat
  tuples : List StoredTuple
  schema : Option String

namespace InMemoryStore

/-- `InMemoryStore::default`. -/
def new : InnerState :=
  { currentTx := 0, tuples := [], schema := none }

/-- The indices of the active rows that a delete filter matches. -/
def toDelete (tuples : List StoredTuple) (deletes : List TupleFilter) : List Nat :=
  (tuples.zipIdx.filter fun (t, _) =>
    t.isActive && deletes.any (fun f => t.matchesFilter f)).map (fun (_, i) => i)

/-- `for &i in &to_delete { state.tuples[i].deleted_tx_id = tx_id; }` -/
def stampAll (txId : Nat) (indices : List Nat) (tuples : List StoredTuple) :
    List StoredTuple :=
  indices.foldl (fun ts i => ts.modify i fun t => { t with deletedTxId := txId }) tuples

/-- An active row for the written tuple that this write did not delete. -/
def activeDup (tuples : List StoredTuple) (indices : List Nat) (w : TupleWrite) : Bool :=
  tuples.zipIdx.any fun (t, i) =>
    t.isActive && !indices.contains i && t.matchesWrite w

/-- The loop over the touches.  `seen` holds the keys of the earlier ones. -/
def touchLoop (txId : Nat) (indices : List Nat) :
    List TupleWrite → List TupleWrite → List StoredTuple → List StoredTuple
  | [], _, tuples => tuples
  | w :: writes, seen, tuples =>
      if w ∈ seen then
        touchLoop txId indices writes seen tuples
      else if activeDup tuples indices w then
        touchLoop txId indices writes (w :: seen) tuples
      else
        touchLoop txId indices writes (w :: seen) (tuples ++ [.ofWrite w txId])

/-- `RelationshipStore::write`.  The counter is a `u64` in the source; every
result below bounds the number of writes so that it stays under
`ACTIVE_TX_ID`. -/
def write (state : InnerState) (call : WriteCall) :
    Except StorageError SnapshotToken × InnerState :=
  if call.deletes.any (fun f => !f.hasAnyField) then
    (.error .emptyDeleteFilter, state)
  else
    let indices := toDelete state.tuples call.deletes
    let txId := state.currentTx + 1
    let stamped := stampAll txId indices state.tuples
    let tuples := touchLoop txId indices call.writes [] stamped
    (.ok txId, { state with currentTx := txId, tuples })

/-- The snapshot a query reads at. -/
def resolve (state : InnerState) (snapshot : Option SnapshotToken) :
    Except StorageError Nat :=
  match snapshot with
  | some val =>
      if val > state.currentTx then .error (.snapshotAhead val state.currentTx)
      else .ok val
  | none => .ok state.currentTx

def read (state : InnerState) (filter : TupleFilter) (snapshot : Option SnapshotToken)
    (limit : Option Nat) : Except StorageError (List Tuple) := do
  let snap ← resolve state snapshot
  let results := (state.tuples.filter fun t =>
    t.visibleAt snap && t.matchesFilter filter).map StoredTuple.toTuple
  return limited limit results

def snapshot (state : InnerState) : Except StorageError SnapshotToken :=
  .ok state.currentTx

def listObjectIds (state : InnerState) (objectType : String)
    (snapshot : Option SnapshotToken) (limit : Option Nat) :
    Except StorageError (List String) := do
  let snap ← resolve state snapshot
  let ids := (state.tuples.filter fun t =>
    t.visibleAt snap && decide (t.objectType = objectType)).map StoredTuple.objectId
  return limited limit (sortDedup ids)

/-- `impl RelationshipStore for InMemoryStore`. -/
def store : RelationshipStore InnerState where
  write := write
  query := fun state q =>
    match q with
    | .read filter snap limit => read state filter snap limit
    | .snapshot => snapshot state
    | .listObjectIds objectType snap limit => listObjectIds state objectType snap limit

/-- `impl SchemaStore for InMemoryStore`. -/
def schemaStore : SchemaStore InnerState where
  writeSchema := fun state definition => (.ok (), { state with schema := some definition })
  readSchema := fun state => .ok state.schema

end InMemoryStore

/-! ## Rows as versions -/

namespace StoredTuple

theorem matchesWrite_iff (t : StoredTuple) (w : TupleWrite) :
    t.matchesWrite w = true ↔ t.toTuple = w.toTuple := by
  obtain ⟨ot, oi, rel, st, si, sr, created, deleted⟩ := t
  obtain ⟨⟨wot, woi⟩, wrel, wst, wsi, wsr⟩ := w
  cases sr <;>
    simp [matchesWrite, toTuple, TupleWrite.toTuple, SubjectRef.direct,
      SubjectRef.userset, and_assoc]

@[simp] theorem toTuple_ofWrite (w : TupleWrite) (txId : Nat) :
    (ofWrite w txId).toTuple = w.toTuple := by
  obtain ⟨⟨wot, woi⟩, wrel, wst, wsi, wsr⟩ := w
  cases wsr <;> rfl

@[simp] theorem toVersion_ofWrite (w : TupleWrite) (txId : Nat) :
    (ofWrite w txId).toVersion = ⟨w.toTuple, txId, ACTIVE_TX_ID⟩ := by
  rw [toVersion, toTuple_ofWrite]
  rfl

@[simp] theorem live_toVersion (t : StoredTuple) :
    t.toVersion.live ACTIVE_TX_ID = t.isActive := rfl

end StoredTuple

/-- The version rows of a store. -/
def InnerState.versions (state : InnerState) : List (Version Tuple) :=
  state.tuples.map StoredTuple.toVersion

/-- The tuples visible at a token, in row order. -/
def InnerState.visible (state : InnerState) (s : Nat) : List Tuple :=
  Version.visible state.versions s

/-- The tuples of the active rows, in row order. -/
def InnerState.active (state : InnerState) : List Tuple :=
  (state.tuples.filter StoredTuple.isActive).map StoredTuple.toTuple

namespace InMemoryStore

variable {tuples : List StoredTuple} {indices : List Nat} {deletes : List TupleFilter}

/-! ## The deletes of a write -/

theorem mem_toDelete {i : Nat} : i ∈ toDelete tuples deletes ↔
    ∃ t, tuples[i]? = some t ∧
      (t.isActive && deletes.any (fun f => t.matchesFilter f)) = true := by
  unfold toDelete
  rw [List.mem_map]
  constructor
  · intro h
    obtain ⟨⟨t, j⟩, hmem, rfl⟩ := h
    rw [List.mem_filter, List.mem_zipIdx_iff_getElem?] at hmem
    exact ⟨t, hmem.1, hmem.2⟩
  · intro h
    obtain ⟨t, hget, hmatch⟩ := h
    refine ⟨(t, i), ?_, rfl⟩
    rw [List.mem_filter, List.mem_zipIdx_iff_getElem?]
    exact ⟨hget, hmatch⟩

theorem getElem?_stampAll (txId i : Nat) :
    (stampAll txId indices tuples)[i]? =
      if i ∈ indices then tuples[i]?.map (fun t => { t with deletedTxId := txId })
      else tuples[i]? := by
  unfold stampAll
  induction indices generalizing tuples with
  | nil => simp
  | cons j indices ih =>
      rw [List.foldl_cons, ih, List.getElem?_modify]
      by_cases hj : j = i
      · subst hj
        by_cases hmem : j ∈ indices <;> simp [hmem, Function.comp_def]
      · have hne : i ≠ j := fun h => hj h.symm
        simp [hj, hne]

/-- Stamping the collected indices stamps the rows they were collected for. -/
theorem stampAll_toDelete (txId : Nat) :
    stampAll txId (toDelete tuples deletes) tuples = tuples.map fun t =>
      if t.isActive && deletes.any (fun f => t.matchesFilter f) then
        { t with deletedTxId := txId } else t := by
  apply List.ext_getElem?
  intro i
  rw [getElem?_stampAll, List.getElem?_map]
  cases hget : tuples[i]? with
  | none => simp
  | some t =>
      have hmem : i ∈ toDelete tuples deletes ↔
          (t.isActive && deletes.any (fun f => t.matchesFilter f)) = true := by
        rw [mem_toDelete, hget]
        simp
      by_cases hdel : (t.isActive && deletes.any (fun f => t.matchesFilter f)) = true
      · rw [if_pos (hmem.mpr hdel), Option.map_some, Option.map_some, if_pos hdel]
      · rw [if_neg (fun h => hdel (hmem.mp h)), Option.map_some, if_neg hdel]

theorem versions_stampAll (txId : Nat) :
    (stampAll txId (toDelete tuples deletes) tuples).map StoredTuple.toVersion =
      Version.retire ACTIVE_TX_ID txId
        (fun t => deletes.any (fun f => f.matches t))
        (tuples.map StoredTuple.toVersion) := by
  rw [stampAll_toDelete, Version.retire, List.map_map, List.map_map]
  apply List.map_congr_left
  intro t _
  show (if _ then _ else t).toVersion = if _ then _ else _
  rw [apply_ite StoredTuple.toVersion]
  rfl

/-! ## The touches of a write -/

/-- The rows at the collected indices are not active. -/
def Stamped (indices : List Nat) (tuples : List StoredTuple) : Prop :=
  ∀ i ∈ indices, ∃ t, tuples[i]? = some t ∧ t.isActive = false

theorem stamped_stampAll {txId : Nat} (htx : txId ≠ ACTIVE_TX_ID) :
    Stamped (toDelete tuples deletes)
      (stampAll txId (toDelete tuples deletes) tuples) := by
  intro i hi
  obtain ⟨t, hget, -⟩ := mem_toDelete.mp hi
  refine ⟨{ t with deletedTxId := txId }, ?_, ?_⟩
  · rw [getElem?_stampAll, if_pos hi, hget]
    rfl
  · simpa [StoredTuple.isActive] using htx

theorem Stamped.append (h : Stamped indices tuples) (tuples' : List StoredTuple) :
    Stamped indices (tuples ++ tuples') := by
  intro i hi
  obtain ⟨t, hget, hactive⟩ := h i hi
  refine ⟨t, ?_, hactive⟩
  have hlt : i < tuples.length := (List.getElem?_eq_some_iff.mp hget).1
  rw [List.getElem?_append_left hlt, hget]

/-- Once the collected rows are stamped, excluding them changes nothing. -/
theorem activeDup_eq (h : Stamped indices tuples) (w : TupleWrite) :
    activeDup tuples indices w = (tuples.map StoredTuple.toVersion).any
      (fun v => v.live ACTIVE_TX_ID && decide (v.value = w.toTuple)) := by
  rw [Bool.eq_iff_iff]
  unfold activeDup
  simp only [List.any_eq_true, List.mem_map, Bool.and_eq_true, decide_eq_true_eq]
  constructor
  · intro hdup
    obtain ⟨⟨t, i⟩, hmem, ⟨hactive, -⟩, hw⟩ := hdup
    have ht : t ∈ tuples :=
      List.mem_of_getElem? (List.mem_zipIdx_iff_getElem?.mp hmem)
    exact ⟨_, ⟨t, ht, rfl⟩, hactive, (t.matchesWrite_iff w).mp hw⟩
  · intro hdup
    obtain ⟨_, ⟨t, ht, rfl⟩, hactive, hw⟩ := hdup
    obtain ⟨i, hget⟩ := List.mem_iff_getElem?.mp ht
    refine ⟨(t, i), List.mem_zipIdx_iff_getElem?.mpr hget, ⟨hactive, ?_⟩,
      (t.matchesWrite_iff w).mpr hw⟩
    -- a collected index holds a stamped row, and `t` is active
    by_contra hin
    have hin : i ∈ indices := by simpa using hin
    obtain ⟨t', hget', hstamped⟩ := h i hin
    obtain rfl : t = t' := Option.some.inj (hget.symm.trans hget')
    rw [StoredTuple.live_toVersion, hstamped] at hactive
    cases hactive

/-- **The touches install versions.**  A key seen before has an active row by
then, so skipping it is what installing it would do. -/
theorem versions_touchLoop {txId : Nat} {writes seen : List TupleWrite}
    (hstamped : Stamped indices tuples)
    (hseen : ∀ w ∈ seen, (tuples.map StoredTuple.toVersion).any
      (fun v => v.live ACTIVE_TX_ID && decide (v.value = w.toTuple)) = true) :
    (touchLoop txId indices writes seen tuples).map StoredTuple.toVersion =
      (writes.map TupleWrite.toTuple).foldl (Version.install ACTIVE_TX_ID txId)
        (tuples.map StoredTuple.toVersion) := by
  induction writes generalizing seen tuples with
  | nil => rfl
  | cons w writes ih =>
      rw [List.map_cons, List.foldl_cons, touchLoop, Version.install]
      by_cases hmem : w ∈ seen
      · rw [if_pos hmem, if_pos (hseen w hmem)]
        exact ih hstamped hseen
      · rw [if_neg hmem, activeDup_eq hstamped]
        by_cases hdup : (tuples.map StoredTuple.toVersion).any
            (fun v => v.live ACTIVE_TX_ID && decide (v.value = w.toTuple)) = true
        · rw [if_pos hdup, if_pos hdup]
          refine ih hstamped ?_
          intro w' hw'
          rcases List.mem_cons.mp hw' with rfl | hw'
          · exact hdup
          · exact hseen w' hw'
        · have hpush : (tuples ++ [StoredTuple.ofWrite w txId]).map
              StoredTuple.toVersion = tuples.map StoredTuple.toVersion ++
                [⟨w.toTuple, txId, ACTIVE_TX_ID⟩] := by
            simp
          rw [if_neg hdup, if_neg hdup, ← hpush]
          refine ih (hstamped.append _) ?_
          intro w' hw'
          rw [hpush, List.any_append, Bool.or_eq_true]
          rcases List.mem_cons.mp hw' with rfl | hw'
          · exact Or.inr (by simp [Version.live])
          · exact Or.inl (hseen w' hw')

/-! ## Writes and queries -/

/-- A write with an empty delete filter changes nothing. -/
theorem write_rejected {call : WriteCall} (state : InnerState)
    (h : call.accepted = false) :
    write state call = (.error .emptyDeleteFilter, state) := by
  have hempty : call.deletes.any (fun f => !f.hasAnyField) = true := by
    rw [← Bool.not_eq_true', WriteCall.accepted, List.not_all_eq_any_not] at h
    exact h
  rw [write, if_pos hempty]

/-- A write that fails was rejected. -/
theorem write_error {call : WriteCall} {state : InnerState} {e : StorageError}
    (h : (write state call).1 = .error e) : (write state call).2 = state := by
  cases hacc : call.accepted with
  | false => rw [write_rejected state hacc]
  | true =>
      unfold write at h
      split at h
      · rename_i hempty
        rw [WriteCall.accepted, List.all_eq_not_any_not, hempty] at hacc
        cases hacc
      · cases h

/-- A write leaves the schema alone. -/
theorem schema_write (state : InnerState) (call : WriteCall) :
    (write state call).2.schema = state.schema := by
  unfold write
  split <;> rfl

/-- An accepted write goes through. -/
theorem write_accepted {call : WriteCall} (state : InnerState) (h : call.accepted = true) :
    write state call =
      (.ok (state.currentTx + 1),
        { state with
          currentTx := state.currentTx + 1
          tuples := touchLoop (state.currentTx + 1) (toDelete state.tuples call.deletes)
            call.writes [] (stampAll (state.currentTx + 1)
              (toDelete state.tuples call.deletes) state.tuples) }) := by
  have hnonempty : ¬ call.deletes.any (fun f => !f.hasAnyField) = true := by
    rw [← List.not_all_eq_any_not]
    rw [WriteCall.accepted] at h
    rw [h]
    exact Bool.false_ne_true
  rw [write, if_neg hnonempty]

/-- **A write commits a batch of versions** under the next token. -/
theorem write_ok {call : WriteCall} (state : InnerState) (h : call.accepted = true)
    (htx : state.currentTx + 1 < ACTIVE_TX_ID) :
    (write state call).1 = .ok (state.currentTx + 1) ∧
    (write state call).2.currentTx = state.currentTx + 1 ∧
    (write state call).2.schema = state.schema ∧
    (write state call).2.versions = Version.commit ACTIVE_TX_ID (state.currentTx + 1)
      call.deleted (call.writes.map TupleWrite.toTuple) state.versions := by
  rw [write_accepted state h]
  refine ⟨rfl, rfl, rfl, ?_⟩
  show (touchLoop _ _ _ _ _).map StoredTuple.toVersion = _
  rw [versions_touchLoop (stamped_stampAll (by omega)) (by simp), versions_stampAll]
  rfl

/-- Stamping an active row deletes its tuple, unless the stamp is the active mark. -/
theorem isActive_stamp (txId : Nat) (deleted : Tuple → Bool) (t : StoredTuple) :
    (if t.isActive && deleted t.toTuple then { t with deletedTxId := txId }
      else t).isActive =
      (t.isActive && !(deleted t.toTuple && decide (txId ≠ ACTIVE_TX_ID))) := by
  cases hactive : t.isActive with
  | false => simpa using hactive
  | true =>
      cases hdeleted : deleted t.toTuple with
      | false => simpa using hactive
      | true => simp [StoredTuple.isActive]

/-- **A write that only deletes** leaves the active tuples that it does not match. -/
theorem active_write {call : WriteCall} (state : InnerState) (hacc : call.accepted = true)
    (hwrites : call.writes = []) :
    (write state call).2.active = state.active.filter fun t =>
      !(call.deleted t && decide (state.currentTx + 1 ≠ ACTIVE_TX_ID)) := by
  have htuples : (write state call).2.tuples = state.tuples.map fun t =>
      if t.isActive && call.deleted t.toTuple then
        { t with deletedTxId := state.currentTx + 1 } else t := by
    rw [write_accepted state hacc, hwrites]
    exact stampAll_toDelete _
  rw [InnerState.active, InnerState.active, htuples, List.filter_map, List.map_map,
    List.filter_map, List.filter_filter]
  congr 1
  · funext t
    show (if _ then _ else t).toTuple = t.toTuple
    rw [apply_ite StoredTuple.toTuple]
    exact ite_self _
  · congr 1
    funext t
    exact (isActive_stamp _ call.deleted t).trans (Bool.and_comm _ _)

theorem resolve_some {state : InnerState} {s : Nat} (hs : s ≤ state.currentTx) :
    resolve state (some s) = .ok s := by
  have hnot : ¬ s > state.currentTx := by omega
  rw [resolve, if_neg hnot]

theorem resolve_ahead {state : InnerState} {s : Nat} (hs : state.currentTx < s) :
    resolve state (some s) = .error (.snapshotAhead s state.currentTx) := by
  rw [resolve, if_pos hs]

/-- Selecting among the visible tuples is selecting among the visible rows. -/
theorem filter_visible (state : InnerState) (s : Nat) (q : Tuple → Bool) :
    (state.visible s).filter q = (state.tuples.filter fun t =>
      t.visibleAt s && q t.toTuple).map StoredTuple.toTuple := by
  have hvisible : state.visible s =
      (state.tuples.filter (fun t => t.visibleAt s)).map StoredTuple.toTuple := by
    rw [InnerState.visible, InnerState.versions, Version.visible, List.filter_map,
      List.map_map]
    rfl
  rw [hvisible, List.filter_map, List.filter_filter]
  congr 2
  funext t
  exact Bool.and_comm _ _

/-- The tuples a read returns are those visible at its snapshot that match. -/
theorem read_eq (state : InnerState) (filter : TupleFilter)
    (snap : Option SnapshotToken) (limit : Option Nat) :
    read state filter snap limit = (resolve state snap).map fun s =>
      limited limit ((state.visible s).filter (fun t => filter.matches t)) := by
  unfold read
  cases resolve state snap with
  | error e => rfl
  | ok s =>
      show Except.ok _ = Except.ok _
      congr 2
      rw [filter_visible]
      rfl

/-- The ids listed are those of the tuples of the type visible at the snapshot,
sorted and without repetition. -/
theorem listObjectIds_eq (state : InnerState) (objectType : String)
    (snap : Option SnapshotToken) (limit : Option Nat) :
    listObjectIds state objectType snap limit = (resolve state snap).map fun s =>
      limited limit (sortDedup (((state.visible s).filter
        (fun t => decide (t.object.objectType = objectType))).map (·.object.objectId))) := by
  unfold listObjectIds
  cases resolve state snap with
  | error e => rfl
  | ok s =>
      show Except.ok _ = Except.ok _
      congr 3
      rw [filter_visible, List.map_map]
      rfl

end InMemoryStore

end Kraalzibar
