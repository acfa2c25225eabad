import Kraalzibar.Storage.MemoryHistory
import Kraalzibar.Storage.Postgres.Queries

/-!
# The PostgreSQL store, one call after another

`PostgresStore` issues one `UPDATE` for each delete filter and one `INSERT` for
each touched tuple, and leaves it to the unique constraint to skip the tuples
that are active already.  Run one call after another, that is the same
multiversion store as the in-memory one.

* `PostgresStore.write`, `read`, `listObjectIds` — as in `postgres/mod.rs`;
* `deleteLoop_eq` — the `UPDATE`s of a write never violate the constraint, and
  retire what any of its filters matches;
* `Stored.write`, `stored_afterWrites` — the rows hold the contents after every
  successful write.
-/

namespace Kraalzibar.Postgres

open Foundations

/-- `tx_id_seq`, as `CREATE SEQUENCE` leaves it. -/
structure Sequence where
  lastValue : Nat := 1
  isCalled : Bool := false

/-- `SELECT nextval(..)`; the sequence is not transactional. -/
def Sequence.nextval (seq : Sequence) : Nat × Sequence :=
  if seq.isCalled then
    (seq.lastValue + 1, { lastValue := seq.lastValue + 1, isCalled := true })
  else
    (seq.lastValue, { seq with isCalled := true })

/-- `COALESCE((SELECT last_value FROM tx_id_seq WHERE is_called = true), 0)` -/
def Sequence.currentTxId (seq : Sequence) : Nat :=
  if seq.isCalled then seq.lastValue else 0

/-- Before the first `nextval` the sequence stands at its start value. -/
def Sequence.Valid (seq : Sequence) : Prop :=
  seq.isCalled = false → seq.lastValue = 1

theorem Sequence.nextval_eq {seq : Sequence} (h : seq.Valid) :
    seq.nextval.1 = seq.currentTxId + 1 ∧
      seq.nextval.2.currentTxId = seq.currentTxId + 1 ∧ seq.nextval.2.Valid := by
  obtain ⟨lastValue, isCalled⟩ := seq
  cases isCalled with
  | true => exact ⟨rfl, rfl, fun h => by cases h⟩
  | false =>
      obtain rfl : lastValue = 1 := h rfl
      exact ⟨rfl, rfl, fun h => by cases h⟩

/-- What the statements leave to the server: in which order a `SELECT` without
`ORDER BY` returns its rows, and how a constraint violation reads. -/
structure Server where
  scan : List Row → List Row
  scan_perm : ∀ rows, (scan rows).Perm rows
  duplicateKey : String

/-- A server that returns rows in the order of the heap. -/
def heapOrder : Server where
  scan := id
  scan_perm := List.Perm.refl
  duplicateKey := "duplicate key value violates unique constraint"

/-- The tables of one tenant. -/
structure Database where
  seq : Sequence
  rows : List Row

/-! ## Statements -/

/-- Set `deleted_tx_id` on the active rows that `p` selects. -/
def stampRows (txId : Nat) (p : Tuple → Bool) (rows : List Row) : List Row :=
  rows.map fun r =>
    if decide (r.deletedTxId = ACTIVE_TX_ID) && p r.toTuple then
      { r with deletedTxId := txId } else r

/-- The unique constraint holds. -/
def UniqueKeys (rows : List Row) : Prop :=
  (rows.map Row.key).Nodup

instance (rows : List Row) : Decidable (UniqueKeys rows) :=
  inferInstanceAs (Decidable (rows.map Row.key).Nodup)

/-- `delete_matching_tuples`: `none` when the constraint is violated. -/
def deleteMatchingTuples (filter : TupleFilter) (txId : Nat) (rows : List Row) :
    Option (List Row) :=
  let updated := rows.map fun r =>
    if deleteSelects filter txId r then { r with deletedTxId := txId } else r
  if UniqueKeys updated then some updated else none

/-- `for filter in deletes { queries::delete_matching_tuples(..).await?; }` -/
def deleteLoop (txId : Nat) : List TupleFilter → List Row → Option (List Row)
  | [], rows => some rows
  | filter :: deletes, rows =>
      (deleteMatchingTuples filter txId rows).bind (deleteLoop txId deletes)

/-- `insert_tuple`, with `ON CONFLICT .. DO NOTHING`. -/
def insertTuple (txId : Nat) (rows : List Row) (write : TupleWrite) : List Row :=
  if (Row.ofWrite write txId).key ∈ rows.map Row.key then rows
  else rows ++ [.ofWrite write txId]

/-- `read_tuples`. -/
def readTuples (server : Server) (rows : List Row) (filter : TupleFilter)
    (snapshot : Nat) (limit : Option Nat) : List Tuple :=
  limited limit ((server.scan (rows.filter (readSelects filter snapshot))).map Row.toTuple)

/-- `list_distinct_object_ids`: `SELECT DISTINCT .. ORDER BY object_id`. -/
def listDistinctObjectIds (rows : List Row) (objectType : String) (snapshot : Nat)
    (limit : Option Nat) : List String :=
  limited limit ((((rows.filter (listSelects objectType snapshot)).map
    Row.objectId).dedup).insertionSort (· ≤ ·))

/-! ## The store -/

namespace PostgresStore

/-- A provisioned tenant. -/
def new : Database :=
  { seq := {}, rows := [] }

/-- `RelationshipStore::write`.  A statement that fails rolls the rows back, but
not the sequence. -/
def write (server : Server) (db : Database) (call : WriteCall) :
    Except StorageError SnapshotToken × Database :=
  if call.deletes.any (fun f => !f.hasAnyField) then
    (.error .emptyDeleteFilter, db)
  else
    let txId := db.seq.nextval.1
    let db := { db with seq := db.seq.nextval.2 }
    if txId = ACTIVE_TX_ID then
      (.error (.internal "transaction ID sequence exhausted (reached sentinel value)"), db)
    else
      match deleteLoop txId call.deletes db.rows with
      | none => (.error (.internal server.duplicateKey), db)
      | some rows => (.ok txId, { db with rows := call.writes.foldl (insertTuple txId) rows })

/-- The snapshot a query reads at. -/
def resolve (db : Database) (snapshot : Option SnapshotToken) : Except StorageError Nat :=
  match snapshot with
  | some val =>
      if val > db.seq.currentTxId then .error (.snapshotAhead val db.seq.currentTxId)
      else .ok val
  | none => .ok db.seq.currentTxId

def read (server : Server) (db : Database) (filter : TupleFilter)
    (snapshot : Option SnapshotToken) (limit : Option Nat) :
    Except StorageError (List Tuple) := do
  let snap ← resolve db snapshot
  return readTuples server db.rows filter snap limit

def snapshot (db : Database) : Except StorageError SnapshotToken :=
  .ok db.seq.currentTxId

def listObjectIds (db : Database) (objectType : String)
    (snapshot : Option SnapshotToken) (limit : Option Nat) :
    Except StorageError (List String) := do
  let snap ← resolve db snapshot
  return listDistinctObjectIds db.rows objectType snap limit

/-- `impl RelationshipStore for PostgresStore`. -/
def store (server : Server) : RelationshipStore Database where
  write := write server
  query := fun db q =>
    match q with
    | .read filter snap limit => read server db filter snap limit
    | .snapshot => snapshot db
    | .listObjectIds objectType snap limit => listObjectIds db objectType snap limit

end PostgresStore

/-! ## Rows as versions -/

/-- The version rows of a table. -/
def versions (rows : List Row) : List (Version Tuple) :=
  rows.map Row.toVersion

variable {rows : List Row} {txId n : Nat}

theorem versions_stampRows (p : Tuple → Bool) :
    versions (stampRows txId p rows) =
      Version.retire ACTIVE_TX_ID txId p (versions rows) := by
  rw [versions, stampRows, Version.retire, versions, List.map_map, List.map_map]
  apply List.map_congr_left
  intro r _
  show (if _ then _ else r).toVersion = if _ then _ else _
  rw [apply_ite Row.toVersion]
  rfl

theorem deleteMatchingTuples_eq (filter : TupleFilter) :
    deleteMatchingTuples filter txId rows =
      if UniqueKeys (stampRows txId (fun t => filter.matches t) rows) then
        some (stampRows txId (fun t => filter.matches t) rows) else none := by
  have hselect : ∀ r : Row, deleteSelects filter txId r =
      (decide (r.deletedTxId = ACTIVE_TX_ID) && filter.matches r.toTuple) := by
    intro r
    rw [Bool.eq_iff_iff, deleteSelects_iff, Bool.and_eq_true, decide_eq_true_eq]
  unfold deleteMatchingTuples stampRows
  simp only [hselect]

theorem stampRows_stampRows (p q : Tuple → Bool) (htx : txId ≠ ACTIVE_TX_ID) :
    stampRows txId q (stampRows txId p rows) =
      stampRows txId (fun t => p t || q t) rows := by
  unfold stampRows
  rw [List.map_map]
  apply List.map_congr_left
  intro r _
  by_cases hactive : r.deletedTxId = ACTIVE_TX_ID
  · by_cases hp : p r.toTuple = true <;> simp [hactive, hp, htx]
  · simp [hactive]

/-- **Stamping violates no constraint.**  A stamped row was the one active row of
its tuple, and no row carries the new token yet. -/
theorem uniqueKeys_stampRows (p : Tuple → Bool) (hunique : UniqueKeys rows)
    (hbounded : Version.Bounded ACTIVE_TX_ID n (versions rows)) (hn : n < txId)
    (htx : txId < ACTIVE_TX_ID) : UniqueKeys (stampRows txId p rows) := by
  have hbound : ∀ r ∈ rows, r.deletedTxId = ACTIVE_TX_ID ∨ r.deletedTxId ≤ n :=
    fun r hr => (hbounded r.toVersion (List.mem_map_of_mem hr)).2
  unfold UniqueKeys stampRows at *
  rw [List.Nodup, List.map_map, List.pairwise_map]
  rw [List.Nodup, List.pairwise_map] at hunique
  refine hunique.imp_of_mem ?_
  intro r r' hr hr' hne heq
  have hdeleted := hbound r hr
  have hdeleted' := hbound r' hr'
  apply hne
  simp only [Function.comp_apply, Row.key, Prod.mk.injEq] at heq ⊢
  by_cases h : (decide (r.deletedTxId = ACTIVE_TX_ID) && p r.toTuple) = true <;>
    by_cases h' : (decide (r'.deletedTxId = ACTIVE_TX_ID) && p r'.toTuple) = true
  · rw [if_pos h, if_pos h'] at heq
    rw [Bool.and_eq_true, decide_eq_true_eq] at h h'
    exact ⟨heq.1, by rw [h.1, h'.1]⟩
  · rw [if_pos h, if_neg h'] at heq
    have hclash : txId = r'.deletedTxId := heq.2
    omega
  · rw [if_neg h, if_pos h'] at heq
    have hclash : r.deletedTxId = txId := heq.2
    omega
  · rw [if_neg h, if_neg h'] at heq
    exact heq

/-- **The deletes of a write** succeed and stamp what any filter matches. -/
theorem deleteLoop_eq (hunique : UniqueKeys rows)
    (hbounded : Version.Bounded ACTIVE_TX_ID n (versions rows)) (hn : n < txId)
    (htx : txId < ACTIVE_TX_ID) (deletes : List TupleFilter) (p : Tuple → Bool) :
    deleteLoop txId deletes (stampRows txId p rows) =
      some (stampRows txId (fun t => p t || deletes.any (fun f => f.matches t)) rows) := by
  induction deletes generalizing p with
  | nil => simp [deleteLoop]
  | cons filter deletes ih =>
      rw [deleteLoop, deleteMatchingTuples_eq, stampRows_stampRows _ _ htx.ne,
        if_pos (uniqueKeys_stampRows _ hunique hbounded hn htx), Option.bind_some, ih]
      simp only [List.any_cons, Bool.or_assoc]

theorem mem_keys_ofWrite (w : TupleWrite) :
    (Row.ofWrite w txId).key ∈ rows.map Row.key ↔ (versions rows).any
      (fun v => v.live ACTIVE_TX_ID && decide (v.value = w.toTuple)) = true := by
  rw [List.mem_map, List.any_eq_true]
  simp only [versions, List.mem_map, exists_exists_and_eq_and, Bool.and_eq_true,
    decide_eq_true_eq, Version.live_iff]
  refine exists_congr fun r => and_congr_right fun _ => ?_
  rw [Row.key, Row.key, Row.toTuple_ofWrite, Prod.mk.injEq]
  exact and_comm

/-- **An insert installs a version** unless the tuple is active. -/
theorem versions_insertTuple (w : TupleWrite) :
    versions (insertTuple txId rows w) =
      Version.install ACTIVE_TX_ID txId (versions rows) w.toTuple := by
  unfold insertTuple Version.install
  by_cases h : (Row.ofWrite w txId).key ∈ rows.map Row.key
  · rw [if_pos h, if_pos (mem_keys_ofWrite w |>.mp h)]
  · rw [if_neg h, if_neg (fun h' => h ((mem_keys_ofWrite w).mpr h'))]
    rw [versions, List.map_append, List.map_singleton, Row.toVersion_ofWrite]
    rfl

theorem uniqueKeys_insertTuple (h : UniqueKeys rows) (w : TupleWrite) :
    UniqueKeys (insertTuple txId rows w) := by
  unfold insertTuple
  split
  · exact h
  · rename_i hnew
    rw [UniqueKeys, List.map_append]
    exact List.Nodup.append h (List.nodup_singleton _) (List.disjoint_singleton.mpr hnew)

theorem versions_insertAll (writes : List TupleWrite) :
    versions (writes.foldl (insertTuple txId) rows) = (writes.map TupleWrite.toTuple).foldl
      (Version.install ACTIVE_TX_ID txId) (versions rows) := by
  induction writes generalizing rows with
  | nil => rfl
  | cons w writes ih =>
      rw [List.foldl_cons, ih, versions_insertTuple, List.map_cons, List.foldl_cons]

theorem uniqueKeys_insertAll (h : UniqueKeys rows) (writes : List TupleWrite) :
    UniqueKeys (writes.foldl (insertTuple txId) rows) := by
  induction writes generalizing rows with
  | nil => exact h
  | cons w writes ih => exact ih (uniqueKeys_insertTuple h w)

/-! ## A run of calls -/

namespace PostgresStore

/-- The tables hold the contents after each successful call. -/
structure Stored (db : Database) (calls : List WriteCall) : Prop where
  seq : db.seq.Valid
  currentTxId : db.seq.currentTxId = (successful calls).length
  unique : UniqueKeys db.rows
  records : Version.Records ACTIVE_TX_ID (successful calls).length (versions db.rows)
    (Batch.contents (successful calls))

theorem stored_new : Stored new [] where
  seq := fun _ => rfl
  currentTxId := rfl
  unique := List.nodup_nil
  records := {
    bounded := (Version.Records.nil ACTIVE_TX_ID).bounded
    visible_eq := by
      intro s _
      simp [Batch.contents, successful, new, versions, Version.visible] }

theorem write_rejected (server : Server) (db : Database) {call : WriteCall}
    (h : call.accepted = false) :
    write server db call = (.error .emptyDeleteFilter, db) := by
  have hempty : call.deletes.any (fun f => !f.hasAnyField) = true := by
    rw [← Bool.not_eq_true', WriteCall.accepted, List.not_all_eq_any_not] at h
    exact h
  rw [write, if_pos hempty]

/-- **Step lemma.**  A write, successful or not, keeps the tables stored, and a
successful one returns the next token. -/
theorem Stored.write (server : Server) {db : Database} {calls : List WriteCall}
    (h : Stored db calls) (call : WriteCall)
    (hcount : (successful calls).length + 1 < ACTIVE_TX_ID) :
    Stored (write server db call).2 (calls ++ [call]) ∧
      (call.accepted = true →
        (PostgresStore.write server db call).1 = .ok ((successful calls).length + 1)) := by
  by_cases hacc : call.accepted = true
  · have hnonempty : ¬ call.deletes.any (fun f => !f.hasAnyField) = true := by
      intro hany
      rw [← List.not_all_eq_any_not] at hany
      rw [WriteCall.accepted] at hacc
      rw [hacc] at hany
      cases hany
    obtain ⟨htoken, hcurrent, hvalid⟩ := Sequence.nextval_eq h.seq
    rw [h.currentTxId] at htoken hcurrent
    have hlength : (successful (calls ++ [call])).length =
        (successful calls).length + 1 := by
      rw [successful_concat_accepted hacc, List.length_append]
      rfl
    have hstart : stampRows ((successful calls).length + 1) (fun _ => false) db.rows =
        db.rows := by
      simp [stampRows]
    have hdeletes : deleteLoop ((successful calls).length + 1) call.deletes db.rows =
        some (stampRows ((successful calls).length + 1) call.deleted db.rows) := by
      have hloop := deleteLoop_eq h.unique h.records.bounded (Nat.lt_succ_self _) hcount
        call.deletes (fun _ => false)
      rw [hstart] at hloop
      simp only [Bool.false_or] at hloop
      exact hloop
    have hwrite : PostgresStore.write server db call =
        (.ok ((successful calls).length + 1),
          { seq := db.seq.nextval.2
            rows := call.writes.foldl (insertTuple ((successful calls).length + 1))
              (stampRows ((successful calls).length + 1) call.deleted db.rows) }) := by
      rw [PostgresStore.write, if_neg hnonempty]
      simp only [htoken, if_neg hcount.ne, hdeletes]
    rw [hwrite]
    refine ⟨⟨hvalid, ?_, ?_, ?_⟩, fun _ => rfl⟩
    · rw [hlength]
      exact hcurrent
    · exact uniqueKeys_insertAll (uniqueKeys_stampRows _ h.unique h.records.bounded
        (Nat.lt_succ_self _) hcount) _
    · show Version.Records _ _ (versions (call.writes.foldl _ _)) _
      rw [versions_insertAll, versions_stampRows, hlength, successful_concat_accepted hacc]
      exact h.records.commit hcount (fun s hs => Batch.contents_concat_old hs)
        Batch.contents_concat_new
  · have hacc' : call.accepted = false := by simpa using hacc
    rw [write_rejected server db hacc']
    refine ⟨⟨h.seq, ?_, h.unique, ?_⟩, fun h => absurd h hacc⟩
    · rw [successful_concat_rejected hacc']
      exact h.currentTxId
    · rw [successful_concat_rejected hacc']
      exact h.records

/-- **Run lemma.**  Every run of writes on a new tenant is stored. -/
theorem stored_afterWrites (server : Server) {calls : List WriteCall}
    (hcount : calls.length < ACTIVE_TX_ID) :
    Stored ((store server).afterWrites new calls) calls := by
  induction calls using List.reverseRecOn with
  | nil => exact stored_new
  | append_singleton calls call ih =>
      rw [List.length_append, List.length_singleton] at hcount
      have hle := length_successful_le calls
      rw [RelationshipStore.afterWrites_concat]
      exact ((ih (by omega)).write server call (by omega)).1

end PostgresStore

/-! ## Queries -/

/-- The tuples a `SELECT` returns are those visible at its snapshot that match,
in some order. -/
theorem readTuples_perm (server : Server) (filter : TupleFilter) (s : Nat) :
    (readTuples server rows filter s none).Perm
      ((Version.visible (versions rows) s).filter (fun t => filter.matches t)) := by
  have hselect : rows.filter (readSelects filter s) =
      rows.filter (fun r => r.toVersion.visibleAt s && filter.matches r.toTuple) := by
    apply List.filter_congr
    intro r _
    rw [Bool.eq_iff_iff, readSelects_iff, Bool.and_eq_true, Version.visibleAt_iff]
    rfl
  have hvisible : Version.visible (versions rows) s =
      (rows.filter (fun r => r.toVersion.visibleAt s)).map Row.toTuple := by
    rw [Version.visible, versions, List.filter_map, List.map_map]
    rfl
  have hfilter : (Version.visible (versions rows) s).filter (fun t => filter.matches t) =
      (rows.filter (readSelects filter s)).map Row.toTuple := by
    rw [hvisible, hselect, List.filter_map, List.filter_filter]
    refine congrArg _ (List.filter_congr fun r _ => ?_)
    exact Bool.and_comm _ _
  show ((server.scan _).map Row.toTuple).Perm _
  rw [hfilter]
  exact (server.scan_perm _).map _

theorem mem_readTuples {server : Server} {rows : List Row} {filter : TupleFilter} {s : Nat}
    {t : Tuple} : t ∈ readTuples server rows filter s none ↔
      t ∈ Version.visible (versions rows) s ∧ filter.matches t = true := by
  rw [(readTuples_perm server filter s).mem_iff, List.mem_filter]

/-- The ids listed are those of the tuples of the type visible at the snapshot,
sorted and without repetition. -/
theorem listDistinctObjectIds_eq (objectType : String) (s : Nat) (limit : Option Nat) :
    listDistinctObjectIds rows objectType s limit =
      limited limit (sortDedup (((Version.visible (versions rows) s).filter
        (fun t => decide (t.object.objectType = objectType))).map (·.object.objectId))) := by
  unfold listDistinctObjectIds
  congr 1
  apply eq_sortDedup
  · have hsorted := List.pairwise_insertionSort (· ≤ ·)
      ((rows.filter (listSelects objectType s)).map Row.objectId).dedup
    have hnodup : (((rows.filter (listSelects objectType s)).map Row.objectId).dedup
        |>.insertionSort (· ≤ ·)).Nodup :=
      (List.perm_insertionSort _ _).nodup_iff.mpr (List.nodup_dedup _)
    exact (hsorted.and hnodup).imp fun h => lt_of_le_of_ne h.1 h.2
  · intro id
    rw [List.mem_insertionSort, List.mem_dedup]
    simp only [List.mem_map, List.mem_filter, listSelects_iff, Version.mem_visible,
      versions, exists_exists_and_eq_and, decide_eq_true_eq]
    constructor
    · intro h
      obtain ⟨r, ⟨hr, htype, hvisible⟩, rfl⟩ := h
      exact ⟨r.toTuple, ⟨⟨r, hr, hvisible, rfl⟩, htype⟩, rfl⟩
    · intro h
      obtain ⟨t, ⟨⟨r, hr, hvisible, rfl⟩, htype⟩, rfl⟩ := h
      exact ⟨r, ⟨hr, htype, hvisible⟩, rfl⟩

end Kraalzibar.Postgres
