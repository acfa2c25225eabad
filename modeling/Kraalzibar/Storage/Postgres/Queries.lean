import Kraalzibar.Core.Tuple
import Kraalzibar.Foundations.Sql
import Kraalzibar.Foundations.Versions

/-!
# The statements of the PostgreSQL store

The rows of `relation_tuples` and the statements of `queries.rs`.  Both
statements that take a filter build their `WHERE` clause the same way: two
vectors, of conditions and of bound values, and the number of the next
placeholder, grown field by field.

* `deleteSelects_iff` — the `UPDATE` of a filter stamps the active rows
  the filter matches;
* `readSelects_iff` — the `SELECT` of a filter returns the rows visible at
  the snapshot that the filter matches.
-/

namespace Kraalzibar.Postgres

open Foundations Foundations.Sql

/-- `i64::MAX` in `deleted_tx_id` marks an active row. -/
def ACTIVE_TX_ID : Nat := 2 ^ 63 - 1

inductive Column where
  | objectType
  | objectId
  | relation
  | subjectType
  | subjectId
  | subjectRelation
  | createdTxId
  | deletedTxId
deriving DecidableEq

/-- The values of a row of `relation_tuples` that holds the tuple `t`: six `TEXT`
columns, of which `subject_relation` is nullable, and two `BIGINT` columns. -/
def rowValue (t : Tuple) (created deleted : Int) : Column → Value
  | .objectType => .text t.object.objectType
  | .objectId => .text t.object.objectId
  | .relation => .text t.relation
  | .subjectType => .text t.subject.subjectType
  | .subjectId => .text t.subject.subjectId
  | .subjectRelation => t.subject.subjectRelation.elim .null .text
  | .createdTxId => .int created
  | .deletedTxId => .int deleted

/-- A row of `relation_tuples`, without its generated `id`. -/
structure Row where
  objectType : String
  objectId : String
  relation : String
  subjectType : String
  subjectId : String
  subjectRelation : Option String
  createdTxId : Nat
  deletedTxId : Nat
deriving DecidableEq

namespace Row

def value (r : Row) : Column → Value
  | .objectType => .text r.objectType
  | .objectId => .text r.objectId
  | .relation => .text r.relation
  | .subjectType => .text r.subjectType
  | .subjectId => .text r.subjectId
  | .subjectRelation => r.subjectRelation.elim .null .text
  | .createdTxId => .int r.createdTxId
  | .deletedTxId => .int r.deletedTxId

/-- The tuple `read_tuples` builds from a row. -/
def toTuple (r : Row) : Tuple :=
  let subject :=
    match r.subjectRelation with
    | none => SubjectRef.direct r.subjectType r.subjectId
    | some rel => SubjectRef.userset r.subjectType r.subjectId rel
  { object := ⟨r.objectType, r.objectId⟩, relation := r.relation, subject }

/-- The columns of `UNIQUE NULLS NOT DISTINCT`, with which two `NULL` subject
relations are equal. -/
def key (r : Row) : Tuple × Nat :=
  (r.toTuple, r.deletedTxId)

instance : LawfulBEq (Tuple × Nat) := inferInstance

/-- The row `insert_tuple` adds. -/
def ofWrite (write : TupleWrite) (txId : Nat) : Row :=
  { objectType := write.object.objectType
    objectId := write.object.objectId
    relation := write.relation
    subjectType := write.subject.subjectType
    subjectId := write.subject.subjectId
    subjectRelation := write.subject.subjectRelation
    createdTxId := txId
    deletedTxId := ACTIVE_TX_ID }

/-- The row as a version of its tuple. -/
def toVersion (r : Row) : Version Tuple :=
  { value := r.toTuple, created := r.createdTxId, deleted := r.deletedTxId }

/-- The values of a row are those of its tuple and its two counters. -/
theorem value_eq (r : Row) : r.value = rowValue r.toTuple r.createdTxId r.deletedTxId := by
  funext column
  obtain ⟨ot, oi, rel, st, si, sr, created, deleted⟩ := r
  cases sr <;> cases column <;> rfl

@[simp] theorem toTuple_ofWrite (w : TupleWrite) (txId : Nat) :
    (ofWrite w txId).toTuple = w.toTuple := by
  obtain ⟨⟨wot, woi⟩, wrel, wst, wsi, wsr⟩ := w
  cases wsr <;> rfl

@[simp] theorem toVersion_ofWrite (w : TupleWrite) (txId : Nat) :
    (ofWrite w txId).toVersion = ⟨w.toTuple, txId, ACTIVE_TX_ID⟩ := by
  rw [toVersion, toTuple_ofWrite]
  rfl

end Row

/-! ## Building a `WHERE` clause -/

/-- `conditions`, `binds` and `bind_idx`. -/
structure Builder where
  conditions : List (Condition Column)
  binds : List Value
  bindIdx : Nat

namespace Builder

/-- `if let Some(ref v) = filter.field { .. }` -/
def pushEq (b : Builder) (column : Column) : Option String → Builder
  | none => b
  | some v =>
      { conditions := b.conditions ++ [.eq column b.bindIdx]
        binds := b.binds ++ [.text v]
        bindIdx := b.bindIdx + 1 }

/-- The last field, where `Some(None)` asks for a `NULL`. -/
def pushSubjectRelation (b : Builder) : Option (Option String) → Builder
  | none => b
  | some none => { b with conditions := b.conditions ++ [.isNull .subjectRelation] }
  | some (some rel) => b.pushEq .subjectRelation (some rel)

def pushFilter (b : Builder) (filter : TupleFilter) : Builder :=
  (((((b.pushEq .objectType filter.objectType).pushEq
    .objectId filter.objectId).pushEq
    .relation filter.relation).pushEq
    .subjectType filter.subjectType).pushEq
    .subjectId filter.subjectId).pushSubjectRelation filter.subjectRelation

end Builder

/-- The clause `delete_matching_tuples` starts from: `$1` is the sentinel, `$2`
the value set. -/
def deleteBuilder (filter : TupleFilter) : Builder :=
  Builder.pushFilter ⟨[.eq .deletedTxId 1], [], 3⟩ filter

/-- The clause `read_tuples` starts from: `$1` is the snapshot. -/
def readBuilder (filter : TupleFilter) : Builder :=
  Builder.pushFilter ⟨[.le .createdTxId 1, .gt .deletedTxId 1], [], 2⟩ filter

/-- The `WHERE` clause of `delete_matching_tuples` selects the row. -/
def deleteSelects (filter : TupleFilter) (txId : Nat) (r : Row) : Bool :=
  selects r.value (.int ACTIVE_TX_ID :: .int txId :: (deleteBuilder filter).binds)
    (deleteBuilder filter).conditions

/-- The `WHERE` clause of `read_tuples` selects the row. -/
def readSelects (filter : TupleFilter) (snapshot : Nat) (r : Row) : Bool :=
  selects r.value (.int snapshot :: (readBuilder filter).binds)
    (readBuilder filter).conditions

/-- The `WHERE` clause of `list_distinct_object_ids` selects the row. -/
def listSelects (objectType : String) (snapshot : Nat) (r : Row) : Bool :=
  selects r.value [.text objectType, .int snapshot]
    [.eq .objectType 1, .le .createdTxId 2, .gt .deletedTxId 2]

/-! ## What the clauses select -/

/-- After the fixed values `fixed`, every placeholder used has its value. -/
def Builder.Bound (fixed : List Value) (b : Builder) : Prop :=
  b.bindIdx = (fixed ++ b.binds).length + 1 ∧
    ∀ c ∈ b.conditions, ∀ k ∈ c.placeholder, 0 < k ∧ k < b.bindIdx

/-- The clause built so far selects the row. -/
def Builder.Selects (fixed : List Value) (b : Builder) (r : Row) : Prop :=
  selects r.value (fixed ++ b.binds) b.conditions = true

/-- The clause built so far is true on the values of a row. -/
def Builder.Accepts (fixed : List Value) (b : Builder) (row : Column → Value) : Prop :=
  selects row (fixed ++ b.binds) b.conditions = true

namespace Builder

variable {fixed : List Value} {b : Builder}

theorem Bound.pushEq (h : b.Bound fixed) (column : Column) (v : Option String) :
    (b.pushEq column v).Bound fixed := by
  cases v with
  | none => exact h
  | some v =>
      obtain ⟨hidx, hused⟩ := h
      refine ⟨by simp [Builder.pushEq, hidx, Nat.add_assoc], ?_⟩
      intro c hc k hk
      rcases List.mem_append.mp hc with hc | hc
      · have hlt := hused c hc k hk
        exact ⟨hlt.1, Nat.lt_succ_of_lt hlt.2⟩
      · rw [List.mem_singleton] at hc
        subst hc
        obtain rfl : b.bindIdx = k := Option.some.inj hk
        exact ⟨by omega, Nat.lt_succ_self _⟩

/-- Adding a field adds the comparison with its value. -/
theorem accepts_pushEq (h : b.Bound fixed) (column : Column) (v : Option String)
    (row : Column → Value) : (b.pushEq column v).Accepts fixed row ↔
      b.Accepts fixed row ∧ ∀ s ∈ v, row column = .text s := by
  cases v with
  | none => simp [Builder.pushEq]
  | some v =>
      obtain ⟨hidx, hused⟩ := h
      have hold : selects row ((fixed ++ b.binds) ++ [.text v]) b.conditions =
          selects row (fixed ++ b.binds) b.conditions := by
        apply selects_append_binds
        intro c hc k hk
        have hlt := hused c hc k hk
        omega
      have hnew : bound ((fixed ++ b.binds) ++ [.text v]) b.bindIdx = .text v := by
        unfold bound
        rw [hidx, Nat.add_sub_cancel, List.getD_append_right _ _ _ _ le_rfl]
        simp
      simp only [Builder.Accepts, Builder.pushEq, ← List.append_assoc, selects_append, hold]
      refine and_congr_right fun _ => ?_
      simp only [selects_iff, List.forall_mem_singleton, Condition.eval, hnew,
        compareWith_text_eq, Option.mem_some_iff, forall_eq']

theorem accepts_pushSubjectRelation (h : b.Bound fixed) (v : Option (Option String))
    (t : Tuple) (created deleted : Int) :
    (b.pushSubjectRelation v).Accepts fixed (rowValue t created deleted) ↔
      b.Accepts fixed (rowValue t created deleted) ∧
        ∀ s ∈ v, t.subject.subjectRelation = s := by
  rcases v with _ | (_ | rel)
  · simp [Builder.pushSubjectRelation]
  · simp only [Builder.Accepts, Builder.pushSubjectRelation, selects_append]
    cases hrel : t.subject.subjectRelation <;>
      simp [selects_iff, Condition.eval, rowValue, hrel]
  · rw [Builder.pushSubjectRelation, accepts_pushEq h]
    cases hrel : t.subject.subjectRelation <;> simp [rowValue, hrel]

/-- **The clause of a filter compares exactly the fields the filter sets**, on a
row of any tuple and any two counters. -/
theorem accepts_pushFilter (h : b.Bound fixed) (filter : TupleFilter) (t : Tuple)
    (created deleted : Int) :
    (b.pushFilter filter).Accepts fixed (rowValue t created deleted) ↔
      b.Accepts fixed (rowValue t created deleted) ∧ filter.matches t = true := by
  have h1 := h.pushEq .objectType filter.objectType
  have h2 := h1.pushEq .objectId filter.objectId
  have h3 := h2.pushEq .relation filter.relation
  have h4 := h3.pushEq .subjectType filter.subjectType
  have h5 := h4.pushEq .subjectId filter.subjectId
  unfold Builder.pushFilter
  rw [accepts_pushSubjectRelation h5, accepts_pushEq h4, accepts_pushEq h3,
    accepts_pushEq h2, accepts_pushEq h1, accepts_pushEq h, TupleFilter.matches_iff]
  simp only [rowValue, Value.text.injEq, and_assoc, eq_comm]

/-- The clause of a filter on a row of the table. -/
theorem selects_pushFilter (h : b.Bound fixed) (filter : TupleFilter) (r : Row) :
    (b.pushFilter filter).Selects fixed r ↔
      b.Selects fixed r ∧ filter.matches r.toTuple = true := by
  have hrow := accepts_pushFilter h filter r.toTuple r.createdTxId r.deletedTxId
  rw [← r.value_eq] at hrow
  exact hrow

end Builder

/-- What `delete_matching_tuples` starts from binds `$1`, and leaves `$2` to the
`SET`. -/
theorem deleteBuilder_bound (txId : Value) :
    Builder.Bound [.int ACTIVE_TX_ID, txId] ⟨[.eq .deletedTxId 1], [], 3⟩ := by
  refine ⟨rfl, ?_⟩
  intro c hc k hk
  rw [List.mem_singleton] at hc
  subst hc
  obtain rfl : 1 = k := Option.some.inj hk
  decide

/-- What `read_tuples` starts from binds `$1` and uses it twice. -/
theorem readBuilder_bound (snapshot : Value) :
    Builder.Bound [snapshot] ⟨[.le .createdTxId 1, .gt .deletedTxId 1], [], 2⟩ := by
  refine ⟨rfl, ?_⟩
  intro c hc k hk
  simp only [List.mem_cons, List.not_mem_nil, or_false] at hc
  rcases hc with rfl | rfl
  · obtain rfl : 1 = k := Option.some.inj hk
    decide
  · obtain rfl : 1 = k := Option.some.inj hk
    decide

/-- **The `UPDATE` of a filter selects the active rows it matches.** -/
theorem deleteSelects_iff (filter : TupleFilter) (txId : Nat) (r : Row) :
    deleteSelects filter txId r = true ↔
      r.deletedTxId = ACTIVE_TX_ID ∧ filter.matches r.toTuple = true := by
  have h := Builder.selects_pushFilter (deleteBuilder_bound (.int txId)) filter r
  refine h.trans (and_congr_left fun _ => ?_)
  simp only [Builder.Selects, selects_iff, List.forall_mem_singleton, Condition.eval]
  exact compareWith_int_eq.trans Int.ofNat_inj

/-- **The `SELECT` of a filter selects the visible rows it matches.** -/
theorem readSelects_iff (filter : TupleFilter) (snapshot : Nat) (r : Row) :
    readSelects filter snapshot r = true ↔
      (r.createdTxId ≤ snapshot ∧ snapshot < r.deletedTxId) ∧
        filter.matches r.toTuple = true := by
  have h := Builder.selects_pushFilter (readBuilder_bound (.int snapshot)) filter r
  refine h.trans (and_congr_left fun _ => ?_)
  simp [Builder.Selects, selects_iff, Condition.eval, bound, Row.value,
    compareWith_int_le, compareWith_int_gt]

theorem listSelects_iff (objectType : String) (snapshot : Nat) (r : Row) :
    listSelects objectType snapshot r = true ↔
      r.objectType = objectType ∧ r.createdTxId ≤ snapshot ∧ snapshot < r.deletedTxId := by
  simp [listSelects, selects_iff, Condition.eval, bound, Row.value, compareWith_text_eq,
    compareWith_int_le, compareWith_int_gt]

end Kraalzibar.Postgres
