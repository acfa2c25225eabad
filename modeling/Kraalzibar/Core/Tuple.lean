import Mathlib.Data.String.Basic

/-!
# Relation tuples and tuple filters

A relation tuple `type:id#relation@subject` is the only thing the stores keep
and the engines read.  A `TupleFilter` is the read and delete interface to a
store: each field is either a wildcard or the exact value to match, and the
subject relation has a third form, "a direct subject", written `some none`.

* `Tuple`, `TupleWrite`, `SubjectRef`, `ObjectRef` — the records of `tuple.rs`;
* `TupleFilter.matches` — the match test shared by both stores;
* `TupleFilter.matches_iff` — it compares exactly the fields that are set.
-/

namespace Kraalzibar

structure TenantId where
  uuid : BitVec 128
deriving DecidableEq

structure ObjectRef where
  objectType : String
  objectId : String
deriving DecidableEq

/-- A subject is an object, or with a `subjectRelation` the set of subjects
that have that relation to the object. -/
structure SubjectRef where
  subjectType : String
  subjectId : String
  subjectRelation : Option String
deriving DecidableEq

def SubjectRef.direct (subjectType subjectId : String) : SubjectRef :=
  { subjectType, subjectId, subjectRelation := none }

def SubjectRef.userset (subjectType subjectId relation : String) : SubjectRef :=
  { subjectType, subjectId, subjectRelation := some relation }

structure Tuple where
  object : ObjectRef
  relation : String
  subject : SubjectRef
deriving DecidableEq

structure TupleWrite where
  object : ObjectRef
  relation : String
  subject : SubjectRef
deriving DecidableEq

/-- `impl From<TupleWrite> for Tuple`. -/
def TupleWrite.toTuple (write : TupleWrite) : Tuple :=
  { object := write.object, relation := write.relation, subject := write.subject }

/-- `None` in a field is a wildcard.  `subjectRelation = some none` asks for a
direct subject. -/
structure TupleFilter where
  objectType : Option String := none
  objectId : Option String := none
  relation : Option String := none
  subjectType : Option String := none
  subjectId : Option String := none
  subjectRelation : Option (Option String) := none
deriving DecidableEq

/-- One field test of `TupleFilter::matches`: a set field must be equal. -/
def fieldAdmits {α : Type} [DecidableEq α] : Option α → α → Bool
  | none, _ => true
  | some wanted, actual => decide (wanted = actual)

@[simp] theorem fieldAdmits_none {α : Type} [DecidableEq α] (x : α) :
    fieldAdmits none x = true := rfl

@[simp] theorem fieldAdmits_some {α : Type} [DecidableEq α] (w x : α) :
    fieldAdmits (some w) x = true ↔ w = x := by
  simp [fieldAdmits]

def TupleFilter.hasAnyField (f : TupleFilter) : Bool :=
  f.objectType.isSome || f.objectId.isSome || f.relation.isSome ||
    f.subjectType.isSome || f.subjectId.isSome || f.subjectRelation.isSome

def TupleFilter.matches (f : TupleFilter) (t : Tuple) : Bool :=
  fieldAdmits f.objectType t.object.objectType &&
  fieldAdmits f.objectId t.object.objectId &&
  fieldAdmits f.relation t.relation &&
  fieldAdmits f.subjectType t.subject.subjectType &&
  fieldAdmits f.subjectId t.subject.subjectId &&
  fieldAdmits f.subjectRelation t.subject.subjectRelation

/-- A filter accepts a tuple exactly when every field it sets agrees. -/
theorem TupleFilter.matches_iff (f : TupleFilter) (t : Tuple) :
    f.matches t = true ↔
      (∀ v ∈ f.objectType, v = t.object.objectType) ∧
      (∀ v ∈ f.objectId, v = t.object.objectId) ∧
      (∀ v ∈ f.relation, v = t.relation) ∧
      (∀ v ∈ f.subjectType, v = t.subject.subjectType) ∧
      (∀ v ∈ f.subjectId, v = t.subject.subjectId) ∧
      (∀ v ∈ f.subjectRelation, v = t.subject.subjectRelation) := by
  have field : ∀ {α : Type} [DecidableEq α] (o : Option α) (x : α),
      fieldAdmits o x = true ↔ ∀ v ∈ o, v = x := by
    intro α _ o x
    cases o <;> simp
  simp only [TupleFilter.matches, Bool.and_eq_true, field, and_assoc]

/-- The wildcard filter accepts every tuple. -/
@[simp] theorem TupleFilter.matches_default (t : Tuple) :
    ({} : TupleFilter).matches t = true := by
  simp [TupleFilter.matches]

/-- A snapshot token is the id of a write. -/
abbrev SnapshotToken := Nat

end Kraalzibar
