import Kraalzibar.Core.Tuple
import Kraalzibar.Foundations.ShortCircuit

/-!
# What the engines share

Both engines evaluate a schema over a `TupleReader`, the trait through which
they see the store.  An engine is modelled as a client program of that trait:
it makes `read_tuples` calls and may stop with a `CheckError`.  Fixing a pure
`TupleReader` gives the engine's result; letting a store answer the calls one
at a time gives its behaviour among concurrent writers.
-/

namespace Kraalzibar

open Foundations

inductive CheckError where
  | typeNotFound (name : String)
  | permissionNotFound (typeName permission : String)
  | relationNotFound (typeName relation : String)
  | maxDepthExceeded (depth : Nat)
  | storageError (message : String)
deriving DecidableEq

/-- The depth limit was reached. -/
def CheckError.IsDepth (e : CheckError) : Prop :=
  ∃ depth, e = .maxDepthExceeded depth

structure EngineConfig where
  maxDepth : Nat := 6

/-- One `read_tuples` call. -/
structure ReadCall where
  filter : TupleFilter
  snapshot : Option SnapshotToken

/-- A pure reader: the answer to every `read_tuples` call. -/
abbrev TupleReader := ReadCall → Except CheckError (List Tuple)

/-- Engine programs. -/
abbrev ReadM (α : Type) :=
  Fallible CheckError ReadCall (fun _ => Except CheckError (List Tuple)) α

/-- `self.reader.read_tuples(&filter, snapshot).await?` -/
def readTuples (filter : TupleFilter) (snapshot : Option SnapshotToken) :
    ReadM (List Tuple) :=
  ExceptT.mk (Client.request ⟨filter, snapshot⟩)

@[simp] theorem eval_readTuples (reader : TupleReader) (filter : TupleFilter)
    (snapshot : Option SnapshotToken) :
    Fallible.eval reader (readTuples filter snapshot) = reader ⟨filter, snapshot⟩ :=
  rfl

/-- The reader over a fixed list of tuples, which never fails. -/
def listReader (tuples : List Tuple) : TupleReader :=
  fun call => .ok (tuples.filter (fun t => call.filter.matches t))

/-- At `snapshot` the reader never fails and answers from the tuples `T`, in
any order and with any repetitions. -/
def Serves (reader : TupleReader) (snapshot : Option SnapshotToken)
    (T : List Tuple) : Prop :=
  ∀ filter, ∃ tuples, reader ⟨filter, snapshot⟩ = .ok tuples ∧
    ∀ t, t ∈ tuples ↔ t ∈ T ∧ filter.matches t = true

theorem listReader_serves (T : List Tuple) (snapshot : Option SnapshotToken) :
    Serves (listReader T) snapshot T := by
  intro filter
  exact ⟨_, rfl, fun t => by simp⟩

/-- At `snapshot` the reader either fails on every filter or on none, and what
it returns is always taken from the tuples `T`. -/
structure ReadsFrom (reader : TupleReader) (snapshot : Option SnapshotToken)
    (T : List Tuple) : Prop where
  uniform : ∀ {filter filter' tuples}, reader ⟨filter, snapshot⟩ = .ok tuples →
    ∃ tuples', reader ⟨filter', snapshot⟩ = .ok tuples'
  mem : ∀ {filter tuples}, reader ⟨filter, snapshot⟩ = .ok tuples →
    ∀ t, t ∈ tuples ↔ t ∈ T ∧ filter.matches t = true

theorem Serves.readsFrom {reader : TupleReader} {snapshot : Option SnapshotToken}
    {T : List Tuple} (h : Serves reader snapshot T) : ReadsFrom reader snapshot T where
  uniform := by
    intro _ filter' _ _
    obtain ⟨tuples', hread, -⟩ := h filter'
    exact ⟨tuples', hread⟩
  mem := by
    intro filter tuples hread
    obtain ⟨tuples', hread', hmem⟩ := h filter
    obtain rfl : tuples = tuples' := Except.ok.inj (hread.symm.trans hread')
    exact hmem

/-- The key of the engines' visited sets: type, id and permission. -/
abbrev VisitKey := String × String × String

instance : LawfulBEq VisitKey := inferInstance

/-- The filter for the tuples `objectType:objectId#relation@…`. -/
def relationFilter (objectType objectId relation : String) : TupleFilter :=
  { objectType := some objectType, objectId := some objectId,
    relation := some relation }

/-- The filter for the one tuple that makes a direct subject a member of a
userset. -/
def usersetFilter (objectType objectId relation subjectType subjectId : String) :
    TupleFilter :=
  { objectType := some objectType, objectId := some objectId,
    relation := some relation, subjectType := some subjectType,
    subjectId := some subjectId, subjectRelation := some none }

@[simp] theorem relationFilter_matches (objectType objectId relation : String)
    (t : Tuple) :
    (relationFilter objectType objectId relation).matches t = true ↔
      t.object = ⟨objectType, objectId⟩ ∧ t.relation = relation := by
  obtain ⟨⟨ot, oi⟩, rel, subject⟩ := t
  simp only [relationFilter, TupleFilter.matches_iff, Option.mem_some_iff,
    forall_eq', ObjectRef.mk.injEq]
  constructor
  · intro hparts
    obtain ⟨rfl, rfl, rfl, -⟩ := hparts
    exact ⟨⟨rfl, rfl⟩, rfl⟩
  · intro hparts
    obtain ⟨⟨rfl, rfl⟩, rfl⟩ := hparts
    simp

@[simp] theorem usersetFilter_matches
    (objectType objectId relation subjectType subjectId : String) (t : Tuple) :
    (usersetFilter objectType objectId relation subjectType subjectId).matches t
        = true ↔
      t = ⟨⟨objectType, objectId⟩, relation,
        SubjectRef.direct subjectType subjectId⟩ := by
  obtain ⟨⟨ot, oi⟩, rel, st, si, sr⟩ := t
  simp only [usersetFilter, TupleFilter.matches_iff, Option.mem_some_iff,
    forall_eq', SubjectRef.direct, Tuple.mk.injEq, ObjectRef.mk.injEq,
    SubjectRef.mk.injEq]
  constructor
  · intro hparts
    obtain ⟨rfl, rfl, rfl, rfl, rfl, rfl⟩ := hparts
    simp
  · intro hparts
    obtain ⟨⟨rfl, rfl⟩, rfl, rfl, rfl, rfl⟩ := hparts
    simp

/-- What reading a relation of an object returns. -/
theorem Serves.relation {reader : TupleReader} {snapshot : Option SnapshotToken}
    {T : List Tuple} (h : Serves reader snapshot T)
    (objectType objectId relation : String) :
    ∃ tuples, reader ⟨relationFilter objectType objectId relation, snapshot⟩ =
        .ok tuples ∧
      ∀ t, t ∈ tuples ↔
        t ∈ T ∧ t.object = ⟨objectType, objectId⟩ ∧ t.relation = relation := by
  obtain ⟨tuples, hread, hmem⟩ := h (relationFilter objectType objectId relation)
  exact ⟨tuples, hread, fun t => by rw [hmem, relationFilter_matches]⟩

/-- Reading the one tuple that makes a direct subject a member of a userset
finds something exactly when it is stored. -/
theorem Serves.userset {reader : TupleReader} {snapshot : Option SnapshotToken}
    {T : List Tuple} (h : Serves reader snapshot T)
    (objectType objectId relation subjectType subjectId : String) :
    ∃ tuples, reader ⟨usersetFilter objectType objectId relation subjectType
          subjectId, snapshot⟩ = .ok tuples ∧
      ((!tuples.isEmpty) = true ↔
        ⟨⟨objectType, objectId⟩, relation,
          SubjectRef.direct subjectType subjectId⟩ ∈ T) := by
  obtain ⟨tuples, hread, hmem⟩ :=
    h (usersetFilter objectType objectId relation subjectType subjectId)
  refine ⟨tuples, hread, ?_⟩
  have hne : (!tuples.isEmpty) = true ↔ ∃ t, t ∈ tuples := by
    cases tuples <;> simp
  rw [hne]
  simp only [hmem, usersetFilter_matches, exists_eq_right]

end Kraalzibar
