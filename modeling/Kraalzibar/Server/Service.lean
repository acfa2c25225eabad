import Kraalzibar.Core.Check
import Kraalzibar.Core.Expand
import Kraalzibar.Core.Parser
import Kraalzibar.Core.Validation
import Kraalzibar.Foundations.SortedDedup
import Kraalzibar.Storage.Traits

/-!
# The authorization service

Each request of `AuthzService` resolves its consistency mode to a snapshot and
evaluates over the store, one store call at a time.  A request is a client
program of the store's queries, so it can be run on a frozen store or among
concurrent writes.

The requests below take the loaded schema as an argument and stand for the path
on which the check cache misses.
-/

namespace Kraalzibar

open Foundations

inductive ApiError where
  | check (error : CheckError)
  | storage (error : StorageError)
  | parse (error : ParseError)
  | validation (errors : List ValidationError)
  | breakingChanges (changes : List BreakingChange)
  | schemaNotFound
deriving DecidableEq

inductive Consistency where
  | fullConsistency
  | minimizeLatency
  | atLeastAsFresh (token : SnapshotToken)
  | atExactSnapshot (token : SnapshotToken)
deriving DecidableEq

structure CheckPermissionInput where
  objectType : String
  objectId : String
  permission : String
  subjectType : String
  subjectId : String
  consistency : Consistency
deriving DecidableEq

structure CheckPermissionOutput where
  allowed : Bool
  snapshot : Option SnapshotToken
deriving DecidableEq

structure ExpandPermissionInput where
  objectType : String
  objectId : String
  permission : String
  consistency : Consistency

structure ExpandPermissionOutput where
  tree : ExpandTree
  snapshot : Option SnapshotToken

structure LookupResourcesInput where
  resourceType : String
  permission : String
  subjectType : String
  subjectId : String
  consistency : Consistency
  limit : Option Nat

structure LookupResourcesOutput where
  resourceIds : List String
  snapshot : Option SnapshotToken
deriving DecidableEq

structure LookupSubjectsInput where
  objectType : String
  objectId : String
  permission : String
  subjectType : String
  consistency : Consistency

structure LookupSubjectsOutput where
  subjects : List SubjectRef
  snapshot : Option SnapshotToken
deriving DecidableEq

/-- Service programs: they query the store and may stop with an `ApiError`. -/
abbrev ServiceM (α : Type) := Fallible ApiError StoreQuery StoreQuery.Reply α

/-- `store.snapshot().await?` -/
def storeSnapshot : ServiceM SnapshotToken :=
  ExceptT.mk (Client.request StoreQuery.snapshot >>= fun reply =>
    pure (reply.mapError ApiError.storage))

/-- `store.list_object_ids(..).await?` -/
def storeListObjectIds (objectType : String) (snapshot : Option SnapshotToken)
    (limit : Option Nat) : ServiceM (List String) :=
  ExceptT.mk (Client.request (StoreQuery.listObjectIds objectType snapshot limit) >>= fun reply =>
    pure (reply.mapError ApiError.storage))

namespace StoreTupleReader

/-- `impl TupleReader for StoreTupleReader`: a read of the engine is an
unlimited read of the store. -/
def readTuples (call : ReadCall) :
    Client StoreQuery StoreQuery.Reply (Except CheckError (List Tuple)) :=
  Client.request (StoreQuery.read call.filter call.snapshot none) >>= fun reply =>
    pure (reply.mapError fun e => CheckError.storageError e.message)

/-- An engine's program with the store as its reader: `engine.check(..).await?` -/
def run {α : Type} (program : ReadM α) : ServiceM α :=
  ExceptT.mk (program.run.translate readTuples >>= fun result =>
    pure (result.mapError ApiError.check))

end StoreTupleReader

namespace AuthzService

def resolveSnapshot (consistency : Consistency) : ServiceM (Option SnapshotToken) :=
  match consistency with
  | .fullConsistency => do
      let token ← storeSnapshot
      pure (some token)
  | .minimizeLatency => pure none
  | .atLeastAsFresh token => pure (some token)
  | .atExactSnapshot token => pure (some token)

variable (schema : Schema) (engineConfig : EngineConfig)

def checkPermission (input : CheckPermissionInput) : ServiceM CheckPermissionOutput := do
  let snapshot ← resolveSnapshot input.consistency
  let engine : CheckEngine := { schema, config := engineConfig }
  let request : CheckRequest :=
    { objectType := input.objectType, objectId := input.objectId,
      permission := input.permission, subjectType := input.subjectType,
      subjectId := input.subjectId, snapshot }
  let result ← StoreTupleReader.run (engine.check request)
  pure { allowed := result.allowed, snapshot }

def expandPermissionTree (input : ExpandPermissionInput) :
    ServiceM ExpandPermissionOutput := do
  let snapshot ← resolveSnapshot input.consistency
  let engine : ExpandEngine := { schema, config := engineConfig }
  let request : ExpandRequest :=
    { objectType := input.objectType, objectId := input.objectId,
      permission := input.permission, snapshot }
  let tree ← StoreTupleReader.run (engine.expand request)
  pure { tree, snapshot }

/-- The loop of `lookup_resources` over the object ids. -/
def lookupLoop (engine : CheckEngine) (input : LookupResourcesInput)
    (snapshot : Option SnapshotToken) (limit : Nat) :
    List String → List String → ServiceM (List String)
  | [], results => pure results
  | objectId :: objectIds, results =>
      if results.length ≥ limit then
        pure results
      else do
        let request : CheckRequest :=
          { objectType := input.resourceType, objectId,
            permission := input.permission, subjectType := input.subjectType,
            subjectId := input.subjectId, snapshot }
        let checkResult ← StoreTupleReader.run (engine.check request)
        lookupLoop engine input snapshot limit objectIds
          (if checkResult.allowed then results ++ [objectId] else results)

def lookupResources (input : LookupResourcesInput) : ServiceM LookupResourcesOutput := do
  let snapshot ← resolveSnapshot input.consistency
  let objectIds ← storeListObjectIds input.resourceType snapshot none
  let engine : CheckEngine := { schema, config := engineConfig }
  let limit := input.limit.getD 1000
  let resourceIds ← lookupLoop engine input snapshot limit objectIds []
  pure { resourceIds, snapshot }

mutual

/-- `collect_subjects`: the leaves of the requested type, in the order they are
pushed. -/
def collectSubjects (subjectType : String) : ExpandTree → List SubjectRef
  | .leaf subject => if subject.subjectType = subjectType then [subject] else []
  | .this _ subjects => collectEach subjectType subjects
  | .union children => collectEach subjectType children
  | .intersection children => collectEach subjectType children
  | .exclusion base _ => collectSubjects subjectType base
  | .arrow _ _ children => collectEach subjectType children

def collectEach (subjectType : String) : List ExpandTree → List SubjectRef
  | [] => []
  | child :: children =>
      collectSubjects subjectType child ++ collectEach subjectType children

end

/-- `a.subject_type.cmp(&b.subject_type).then(a.subject_id.cmp(&b.subject_id))`
is not `Greater`. -/
def subjectLe (a b : SubjectRef) : Prop :=
  a.subjectType < b.subjectType ∨
    a.subjectType = b.subjectType ∧ a.subjectId ≤ b.subjectId

instance : DecidableRel subjectLe := fun a b =>
  inferInstanceAs (Decidable (a.subjectType < b.subjectType ∨
    a.subjectType = b.subjectType ∧ a.subjectId ≤ b.subjectId))

/-- The sort is stable, and the repetitions removed are the adjacent ones. -/
def lookupSubjects (input : LookupSubjectsInput) : ServiceM LookupSubjectsOutput := do
  let expandOutput ← expandPermissionTree schema engineConfig
    { objectType := input.objectType, objectId := input.objectId,
      permission := input.permission, consistency := input.consistency }
  let subjects := collectSubjects input.subjectType expandOutput.tree
  let sorted := subjects.insertionSort subjectLe
  pure { subjects := sorted.destutter (· ≠ ·), snapshot := expandOutput.snapshot }

end AuthzService

/-! ## Running a request -/

@[simp] theorem eval_storeListObjectIds (answer : ∀ q : StoreQuery, q.Reply)
    (objectType : String) (snapshot : Option SnapshotToken) (limit : Option Nat) :
    Fallible.eval answer (storeListObjectIds objectType snapshot limit) =
      (answer (.listObjectIds objectType snapshot limit)).mapError ApiError.storage := rfl

/-- The reader an engine sees over a store that answers with `answer`. -/
def StoreTupleReader.over (answer : ∀ q : StoreQuery, q.Reply) : TupleReader :=
  fun call => (answer (.read call.filter call.snapshot none)).mapError
    fun e => CheckError.storageError e.message

/-- A store that resolves the snapshot before each read, and then returns the
matching tuples of what is visible there, serves what is visible. -/
theorem StoreTupleReader.serves_over {answer : ∀ q : StoreQuery, q.Reply}
    {snapshot : Option SnapshotToken} {rows : TupleFilter → List Tuple}
    {visible : List Tuple}
    (hread : ∀ filter, answer (.read filter snapshot none) = .ok (rows filter))
    (hrows : ∀ filter t, t ∈ rows filter ↔ t ∈ visible ∧ filter.matches t = true) :
    Serves (StoreTupleReader.over answer) snapshot visible := by
  intro filter
  refine ⟨rows filter, ?_, hrows filter⟩
  rw [StoreTupleReader.over, hread]
  rfl

/-- A store that cannot resolve the snapshot fails on every filter. -/
theorem StoreTupleReader.readsFrom_over {answer : ∀ q : StoreQuery, q.Reply}
    {snapshot : Option SnapshotToken} {e : StorageError}
    (hread : ∀ filter, answer (.read filter snapshot none) = .error e) :
    ReadsFrom (StoreTupleReader.over answer) snapshot [] := by
  have hfail : ∀ filter tuples,
      StoreTupleReader.over answer ⟨filter, snapshot⟩ ≠ .ok tuples := by
    intro filter tuples h
    rw [StoreTupleReader.over, hread] at h
    cases h
  refine ⟨?_, ?_⟩
  · intro filter filter' tuples h
    exact absurd h (hfail filter tuples)
  · intro filter tuples h
    exact absurd h (hfail filter tuples)

@[simp] theorem StoreTupleReader.eval_run {α : Type}
    (answer : ∀ q : StoreQuery, q.Reply) (program : ReadM α) :
    Fallible.eval answer (StoreTupleReader.run program) =
      (Fallible.eval (StoreTupleReader.over answer) program).mapError ApiError.check := by
  show Client.runWith answer (program.run.translate readTuples >>= _) = _
  rw [Client.runWith_bind, Client.runWith_translate]
  rfl

end Kraalzibar
