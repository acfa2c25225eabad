import Kraalzibar.Foundations.Cache
import Kraalzibar.Foundations.Hoare
import Kraalzibar.Server.Service
import Kraalzibar.Storage.Memory

/-!
# The service with its caches and tenants

`AuthzService` serves many tenants, each with a store of its own, and shares two
caches between them: the parsed schema of each tenant, and check decisions at a
snapshot.  An operation is a program of calls to the stores and to the caches.
Each call is one atomic step, so the same programs run one at a time, among
evictions, or among other requests.

* `ServiceState`, `ServiceCall`, `ServiceState.handle` — what an operation can see
  and do, over `InMemoryStoreFactory`;
* `CachedService.*` — the operations;
* `Operation`, `Session` — sequential use, with cache entries lost at any moment.
-/

namespace Kraalzibar

open Foundations

structure CheckCacheKey where
  tenantId : TenantId
  objectType : String
  objectId : String
  permission : String
  subjectType : String
  subjectId : String
  snapshot : SnapshotToken
deriving DecidableEq

/-- The stores and caches of a service.  `InMemoryStoreFactory::for_tenant` gives a
tenant it has not seen before the default store. -/
structure ServiceState where
  stores : TenantId → InnerState
  schemaCache : Cache TenantId Schema
  checkCache : Cache CheckCacheKey Bool

/-- The calls an operation awaits. -/
inductive ServiceCall where
  | query (tenantId : TenantId) (q : StoreQuery)
  | write (tenantId : TenantId) (call : WriteCall)
  | readSchema (tenantId : TenantId)
  | writeSchema (tenantId : TenantId) (definition : String)
  | schemaGet (tenantId : TenantId)
  | schemaInsert (tenantId : TenantId) (schema : Schema)
  | schemaInvalidate (tenantId : TenantId)
  | checkGet (key : CheckCacheKey)
  | checkInsert (key : CheckCacheKey) (allowed : Bool)
  | checkInvalidateAll
deriving DecidableEq

abbrev ServiceCall.Reply : ServiceCall → Type
  | .query _ q => q.Reply
  | .write _ _ => Except StorageError SnapshotToken
  | .readSchema _ => Except StorageError (Option String)
  | .writeSchema _ _ => Except StorageError Unit
  | .schemaGet _ => Option Schema
  | .schemaInsert _ _ => Unit
  | .schemaInvalidate _ => Unit
  | .checkGet _ => Option Bool
  | .checkInsert _ _ => Unit
  | .checkInvalidateAll => Unit

namespace ServiceState

/-- `AuthzService::with_cache_config` over `InMemoryStoreFactory::new`. -/
def new : ServiceState :=
  { stores := fun _ => InMemoryStore.new, schemaCache := .empty, checkCache := .empty }

def setStore (s : ServiceState) (tenantId : TenantId) (store : InnerState) : ServiceState :=
  { s with stores := Function.update s.stores tenantId store }

/-- What each call returns and does.  With `caching` off the caches hold nothing. -/
def handle (caching : Bool) : Client.Handler ServiceState ServiceCall ServiceCall.Reply :=
  fun s call =>
    match call with
    | .query tenantId q => (InMemoryStore.store.query (s.stores tenantId) q, s)
    | .write tenantId call =>
        let (result, store) := InMemoryStore.store.write (s.stores tenantId) call
        (result, s.setStore tenantId store)
    | .readSchema tenantId => (InMemoryStore.schemaStore.readSchema (s.stores tenantId), s)
    | .writeSchema tenantId definition =>
        let (result, store) :=
          InMemoryStore.schemaStore.writeSchema (s.stores tenantId) definition
        (result, s.setStore tenantId store)
    | .schemaGet tenantId => (s.schemaCache tenantId, s)
    | .schemaInsert tenantId schema =>
        ((), if caching then { s with schemaCache := s.schemaCache.insert tenantId schema }
          else s)
    | .schemaInvalidate tenantId =>
        ((), { s with schemaCache := s.schemaCache.invalidate tenantId })
    | .checkGet key => (s.checkCache key, s)
    | .checkInsert key allowed =>
        ((), if caching then { s with checkCache := s.checkCache.insert key allowed }
          else s)
    | .checkInvalidateAll => ((), { s with checkCache := .empty })

/-- Any entries of the caches are evicted or expire. -/
structure Evicts (s t : ServiceState) : Prop where
  stores : t.stores = s.stores
  schemaCache : s.schemaCache.Forgets t.schemaCache
  checkCache : s.checkCache.Forgets t.checkCache

end ServiceState

/-- Operation programs: they may stop with an `ApiError`. -/
abbrev ServiceProgram (α : Type) := Fallible ApiError ServiceCall ServiceCall.Reply α

structure ReadRelationshipsOutput where
  tuples : List Tuple
  snapshot : Option SnapshotToken
deriving DecidableEq

structure WriteSchemaOutput where
  breakingChangesOverridden : Bool
deriving DecidableEq

/-- The parameters of a service. -/
structure ServiceConfig where
  engineConfig : EngineConfig := {}
  schemaLimits : SchemaLimits := {}

/-- A call that cannot fail: `cache.get(..).await` -/
def ServiceCall.ask (call : ServiceCall) : ServiceProgram call.Reply :=
  ExceptT.lift (Client.request call)

/-- `store.write(..).await?` -/
def storeWrite (tenantId : TenantId) (call : WriteCall) : ServiceProgram SnapshotToken :=
  ExceptT.mk (Client.request (ServiceCall.write tenantId call) >>= fun reply =>
    pure (reply.mapError ApiError.storage))

/-- `store.read_schema().await?` -/
def storeReadSchema (tenantId : TenantId) : ServiceProgram (Option String) :=
  ExceptT.mk (Client.request (ServiceCall.readSchema tenantId) >>= fun reply =>
    pure (reply.mapError ApiError.storage))

/-- `store.write_schema(definition).await?` -/
def storeWriteSchema (tenantId : TenantId) (definition : String) : ServiceProgram Unit :=
  ExceptT.mk (Client.request (ServiceCall.writeSchema tenantId definition) >>= fun reply =>
    pure (reply.mapError ApiError.storage))

/-- A computation that makes no call, followed by `?`. -/
def ofExcept {α : Type} (result : Except ApiError α) : ServiceProgram α :=
  ExceptT.mk (pure result)

/-- A program of queries, put to the store of one tenant. -/
def onStore {α : Type} (tenantId : TenantId) (program : ServiceM α) : ServiceProgram α :=
  ExceptT.mk (program.run.translate fun q => Client.request (.query tenantId q))

/-- `parse_schema(text)?` -/
def parseStored (text : String) : Except ApiError Schema :=
  (parseSchema text).mapError .parse

/-- `store.read(filter, snapshot, limit).await?` -/
def storeRead (filter : TupleFilter) (snapshot : Option SnapshotToken)
    (limit : Option Nat) : ServiceM (List Tuple) :=
  ExceptT.mk (Client.request (StoreQuery.read filter snapshot limit) >>= fun reply =>
    pure (reply.mapError ApiError.storage))

namespace CachedService

variable (config : ServiceConfig)

/-- `engine.check(&request)` with the request `check_permission` builds. -/
def evaluate (schema : Schema) (input : CheckPermissionInput)
    (snapshot : Option SnapshotToken) : ServiceM CheckResult :=
  StoreTupleReader.run (CheckEngine.check ⟨schema, config.engineConfig⟩
    { objectType := input.objectType, objectId := input.objectId,
      permission := input.permission, subjectType := input.subjectType,
      subjectId := input.subjectId, snapshot })

/-- `ok_or(ApiError::SchemaNotFound)?` and `parse_schema(&schema_text)?` -/
def parseText : Option String → Except ApiError Schema
  | none => .error .schemaNotFound
  | some schemaText => parseStored schemaText

def loadSchemaCached (tenantId : TenantId) : ServiceProgram Schema := do
  match ← ServiceCall.ask (.schemaGet tenantId) with
  | some cached => return cached
  | none =>
      let schemaText ← storeReadSchema tenantId
      let schema ← ofExcept (parseText schemaText)
      ServiceCall.ask (.schemaInsert tenantId schema)
      return schema

def cacheKey (tenantId : TenantId) (input : CheckPermissionInput)
    (snapshot : SnapshotToken) : CheckCacheKey :=
  { tenantId, objectType := input.objectType, objectId := input.objectId,
    permission := input.permission, subjectType := input.subjectType,
    subjectId := input.subjectId, snapshot }

/-- `check_permission`, with `load` for how it obtains the schema. -/
def checkPermissionWith (load : ServiceProgram Schema) (tenantId : TenantId)
    (input : CheckPermissionInput) : ServiceProgram CheckPermissionOutput := do
  let snapshot ← onStore tenantId (AuthzService.resolveSnapshot input.consistency)
  match snapshot with
  | some snap =>
      match ← ServiceCall.ask (.checkGet (cacheKey tenantId input snap)) with
      | some cachedAllowed => return { allowed := cachedAllowed, snapshot }
      | none =>
          let schema ← load
          let result ← onStore tenantId (evaluate config schema input snapshot)
          ServiceCall.ask (.checkInsert (cacheKey tenantId input snap) result.allowed)
          return { allowed := result.allowed, snapshot }
  | none =>
      let schema ← load
      let result ← onStore tenantId (evaluate config schema input snapshot)
      return { allowed := result.allowed, snapshot }

def checkPermission (tenantId : TenantId) (input : CheckPermissionInput) :
    ServiceProgram CheckPermissionOutput :=
  checkPermissionWith config (loadSchemaCached tenantId) tenantId input

def expandPermissionTree (tenantId : TenantId) (input : ExpandPermissionInput) :
    ServiceProgram ExpandPermissionOutput := do
  let snapshot ← onStore tenantId (AuthzService.resolveSnapshot input.consistency)
  let schema ← loadSchemaCached tenantId
  let tree ← onStore tenantId (StoreTupleReader.run
    (ExpandEngine.expand ⟨schema, config.engineConfig⟩
      { objectType := input.objectType, objectId := input.objectId,
        permission := input.permission, snapshot }))
  return { tree, snapshot }

def writeRelationships (tenantId : TenantId) (call : WriteCall) :
    ServiceProgram SnapshotToken := do
  let token ← storeWrite tenantId call
  ServiceCall.ask .checkInvalidateAll
  return token

def readRelationships (tenantId : TenantId) (filter : TupleFilter)
    (consistency : Consistency) (limit : Option Nat) :
    ServiceProgram ReadRelationshipsOutput := do
  let snapshot ← onStore tenantId (AuthzService.resolveSnapshot consistency)
  let tuples ← onStore tenantId (storeRead filter snapshot limit)
  return { tuples, snapshot }

/-- What `write_schema` checks before it reads the stored schema. -/
def acceptSchema (definition : String) : Except ApiError Schema := do
  let newSchema ← parseStored definition
  (validateSchemaLimits newSchema config.schemaLimits).mapError .validation
  return newSchema

/-- The comparison with the stored schema.  Returns whether breaking changes were
overridden. -/
def compareStored (existingText : Option String) (newSchema : Schema) (force : Bool) :
    Except ApiError Bool :=
  match existingText with
  | none => return false
  | some oldText => do
      let oldSchema ← parseStored oldText
      let breaking := detectBreakingChanges oldSchema newSchema
      if !breaking.isEmpty && !force then
        throw (.breakingChanges breaking)
      else
        return !breaking.isEmpty

def writeSchema (tenantId : TenantId) (definition : String) (force : Bool) :
    ServiceProgram WriteSchemaOutput := do
  let newSchema ← ofExcept (acceptSchema config definition)
  let existingText ← storeReadSchema tenantId
  let breakingChangesOverridden ← ofExcept (compareStored existingText newSchema force)
  storeWriteSchema tenantId definition
  ServiceCall.ask (.schemaInvalidate tenantId)
  ServiceCall.ask .checkInvalidateAll
  return { breakingChangesOverridden }

def readSchema (tenantId : TenantId) : ServiceProgram (Option String) :=
  storeReadSchema tenantId

def lookupSubjects (tenantId : TenantId) (input : LookupSubjectsInput) :
    ServiceProgram LookupSubjectsOutput := do
  let expandOutput ← expandPermissionTree config tenantId
    { objectType := input.objectType, objectId := input.objectId,
      permission := input.permission, consistency := input.consistency }
  let subjects := AuthzService.collectSubjects input.subjectType expandOutput.tree
  let sorted := subjects.insertionSort AuthzService.subjectLe
  return { subjects := sorted.destutter (· ≠ ·), snapshot := expandOutput.snapshot }

def lookupResources (tenantId : TenantId) (input : LookupResourcesInput) :
    ServiceProgram LookupResourcesOutput := do
  let snapshot ← onStore tenantId (AuthzService.resolveSnapshot input.consistency)
  let objectIds ← onStore tenantId (storeListObjectIds input.resourceType snapshot none)
  let schema ← loadSchemaCached tenantId
  let limit := input.limit.getD 1000
  let resourceIds ← onStore tenantId (AuthzService.lookupLoop
    ⟨schema, config.engineConfig⟩ input snapshot limit objectIds [])
  return { resourceIds, snapshot }

end CachedService

/-! ## Sequential use -/

/-- The operations of the service, with their arguments. -/
inductive Operation where
  | checkPermission (input : CheckPermissionInput)
  | expandPermissionTree (input : ExpandPermissionInput)
  | writeRelationships (call : WriteCall)
  | readRelationships (filter : TupleFilter) (consistency : Consistency)
      (limit : Option Nat)
  | writeSchema (definition : String) (force : Bool)
  | readSchema
  | lookupSubjects (input : LookupSubjectsInput)
  | lookupResources (input : LookupResourcesInput)

/-- What an operation returns when it succeeds. -/
abbrev Operation.Output : Operation → Type
  | .checkPermission _ => CheckPermissionOutput
  | .expandPermissionTree _ => ExpandPermissionOutput
  | .writeRelationships _ => SnapshotToken
  | .readRelationships _ _ _ => ReadRelationshipsOutput
  | .writeSchema _ _ => WriteSchemaOutput
  | .readSchema => Option String
  | .lookupSubjects _ => LookupSubjectsOutput
  | .lookupResources _ => LookupResourcesOutput

abbrev Operation.Result (op : Operation) : Type :=
  Except ApiError op.Output

def Operation.program (config : ServiceConfig) (tenantId : TenantId) :
    ∀ op : Operation, ServiceProgram op.Output
  | .checkPermission input => CachedService.checkPermission config tenantId input
  | .expandPermissionTree input => CachedService.expandPermissionTree config tenantId input
  | .writeRelationships call => CachedService.writeRelationships tenantId call
  | .readRelationships filter consistency limit =>
      CachedService.readRelationships tenantId filter consistency limit
  | .writeSchema definition force =>
      CachedService.writeSchema config tenantId definition force
  | .readSchema => CachedService.readSchema tenantId
  | .lookupSubjects input => CachedService.lookupSubjects config tenantId input
  | .lookupResources input => CachedService.lookupResources config tenantId input

/-- An operation a tenant has completed, with its result. -/
structure Completed where
  tenantId : TenantId
  op : Operation
  result : op.Result

/-- `Session config caching s done s'`: from state `s` the operations of `done` were
run one after the other, with those results, ending in `s'`.  Cache entries may be
lost at any moment, also between two calls of one operation. -/
inductive Session (config : ServiceConfig) (caching : Bool) :
    ServiceState → List Completed → ServiceState → Prop
  | nil (s : ServiceState) : Session config caching s [] s
  | cons {s t s' : ServiceState} {done : Completed} {later : List Completed}
      (hrun : Client.Exec ServiceState.Evicts (ServiceState.handle caching) s
        (done.op.program config done.tenantId).run t done.result)
      (rest : Session config caching t later s') :
      Session config caching s (done :: later) s'

end Kraalzibar
