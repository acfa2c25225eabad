import Kraalzibar.Server.CachedService

/-!
# Caches are transparent and tenants do not interfere

Run one at a time, an operation is a function of its tenant's store: the schema
cache repeats the parsed stored schema, and a cached decision is what the check
would compute now, since every write that succeeds empties the check cache.

* `Operation.result`, `Operation.effect` — an operation on one tenant's store;
* `ServiceState.Coherent` — every cached entry is what would be computed now;
* `program_returns` — an operation of the service is that function, and keeps the
  caches coherent;
* `caches_transparent`, `tenants_isolated` — what follows for whole sessions.
-/

namespace Kraalzibar

open Foundations

namespace InnerState

/-- The schema a request of this tenant is evaluated under. -/
def loadSchema (store : InnerState) : Except ApiError Schema :=
  CachedService.parseText store.schema

/-- A program of queries, answered by this store. -/
def answers {α : Type} (store : InnerState) (program : ServiceM α) : Except ApiError α :=
  Fallible.eval (InMemoryStore.store.query store) program

end InnerState

/-! ## Operations on one store -/

namespace Operation

variable (config : ServiceConfig) (store : InnerState)

def checkResult (input : CheckPermissionInput) : Except ApiError CheckPermissionOutput := do
  let snapshot ← store.answers (AuthzService.resolveSnapshot input.consistency)
  let schema ← store.loadSchema
  let result ← store.answers (CachedService.evaluate config schema input snapshot)
  return { allowed := result.allowed, snapshot }

def expandResult (input : ExpandPermissionInput) :
    Except ApiError ExpandPermissionOutput := do
  let snapshot ← store.answers (AuthzService.resolveSnapshot input.consistency)
  let schema ← store.loadSchema
  let tree ← store.answers (StoreTupleReader.run
    (ExpandEngine.expand ⟨schema, config.engineConfig⟩
      { objectType := input.objectType, objectId := input.objectId,
        permission := input.permission, snapshot }))
  return { tree, snapshot }

def writeSchemaResult (definition : String) (force : Bool) :
    Except ApiError WriteSchemaOutput := do
  let newSchema ← CachedService.acceptSchema config definition
  let breakingChangesOverridden ← CachedService.compareStored store.schema newSchema force
  return { breakingChangesOverridden }

/-- What an operation returns on a store. -/
def result : ∀ op : Operation, op.Result
  | .checkPermission input => checkResult config store input
  | .expandPermissionTree input => expandResult config store input
  | .writeRelationships call => (InMemoryStore.write store call).1.mapError .storage
  | .readRelationships filter consistency limit => do
      let snapshot ← store.answers (AuthzService.resolveSnapshot consistency)
      let tuples ← store.answers (storeRead filter snapshot limit)
      return { tuples, snapshot }
  | .writeSchema definition force => writeSchemaResult config store definition force
  | .readSchema => .ok store.schema
  | .lookupSubjects input => do
      let expandOutput ← expandResult config store
        { objectType := input.objectType, objectId := input.objectId,
          permission := input.permission, consistency := input.consistency }
      let subjects := AuthzService.collectSubjects input.subjectType expandOutput.tree
      let sorted := subjects.insertionSort AuthzService.subjectLe
      return { subjects := sorted.destutter (· ≠ ·), snapshot := expandOutput.snapshot }
  | .lookupResources input => do
      let snapshot ← store.answers (AuthzService.resolveSnapshot input.consistency)
      let objectIds ← store.answers (storeListObjectIds input.resourceType snapshot none)
      let schema ← store.loadSchema
      let resourceIds ← store.answers (AuthzService.lookupLoop
        ⟨schema, config.engineConfig⟩ input snapshot (input.limit.getD 1000) objectIds [])
      return { resourceIds, snapshot }

def writeSchemaEffect (definition : String) (force : Bool) : InnerState :=
  match writeSchemaResult config store definition force with
  | .ok _ => { store with schema := some definition }
  | .error _ => store

variable {config store} in
theorem writeSchemaEffect_ok {definition : String} {force : Bool}
    {output : WriteSchemaOutput}
    (h : writeSchemaResult config store definition force = .ok output) :
    writeSchemaEffect config store definition force =
      { store with schema := some definition } := by
  unfold writeSchemaEffect
  rw [h]

variable {config store} in
theorem writeSchemaEffect_error {definition : String} {force : Bool} {e : ApiError}
    (h : writeSchemaResult config store definition force = .error e) :
    writeSchemaEffect config store definition force = store := by
  unfold writeSchemaEffect
  rw [h]

/-- The store after an operation. -/
def effect : Operation → InnerState
  | .writeRelationships call => (InMemoryStore.write store call).2
  | .writeSchema definition force => writeSchemaEffect config store definition force
  | _ => store

end Operation

/-! ## Coherent caches -/

/-- The decision the key asks about. -/
def CheckCacheKey.decision (config : ServiceConfig) (key : CheckCacheKey)
    (store : InnerState) : Except ApiError Bool := do
  let schema ← store.loadSchema
  let result ← store.answers (CachedService.evaluate config schema
    { objectType := key.objectType, objectId := key.objectId,
      permission := key.permission, subjectType := key.subjectType,
      subjectId := key.subjectId, consistency := .atExactSnapshot key.snapshot }
    (some key.snapshot))
  return result.allowed

namespace ServiceState

variable (config : ServiceConfig)

/-- Every cached schema is the stored one, parsed. -/
def SchemasCoherent (stores : TenantId → InnerState) (s : ServiceState) : Prop :=
  s.schemaCache.Coherent fun tenantId schema => (stores tenantId).loadSchema = .ok schema

/-- The stores are as given, and every cached entry is what would be computed now. -/
structure Coherent (stores : TenantId → InnerState) (s : ServiceState) : Prop where
  stores_eq : s.stores = stores
  schemas : s.SchemasCoherent stores
  checks : s.checkCache.Coherent fun key allowed =>
    key.decision config (stores key.tenantId) = .ok allowed

theorem coherent_new : ServiceState.new.Coherent config fun _ => InMemoryStore.new where
  stores_eq := rfl
  schemas := Cache.coherent_empty
  checks := Cache.coherent_empty

variable {config} {stores : TenantId → InnerState}

/-- Losing entries keeps caches coherent. -/
theorem stable_coherent : Client.Stable Evicts (Coherent config stores) := by
  intro s t hs hevict
  exact ⟨hevict.stores.trans hs.stores_eq, hs.schemas.forget hevict.schemaCache,
    hs.checks.forget hevict.checkCache⟩

end ServiceState

/-! ## Each operation returns what it does on the tenant's store -/

section

variable {config : ServiceConfig} {caching : Bool} {stores : TenantId → InnerState}
variable {tenantId : TenantId} {α β : Type}

/-- `program` returns `r` whatever is cached, and changes nothing but the caches. -/
abbrev CacheFree (config : ServiceConfig) (caching : Bool) (stores : TenantId → InnerState)
    (program : ServiceProgram α) (r : Except ApiError α) : Prop :=
  Fallible.Returns ServiceState.Evicts (ServiceState.handle caching)
    (ServiceState.Coherent config stores) program r

theorem CacheFree.bind {program : ServiceProgram α} {f : α → ServiceProgram β}
    {r : Except ApiError α} {g : α → Except ApiError β}
    (hprogram : CacheFree config caching stores program r)
    (hf : ∀ a, r = .ok a → CacheFree config caching stores (f a) (g a)) :
    CacheFree config caching stores (program >>= f) (r >>= g) :=
  Fallible.Returns.bind ServiceState.stable_coherent hprogram hf

theorem CacheFree.pure (a : α) : CacheFree config caching stores (Pure.pure a) (.ok a) :=
  Fallible.Returns.pure ServiceState.stable_coherent

theorem CacheFree.then_pure {program : ServiceProgram Unit}
    (h : CacheFree config caching stores program (.ok ())) (a : α) :
    CacheFree config caching stores (program >>= fun _ => Pure.pure a) (.ok a) :=
  CacheFree.bind (g := fun _ => .ok a) h fun _ _ => CacheFree.pure a

theorem CacheFree.ofExcept (r : Except ApiError α) :
    CacheFree config caching stores (Kraalzibar.ofExcept r) r :=
  Fallible.Returns.ofExcept ServiceState.stable_coherent

/-- One call whose answer is the same whatever is cached. -/
theorem cacheFree_call (call : ServiceCall) (f : call.Reply → Except ApiError α)
    (answer : call.Reply)
    (h : ∀ s, ServiceState.Coherent config stores s →
      (ServiceState.handle caching s call).1 = answer ∧
        (ServiceState.handle caching s call).2.Coherent config stores) :
    CacheFree config caching stores
      (ExceptT.mk (Client.request call >>= fun reply => Pure.pure (f reply))) (f answer) :=
  Fallible.Returns.call answer ServiceState.stable_coherent h

theorem cacheFree_onStore (program : ServiceM α) :
    CacheFree config caching stores (onStore tenantId program)
      ((stores tenantId).answers program) := by
  refine Fallible.Returns.translate ServiceState.stable_coherent ?_ program
  intro q
  refine Client.Triple.request ServiceState.stable_coherent
    (fun r => ServiceState.stable_coherent.and_const _) ?_
  intro s hs
  exact ⟨by rw [← hs.stores_eq]; rfl, hs⟩

theorem cacheFree_storeReadSchema :
    CacheFree config caching stores (storeReadSchema tenantId)
      (Except.ok (stores tenantId).schema) := by
  refine cacheFree_call (.readSchema tenantId) (·.mapError ApiError.storage)
    (.ok (stores tenantId).schema) ?_
  intro s hs
  exact ⟨by rw [← hs.stores_eq]; rfl, hs⟩

/-- Inserting the right schema of a tenant changes nothing that is ever read. -/
theorem cacheFree_schemaInsert {schema : Schema}
    (hschema : (stores tenantId).loadSchema = .ok schema) :
    CacheFree config caching stores (ServiceCall.ask (.schemaInsert tenantId schema))
      (Except.ok ()) := by
  refine cacheFree_call (.schemaInsert tenantId schema) Except.ok () ?_
  intro s hs
  refine ⟨rfl, ?_⟩
  cases caching with
  | false => exact hs
  | true => exact ⟨hs.stores_eq, hs.schemas.insert hschema, hs.checks⟩

/-- Inserting the right decision likewise. -/
theorem cacheFree_checkInsert {key : CheckCacheKey} {allowed : Bool}
    (hallowed : key.decision config (stores key.tenantId) = .ok allowed) :
    CacheFree config caching stores (ServiceCall.ask (.checkInsert key allowed))
      (Except.ok ()) := by
  refine cacheFree_call (.checkInsert key allowed) Except.ok () ?_
  intro s hs
  refine ⟨rfl, ?_⟩
  cases caching with
  | false => exact hs
  | true => exact ⟨hs.stores_eq, hs.schemas, hs.checks.insert hallowed⟩

/-- **The schema cache is transparent.** -/
theorem cacheFree_loadSchemaCached :
    CacheFree config caching stores (CachedService.loadSchemaCached tenantId)
      (stores tenantId).loadSchema := by
  refine Fallible.Returns.branch (fun cached : Option Schema =>
    ∀ schema, cached = some schema → (stores tenantId).loadSchema = .ok schema)
    ServiceState.stable_coherent ?_ ?_
  · intro s hs
    exact ⟨hs.schemas tenantId, hs⟩
  · intro cached hcached
    cases cached with
    | some schema =>
        rw [hcached schema rfl]
        exact CacheFree.pure schema
    | none =>
        show CacheFree config caching stores _
          (Except.ok (stores tenantId).schema >>= CachedService.parseText)
        refine CacheFree.bind cacheFree_storeReadSchema ?_
        intro text htext
        obtain rfl := Except.ok.inj htext
        suffices hmiss : CacheFree config caching stores _
            (CachedService.parseText (stores tenantId).schema >>= pure) by
          rwa [bind_pure] at hmiss
        refine CacheFree.bind (CacheFree.ofExcept _) ?_
        intro schema hschema
        exact (cacheFree_schemaInsert hschema).then_pure schema

/-- **The check cache is transparent.** -/
theorem cacheFree_checkPermission (input : CheckPermissionInput) :
    CacheFree config caching stores (CachedService.checkPermission config tenantId input)
      (Operation.checkResult config (stores tenantId) input) := by
  refine CacheFree.bind (cacheFree_onStore _) ?_
  intro snapshot _
  cases snapshot with
  | none =>
      refine CacheFree.bind cacheFree_loadSchemaCached ?_
      intro schema _
      refine CacheFree.bind (cacheFree_onStore _) ?_
      intro result _
      exact CacheFree.pure _
  | some snap =>
      refine Fallible.Returns.branch (fun cached : Option Bool =>
        ∀ allowed, cached = some allowed →
          (CachedService.cacheKey tenantId input snap).decision config (stores tenantId) =
            .ok allowed) ServiceState.stable_coherent ?_ ?_
      · intro s hs
        exact ⟨hs.checks _, hs⟩
      · intro cached hcached
        cases cached with
        | some allowed =>
            have hdecision := hcached allowed rfl
            obtain ⟨schema, hschema, hdecision⟩ := bind_eq_ok.mp hdecision
            obtain ⟨result, hresult, hdecision⟩ := bind_eq_ok.mp hdecision
            obtain rfl := Except.ok.inj hdecision
            have hfresh : (do
                let schema ← (stores tenantId).loadSchema
                let result ← (stores tenantId).answers
                  (CachedService.evaluate config schema input (some snap))
                return ({ allowed := result.allowed, snapshot := some snap } :
                  CheckPermissionOutput)) = .ok ⟨result.allowed, some snap⟩ :=
              bind_eq_ok.mpr ⟨schema, hschema, bind_eq_ok.mpr ⟨result, hresult, rfl⟩⟩
            rw [hfresh]
            exact CacheFree.pure _
        | none =>
            refine CacheFree.bind cacheFree_loadSchemaCached ?_
            intro schema hschema
            refine CacheFree.bind (cacheFree_onStore _) ?_
            intro result hresult
            have hdecision : (CachedService.cacheKey tenantId input snap).decision config
                (stores tenantId) = .ok result.allowed :=
              bind_eq_ok.mpr ⟨schema, hschema, bind_eq_ok.mpr ⟨result, hresult, rfl⟩⟩
            exact (cacheFree_checkInsert hdecision).then_pure _

theorem cacheFree_expandPermissionTree (input : ExpandPermissionInput) :
    CacheFree config caching stores
      (CachedService.expandPermissionTree config tenantId input)
      (Operation.expandResult config (stores tenantId) input) := by
  refine CacheFree.bind (cacheFree_onStore _) ?_
  intro snapshot _
  refine CacheFree.bind cacheFree_loadSchemaCached ?_
  intro schema _
  refine CacheFree.bind (cacheFree_onStore _) ?_
  intro tree _
  exact CacheFree.pure _

theorem cacheFree_readRelationships (filter : TupleFilter) (consistency : Consistency)
    (limit : Option Nat) : CacheFree config caching stores
      (CachedService.readRelationships tenantId filter consistency limit)
      ((Operation.readRelationships filter consistency limit).result config
        (stores tenantId)) := by
  refine CacheFree.bind (cacheFree_onStore _) ?_
  intro snapshot _
  refine CacheFree.bind (cacheFree_onStore _) ?_
  intro tuples _
  exact CacheFree.pure _

theorem cacheFree_lookupResources (input : LookupResourcesInput) :
    CacheFree config caching stores (CachedService.lookupResources config tenantId input)
      ((Operation.lookupResources input).result config (stores tenantId)) := by
  refine CacheFree.bind (cacheFree_onStore _) ?_
  intro snapshot _
  refine CacheFree.bind (cacheFree_onStore _) ?_
  intro objectIds _
  refine CacheFree.bind cacheFree_loadSchemaCached ?_
  intro schema _
  refine CacheFree.bind (cacheFree_onStore _) ?_
  intro resourceIds _
  exact CacheFree.pure _

end

/-! ## Writes -/

section

variable {config : ServiceConfig} {caching : Bool} {stores : TenantId → InnerState}
variable {tenantId : TenantId}

/-- The stores are as given and the cached schemas are right; the cached decisions
may not be. -/
structure ServiceState.SchemasOnly (stores : TenantId → InnerState) (s : ServiceState) :
    Prop where
  stores_eq : s.stores = stores
  schemas : s.SchemasCoherent stores

theorem stable_schemasOnly :
    Client.Stable ServiceState.Evicts (ServiceState.SchemasOnly stores) := by
  intro s t hs hevict
  exact ⟨hevict.stores.trans hs.stores_eq, hs.schemas.forget hevict.schemaCache⟩

/-- **Emptying the check cache** makes a service coherent again. -/
theorem Triple.checkInvalidateAll {α : Type} (a : α) :
    Fallible.Triple ServiceState.Evicts (ServiceState.handle caching)
      (ServiceState.SchemasOnly stores)
      (do ServiceCall.ask .checkInvalidateAll; return a : ServiceProgram α)
      (fun r s => r = .ok a ∧ s.Coherent config stores) := by
  refine Client.Triple.call (M := fun _ s => s.Coherent config stores)
    stable_schemasOnly ?_ ?_
  · intro s hs
    exact ⟨hs.stores_eq, hs.schemas, Cache.coherent_empty⟩
  · intro _
    exact Client.Triple.done ServiceState.stable_coherent fun s hs => ⟨rfl, hs⟩

/-- A new store with the old schema leaves every tenant's schema as it was. -/
theorem loadSchema_update {store : InnerState} (h : store.schema = (stores tenantId).schema)
    (other : TenantId) :
    (Function.update stores tenantId store other).loadSchema =
      (stores other).loadSchema := by
  by_cases hother : other = tenantId
  · subst hother
    rw [Function.update_self, InnerState.loadSchema, h]
    rfl
  · rw [Function.update_of_ne hother]

/-- **A relationship write** empties the check cache unless it fails. -/
theorem writeRelationships_spec (call : WriteCall) :
    Fallible.Triple ServiceState.Evicts (ServiceState.handle caching)
      (ServiceState.Coherent config stores)
      (CachedService.writeRelationships tenantId call)
      (fun r s => r = (InMemoryStore.write (stores tenantId) call).1.mapError .storage ∧
        s.Coherent config (Function.update stores tenantId
          (InMemoryStore.write (stores tenantId) call).2)) := by
  cases hwrite : (InMemoryStore.write (stores tenantId) call).1 with
  | error e =>
      have hsame := InMemoryStore.write_error hwrite
      rw [hsame, Function.update_eq_self]
      refine Client.Triple.call_eq (M := ServiceState.Coherent config stores) (.error e)
        ServiceState.stable_coherent ?_ ?_
      · intro s hs
        obtain ⟨rfl, hschemas, hchecks⟩ := hs
        refine ⟨hwrite, ?_, hschemas, hchecks⟩
        show Function.update s.stores tenantId (InMemoryStore.write _ call).2 = s.stores
        rw [hsame, Function.update_eq_self]
      · exact Client.Triple.done ServiceState.stable_coherent fun s hs => ⟨rfl, hs⟩
  | ok token =>
      refine Client.Triple.call_eq (M := ServiceState.SchemasOnly (Function.update stores
        tenantId (InMemoryStore.write (stores tenantId) call).2)) (.ok token)
        ServiceState.stable_coherent ?_ ?_
      · intro s hs
        obtain ⟨rfl, hschemas, -⟩ := hs
        refine ⟨hwrite, rfl, ?_⟩
        intro other schema hcached
        rw [loadSchema_update (InMemoryStore.schema_write _ call)]
        exact hschemas other schema hcached
      · exact Triple.checkInvalidateAll token

/-- **A stored schema** invalidates its tenant's entry and every decision. -/
theorem commitSchema_spec {definition : String} {output : WriteSchemaOutput} :
    Fallible.Triple ServiceState.Evicts (ServiceState.handle caching)
      (ServiceState.Coherent config stores)
      (do
        storeWriteSchema tenantId definition
        ServiceCall.ask (.schemaInvalidate tenantId)
        ServiceCall.ask .checkInvalidateAll
        return output : ServiceProgram WriteSchemaOutput)
      (fun r s => r = .ok output ∧ s.Coherent config (Function.update stores tenantId
        { stores tenantId with schema := some definition })) := by
  -- between the two steps the schema cache is right about every other tenant
  let stored : ServiceState → Prop := fun s =>
    s.stores = Function.update stores tenantId
      { stores tenantId with schema := some definition } ∧
    s.schemaCache.Coherent fun other schema =>
      other ≠ tenantId → (stores other).loadSchema = .ok schema
  have hstored : Client.Stable ServiceState.Evicts stored := by
    intro s t hs hevict
    exact ⟨hevict.stores.trans hs.1, hs.2.forget hevict.schemaCache⟩
  refine Client.Triple.call_eq (M := stored) (.ok ()) ServiceState.stable_coherent ?_ ?_
  · intro s hs
    obtain ⟨rfl, hschemas, -⟩ := hs
    exact ⟨rfl, rfl, fun other schema hcached _ => hschemas other schema hcached⟩
  · refine Client.Triple.call_eq (M := ServiceState.SchemasOnly (Function.update stores
      tenantId { stores tenantId with schema := some definition })) () hstored ?_ ?_
    · intro s hs
      refine ⟨rfl, hs.1, hs.2.invalidate ?_⟩
      intro other hother schema hright
      rw [Function.update_of_ne hother]
      exact hright hother
    · exact Triple.checkInvalidateAll output

theorem writeSchema_spec (definition : String) (force : Bool) :
    Fallible.Triple ServiceState.Evicts (ServiceState.handle caching)
      (ServiceState.Coherent config stores)
      (CachedService.writeSchema config tenantId definition force)
      (fun r s =>
        r = Operation.writeSchemaResult config (stores tenantId) definition force ∧
        s.Coherent config (Function.update stores tenantId
          (Operation.writeSchemaEffect config (stores tenantId) definition force))) := by
  have hfailed : ∀ e s,
      Operation.writeSchemaResult config (stores tenantId) definition force = .error e →
      ServiceState.Coherent config stores s →
      Except.error e =
        Operation.writeSchemaResult config (stores tenantId) definition force ∧
      s.Coherent config (Function.update stores tenantId
        (Operation.writeSchemaEffect config (stores tenantId) definition force)) := by
    intro e s he hs
    rw [Operation.writeSchemaEffect_error he, Function.update_eq_self]
    exact ⟨he.symm, hs⟩
  refine Fallible.Returns.then ServiceState.stable_coherent (CacheFree.ofExcept _) ?_ ?_
  · intro newSchema hnew
    refine Fallible.Returns.then ServiceState.stable_coherent cacheFree_storeReadSchema
      ?_ ?_
    · intro existingText htext
      obtain rfl := Except.ok.inj htext
      refine Fallible.Returns.then ServiceState.stable_coherent (CacheFree.ofExcept _) ?_ ?_
      · intro overridden hoverridden
        have hresult :
            Operation.writeSchemaResult config (stores tenantId) definition force =
              .ok ⟨overridden⟩ :=
          bind_eq_ok.mpr ⟨newSchema, hnew, bind_eq_ok.mpr ⟨overridden, hoverridden, rfl⟩⟩
        rw [Operation.writeSchemaEffect_ok hresult, hresult]
        exact commitSchema_spec
      · intro e s hoverridden hs
        have hresult :
            Operation.writeSchemaResult config (stores tenantId) definition force =
              .error e :=
          bind_eq_error.mpr (.inr ⟨newSchema, hnew, bind_eq_error.mpr (.inl hoverridden)⟩)
        exact hfailed e s hresult hs
    · intro e s hread
      cases hread
  · intro e s hnew hs
    have hresult : Operation.writeSchemaResult config (stores tenantId) definition force =
        .error e := bind_eq_error.mpr (.inl hnew)
    exact hfailed e s hresult hs

end

/-- An operation that only reads leaves every store as it was. -/
theorem CacheFree.spec {config : ServiceConfig} {caching : Bool}
    {stores : TenantId → InnerState} {tenantId : TenantId} {op : Operation}
    (h : CacheFree config caching stores (op.program config tenantId)
      (op.result config (stores tenantId)))
    (heffect : op.effect config (stores tenantId) = stores tenantId) :
    Fallible.Triple ServiceState.Evicts (ServiceState.handle caching)
      (ServiceState.Coherent config stores) (op.program config tenantId)
      (fun r s => r = op.result config (stores tenantId) ∧
        s.Coherent config (Function.update stores tenantId
          (op.effect config (stores tenantId)))) := by
  rw [heffect, Function.update_eq_self]
  exact h

/-- **An operation is a function of its tenant's store**, whatever is cached, and
leaves the caches coherent. -/
theorem program_returns {config : ServiceConfig} {caching : Bool}
    {stores : TenantId → InnerState} (tenantId : TenantId) (op : Operation) :
    Fallible.Triple ServiceState.Evicts (ServiceState.handle caching)
      (ServiceState.Coherent config stores) (op.program config tenantId)
      (fun r s => r = op.result config (stores tenantId) ∧
        s.Coherent config (Function.update stores tenantId
          (op.effect config (stores tenantId)))) := by
  cases op with
  | writeRelationships call => exact writeRelationships_spec call
  | writeSchema definition force => exact writeSchema_spec definition force
  | checkPermission input => exact (cacheFree_checkPermission input).spec rfl
  | expandPermissionTree input => exact (cacheFree_expandPermissionTree input).spec rfl
  | readRelationships filter consistency limit =>
      exact (cacheFree_readRelationships filter consistency limit).spec rfl
  | readSchema => exact CacheFree.spec cacheFree_storeReadSchema rfl
  | lookupSubjects input =>
      exact CacheFree.spec (CacheFree.bind (cacheFree_expandPermissionTree _)
        fun expandOutput _ => CacheFree.pure _) rfl
  | lookupResources input => exact (cacheFree_lookupResources input).spec rfl

/-! ## Sessions -/

/-- What was asked, without the answer. -/
def Completed.request (done : Completed) : TenantId × Operation :=
  (done.tenantId, done.op)

/-- The stores of all tenants, served one operation after the other. -/
def serve (config : ServiceConfig) (stores : TenantId → InnerState) :
    List (TenantId × Operation) → List Completed × (TenantId → InnerState)
  | [] => ([], stores)
  | (tenantId, op) :: requests =>
      let later := serve config (Function.update stores tenantId
        (op.effect config (stores tenantId))) requests
      (⟨tenantId, op, op.result config (stores tenantId)⟩ :: later.1, later.2)

variable {config : ServiceConfig}

/-- **Every session serves the stores.**  Its results are those of the operations on
the stores alone. -/
theorem Session.eq_serve {caching : Bool} {s s' : ServiceState} {done : List Completed}
    {stores : TenantId → InnerState} (h : Session config caching s done s')
    (hs : s.Coherent config stores) :
    done = (serve config stores (done.map Completed.request)).1 ∧
      s'.Coherent config (serve config stores (done.map Completed.request)).2 := by
  induction h generalizing stores with
  | nil s => exact ⟨rfl, hs⟩
  | @cons s t s' done later hrun rest ih =>
      obtain ⟨hresult, ht⟩ := program_returns done.tenantId done.op _ _ _ hs hrun
      obtain ⟨hlater, hs'⟩ := ih ht
      refine ⟨?_, hs'⟩
      rw [List.map_cons, Completed.request, serve, ← hlater, ← hresult]

/-- The session in which no entry is lost. -/
def runSession (config : ServiceConfig) (caching : Bool) (s : ServiceState) :
    List (TenantId × Operation) → List Completed × ServiceState
  | [] => ([], s)
  | (tenantId, op) :: requests =>
      let ran :=
        Client.exec (ServiceState.handle caching) (op.program config tenantId).run s
      let later := runSession config caching ran.2 requests
      (⟨tenantId, op, ran.1⟩ :: later.1, later.2)

theorem session_runSession (caching : Bool) (s : ServiceState)
    (requests : List (TenantId × Operation)) :
    Session config caching s (runSession config caching s requests).1
      (runSession config caching s requests).2 := by
  induction requests generalizing s with
  | nil => exact .nil s
  | cons request requests ih => exact .cons (Client.exec_spec _ s) (ih _)

@[simp] theorem map_request_runSession (caching : Bool) (s : ServiceState)
    (requests : List (TenantId × Operation)) :
    (runSession config caching s requests).1.map Completed.request = requests := by
  induction requests generalizing s with
  | nil => rfl
  | cons request requests ih => exact congrArg (request :: ·) (ih _)

/-- **Caches are transparent.**  The service with both caches off can run the same
operations, and whenever it does it gives the same results, however many cache
entries were lost on the way. -/
theorem caches_transparent (config : ServiceConfig) (done : List Completed)
    (s' : ServiceState) (h : Session config true ServiceState.new done s') :
    (∃ t', Session config false ServiceState.new done t') ∧
    ∀ done' t', Session config false ServiceState.new done' t' →
      done'.map Completed.request = done.map Completed.request → done' = done := by
  have hcoherent := ServiceState.coherent_new config
  have huncached : ∀ done' t', Session config false ServiceState.new done' t' →
      done'.map Completed.request = done.map Completed.request → done' = done := by
    intro done' t' h' hrequests
    rw [(h.eq_serve hcoherent).1, (h'.eq_serve hcoherent).1, hrequests]
  have hrun := @session_runSession config false ServiceState.new
    (done.map Completed.request)
  have hdone := huncached _ _ hrun (map_request_runSession ..)
  exact ⟨⟨_, hdone ▸ hrun⟩, huncached⟩

/-- What the check answered. -/
def Completed.decision : Completed → Option (Except ApiError CheckPermissionOutput)
  | ⟨_, .checkPermission _, result⟩ => some result
  | _ => none

def acme : TenantId := ⟨1⟩

def globex : TenantId := ⟨2⟩

def isAliceViewer : Operation :=
  .checkPermission ⟨"document", "readme", "view", "user", "alice", .fullConsistency⟩

def viewersView : String :=
  "definition user {}
  definition document { relation viewer: user permission view = viewer }"

/-- A tenant whose document is shared with one user. -/
def shareReadme (tenantId : TenantId) : List (TenantId × Operation) :=
  [(tenantId, .writeSchema viewersView false),
    (tenantId, .writeRelationships
      ⟨[⟨⟨"document", "readme"⟩, "viewer", .direct "user" "alice"⟩], []⟩)]

/-- It is asked for twice. -/
def shareAndAsk (tenantId : TenantId) : List (TenantId × Operation) :=
  shareReadme tenantId ++ [(tenantId, isAliceViewer), (tenantId, isAliceViewer)]

/-- The second answer comes from the cache. -/
theorem caches_transparent_share :
    let session := runSession {} true ServiceState.new (shareAndAsk acme)
    session.1.filterMap Completed.decision =
        [.ok ⟨true, some 1⟩, .ok ⟨true, some 1⟩] ∧
      (∃ t', Session {} false ServiceState.new session.1 t') ∧
      ∀ done' t', Session {} false ServiceState.new done' t' →
        done'.map Completed.request = session.1.map Completed.request →
        done' = session.1 :=
  ⟨by decide +kernel, caches_transparent {} _ _ (session_runSession true _ _)⟩

/-- Serving the stores for one tenant only depends on that tenant's requests. -/
theorem serve_filter (tenantId : TenantId) (stores stores' : TenantId → InnerState)
    (hstore : stores' tenantId = stores tenantId)
    (requests : List (TenantId × Operation)) :
    (serve config stores' (requests.filter fun r => r.1 = tenantId)).1 =
        (serve config stores requests).1.filter (fun done => done.tenantId = tenantId) ∧
      (serve config stores' (requests.filter fun r => r.1 = tenantId)).2 tenantId =
        (serve config stores requests).2 tenantId := by
  induction requests generalizing stores stores' with
  | nil => exact ⟨rfl, hstore⟩
  | cons request requests ih =>
      obtain ⟨other, op⟩ := request
      by_cases hother : other = tenantId
      · subst hother
        have hnext := ih (Function.update stores other (op.effect config (stores other)))
          (Function.update stores' other (op.effect config (stores' other)))
          (by rw [Function.update_self, Function.update_self, hstore])
        simp only [List.filter_cons, decide_true, if_true, serve, hstore] at hnext ⊢
        exact ⟨congrArg _ hnext.1, hnext.2⟩
      · have hnext := ih (Function.update stores other (op.effect config (stores other)))
          stores' (by rw [Function.update_of_ne (fun h => hother h.symm), hstore])
        simpa [List.filter_cons, hother, serve] using hnext

/-- **Tenants do not interfere.**  Leaving out the operations of all other tenants
changes neither a result of this one nor its store, whatever cache entries are lost in
either run. -/
theorem tenants_isolated (config : ServiceConfig) (tenantId : TenantId)
    (done done' : List Completed) (s' t' : ServiceState)
    (h : Session config true ServiceState.new done s')
    (h' : Session config true ServiceState.new done' t')
    (hrequests : done'.map Completed.request =
      (done.map Completed.request).filter (fun r => r.1 = tenantId)) :
    done' = done.filter (fun d => d.tenantId = tenantId) ∧
      t'.stores tenantId = s'.stores tenantId := by
  have hcoherent := ServiceState.coherent_new config
  obtain ⟨hdone, hs'⟩ := h.eq_serve hcoherent
  obtain ⟨hdone', ht'⟩ := h'.eq_serve hcoherent
  have hfilter := @serve_filter config tenantId (fun _ => InMemoryStore.new)
    (fun _ => InMemoryStore.new) rfl (done.map Completed.request)
  rw [hrequests] at hdone' ht'
  constructor
  · rw [hdone', hfilter.1, ← hdone]
  · rw [ht'.stores_eq, hs'.stores_eq, hfilter.2]

/-- Another tenant with the same objects, whose document is shared with nobody. -/
theorem tenants_isolated_share :
    let mixed := runSession {} true ServiceState.new
      ((globex, isAliceViewer) :: shareAndAsk acme ++ [(globex, isAliceViewer)])
    let alone := runSession {} true ServiceState.new (shareAndAsk acme)
    mixed.1.filterMap Completed.decision =
        [.error .schemaNotFound, .ok ⟨true, some 1⟩, .ok ⟨true, some 1⟩,
          .error .schemaNotFound] ∧
      alone.1 = mixed.1.filter (fun d => d.tenantId = acme) ∧
      alone.2.stores acme = mixed.2.stores acme :=
  ⟨by decide +kernel,
    tenants_isolated {} acme _ _ _ _ (session_runSession true _ _)
      (session_runSession true _ _)
      (by rw [map_request_runSession, map_request_runSession]; rfl)⟩

end Kraalzibar
