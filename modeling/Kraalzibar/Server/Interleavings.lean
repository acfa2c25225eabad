import Kraalzibar.Foundations.Projection
import Kraalzibar.Server.Transparency

/-!
# All operations, interleaved

Every operation of every tenant, any number at a time: each call an operation awaits is
one step, and cache entries may be lost between any two.  The tenants share the caches of
the service, and a write of one empties the check cache for all of them.

* `operations` — the interleavings;
* `Operation.program_calls` — an operation calls for its own tenant only;
* `ServiceState.only` — what one tenant sees of the service;
* `tenant_sees_own_operations` — every interleaving is, for each tenant, one of its own
  operations alone.
-/

namespace Kraalzibar

open Foundations

/-- An operation and the tenant it is for. -/
abbrev TenantOp := TenantId × Operation

abbrev TenantOp.Result (op : TenantOp) : Type :=
  op.2.Result

abbrev ServicePool :=
  Pool ServiceState TenantOp ServiceCall ServiceCall.Reply TenantOp.Result

/-- All interleavings of all operations. -/
def operations (config : ServiceConfig) :
    System ServiceState TenantOp ServiceCall ServiceCall.Reply TenantOp.Result :=
  { handle := ServiceState.handle true
    env := ServiceState.Evicts
    program := fun op => (op.2.program config op.1).run }

/-! ## The tenant of a call -/

/-- The tenant whose store or cache entry a call uses.  Emptying the check cache is for
nobody in particular. -/
def ServiceCall.tenant : ServiceCall → Option TenantId
  | .query tenantId _ => some tenantId
  | .write tenantId _ => some tenantId
  | .readSchema tenantId => some tenantId
  | .writeSchema tenantId _ => some tenantId
  | .schemaGet tenantId => some tenantId
  | .schemaInsert tenantId _ => some tenantId
  | .schemaInvalidate tenantId => some tenantId
  | .checkGet key => some key.tenantId
  | .checkInsert key _ => some key.tenantId
  | .checkInvalidateAll => none

/-- The call uses nothing of any other tenant. -/
def ServiceCall.Concerns (tenantId : TenantId) (c : ServiceCall) : Prop :=
  ∀ other ∈ c.tenant, other = tenantId

/-- A program that calls for one tenant only. -/
abbrev CallsFor {α : Type} (tenantId : TenantId) (program : ServiceProgram α) : Prop :=
  Fallible.Meets (ServiceCall.Concerns tenantId) (fun _ _ => True) (fun _ => True) program

section

variable {config : ServiceConfig} {tenantId : TenantId} {α : Type}

theorem concerns_of_tenant {c : ServiceCall} (h : c.tenant = some tenantId) :
    c.Concerns tenantId := by
  intro other hother
  rw [h] at hother
  exact (Option.some.inj hother).symm

theorem callsFor_ask (c : ServiceCall) (h : c.tenant = some tenantId) :
    CallsFor tenantId (ServiceCall.ask c) :=
  .lift (concerns_of_tenant h)

theorem callsFor_invalidateAll : CallsFor tenantId (ServiceCall.ask .checkInvalidateAll) :=
  .lift nofun

theorem callsFor_ofExcept (r : Except ApiError α) : CallsFor tenantId (ofExcept r) :=
  .ofExcept fun _ _ => trivial

theorem callsFor_pure (a : α) : CallsFor tenantId (pure a) :=
  .pure a

/-- Whatever a program asks a store, it asks the store of its tenant. -/
theorem callsFor_onStore (program : ServiceM α) :
    CallsFor tenantId (onStore tenantId program) := by
  have hquery : ∀ q : StoreQuery, True → Client.Meets (ServiceCall.Concerns tenantId)
      (fun _ _ => True) (fun _ => True)
      (Client.request (ServiceCall.query tenantId q) :
        Client ServiceCall ServiceCall.Reply q.Reply) :=
    fun q _ => ⟨concerns_of_tenant rfl, fun _ _ => trivial⟩
  exact Client.Meets.imp (Client.Meets.translate hquery (Client.Meets.trivial program.run))
    fun _ _ _ _ => trivial

theorem callsFor_storeReadSchema : CallsFor tenantId (storeReadSchema tenantId) :=
  .call (concerns_of_tenant rfl) fun _ _ _ _ => trivial

theorem callsFor_storeWriteSchema (definition : String) :
    CallsFor tenantId (storeWriteSchema tenantId definition) :=
  .call (concerns_of_tenant rfl) fun _ _ _ _ => trivial

theorem callsFor_storeWrite (call : WriteCall) :
    CallsFor tenantId (storeWrite tenantId call) :=
  .call (concerns_of_tenant rfl) fun _ _ _ _ => trivial

theorem callsFor_loadSchemaCached :
    CallsFor tenantId (CachedService.loadSchemaCached tenantId) := by
  refine (callsFor_ask (.schemaGet tenantId) rfl).bind fun cached => ?_
  cases cached with
  | some schema => exact callsFor_pure schema
  | none =>
      refine callsFor_storeReadSchema.bind fun text => ?_
      refine (callsFor_ofExcept _).bind fun schema => ?_
      exact (callsFor_ask (.schemaInsert tenantId schema) rfl).bind fun _ =>
        callsFor_pure schema

theorem callsFor_checkPermission (input : CheckPermissionInput) :
    CallsFor tenantId (CachedService.checkPermission config tenantId input) := by
  refine (callsFor_onStore _).bind fun snapshot => ?_
  cases snapshot with
  | none =>
      exact callsFor_loadSchemaCached.bind fun schema =>
        (callsFor_onStore _).bind fun result => callsFor_pure _
  | some snap =>
      refine (callsFor_ask
        (.checkGet (CachedService.cacheKey tenantId input snap)) rfl).bind ?_
      intro cached
      cases cached with
      | some allowed => exact callsFor_pure _
      | none =>
          refine callsFor_loadSchemaCached.bind fun schema => ?_
          refine (callsFor_onStore _).bind fun result => ?_
          exact (callsFor_ask (.checkInsert
            (CachedService.cacheKey tenantId input snap) result.allowed) rfl).bind fun _ =>
              callsFor_pure _

theorem callsFor_expandPermissionTree (input : ExpandPermissionInput) :
    CallsFor tenantId (CachedService.expandPermissionTree config tenantId input) :=
  (callsFor_onStore _).bind fun _ => callsFor_loadSchemaCached.bind fun _ =>
    (callsFor_onStore _).bind fun _ => callsFor_pure _

theorem callsFor_writeSchema (definition : String) (force : Bool) :
    CallsFor tenantId (CachedService.writeSchema config tenantId definition force) :=
  (callsFor_ofExcept _).bind fun _ => callsFor_storeReadSchema.bind fun _ =>
    (callsFor_ofExcept _).bind fun _ => (callsFor_storeWriteSchema definition).bind fun _ =>
      (callsFor_ask (.schemaInvalidate tenantId) rfl).bind fun _ =>
        callsFor_invalidateAll.bind fun _ => callsFor_pure _

/-- **An operation calls for its own tenant only.** -/
theorem Operation.program_calls (op : Operation) :
    CallsFor tenantId (op.program config tenantId) := by
  cases op with
  | checkPermission input => exact callsFor_checkPermission input
  | expandPermissionTree input => exact callsFor_expandPermissionTree input
  | writeRelationships call =>
      exact (callsFor_storeWrite call).bind fun _ =>
        callsFor_invalidateAll.bind fun _ => callsFor_pure _
  | readRelationships filter consistency limit =>
      exact (callsFor_onStore _).bind fun _ => (callsFor_onStore _).bind fun _ =>
        callsFor_pure _
  | writeSchema definition force => exact callsFor_writeSchema definition force
  | readSchema => exact callsFor_storeReadSchema
  | lookupSubjects input =>
      exact (callsFor_expandPermissionTree _).bind fun _ => callsFor_pure _
  | lookupResources input =>
      exact (callsFor_onStore _).bind fun _ => (callsFor_onStore _).bind fun _ =>
        callsFor_loadSchemaCached.bind fun _ => (callsFor_onStore _).bind fun _ =>
          callsFor_pure _

end

/-! ## What a tenant sees -/

namespace ServiceState

/-- The service as if no other tenant had ever used it. -/
def only (tenantId : TenantId) (s : ServiceState) : ServiceState :=
  { stores := fun other => if other = tenantId then s.stores other else InMemoryStore.new
    schemaCache := s.schemaCache.restrict (· = tenantId)
    checkCache := s.checkCache.restrict (·.tenantId = tenantId) }

variable {tenantId other : TenantId} {s t : ServiceState}

@[simp] theorem only_stores : (s.only tenantId).stores tenantId = s.stores tenantId :=
  if_pos rfl

theorem only_new : new.only tenantId = new := by
  simp only [only, new, ite_self, Cache.restrict_empty]

/-- Changing the store of a tenant, seen by the tenant. -/
theorem only_setStore (store : InnerState) :
    (s.setStore tenantId store).only tenantId =
      (s.only tenantId).setStore tenantId store := by
  have hstores : ((s.setStore tenantId store).only tenantId).stores =
      Function.update (s.only tenantId).stores tenantId store := by
    funext other
    by_cases h : other = tenantId
    · subst h
      simp [setStore]
    · simp [only, setStore, h]
  exact congrArg (fun stores => { s.only tenantId with stores }) hstores

/-- Changing another's is not seen. -/
theorem only_setStore_other (h : other ≠ tenantId) (store : InnerState) :
    (s.setStore other store).only tenantId = s.only tenantId := by
  have hstores : ((s.setStore other store).only tenantId).stores =
      (s.only tenantId).stores := by
    funext third
    by_cases hthird : third = tenantId
    · subst hthird
      simp [setStore, Function.update_of_ne h.symm]
    · simp [only, hthird]
  exact congrArg (fun stores => { s.only tenantId with stores }) hstores

theorem Evicts.only (h : s.Evicts t) : (s.only tenantId).Evicts (t.only tenantId) where
  stores := by
    unfold ServiceState.only
    rw [h.stores]
  schemaCache := h.schemaCache.restrict
  checkCache := h.checkCache.restrict

/-- **A call for the tenant** is answered from what the tenant sees. -/
theorem only_own_step {c : ServiceCall} (hc : c.Concerns tenantId) (s : ServiceState) :
    (handle true s c).1 = (handle true (s.only tenantId) c).1 ∧
      (handle true s c).2.only tenantId = (handle true (s.only tenantId) c).2 := by
  cases c with
  | query other q =>
      obtain rfl := hc other rfl
      simp [handle]
  | write other call =>
      obtain rfl := hc other rfl
      simp only [handle, only_stores]
      exact ⟨trivial, only_setStore _⟩
  | readSchema other =>
      obtain rfl := hc other rfl
      simp [handle]
  | writeSchema other definition =>
      obtain rfl := hc other rfl
      simp only [handle, only_stores]
      exact ⟨trivial, only_setStore _⟩
  | schemaGet other =>
      obtain rfl := hc other rfl
      exact ⟨(Cache.restrict_of_mine (· = other) rfl).symm, rfl⟩
  | schemaInsert other schema =>
      obtain rfl := hc other rfl
      refine ⟨rfl, ?_⟩
      exact congrArg (fun schemaCache => { s.only other with schemaCache })
        (Cache.restrict_update s.schemaCache (· = other) rfl (some schema))
  | schemaInvalidate other =>
      obtain rfl := hc other rfl
      refine ⟨rfl, ?_⟩
      exact congrArg (fun schemaCache => { s.only other with schemaCache })
        (Cache.restrict_update s.schemaCache (· = other) rfl none)
  | checkGet key =>
      have hkey := hc key.tenantId rfl
      exact ⟨(Cache.restrict_of_mine (fun k : CheckCacheKey => k.tenantId = tenantId)
        hkey).symm, rfl⟩
  | checkInsert key allowed =>
      have hkey := hc key.tenantId rfl
      refine ⟨rfl, ?_⟩
      exact congrArg (fun checkCache => { s.only tenantId with checkCache })
        (Cache.restrict_update s.checkCache (·.tenantId = tenantId) hkey (some allowed))
  | checkInvalidateAll =>
      refine ⟨rfl, ?_⟩
      simp only [handle, only, Cache.restrict_empty]

/-- **A call for another tenant** is at most an eviction. -/
theorem only_other_step {c : ServiceCall} (hc : c.tenant ≠ some tenantId)
    (s : ServiceState) :
    Relation.ReflTransGen Evicts (s.only tenantId) ((handle true s c).2.only tenantId) := by
  have hne : ∀ {other}, c.tenant = some other → other ≠ tenantId := by
    intro other hother heq
    exact hc (hother.trans (congrArg some heq))
  suffices hunseen : c ≠ .checkInvalidateAll →
      (handle true s c).2.only tenantId = s.only tenantId by
    by_cases hall : c = .checkInvalidateAll
    · subst hall
      refine .single ⟨rfl, fun _ _ h => h, ?_⟩
      intro key allowed hget
      simp only [handle, only, Cache.restrict_empty] at hget
      cases hget
    · rw [hunseen hall]
  intro hall
  cases c with
  | write other call => exact only_setStore_other (hne rfl) _
  | writeSchema other definition => exact only_setStore_other (hne rfl) _
  | schemaInsert other schema =>
      exact congrArg (fun schemaCache => { s.only tenantId with schemaCache })
        (Cache.restrict_update_other s.schemaCache (· = tenantId) (hne rfl) (some schema))
  | schemaInvalidate other =>
      exact congrArg (fun schemaCache => { s.only tenantId with schemaCache })
        (Cache.restrict_update_other s.schemaCache (· = tenantId) (hne rfl) none)
  | checkInsert key allowed =>
      exact congrArg (fun checkCache => { s.only tenantId with checkCache })
        (Cache.restrict_update_other s.checkCache (·.tenantId = tenantId) (hne rfl) (some allowed))
  | checkInvalidateAll => exact absurd rfl hall
  | _ => rfl

end ServiceState

/-! ## Tenants among one another -/

/-- The operations of a tenant are a domain of their own. -/
theorem operations_unwinding (config : ServiceConfig) (tenantId : TenantId) :
    Unwinding (operations config) (operations config) (ServiceState.only tenantId)
      (fun op => op.1 = tenantId) (ServiceCall.Concerns tenantId)
      (fun c => c.tenant ≠ some tenantId) where
  program_eq := fun _ _ => rfl
  starts := fun _ _ => trivial
  allows := fun _ _ _ => trivial
  ownCalls := by
    intro op hop
    subst hop
    exact Client.Meets.imp op.2.program_calls fun _ _ => trivial
  otherCalls := by
    intro op hop
    have hcalls : ((operations config).program op).Calls (ServiceCall.Concerns op.1) :=
      Client.Meets.imp op.2.program_calls fun _ _ => trivial
    refine Client.Meets.weaken hcalls ?_
    intro c hc htenant
    exact hop (hc tenantId htenant).symm
  own_step := fun s _ hc => ServiceState.only_own_step hc s
  other_step := fun s _ hc => ServiceState.only_other_step hc s
  env_step := fun _ _ h => .single h.only

/-- **Every interleaving is, for each tenant, one of its own operations.**  From what the
tenant sees of a service, some interleaving of operations of that tenant alone lets each
of them return what it returned among the others, and leaves the tenant the same. -/
theorem tenant_sees_own_operations (config : ServiceConfig) (tenantId : TenantId)
    (s : ServiceState) {p : ServicePool}
    (hp : Pool.Steps (operations config) (Pool.init s) p) :
    ∃ alone : ServicePool,
      Pool.Steps (operations config) (Pool.init (s.only tenantId)) alone ∧
      (∀ i thread, alone.threads i = some thread → thread.op.1 = tenantId) ∧
      (∀ i op r, p.returned i = some ⟨(tenantId, op), r⟩ ↔
        alone.returned i = some ⟨(tenantId, op), r⟩) ∧
      alone.state = p.state.only tenantId := by
  obtain ⟨alone, hsteps, hprojects⟩ :=
    (operations_unwinding config tenantId).steps (.init s) hp
  exact ⟨alone, hsteps, hprojects.only, fun i op r => hprojects.returned_iff rfl,
    hprojects.state⟩

/-! ### Two tenants at once -/

instance {config : ServiceConfig} : DecidablePred (operations config).starts :=
  fun _ => inferInstanceAs (Decidable True)

instance {config : ServiceConfig} (log : Log ServiceCall) (i : ℕ) (c : ServiceCall) :
    Decidable ((operations config).allows log i c) :=
  inferInstanceAs (Decidable True)

/-- Thread `i` has returned this answer to this check. -/
def ServicePool.answered (p : ServicePool) (i : ℕ) (tenantId : TenantId)
    (input : CheckPermissionInput) (r : Except ApiError CheckPermissionOutput) : Bool :=
  match p.returned i with
  | some ⟨(other, .checkPermission asked), result⟩ =>
      decide (other = tenantId ∧ asked = input ∧ result = r)
  | _ => false

theorem ServicePool.returned_of_answered {p : ServicePool} {i : ℕ} {tenantId : TenantId}
    {input : CheckPermissionInput} {r : Except ApiError CheckPermissionOutput}
    (h : p.answered i tenantId input r = true) :
    p.returned i = some ⟨(tenantId, .checkPermission input), r⟩ := by
  unfold answered at h
  split at h
  · next other asked result hreturned =>
      obtain ⟨rfl, rfl, rfl⟩ := of_decide_eq_true h
      exact hreturned
  · cases h

/-- Thread `i` has returned this token for this write. -/
def ServicePool.wrote (p : ServicePool) (i : ℕ) (tenantId : TenantId) (call : WriteCall)
    (t : ℕ) : Bool :=
  match p.returned i with
  | some ⟨(other, .writeRelationships written), .ok token⟩ =>
      decide (other = tenantId ∧ written = call ∧ token = t)
  | _ => false

theorem ServicePool.returned_of_wrote {p : ServicePool} {i : ℕ} {tenantId : TenantId}
    {call : WriteCall} {t : ℕ} (h : p.wrote i tenantId call t = true) :
    p.returned i = some ⟨(tenantId, .writeRelationships call), .ok t⟩ := by
  unfold wrote at h
  split at h
  · next other written token hreturned =>
      obtain ⟨rfl, rfl, rfl⟩ := of_decide_eq_true h
      exact hreturned
  · cases h

def aliceInput : CheckPermissionInput :=
  ⟨"document", "readme", "view", "user", "alice", .fullConsistency⟩

/-- Two tenants write their schemas at the same time; one shares a document, the other
writes while it is checked. -/
def sharedAmongTenants : ServicePool :=
  (Pool.init .new).play (operations {})
    [.start 0 (acme, .writeSchema viewersView false),
      .start 1 (globex, .writeSchema viewersView false),
      .call 0, .call 1, .call 0, .call 1, .call 0, .call 1, .call 0, .call 1,
      .start 2 (acme, .writeRelationships
        ⟨[⟨⟨"document", "readme"⟩, "viewer", .direct "user" "alice"⟩], []⟩),
      .call 2, .call 2,
      .start 3 (acme, .checkPermission aliceInput), .call 3, .call 3, .call 3,
      .start 4 (globex, .writeRelationships ⟨[], [{ objectType := some "document" }]⟩),
      .call 4, .call 3, .call 3, .call 4, .call 3, .call 3]

theorem tenant_sees_own_operations_shared :
    ∃ alone : ServicePool,
      Pool.Steps (operations {}) (Pool.init .new) alone ∧
      (∀ i thread, alone.threads i = some thread → thread.op.1 = acme) ∧
      alone.returned 3 =
        some ⟨(acme, .checkPermission aliceInput), .ok ⟨true, some 1⟩⟩ := by
  have hp : Pool.Steps (operations {}) (Pool.init .new) sharedAmongTenants :=
    Pool.play_steps _
  have hanswered : sharedAmongTenants.answered 3 acme aliceInput (.ok ⟨true, some 1⟩) =
      true := by decide +kernel
  obtain ⟨alone, hsteps, honly, hreturned, -⟩ :=
    tenant_sees_own_operations {} acme .new hp
  rw [ServiceState.only_new] at hsteps
  exact ⟨alone, hsteps, honly, (hreturned 3 (.checkPermission aliceInput) _).mp
    (ServicePool.returned_of_answered hanswered)⟩

end Kraalzibar
