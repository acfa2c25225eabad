import Kraalzibar.Server.LookupResources
import Kraalzibar.Server.Repeatable

/-!
# Lookups and checks

A lookup of resources lists the objects on which a permission holds, a check asks about one
object.  They are evaluated by different requests, at different moments and maybe under
different schemas.  At one token they agree all the same.

* `GoneThrough` — what a lookup has found among some ids, and what it has asked about them;
* `pinned_lookup_at_token` — an answered lookup has gone through what is visible;
* `lookups_agree_with_checks` — their agreement, in every interleaving.
-/

namespace Kraalzibar

open Foundations

/-- Of these ids the first `limit` allowed ones are found.  Unless there are as many, every
id has had an answer. -/
structure GoneThrough (outcome : String → Except CheckError CheckResult)
    (objectIds : List String) (limit : ℕ) (found : List String) : Prop where
  eq_take : found = (objectIds.filter fun id => allows (outcome id)).take limit
  answered : found.length < limit → ∀ id ∈ objectIds, ∃ result, outcome id = .ok result

section

variable {outcome : String → Except CheckError CheckResult} {objectIds found : List String}
  {limit : ℕ} {id : String}

theorem GoneThrough.allowed (h : GoneThrough outcome objectIds limit found)
    (hid : id ∈ found) : outcome id = .ok ⟨true⟩ := by
  rw [h.eq_take] at hid
  exact allows_iff.mp (List.mem_filter.mp (List.mem_of_mem_take hid)).2

theorem GoneThrough.mem_of_allowed (h : GoneThrough outcome objectIds limit found)
    (hroom : found.length < limit) (hid : id ∈ objectIds)
    (hallowed : outcome id = .ok ⟨true⟩) : id ∈ found := by
  -- fewer than the limit: nothing has been cut off
  have hall := h.eq_take
  rw [hall, List.length_take] at hroom
  rw [List.take_of_length_le (by omega)] at hall
  rw [hall]
  exact List.mem_filter.mpr ⟨hid, allows_iff.mpr hallowed⟩

end

/-- A loop that ends before its limit has had an answer for every id. -/
theorem lookupLoop_answered {answer : ∀ q : StoreQuery, q.Reply} {engine : CheckEngine}
    {input : LookupResourcesInput} {snapshot : Option SnapshotToken} {limit : Nat}
    {objectIds results received : List String}
    (h : Fallible.eval answer
      (AuthzService.lookupLoop engine input snapshot limit objectIds results) =
        .ok received)
    (hroom : received.length < limit) {id : String} (hid : id ∈ objectIds) :
    ∃ result, Fallible.eval (StoreTupleReader.over answer)
      (engine.check (input.request snapshot id)) = .ok result := by
  induction objectIds generalizing results with
  | nil => cases hid
  | cons first objectIds ih =>
      unfold AuthzService.lookupLoop at h
      by_cases hfull : results.length ≥ limit
      · rw [if_pos hfull] at h
        obtain rfl : results = received := Except.ok.inj h
        omega
      · rw [if_neg hfull] at h
        obtain ⟨result, hcheck, hrest⟩ := Fallible.eval_bind_eq_ok.mp h
        rcases List.mem_cons.mp hid with rfl | hid
        · refine ⟨result, ?_⟩
          rwa [StoreTupleReader.eval_run, mapError_eq_ok] at hcheck
        · exact ih hrest hid

theorem reached_of_listed {state : InnerState} {s : ℕ} {objectType : String}
    {objectIds : List String} (h : Fallible.eval (InMemoryStore.store.query state)
      (storeListObjectIds objectType (some s) none) = .ok objectIds) :
    s ≤ state.currentTx := by
  by_contra hs
  rw [eval_storeListObjectIds] at h
  obtain ⟨e, he⟩ := query_ahead (Nat.lt_of_not_le hs)
    (show StoreQuery.At (some s) (.listObjectIds objectType (some s) none) from rfl)
  rw [he] at h
  cases h

/-- **A lookup at a token** has gone through the objects that are visible there, with one
stored schema. -/
theorem pinned_lookup_at_token {config : ServiceConfig} {p : ServicePool}
    (hp : Pool.Steps (operations config) (Pool.init .new) p) (hshort : Short p.log) {i : ℕ}
    {tenantId : TenantId} {input : LookupResourcesInput} {output : LookupResourcesOutput}
    (hi : p.returned i = some ⟨(tenantId, .lookupResources input), .ok output⟩)
    (hpinned : input.consistency ≠ .minimizeLatency) :
    ∃ s text schema, output.snapshot = some s ∧
      s ≤ (storeAlong tenantId p.log).currentTx ∧ WasStored tenantId p.log (some text) ∧
      parseSchema text = .ok schema ∧
      GoneThrough
        (fun id => Fallible.eval (listReader ((storeAlong tenantId p.log).visible s))
          (CheckEngine.check ⟨schema, config.engineConfig⟩ (input.request (some s) id)))
        ((storeAlong tenantId p.log).objectIds input.resourceType s)
        (input.limit.getD 1000) output.resourceIds := by
  obtain ⟨_, moment, text, -, -, heffect⟩ := effect_of_returned hp hshort hi hpinned
  obtain ⟨snapshot, hresolve, hr⟩ := bind_eq_ok.mp heffect.result.symm
  obtain ⟨objectIds, hlisted, hr⟩ := bind_eq_ok.mp hr
  obtain ⟨schema, hschema, hr⟩ := bind_eq_ok.mp hr
  obtain ⟨resourceIds, hloop, hr⟩ := bind_eq_ok.mp hr
  obtain rfl := Except.ok.inj hr
  obtain ⟨s, rfl, -⟩ := token_of_resolved hpinned hresolve
  have hs := reached_of_listed hlisted
  obtain ⟨hvisible, hreached⟩ := storeAlong_visible heffect.before hshort hs
  have hstored : WasStored tenantId p.log text := heffect.stored
  obtain ⟨text, rfl, hparse⟩ : ∃ t, text = some t ∧ parseSchema t = .ok schema := by
    cases text with
    | none => cases hschema
    | some text => exact ⟨text, rfl, SchemaRaces.parseStored_eq_ok.mp hschema⟩
  have hids : objectIds = (storeAlong tenantId p.log).objectIds input.resourceType s := by
    have heval := eval_listObjectIds (InMemoryStore.resolve_some hs) input.resourceType
    unfold InnerState.objectIds at heval ⊢
    rw [hvisible]
    exact Except.ok.inj (hlisted.symm.trans heval)
  have houtcome : (fun id => Fallible.eval
        (listReader ((storeAlong tenantId p.log).visible s))
        (CheckEngine.check ⟨schema, config.engineConfig⟩ (input.request (some s) id))) =
      fun id => Fallible.eval (StoreTupleReader.over
        (InMemoryStore.store.query (storeAlong tenantId moment)))
        (CheckEngine.check ⟨schema, config.engineConfig⟩ (input.request (some s) id)) :=
    funext fun id => check_at_token heffect.before hshort rfl hs fun _ _ => rfl
  refine ⟨s, text, schema, rfl, hreached, hstored, hparse, ?_⟩
  rw [houtcome, ← hids]
  exact ⟨lookupLoop_ok hloop, fun hroom id hid => lookupLoop_answered hloop hroom hid⟩

/-- **Lookups agree with checks.**  In every interleaving, take a lookup of resources and a
check that read at one token and answer, where the schemas stored for the tenant only grow.
Then the check of an object that the lookup returned is allowed, and if the lookup returned
fewer than its limit, an object whose check is allowed was returned. -/
theorem lookups_agree_with_checks (config : ServiceConfig) {p : ServicePool}
    (hp : Pool.Steps (operations config) (Pool.init .new) p)
    (hcount : p.log.length < 2 ^ 64 - 1) {i j : ℕ} {tenantId : TenantId}
    {input : LookupResourcesInput} {output : LookupResourcesOutput} {id : String}
    {consistency : Consistency} {answer : CheckPermissionOutput}
    (hi : p.returned i = some ⟨(tenantId, .lookupResources input), .ok output⟩)
    (hj : p.returned j = some ⟨(tenantId, .checkPermission
      { objectType := input.resourceType, objectId := id, permission := input.permission,
        subjectType := input.subjectType, subjectId := input.subjectId, consistency }),
      .ok answer⟩)
    (hpinned : input.consistency ≠ .minimizeLatency)
    (hpinned' : consistency ≠ .minimizeLatency) (hsame : answer.snapshot = output.snapshot)
    (hgrow : StoredSchemasGrow tenantId p.log) :
    (id ∈ output.resourceIds → answer.allowed = true) ∧
      (output.resourceIds.length < input.limit.getD 1000 → answer.allowed = true →
        id ∈ output.resourceIds) := by
  have hshort : Short p.log := hcount
  obtain ⟨s, text, schema, hs, hreached, hstored, hparse, hgone⟩ :=
    pinned_lookup_at_token hp hshort hi hpinned
  obtain ⟨s', text', schema', hs', -, hstored', hparse', heval⟩ :=
    pinned_check_at_token hp hshort hj hpinned'
  obtain rfl : s' = s := Option.some.inj (hs'.symm.trans (hsame.trans hs))
  let reader := listReader ((storeAlong tenantId p.log).visible s')
  have hanswer : Fallible.eval reader
      (CheckEngine.check ⟨schema', config.engineConfig⟩ (input.request (some s') id)) =
        .ok ⟨answer.allowed⟩ := heval reader fun _ _ => rfl
  -- an answer for the lookup is the answer of the check, whichever schema is newer
  have hagree : ∀ result, Fallible.eval reader
      (CheckEngine.check ⟨schema, config.engineConfig⟩ (input.request (some s') id)) =
        .ok result → result = ⟨answer.allowed⟩ := by
    intro result hresult
    rcases hgrow text text' schema schema' hstored hstored' hparse hparse' with hold | hnew
    · have hkept := CheckEngine.check_extended hold _ _ hresult
      exact Except.ok.inj (hkept.symm.trans hanswer)
    · have hkept := CheckEngine.check_extended hnew _ _ hanswer
      exact Except.ok.inj (hresult.symm.trans hkept)
  constructor
  · intro hid
    exact (congrArg CheckResult.allowed (hagree _ (hgone.allowed hid))).symm
  · intro hroom hallowed
    have hstore : Fallible.eval reader
        (CheckEngine.check ⟨schema', config.engineConfig⟩ (input.request (some s') id)) =
      Fallible.eval (StoreTupleReader.over
        (InMemoryStore.store.query (storeAlong tenantId p.log)))
        (CheckEngine.check ⟨schema', config.engineConfig⟩ (input.request (some s') id)) :=
      check_at_token List.prefix_rfl hshort rfl hreached fun _ _ => rfl
    rw [hstore, hallowed] at hanswer
    have hlisted := mem_objectIds_of_allowed (parseSchema_populated hparse')
      (InMemoryStore.resolve_some hreached) hanswer
    obtain ⟨result, hresult⟩ := hgone.answered hroom id hlisted
    have htrue : result = ⟨true⟩ := hallowed ▸ hagree result hresult
    exact hgone.mem_of_allowed hroom hlisted (htrue ▸ hresult)

/-! ### A lookup of what was taken back -/

deriving instance DecidableEq for LookupResourcesInput

/-- Thread `i` has returned these ids, read at this token, for this lookup. -/
def ServicePool.lookedUp (p : ServicePool) (i : ℕ) (tenantId : TenantId)
    (input : LookupResourcesInput) (resourceIds : List String) (s : SnapshotToken) : Bool :=
  match p.returned i with
  | some ⟨(other, .lookupResources asked), .ok output⟩ =>
      decide (other = tenantId ∧ asked = input ∧ output.resourceIds = resourceIds ∧
        output.snapshot = some s)
  | _ => false

theorem ServicePool.returned_of_lookedUp {p : ServicePool} {i : ℕ} {tenantId : TenantId}
    {input : LookupResourcesInput} {resourceIds : List String} {s : SnapshotToken}
    (h : p.lookedUp i tenantId input resourceIds s = true) :
    p.returned i = some ⟨(tenantId, .lookupResources input), .ok ⟨resourceIds, some s⟩⟩ := by
  unfold lookedUp at h
  split at h
  · next other asked output hreturned =>
      obtain ⟨ids, snapshot⟩ := output
      obtain ⟨rfl, rfl, rfl, rfl⟩ := of_decide_eq_true h
      exact hreturned
  · cases h

def aliceViewsAtFirst : LookupResourcesInput :=
  aliceViewsInput (.atExactSnapshot 1) none

/-- After the document was taken back, the documents as of before are listed. -/
def listedAgain : ServicePool :=
  askedAgain.play (operations {})
    [.start 5 (acme, .lookupResources aliceViewsAtFirst), .call 5, .call 5, .call 5, .call 5,
      .call 5, .call 5, .call 5, .call 5]

theorem listedAgain_run :
    listedAgain.lookedUp 5 acme aliceViewsAtFirst ["readme"] 1 = true ∧
      listedAgain.answered 4 acme { aliceInput with consistency := .atExactSnapshot 1 }
        (.ok ⟨true, some 1⟩) = true ∧
      listedAgain.log.length < 2 ^ 64 - 1 ∧
      ∀ before ∈ listedAgain.log.inits, ∀ text ∈ (storeAlong acme before).schema,
        text = viewersView := by
  decide +kernel

theorem lookups_agree_with_checks_again :
    ∃ output : LookupResourcesOutput,
      listedAgain.returned 5 =
        some ⟨(acme, .lookupResources aliceViewsAtFirst), .ok output⟩ ∧
      "readme" ∈ output.resourceIds := by
  have hp : Pool.Steps (operations {}) (Pool.init .new) listedAgain :=
    ((aliceViews_steps.trans revokedMeanwhile_steps).trans (Pool.play_steps _)).trans
      (Pool.play_steps _)
  obtain ⟨hlisted, hasked, hcount, htexts⟩ := listedAgain_run
  have hreturned := ServicePool.returned_of_lookedUp hlisted
  have hagree := lookups_agree_with_checks {} hp hcount hreturned
    (ServicePool.returned_of_answered hasked) nofun nofun rfl
    (storedSchemasGrow_of_text htexts)
  exact ⟨_, hreturned, hagree.2 (by decide) rfl⟩

end Kraalzibar
