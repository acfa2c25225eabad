import Kraalzibar.Core.Populated
import Kraalzibar.Server.LookupSubjects

/-!
# A lookup of resources is exact

`lookup_resources` checks the ids that some tuple of the requested type is about,
in increasing order, until it has collected as many as it was asked for.  No
permission holds on any other id, so the ids it goes through contain every
answer, and what it returns is the beginning of the list of all of them.

* `lookupLoop_eq` — the loop, where no check fails;
* `lookupResources_exact` — the result, for a snapshot the store has reached;
* `unreached_snapshot_rejected` — for a snapshot ahead of the store the request
  fails, also where there is nothing to find.
-/

namespace Kraalzibar

open Foundations

/-- The check that `lookup_resources` makes of one object id. -/
def LookupResourcesInput.request (input : LookupResourcesInput)
    (snapshot : Option SnapshotToken) (objectId : String) : CheckRequest :=
  { objectType := input.resourceType, objectId, permission := input.permission,
    subjectType := input.subjectType, subjectId := input.subjectId, snapshot }

/-- **The loop** collects the allowed ids in order, up to the limit. -/
theorem lookupLoop_eq {answer : ∀ q : StoreQuery, q.Reply} {engine : CheckEngine}
    {input : LookupResourcesInput} {snapshot : Option SnapshotToken} {limit : Nat}
    {allowed : String → Bool} {objectIds : List String} (results : List String)
    (hchecks : ∀ id ∈ objectIds, Fallible.eval (StoreTupleReader.over answer)
      (engine.check (input.request snapshot id)) = .ok ⟨allowed id⟩) :
    Fallible.eval answer
      (AuthzService.lookupLoop engine input snapshot limit objectIds results) =
        .ok (results ++ (objectIds.filter allowed).take (limit - results.length)) := by
  induction objectIds generalizing results with
  | nil => simp [AuthzService.lookupLoop]
  | cons id objectIds ih =>
      have hhead := hchecks id List.mem_cons_self
      have htail := fun results =>
        ih results (fun id' hid => hchecks id' (List.mem_cons_of_mem id hid))
      unfold AuthzService.lookupLoop
      by_cases hfull : results.length ≥ limit
      · have hzero : limit - results.length = 0 := by omega
        rw [if_pos hfull, hzero, List.take_zero, List.append_nil]
        rfl
      · rw [if_neg hfull]
        have hcheck : Fallible.eval answer (StoreTupleReader.run
            (engine.check (input.request snapshot id))) = .ok ⟨allowed id⟩ := by
          rw [StoreTupleReader.eval_run, hhead]
          rfl
        show Fallible.eval answer (StoreTupleReader.run
          (engine.check (input.request snapshot id)) >>= _) = _
        rw [Fallible.eval_bind, hcheck, ok_bind, htail]
        cases hallowed : allowed id with
        | true =>
            obtain ⟨room, hroom⟩ : ∃ room, limit - results.length = room + 1 :=
              ⟨limit - results.length - 1, by omega⟩
            have hrest : limit - (results ++ [id]).length = room := by
              rw [List.length_append, List.length_singleton]
              omega
            rw [if_pos rfl, hrest, hroom, List.filter_cons_of_pos hallowed,
              List.take_succ_cons, List.append_assoc, List.singleton_append]
        | false =>
            rw [if_neg Bool.false_ne_true,
              List.filter_cons_of_neg (by rw [hallowed]; exact Bool.false_ne_true)]

/-- The ids `list_object_ids` returns at token `s`. -/
def InnerState.objectIds (state : InnerState) (objectType : String) (s : Nat) :
    List String :=
  sortDedup (((state.visible s).filter
    (fun t => decide (t.object.objectType = objectType))).map (·.object.objectId))

/-- They are the ids of the objects that a visible tuple is about. -/
theorem mem_objectIds {state : InnerState} {s : Nat} {objectType id : String} :
    id ∈ state.objectIds objectType s ↔
      ∃ t ∈ state.visible s, t.object = ⟨objectType, id⟩ := by
  rw [InnerState.objectIds, mem_sortDedup, List.mem_map]
  constructor
  · intro h
    obtain ⟨t, ht, rfl⟩ := h
    rw [List.mem_filter, decide_eq_true_eq] at ht
    obtain ⟨ht, rfl⟩ := ht
    exact ⟨t, ht, rfl⟩
  · intro h
    obtain ⟨t, ht, hobject⟩ := h
    refine ⟨t, List.mem_filter.mpr ⟨ht, ?_⟩, ?_⟩
    · rw [hobject]
      exact decide_eq_true rfl
    · rw [hobject]

theorem eval_listObjectIds {state : InnerState} {snapshot : Option SnapshotToken} {s : Nat}
    (hresolve : InMemoryStore.resolve state snapshot = .ok s) (objectType : String) :
    Fallible.eval (InMemoryStore.store.query state)
      (storeListObjectIds objectType snapshot none) =
        .ok (state.objectIds objectType s) := by
  rw [eval_storeListObjectIds]
  show (InMemoryStore.listObjectIds state objectType snapshot none).mapError _ = _
  rw [InMemoryStore.listObjectIds_eq, hresolve]
  rfl

/-- **Every allowed id is gone through.**  A check that answers `true` is of an
object that a visible tuple is about. -/
theorem mem_objectIds_of_allowed {schema : Schema} {config : EngineConfig}
    {state : InnerState} {input : LookupResourcesInput} {snapshot : Option SnapshotToken}
    {s : Nat} {id : String} (hschema : schema.EveryRule RewriteRule.Populated)
    (hresolve : InMemoryStore.resolve state snapshot = .ok s)
    (hcheck : Fallible.eval (StoreTupleReader.over (InMemoryStore.store.query state))
      (CheckEngine.check ⟨schema, config⟩ (input.request snapshot id)) = .ok ⟨true⟩) :
    id ∈ state.objectIds input.resourceType s := by
  by_contra hunlisted
  have huntupled : ∀ t ∈ state.visible s, t.object ≠ ⟨input.resourceType, id⟩ := by
    intro t ht hobject
    exact hunlisted (mem_objectIds.mpr ⟨t, ht, hobject⟩)
  exact @CheckEngine.check_untupled ⟨schema, config⟩ _ _ hschema
    (input.request snapshot id) (serves_memory hresolve).readsFrom huntupled hcheck

/-- The check answered `true`. -/
def allows : Except CheckError CheckResult → Bool
  | .ok result => result.allowed
  | .error _ => false

theorem eq_ok_of_answers {outcome : Except CheckError CheckResult}
    (h : ∀ e, outcome ≠ .error e) : outcome = .ok ⟨allows outcome⟩ := by
  cases outcome with
  | error e => exact absurd rfl (h e)
  | ok result => rfl

theorem allows_iff {outcome : Except CheckError CheckResult} :
    allows outcome = true ↔ outcome = .ok ⟨true⟩ := by
  cases outcome with
  | error e => simp [allows]
  | ok result =>
      obtain ⟨allowed⟩ := result
      simp [allows]

/-- **The loop, when it succeeds**, has collected the first allowed ids, whether or not
the checks it did not come to would fail. -/
theorem lookupLoop_ok {answer : ∀ q : StoreQuery, q.Reply} {engine : CheckEngine}
    {input : LookupResourcesInput} {snapshot : Option SnapshotToken} {limit : Nat}
    {objectIds results received : List String}
    (h : Fallible.eval answer
      (AuthzService.lookupLoop engine input snapshot limit objectIds results) =
        .ok received) :
    received = results ++ (objectIds.filter fun id => allows (Fallible.eval
      (StoreTupleReader.over answer) (engine.check (input.request snapshot id)))).take
        (limit - results.length) := by
  induction objectIds generalizing results with
  | nil =>
      have hdone : results = received := Except.ok.inj h
      simp [hdone]
  | cons id objectIds ih =>
      unfold AuthzService.lookupLoop at h
      by_cases hfull : results.length ≥ limit
      · rw [if_pos hfull] at h
        have hdone : results = received := Except.ok.inj h
        have hzero : limit - results.length = 0 := by omega
        rw [hzero, List.take_zero, List.append_nil, hdone]
      · rw [if_neg hfull] at h
        obtain ⟨check, hcheck, h⟩ := Fallible.eval_bind_eq_ok.mp h
        have houtcome : Fallible.eval (StoreTupleReader.over answer)
            (engine.check (input.request snapshot id)) = .ok check := by
          rwa [StoreTupleReader.eval_run, mapError_eq_ok] at hcheck
        have hrest := ih h
        cases hallowed : check.allowed with
        | true =>
            obtain ⟨room, hroom⟩ : ∃ room, limit - results.length = room + 1 :=
              ⟨limit - results.length - 1, by omega⟩
            have hlength : limit - (results ++ [id]).length = room := by
              rw [List.length_append, List.length_singleton]
              omega
            rw [hallowed, if_pos rfl, hlength, List.append_assoc] at hrest
            rw [List.filter_cons_of_pos (by rw [houtcome]; exact hallowed), hroom,
              List.take_succ_cons, hrest]
            rfl
        | false =>
            rw [hallowed, if_neg Bool.false_ne_true] at hrest
            rw [List.filter_cons_of_neg
              (by rw [houtcome, allows, hallowed]; exact Bool.false_ne_true), hrest]

/-- **A lookup of resources is exact.**  For an accepted schema, an in-memory
store and a snapshot it has reached, if no check of an object id stored for the
type fails, the lookup returns the first elements of the increasing list of all
ids whose check answers `true`. -/
theorem lookupResources_exact (text : String) (schema : Schema) (config : EngineConfig)
    (state : InnerState) (input : LookupResourcesInput)
    (snapshot : Option SnapshotToken) (hparse : parseSchema text = .ok schema)
    (hsnapshot : Fallible.eval (InMemoryStore.store.query state)
      (AuthzService.resolveSnapshot input.consistency) = .ok snapshot)
    (hreached : ∀ token ∈ snapshot, token ≤ state.currentTx)
    (hchecks : ∀ t ∈ state.visible (snapshot.getD state.currentTx),
      t.object.objectType = input.resourceType →
      ∀ e, Fallible.eval (StoreTupleReader.over (InMemoryStore.store.query state))
        (CheckEngine.check ⟨schema, config⟩
          (input.request snapshot t.object.objectId)) ≠ .error e) :
    ∃ A : List String, A.Pairwise (· < ·) ∧
      (∀ id, id ∈ A ↔
        Fallible.eval (StoreTupleReader.over (InMemoryStore.store.query state))
          (CheckEngine.check ⟨schema, config⟩ (input.request snapshot id)) =
            .ok ⟨true⟩) ∧
      Fallible.eval (InMemoryStore.store.query state)
        (AuthzService.lookupResources schema config input) =
          .ok ⟨A.take (input.limit.getD 1000), snapshot⟩ := by
  have hresolve : InMemoryStore.resolve state snapshot =
      .ok (snapshot.getD state.currentTx) := by
    cases snapshot with
    | none => rfl
    | some token => exact InMemoryStore.resolve_some (hreached token rfl)
  let ids := state.objectIds input.resourceType (snapshot.getD state.currentTx)
  let outcome : String → Except CheckError CheckResult := fun id =>
    Fallible.eval (StoreTupleReader.over (InMemoryStore.store.query state))
      (CheckEngine.check ⟨schema, config⟩ (input.request snapshot id))
  have hanswers : ∀ id ∈ ids, outcome id = .ok ⟨allows (outcome id)⟩ := by
    intro id hid
    obtain ⟨t, ht, hobject⟩ := mem_objectIds.mp hid
    refine eq_ok_of_answers ?_
    have hcheck := hchecks t ht (by rw [hobject])
    rwa [hobject] at hcheck
  refine ⟨ids.filter (fun id => allows (outcome id)), (pairwise_sortDedup _).filter _,
    ?_, ?_⟩
  · intro id
    rw [List.mem_filter, allows_iff]
    exact ⟨fun h => h.2, fun h =>
      ⟨mem_objectIds_of_allowed (parseSchema_populated hparse) hresolve h, h⟩⟩
  · have hloop := @lookupLoop_eq (InMemoryStore.store.query state) ⟨schema, config⟩ input
      snapshot (input.limit.getD 1000) (fun id => allows (outcome id)) ids [] hanswers
    simp only [AuthzService.lookupResources, Fallible.eval_bind, hsnapshot, ok_bind,
      eval_listObjectIds hresolve]
    rw [hloop]
    rfl

/-- A store in which alice is an approved viewer of the given documents. -/
def approvedDocuments (ids : List String) : InnerState :=
  InMemoryStore.store.afterWrites InMemoryStore.new
    [⟨ids.flatMap fun id =>
      [⟨⟨"document", id⟩, "viewer", .direct "user" "alice"⟩,
        ⟨⟨"document", id⟩, "approved", .direct "user" "alice"⟩], []⟩]

/-- Which documents may alice view? -/
def aliceViewsInput (consistency : Consistency) (limit : Option Nat) :
    LookupResourcesInput :=
  { resourceType := "document", permission := "view", subjectType := "user",
    subjectId := "alice", consistency, limit }

/-- Of three documents, one is asked for. -/
theorem lookupResources_exact_first :
    ∃ A : List String, A.Pairwise (· < ·) ∧
      (∀ id, id ∈ A ↔ Fallible.eval (StoreTupleReader.over
        (InMemoryStore.store.query (approvedDocuments ["notes", "plan", "draft"])))
        (CheckEngine.check ⟨approvalSchema, {}⟩
          ((aliceViewsInput .fullConsistency (some 1)).request (some 1) id)) =
            .ok ⟨true⟩) ∧
      Fallible.eval
        (InMemoryStore.store.query (approvedDocuments ["notes", "plan", "draft"]))
        (AuthzService.lookupResources approvalSchema {}
          (aliceViewsInput .fullConsistency (some 1))) = .ok ⟨A.take 1, some 1⟩ := by
  have hok : ∀ t ∈ (approvedDocuments ["notes", "plan", "draft"]).visible 1,
      Fallible.eval (StoreTupleReader.over
        (InMemoryStore.store.query (approvedDocuments ["notes", "plan", "draft"])))
        (CheckEngine.check ⟨approvalSchema, {}⟩
          ((aliceViewsInput .fullConsistency (some 1)).request (some 1)
            t.object.objectId)) = .ok ⟨true⟩ := by
    decide +kernel
  refine lookupResources_exact _ approvalSchema {} _ _ (some 1) parseSchema_approval
    (by decide +kernel) (by decide +kernel) ?_
  intro t ht _ e herror
  cases (hok t ht).symm.trans herror

/-- **A snapshot ahead of the store.**  Nothing is stored, so no id is allowed and
no check of a stored id fails; the request fails all the same. -/
theorem unreached_snapshot_rejected :
    (∃ text, parseSchema text = .ok approvalSchema) ∧
    InMemoryStore.new.tuples = [] ∧
    (∀ id, Fallible.eval (StoreTupleReader.over
      (InMemoryStore.store.query InMemoryStore.new))
      (CheckEngine.check ⟨approvalSchema, {}⟩
        ((aliceViewsInput (.atExactSnapshot 1) none).request (some 1) id)) ≠ .ok ⟨true⟩) ∧
    Fallible.eval (InMemoryStore.store.query InMemoryStore.new)
      (AuthzService.lookupResources approvalSchema {}
        (aliceViewsInput (.atExactSnapshot 1) none)) =
          .error (.storage (.snapshotAhead 1 0)) := by
  refine ⟨⟨_, parseSchema_approval⟩, rfl, ?_, by decide +kernel⟩
  intro id
  have hreads : ReadsFrom (StoreTupleReader.over
      (InMemoryStore.store.query InMemoryStore.new)) (some 1) [] :=
    StoreTupleReader.readsFrom_over (e := .snapshotAhead 1 0) fun _ => rfl
  exact @CheckEngine.check_untupled ⟨approvalSchema, {}⟩ _ _
    (parseSchema_populated parseSchema_approval) _ hreads nofun

end Kraalzibar
