import Kraalzibar.Core.ReadFailures
import Kraalzibar.Server.Tokens

/-!
# Requests that name a token

A request may name a token that was issued to it, and then reads at it.  The stores keep
every version, so no such request fails for its token, however many writes have been made
since and are made meanwhile.

* `Succeeds` — what a request promises while its queries do not fail;
* `Operation.result_noStorageError` — an operation alone, at tokens the store has reached;
* `issued_tokens_stay_readable` — in every interleaving.
-/

namespace Kraalzibar

open Foundations

/-- The token that a request names. -/
def Consistency.token : Consistency → Option SnapshotToken
  | .atLeastAsFresh token => some token
  | .atExactSnapshot token => some token
  | _ => none

/-- How an operation reads, if it does. -/
def Operation.consistency : Operation → Option Consistency
  | .checkPermission input => some input.consistency
  | .expandPermissionTree input => some input.consistency
  | .readRelationships _ consistency _ => some consistency
  | .lookupSubjects input => some input.consistency
  | .lookupResources input => some input.consistency
  | _ => none

/-- The stores failed, or could not read at the token. -/
def ApiError.IsStorage : ApiError → Prop
  | .storage _ => True
  | .check e => e.IsStorage
  | _ => False

/-- Every query is at `snapshot`, and while none fails there is no storage error. -/
def Succeeds {α : Type} (snapshot : Option SnapshotToken) (x : ServiceM α) : Prop :=
  Fallible.Meets (StoreQuery.At snapshot) (fun _ reply => ∃ a, reply = .ok a)
    (fun e => ¬ e.IsStorage) x

section

variable {snapshot : Option SnapshotToken} {α β : Type}

theorem StoreTupleReader.run_succeeds {program : ReadM α}
    (h : FailsWithReads snapshot program) : Succeeds snapshot (run program) := by
  refine Fallible.Meets.mapError (Fallible.Meets.translate ?_ h) ?_
  · intro call hcall
    refine ⟨hcall, ?_⟩
    intro reply hreply
    obtain ⟨tuples, rfl⟩ := hreply
    exact ⟨tuples, rfl⟩
  · exact fun e he => he

/-- A query of the store, followed by `?`. -/
theorem query_succeeds {q : StoreQuery} (hq : q.At snapshot) :
    Succeeds snapshot (ExceptT.mk (Client.request q >>= fun reply =>
      pure (reply.mapError ApiError.storage))) := by
  refine Fallible.Meets.call hq ?_
  intro reply hreply e heq
  obtain ⟨a, rfl⟩ := hreply
  cases heq

theorem lookupLoop_succeeds (engine : CheckEngine) (input : LookupResourcesInput)
    (limit : Nat) (objectIds results : List String) :
    Succeeds snapshot
      (AuthzService.lookupLoop engine input snapshot limit objectIds results) := by
  induction objectIds generalizing results with
  | nil => exact .pure _
  | cons objectId objectIds ih =>
      unfold AuthzService.lookupLoop
      split
      · exact .pure _
      · exact Fallible.Meets.bind
          (StoreTupleReader.run_succeeds (CheckEngine.check_failsWithReads rfl)) fun _ => ih _

theorem evaluate_succeeds (config : ServiceConfig) (schema : Schema)
    (input : CheckPermissionInput) :
    Succeeds snapshot (CachedService.evaluate config schema input snapshot) :=
  StoreTupleReader.run_succeeds (CheckEngine.check_failsWithReads rfl)

/-- The computation does not fail with a storage error. -/
def NoStorageError (x : Except ApiError α) : Prop :=
  ∀ e, x = .error e → ¬ e.IsStorage

theorem NoStorageError.bind {x : Except ApiError α} {f : α → Except ApiError β}
    (hx : NoStorageError x) (hf : ∀ a, x = .ok a → NoStorageError (f a)) :
    NoStorageError (x >>= f) := by
  intro e he
  obtain he | ⟨a, ha, he⟩ := bind_eq_error.mp he
  · exact hx e he
  · exact hf a ha e he

theorem NoStorageError.ok (a : α) : NoStorageError (Except.ok a) :=
  nofun

variable {store : InnerState}

theorem StoreVersion.query_ok (v : StoreVersion) (q : StoreQuery) :
    ∃ a, v.query q = .ok a := by
  cases q <;> exact ⟨_, rfl⟩

/-- At a token the store has reached, or without one, no query fails. -/
theorem query_ok {q : StoreQuery} (hq : q.At snapshot)
    (h : ∀ s ∈ snapshot, s ≤ store.currentTx) :
    ∃ a, InMemoryStore.store.query store q = .ok a := by
  cases snapshot with
  | none =>
      rw [query_none store hq]
      exact StoreVersion.query_ok _ q
  | some s =>
      rw [query_some (h s rfl) hq]
      exact StoreVersion.query_ok _ q

theorem Succeeds.reads {x : ServiceM α} (hx : Succeeds snapshot x)
    (h : ∀ s ∈ snapshot, s ≤ store.currentTx) : NoStorageError (store.answers x) :=
  Client.Meets.runWith hx fun _ hq => query_ok hq h

theorem NoStorageError.mapError {ε : Type} {x : Except ε α} {f : ε → ApiError}
    (hf : ∀ e, ¬ (f e).IsStorage) : NoStorageError (x.mapError f) := by
  cases x with
  | error e =>
      intro e' he
      cases he
      exact hf e
  | ok a => exact .ok a

/-- A snapshot is resolved to one the store has reached. -/
theorem resolve_noStorageError {consistency : Consistency}
    (h : ∀ s ∈ consistency.token, s ≤ store.currentTx) :
    NoStorageError (store.answers (AuthzService.resolveSnapshot consistency)) ∧
      ∀ snapshot, store.answers (AuthzService.resolveSnapshot consistency) = .ok snapshot →
        ∀ s ∈ snapshot, s ≤ store.currentTx := by
  have hgiven : ∀ {given : Option SnapshotToken}, (∀ s ∈ given, s ≤ store.currentTx) →
      NoStorageError (.ok given) ∧ ∀ snapshot,
        (Except.ok given : Except ApiError _) = .ok snapshot →
          ∀ s ∈ snapshot, s ≤ store.currentTx := by
    intro given hs
    refine ⟨.ok given, ?_⟩
    intro snapshot heq
    obtain rfl := Except.ok.inj heq
    exact hs
  cases consistency with
  | fullConsistency => exact hgiven fun s hs => (Option.some.inj hs).symm.le
  | minimizeLatency => exact hgiven nofun
  | atLeastAsFresh token => exact hgiven h
  | atExactSnapshot token => exact hgiven h

theorem parseStored_noStorageError (text : String) : NoStorageError (parseStored text) :=
  .mapError fun _ => id

theorem loadSchema_noStorageError : NoStorageError store.loadSchema := by
  unfold InnerState.loadSchema CachedService.parseText
  cases store.schema with
  | none =>
      intro e he
      cases he
      exact id
  | some text => exact parseStored_noStorageError text

variable {config : ServiceConfig}

theorem expandResult_noStorageError {input : ExpandPermissionInput}
    (h : ∀ s ∈ input.consistency.token, s ≤ store.currentTx) :
    NoStorageError (Operation.expandResult config store input) := by
  obtain ⟨hresolve, hs⟩ := resolve_noStorageError h
  refine hresolve.bind fun snapshot hsnapshot => loadSchema_noStorageError.bind ?_
  intro schema _
  exact NoStorageError.bind (Succeeds.reads
    (StoreTupleReader.run_succeeds (ExpandEngine.expand_failsWithReads rfl))
    (hs snapshot hsnapshot)) fun _ _ => .ok _

theorem writeSchemaResult_noStorageError (definition : String) (force : Bool) :
    NoStorageError (Operation.writeSchemaResult config store definition force) := by
  refine NoStorageError.bind ?_ fun newSchema _ =>
    NoStorageError.bind ?_ fun overridden _ => .ok _
  · exact (parseStored_noStorageError definition).bind fun newSchema _ =>
      NoStorageError.bind (.mapError fun _ => id) fun _ _ => .ok _
  · unfold CachedService.compareStored
    cases store.schema with
    | none => exact .ok _
    | some oldText =>
        refine (parseStored_noStorageError oldText).bind fun oldSchema _ => ?_
        dsimp only
        split
        · intro e he
          cases he
          exact id
        · exact .ok _

/-- **An operation alone** that names no token the store has not reached. -/
theorem Operation.result_noStorageError {op : Operation}
    (hwrite : ∀ call, op ≠ .writeRelationships call)
    (h : ∀ consistency ∈ op.consistency, ∀ s ∈ consistency.token, s ≤ store.currentTx) :
    NoStorageError (op.result config store) := by
  cases op with
  | checkPermission input =>
      obtain ⟨hresolve, hs⟩ := resolve_noStorageError (h _ rfl)
      refine hresolve.bind fun snapshot hsnapshot => loadSchema_noStorageError.bind ?_
      intro schema _
      exact NoStorageError.bind ((evaluate_succeeds config schema input).reads
        (hs snapshot hsnapshot)) fun _ _ => .ok _
  | expandPermissionTree input => exact expandResult_noStorageError (h _ rfl)
  | writeRelationships call => exact absurd rfl (hwrite call)
  | readRelationships filter consistency limit =>
      obtain ⟨hresolve, hs⟩ := resolve_noStorageError (h _ rfl)
      refine hresolve.bind fun snapshot hsnapshot => NoStorageError.bind ?_ fun tuples _ => .ok _
      exact Succeeds.reads (query_succeeds rfl) (hs snapshot hsnapshot)
  | writeSchema definition force => exact writeSchemaResult_noStorageError definition force
  | readSchema => exact .ok _
  | lookupSubjects input =>
      exact NoStorageError.bind (expandResult_noStorageError (h _ rfl)) fun _ _ => .ok _
  | lookupResources input =>
      obtain ⟨hresolve, hs⟩ := resolve_noStorageError (h _ rfl)
      refine hresolve.bind fun snapshot hsnapshot => ?_
      refine NoStorageError.bind (Succeeds.reads (query_succeeds rfl) (hs snapshot hsnapshot)) ?_
      intro objectIds _
      refine loadSchema_noStorageError.bind fun schema _ => ?_
      exact NoStorageError.bind ((lookupLoop_succeeds _ input _ objectIds []).reads
        (hs snapshot hsnapshot)) fun _ _ => .ok _

end

/-! ## Requests without a token -/

/-- The call queries at no token, and does not write relationships. -/
def ServiceCall.Unpinned : ServiceCall → Prop
  | .query _ q => q.At none
  | .write _ _ => False
  | _ => True

/-- The store did not fail. -/
def ServiceCall.Answered : ∀ c : ServiceCall, c.Reply → Prop
  | .query _ _, reply => ∃ a, reply = .ok a
  | .readSchema _, reply => ∃ text, reply = .ok text
  | .writeSchema _ _, reply => reply = .ok ()
  | _, _ => True

theorem ServiceCall.Unpinned.answered {c : ServiceCall} (hc : c.Unpinned)
    (s : ServiceState) : c.Answered (ServiceState.handle true s c).1 := by
  cases c with
  | query tenantId q => exact query_ok hc nofun
  | write tenantId call => cases hc
  | readSchema tenantId => exact ⟨_, rfl⟩
  | writeSchema tenantId definition => rfl
  | _ => trivial

/-- A program that queries at no token, and fails with a storage error only if a store
does. -/
abbrev Unfailing {α : Type} (program : ServiceProgram α) : Prop :=
  Fallible.Meets ServiceCall.Unpinned ServiceCall.Answered (fun e => ¬ e.IsStorage) program

section

variable {config : ServiceConfig} {tenantId : TenantId} {α : Type}

theorem onStore_unfailing {program : ServiceM α} (h : Succeeds none program) :
    Unfailing (onStore tenantId program) := by
  have hquery : ∀ q : StoreQuery, q.At none →
      Client.Meets ServiceCall.Unpinned ServiceCall.Answered
        (fun reply => ∃ a, reply = .ok a)
        (Client.request (ServiceCall.query tenantId q) :
          Client ServiceCall ServiceCall.Reply q.Reply) :=
    fun q hq => ⟨hq, fun _ h => h⟩
  exact Fallible.Meets.translate hquery h

theorem ask_unfailing {c : ServiceCall} (hc : c.Unpinned) : Unfailing (ServiceCall.ask c) :=
  .lift hc

theorem loadSchemaCached_unfailing : Unfailing (CachedService.loadSchemaCached tenantId) := by
  refine (ask_unfailing (c := .schemaGet tenantId) trivial).bind fun cached => ?_
  cases cached with
  | some schema => exact .pure schema
  | none =>
      refine Fallible.Meets.bind (.call trivial ?_) fun text => ?_
      · intro reply hreply e heq
        obtain ⟨text, rfl⟩ := hreply
        cases heq
      · refine Fallible.Meets.bind (.ofExcept ?_) fun schema => ?_
        · cases text with
          | none =>
              intro e he
              cases he
              exact id
          | some text => exact parseStored_noStorageError text
        · exact (ask_unfailing (c := .schemaInsert tenantId schema) trivial).bind fun _ =>
            .pure schema

theorem resolved_unfailing {rest : Option SnapshotToken → ServiceProgram α}
    (h : Unfailing (rest none)) :
    Unfailing (onStore tenantId (AuthzService.resolveSnapshot .minimizeLatency) >>= rest) :=
  h

theorem expandPermissionTree_unfailing {input : ExpandPermissionInput}
    (h : input.consistency = .minimizeLatency) :
    Unfailing (CachedService.expandPermissionTree config tenantId input) := by
  unfold CachedService.expandPermissionTree
  rw [h]
  refine resolved_unfailing ?_
  exact loadSchemaCached_unfailing.bind fun schema => Fallible.Meets.bind
    (onStore_unfailing (StoreTupleReader.run_succeeds
      (ExpandEngine.expand_failsWithReads rfl))) fun tree => .pure _

/-- **An operation without a token** asks for none. -/
theorem Operation.program_unfailing {op : Operation}
    (hop : op.consistency = some .minimizeLatency) :
    Unfailing (op.program config tenantId) := by
  cases op with
  | checkPermission input =>
      obtain h := Option.some.inj hop
      show Unfailing (CachedService.checkPermissionWith _ _ _ _)
      unfold CachedService.checkPermissionWith
      rw [h]
      refine resolved_unfailing ?_
      exact loadSchemaCached_unfailing.bind fun schema => Fallible.Meets.bind
        (onStore_unfailing (evaluate_succeeds config schema input)) fun result => .pure _
  | expandPermissionTree input => exact expandPermissionTree_unfailing (Option.some.inj hop)
  | readRelationships filter consistency limit =>
      obtain rfl := Option.some.inj hop
      have hread : Succeeds none (storeRead filter none limit) := query_succeeds rfl
      refine resolved_unfailing ?_
      exact (onStore_unfailing hread).bind fun tuples => .pure _
  | lookupSubjects input =>
      exact Fallible.Meets.bind (expandPermissionTree_unfailing (Option.some.inj hop))
        fun output => .pure _
  | lookupResources input =>
      obtain h := Option.some.inj hop
      show Unfailing (CachedService.lookupResources _ _ _)
      unfold CachedService.lookupResources
      rw [h]
      refine resolved_unfailing ?_
      have hlist : Succeeds none (storeListObjectIds input.resourceType none none) :=
        query_succeeds rfl
      refine Fallible.Meets.bind (onStore_unfailing hlist) fun objectIds => ?_
      refine loadSchemaCached_unfailing.bind fun schema => ?_
      exact Fallible.Meets.bind
        (onStore_unfailing (lookupLoop_succeeds _ input _ objectIds [])) fun ids => .pure _
  | _ => cases hop

end

/-- In every interleaving, an operation without a token has no storage error. -/
theorem unpinned_noStorageError {config : ServiceConfig} {p : ServicePool}
    (hp : Pool.Steps (operations config) (Pool.init .new) p) {i : ℕ} {op : TenantOp}
    {r : op.Result} (hi : p.returned i = some ⟨op, r⟩)
    (hop : op.2.consistency = some .minimizeLatency) : NoStorageError r := by
  have hok : Pool.Ok (operations config) (fun _ _ => True)
      (fun _ op _ _ r => op.2.consistency = some .minimizeLatency → NoStorageError r) p := by
    refine hp.ok ?_ (fun _ _ _ _ _ => trivial) (.init trivial)
    intro i op origin _
    by_cases hop : op.2.consistency = some .minimizeLatency
    · refine Safe.imp (Client.Meets.safe (op.2.program_unfailing hop) ?_) fun _ _ h _ => h
      exact fun log s c _ _ hc => ⟨trivial, hc.answered s⟩
    · have hany : Client.Meets (fun _ => True) (fun _ _ => True) (fun _ => True)
          ((operations config).program op) := Client.Meets.trivial _
      refine Safe.imp (hany.safe ?_) fun _ _ _ h => absurd h hop
      exact fun log s c _ _ _ => ⟨trivial, trivial⟩
  obtain ⟨_, _, _, _, hpost⟩ := hok.returned hi
  exact hpost hop

/-- An operation that is not pinned names no token. -/
theorem Operation.unpinned {op : Operation} (h : ¬ op.Pinned) :
    op.consistency = some .minimizeLatency := by
  cases op with
  | checkPermission input => exact congrArg some (not_not.mp h)
  | expandPermissionTree input => exact congrArg some (not_not.mp h)
  | lookupSubjects input => exact congrArg some (not_not.mp h)
  | lookupResources input => exact congrArg some (not_not.mp h)
  | _ => exact absurd trivial h

/-- **An issued token stays readable.**  In every interleaving, a request that starts after
a token was issued to its tenant, and names that token or an earlier one, or none, is never
refused for it: whatever it fails with, no store has failed. -/
theorem issued_tokens_stay_readable (config : ServiceConfig) {p q : ServicePool}
    (hp : Pool.Steps (operations config) (Pool.init .new) p)
    (hq : Pool.Steps (operations config) p q) (hcount : q.log.length < 2 ^ 64 - 1)
    {i j : ℕ} {tenantId : TenantId} {op op' : Operation} {r : op.Result} {r' : op'.Result}
    {t : ℕ} (hi : p.returned i = some ⟨(tenantId, op), r⟩) (ht : op.issued r = some t)
    (hnew : p.threads j = none) (hj : q.returned j = some ⟨(tenantId, op'), r'⟩)
    (hread : ∀ call, op' ≠ .writeRelationships call)
    (htoken : ∀ consistency ∈ op'.consistency, ∀ s ∈ consistency.token, s ≤ t)
    {e : ApiError} (he : r' = .error e) : ¬ e.IsStorage := by
  by_cases hop : op'.Pinned
  · have hqshort : Short q.log := hcount
    obtain ⟨_, moment, text, -, -, heffect⟩ := effect_of_returned hp
      (hqshort.of_prefix hq.log) hi (Operation.pinned_of_issued ht)
    obtain ⟨origin', moment', text', hthread', hmoment', heffect'⟩ :=
      effect_of_returned (hp.trans hq) hqshort hj hop
    have hstarted : p.log <+: moment' := (hq.origin hnew hthread').trans hmoment'
    have hreached := (heffect.issued_bounds ht).2.trans
      (storeAlong_currentTx_mono tenantId hstarted)
    have hreads : NoStorageError (op'.result config
        { storeAlong tenantId moment' with schema := text' }) :=
      Operation.result_noStorageError hread fun consistency hconsistency s hs =>
        (htoken consistency hconsistency s hs).trans hreached
    exact hreads e (heffect'.result.symm.trans he)
  · exact unpinned_noStorageError (hp.trans hq) hj (Operation.unpinned hop) e he

def aliceEditsAtFirst : CheckPermissionInput :=
  ⟨"document", "readme", "edit", "user", "alice", .atExactSnapshot 1⟩

/-- After the document was taken back, a request still reads at the first token. -/
def readAtFirst : ServicePool :=
  revokedMeanwhile.play (operations {})
    [.start 4 (acme, .checkPermission aliceEditsAtFirst), .call 4, .call 4, .call 4]

theorem issued_tokens_stay_readable_first :
    ¬ (ApiError.check (.permissionNotFound "document" "edit")).IsStorage := by
  have hrun : readAtFirst.answered 4 acme aliceEditsAtFirst
        (.error (.check (.permissionNotFound "document" "edit"))) = true ∧
      (aliceViews.threads 4).isNone = true ∧
      readAtFirst.log.length < 2 ^ 64 - 1 := by
    decide +kernel
  obtain ⟨hanswered, hnew, hcount⟩ := hrun
  have htoken : ∀ consistency ∈ (Operation.checkPermission aliceEditsAtFirst).consistency,
      ∀ s ∈ consistency.token, s ≤ 1 := by
    intro consistency hconsistency s hs
    obtain rfl := Option.some.inj hconsistency
    exact (Option.some.inj hs).symm.le
  exact issued_tokens_stay_readable {} aliceViews_steps
    (revokedMeanwhile_steps.trans (Pool.play_steps _)) hcount aliceViews_wrote rfl
    (Option.isNone_iff_eq_none.mp hnew) (ServicePool.returned_of_answered hanswered) nofun
    htoken rfl

end Kraalzibar
