import Kraalzibar.Core.CheckCorrect
import Kraalzibar.Server.Readable
import Kraalzibar.Server.SchemaRaces

/-!
# What a check answers among everything else

A check that reads at a token takes effect at one moment, and what the store shows at the
token is the history of the tenant's successful writes.  So its answer is the meaning of
the permission over the set that this many writes have left, under one schema that was
stored for the tenant, whatever the other operations do meanwhile.

* `tenantWrites` — the writes of a tenant in a log;
* `recorded_storeAlong` — the store along the log records their history;
* `checks_decide_history` — the answer of a check.
-/

namespace Kraalzibar

open Foundations

/-- An answered check over a reader that serves `T` is membership in the model. -/
theorem CheckEngine.check_decides {engine : CheckEngine} {T : List Tuple}
    {reader : TupleReader} {request : CheckRequest} {M : Set VisitKey}
    {result : CheckResult} (hunique : engine.schema.NamesUnique)
    (hstrat : Stratified engine.schema T)
    (hM : IsModel engine.schema T
      (SubjectRef.direct request.subjectType request.subjectId) M)
    (hreader : Serves reader request.snapshot T)
    (h : Fallible.eval reader (engine.check request) = .ok result) :
    result.allowed = true ↔
      (request.objectType, request.objectId, request.permission) ∈ M := by
  obtain ⟨td, pd, htype, hperm, heval⟩ := declared_of_check h
  have hnext := evaluateWithin_decides hunique hstrat hreader hM
    (engine.config.maxDepth + 1)
  have hdecides := hnext (request.objectType, request.objectId, request.permission)
    pd.rule request.context (Schema.declares_of_get htype hperm) ⟨rfl, rfl, rfl⟩
    (by simp [CheckRequest.context])
  have hnil : cutModel engine.schema T
      (SubjectRef.direct request.subjectType request.subjectId) M
      request.context.visited = M := cutModel_nil hM
  rw [hnil] at hdecides
  exact hdecides result.allowed heval

/-! ## The writes of a tenant -/

/-- The write that an entry of the log makes to the tenant's store, if it does. -/
def tenantWrite (tenantId : TenantId) : ServiceCall → Option WriteCall
  | .write other call => if other = tenantId then some call else none
  | _ => none

/-- The writes to the tenant's store, in the order of the log. -/
def tenantWrites (tenantId : TenantId) (log : Log ServiceCall) : List WriteCall :=
  log.filterMap fun entry => tenantWrite tenantId entry.2

/-- **The store along a log** records the history of the successful writes. -/
theorem recorded_storeAlong (tenantId : TenantId) {log : Log ServiceCall}
    (hshort : Short log) :
    InMemoryStore.Recorded (storeAlong tenantId log) (tenantWrites tenantId log) := by
  induction log using List.reverseRecOn with
  | nil => exact InMemoryStore.recorded_new
  | append_singleton log entry ih =>
      have hrecorded := ih (hshort.of_prefix (List.prefix_append _ _))
      have hcount : (successful (tenantWrites tenantId log)).length + 1 < ACTIVE_TX_ID := by
        have hle := storeAlong_currentTx_le tenantId log
        have hlast : (log ++ [entry]).length < ACTIVE_TX_ID := hshort
        rw [List.length_append, List.length_singleton] at hlast
        rw [hrecorded.currentTx] at hle
        omega
      obtain ⟨j, c⟩ := entry
      rw [storeAlong_concat]
      have hwrites : tenantWrites tenantId (log ++ [(j, c)]) =
          tenantWrites tenantId log ++ (tenantWrite tenantId c).toList := by
        unfold tenantWrites
        rw [List.filterMap_append]
        cases h : tenantWrite tenantId c <;> simp [h]
      rw [hwrites]
      cases c with
      | write other call =>
          simp only [ServiceCall.storeAfter, tenantWrite]
          split
          · exact hrecorded.write call hcount
          · rw [Option.toList_none, List.append_nil]
            exact hrecorded
      | writeSchema other definition =>
          simp only [ServiceCall.storeAfter, tenantWrite, Option.toList_none, List.append_nil]
          split
          · exact ⟨hrecorded.currentTx, hrecorded.records⟩
          · exact hrecorded
      | _ =>
          simp only [ServiceCall.storeAfter, tenantWrite, Option.toList_none, List.append_nil]
          exact hrecorded

/-- What is visible at a token handed out is the set that many writes have left. -/
theorem mem_visible_storeAlong {tenantId : TenantId} {log : Log ServiceCall}
    (hshort : Short log) {s : ℕ} (hs : s ≤ (storeAlong tenantId log).currentTx) (t : Tuple) :
    t ∈ (storeAlong tenantId log).visible s ↔
      t ∈ Batch.history (successful (tenantWrites tenantId log)) s := by
  have hrecorded := recorded_storeAlong tenantId hshort
  rw [hrecorded.visible (hrecorded.currentTx ▸ hs), Batch.nodup_contents_and_mem.2]

/-! ## The answer of a check -/

/-- The request that `check_permission` puts to the engine. -/
def CheckPermissionInput.request (input : CheckPermissionInput)
    (snapshot : Option SnapshotToken) : CheckRequest :=
  { objectType := input.objectType, objectId := input.objectId,
    permission := input.permission, subjectType := input.subjectType,
    subjectId := input.subjectId, snapshot }

/-- A check at a token over the store of one moment that has reached it, seen from a later
one. -/
theorem check_at_token {engine : CheckEngine} {request : CheckRequest} {tenantId : TenantId}
    {moment later : Log ServiceCall} {s : ℕ} (hlater : moment <+: later)
    (hshort : Short later) (hsnapshot : request.snapshot = some s)
    (hs : s ≤ (storeAlong tenantId moment).currentTx) {reader : TupleReader}
    (hreader : s ≤ (storeAlong tenantId later).currentTx → ∀ filter,
      reader ⟨filter, some s⟩ =
        .ok (((storeAlong tenantId later).visible s).filter fun t => filter.matches t)) :
    Fallible.eval reader (engine.check request) =
      Fallible.eval (StoreTupleReader.over
        (InMemoryStore.store.query (storeAlong tenantId moment))) (engine.check request) := by
  have hreads : ReadsAt (some s) (engine.check request) :=
    hsnapshot ▸ CheckEngine.check_readsAt rfl
  obtain ⟨hvisible, hreached⟩ := storeAlong_visible hlater hshort hs
  refine Client.Guarded.runWith_congr hreads ?_
  rintro ⟨filter, snapshot⟩ hcall
  obtain rfl : snapshot = some s := hcall
  have hat : StoreQuery.At (some s) (.read filter (some s) none) := rfl
  have hquery := query_some hs hat
  rw [hreader hreached filter, StoreTupleReader.over, hquery, hvisible]
  rfl

/-- An evaluation at a token over the store of one moment, seen from a later one: it reads
what is visible at the token, or makes no read at all. -/
theorem evaluate_at_token {config : ServiceConfig} {schema : Schema}
    {input : CheckPermissionInput} {tenantId : TenantId} {moment later : Log ServiceCall}
    {s : ℕ} {result : CheckResult} (hlater : moment <+: later) (hshort : Short later)
    (h : (storeAlong tenantId moment).answers
      (CachedService.evaluate config schema input (some s)) = .ok result)
    {reader : TupleReader}
    (hreader : s ≤ (storeAlong tenantId later).currentTx → ∀ filter,
      reader ⟨filter, some s⟩ =
        .ok (((storeAlong tenantId later).visible s).filter fun t => filter.matches t)) :
    Fallible.eval reader
      (CheckEngine.check ⟨schema, config.engineConfig⟩ (input.request (some s))) =
        .ok result := by
  unfold InnerState.answers CachedService.evaluate at h
  rw [StoreTupleReader.eval_run, mapError_eq_ok] at h
  by_cases hs : s ≤ (storeAlong tenantId moment).currentTx
  · exact (check_at_token hlater hshort rfl hs hreader).trans h
  · -- every read fails, so an evaluation that succeeds makes none
    have hreads : ReadsAt (some s)
        (CheckEngine.check ⟨schema, config.engineConfig⟩ (input.request (some s))) :=
      CheckEngine.check_readsAt rfl
    have hbad : ∀ call : ReadCall, call.snapshot = some s → ∃ e, StoreTupleReader.over
        (InMemoryStore.store.query (storeAlong tenantId moment)) call = .error e := by
      rintro ⟨filter, snapshot⟩ hsnapshot
      obtain rfl : snapshot = some s := hsnapshot
      have hat : StoreQuery.At (some s) (.read filter (some s) none) := rfl
      obtain ⟨e, he⟩ := query_ahead (Nat.lt_of_not_le hs) hat
      exact ⟨.storageError e.message, by rw [StoreTupleReader.over, he]; rfl⟩
    obtain ⟨result', hdone⟩ | ⟨e, hfailed⟩ := Client.Guarded.done_or_failed hreads hbad
    · have hresult : Fallible.eval _ (CheckEngine.check ⟨schema, config.engineConfig⟩
          (input.request (some s))) = .ok result := h
      unfold Fallible.eval at hresult ⊢
      rw [hdone] at hresult ⊢
      exact hresult
    · cases hfailed.symm.trans h

/-- A token is chosen, unless the latency is to be least: the one that was named, if any. -/
theorem token_of_resolved {store : InnerState} {consistency : Consistency}
    {snapshot : Option SnapshotToken} (hpinned : consistency ≠ .minimizeLatency)
    (h : store.answers (AuthzService.resolveSnapshot consistency) = .ok snapshot) :
    ∃ s, snapshot = some s ∧ ∀ token ∈ consistency.token, s = token := by
  cases consistency with
  | fullConsistency => exact ⟨_, (Except.ok.inj h).symm, nofun⟩
  | minimizeLatency => exact absurd rfl hpinned
  | atLeastAsFresh token =>
      exact ⟨token, (Except.ok.inj h).symm, fun _ ht => Option.some.inj ht⟩
  | atExactSnapshot token =>
      exact ⟨token, (Except.ok.inj h).symm, fun _ ht => Option.some.inj ht⟩

/-- A check that reads at a token and answers has evaluated one stored schema over what is
visible at the token. -/
theorem pinned_check_at_token {config : ServiceConfig} {p : ServicePool}
    (hp : Pool.Steps (operations config) (Pool.init .new) p) (hshort : Short p.log) {i : ℕ}
    {tenantId : TenantId} {input : CheckPermissionInput} {output : CheckPermissionOutput}
    (hi : p.returned i = some ⟨(tenantId, .checkPermission input), .ok output⟩)
    (hpinned : input.consistency ≠ .minimizeLatency) :
    ∃ s text schema, output.snapshot = some s ∧
      (∀ token ∈ input.consistency.token, s = token) ∧
      (∃ earlier, earlier <+: p.log ∧ (storeAlong tenantId earlier).schema = some text) ∧
      parseSchema text = .ok schema ∧
      ∀ reader : TupleReader,
        (s ≤ (storeAlong tenantId p.log).currentTx → ∀ filter, reader ⟨filter, some s⟩ =
          .ok (((storeAlong tenantId p.log).visible s).filter fun t => filter.matches t)) →
        Fallible.eval reader (CheckEngine.check ⟨schema, config.engineConfig⟩
          (input.request (some s))) = .ok ⟨output.allowed⟩ := by
  obtain ⟨_, moment, text, -, -, heffect⟩ := effect_of_returned hp hshort hi hpinned
  obtain ⟨snapshot, hresolve, hr⟩ := bind_eq_ok.mp heffect.result.symm
  obtain ⟨schema, hschema, hr⟩ := bind_eq_ok.mp hr
  obtain ⟨result, hresult, hr⟩ := bind_eq_ok.mp hr
  obtain rfl := Except.ok.inj hr
  obtain ⟨s, rfl, htoken⟩ := token_of_resolved hpinned hresolve
  cases text with
  | none => cases hschema
  | some text =>
      have hparse := SchemaRaces.parseStored_eq_ok.mp hschema
      refine ⟨s, text, schema, rfl, htoken, heffect.stored, hparse, ?_⟩
      intro reader hreader
      exact evaluate_at_token heffect.before hshort hresult hreader

/-- A list with the contents at a token can stand for what is visible there. -/
theorem exists_reader_of_history {tenantId : TenantId} {log : Log ServiceCall}
    (hshort : Short log) {s : ℕ} {D : List Tuple}
    (hD : ∀ t, t ∈ D ↔ t ∈ Batch.history (successful (tenantWrites tenantId log)) s) :
    ∃ reader : TupleReader, Serves reader (some s) D ∧
      (s ≤ (storeAlong tenantId log).currentTx → ∀ filter, reader ⟨filter, some s⟩ =
        .ok (((storeAlong tenantId log).visible s).filter fun t => filter.matches t)) := by
  by_cases hs : s ≤ (storeAlong tenantId log).currentTx
  · refine ⟨listReader ((storeAlong tenantId log).visible s), ?_, fun _ _ => rfl⟩
    intro filter
    refine ⟨_, rfl, fun t => ?_⟩
    rw [List.mem_filter, mem_visible_storeAlong hshort hs, hD t]
  · exact ⟨listReader D, listReader_serves D _, fun h => absurd h hs⟩

/-- **A check decides over the history.**  In every interleaving, a check that reads at a
token and answers, answers whether the permission holds in the reference semantics, over
the set that so many of the tenant's successful writes have left and under one schema that
was stored for the tenant; the token is the one it names, if it names one. -/
theorem checks_decide_history (config : ServiceConfig) {p : ServicePool}
    (hp : Pool.Steps (operations config) (Pool.init .new) p)
    (hcount : p.log.length < 2 ^ 64 - 1) {i : ℕ} {tenantId : TenantId}
    {input : CheckPermissionInput} {output : CheckPermissionOutput}
    (hi : p.returned i = some ⟨(tenantId, .checkPermission input), .ok output⟩)
    (hpinned : input.consistency ≠ .minimizeLatency) :
    ∃ s text schema, output.snapshot = some s ∧
      (∀ token ∈ input.consistency.token, s = token) ∧
      (∃ earlier, earlier <+: p.log ∧ (storeAlong tenantId earlier).schema = some text) ∧
      parseSchema text = .ok schema ∧
      ∀ D : List Tuple,
        (∀ t, t ∈ D ↔ t ∈ Batch.history (successful (tenantWrites tenantId p.log)) s) →
        Stratified schema D →
        ∃ M, IsModel schema D (SubjectRef.direct input.subjectType input.subjectId) M ∧
          (output.allowed = true ↔
            (input.objectType, input.objectId, input.permission) ∈ M) := by
  have hshort : Short p.log := hcount
  obtain ⟨s, text, schema, hsnapshot, htoken, hstored, hparse, hevaluated⟩ :=
    pinned_check_at_token hp hshort hi hpinned
  refine ⟨s, text, schema, hsnapshot, htoken, hstored, hparse, ?_⟩
  intro D hD hstrat
  obtain ⟨M, hM, -⟩ := existsUnique_isModel hstrat
    (SubjectRef.direct input.subjectType input.subjectId)
  obtain ⟨reader, hreader, hvisible⟩ := exists_reader_of_history hshort hD
  exact ⟨M, hM, CheckEngine.check_decides (parseSchema_namesUnique hparse) hstrat hM
    hreader (hevaluated reader hvisible)⟩

theorem checks_decide_history_revoked :
    ∃ s text schema, some 1 = some s ∧
      (∀ token ∈ aliceInput.consistency.token, s = token) ∧
      (∃ earlier, earlier <+: revokedMeanwhile.log ∧
        (storeAlong acme earlier).schema = some text) ∧
      parseSchema text = .ok schema ∧
      ∀ D : List Tuple, (∀ t, t ∈ D ↔
          t ∈ Batch.history (successful (tenantWrites acme revokedMeanwhile.log)) s) →
        Stratified schema D →
        ∃ M, IsModel schema D (SubjectRef.direct "user" "alice") M ∧
          (true = true ↔ ("document", "readme", "view") ∈ M) := by
  have hanswered := ServicePool.returned_of_answered revokedMeanwhile_run.2.1
  exact checks_decide_history {} (aliceViews_steps.trans revokedMeanwhile_steps)
    revokedMeanwhile_count hanswered nofun

end Kraalzibar
