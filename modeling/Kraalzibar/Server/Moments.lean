import Kraalzibar.Server.Traces

/-!
# Operations take effect at one moment

Among any operations of any tenants, an operation that reads at a snapshot returns what
it returns alone on the tenant's store as it was at one moment of its run.  Only the
schema may be another one: a schema that was stored for the tenant at some time, since
the caches may still hold it.

* `KeepsTrace` — a part of an operation keeps the invariant of the log;
* `onStore_keeps_at` — queries at a token;
* `loadSchemaCached_keeps`, `checkAt_keeps` — what the caches answer;
* `operations_take_effect_at_once` — the result.
-/

namespace Kraalzibar

open Foundations

/-! ## Parts of an operation -/

/-- The interleavings of all operations, as long as their log is short. -/
def shortOperations (config : ServiceConfig) :
    System ServiceState TenantOp ServiceCall ServiceCall.Reply TenantOp.Result :=
  (operations config).within Short

/-- What thread `i` does keeps the invariant, and ends with `post`. -/
abbrev KeepsTrace (config : ServiceConfig) (i : ℕ) {α : Type}
    (post : Log ServiceCall → Except ApiError α → Prop) (log : Log ServiceCall)
    (program : ServiceProgram α) : Prop :=
  Safe (shortOperations config) (Traced config) i post log program.run

section

variable {config : ServiceConfig} {tenantId : TenantId} {log moment origin : Log ServiceCall}
variable {i : ℕ} {s : SnapshotToken} {α : Type}

/-- A call that puts nothing into a cache. -/
theorem Traced.call {later : Log ServiceCall} {c : ServiceCall} {state : ServiceState}
    (h : Traced config later state) (hallowed : (shortOperations config).allows later i c)
    (hschema : ∀ tenantId schema, c ≠ .schemaInsert tenantId schema := by nofun)
    (hcheck : ∀ key allowed, c ≠ .checkInsert key allowed := by nofun) :
    Traced config (later ++ [(i, c)]) (ServiceState.handle true state c).2 :=
  h.step hallowed.2 (fun _ _ heq => absurd heq (hschema _ _))
    (fun _ _ heq => absurd heq (hcheck _ _))

/-- A query is answered by the tenant's store at that moment. -/
theorem query_keeps (q : StoreQuery) (log : Log ServiceCall) :
    Safe (shortOperations config) (Traced config) i
      (fun later r => ∃ before, log <+: before ∧ before <+: later ∧ Short before ∧
        Short later ∧ r = answersAlong tenantId before q) log
      (Client.request (ServiceCall.query tenantId q) :
        Client ServiceCall ServiceCall.Reply q.Reply) := by
  refine Safe.call ?_
  intro before state hlog hs hallowed
  have hprefix : before <+: before ++ [(i, ServiceCall.query tenantId q)] :=
    List.prefix_append _ _
  refine ⟨hs.call hallowed, before, hlog, hprefix, Short.of_prefix hprefix hallowed.2,
    hallowed.2, ?_⟩
  show InMemoryStore.store.query (state.stores tenantId) q = _
  rw [hs.stores]
  rfl

/-- **Queries at a token** are all answered as at the moment of the first. -/
theorem onStore_keeps_at {program : ServiceM α} (hprogram : QueriesAt (some s) program)
    (hlog : Short log) :
    KeepsTrace config i (fun later r => ∃ moment, log <+: moment ∧ moment <+: later ∧
      Short later ∧ r = (storeAlong tenantId moment).answers program) log
      (onStore tenantId program) := by
  refine Safe.imp (Safe.translate_at (fun q log => query_keeps q log)
    (fun moment _ => answersAlong_fixed_or_error s moment) hprogram hlog) ?_
  intro later r hr
  obtain ⟨moment, hmoment, hlater, -, hshort, hr⟩ := hr
  exact ⟨moment, hmoment, hlater, hshort, hr⟩

/-- Queries at a token handed out by `moment` are answered as then. -/
theorem onStore_keeps_fixed {program : ServiceM α} (hprogram : QueriesAt (some s) program)
    (hs : s ≤ (storeAlong tenantId moment).currentTx) (hmoment : moment <+: log)
    (hlog : Short log) :
    KeepsTrace config i (fun later r => log <+: later ∧ Short later ∧
      r = (storeAlong tenantId moment).answers program) log (onStore tenantId program) :=
  Safe.translate_fixed (fun q log => query_keeps q log)
    (fun _ hlater hshort _ hq => answersAlong_fixed hs hlater hshort hq) hprogram hmoment
    hlog

/-- A program of one query is answered at one moment. -/
theorem onStore_keeps_query {q : StoreQuery} (f : q.Reply → Except ApiError α)
    (log : Log ServiceCall) :
    KeepsTrace config i (fun later r => ∃ moment, log <+: moment ∧ moment <+: later ∧
      Short later ∧ r = f (answersAlong tenantId moment q)) log
      (onStore tenantId (ExceptT.mk (Client.request q >>= fun reply => pure (f reply)))) := by
  refine Safe.bind (query_keeps q log) ?_
  intro later r _ hr
  obtain ⟨moment, hmoment, hlater, -, hshort, rfl⟩ := hr
  exact ⟨moment, hmoment, hlater, hshort, rfl⟩

/-- Whatever a program asks the stores keeps the invariant. -/
theorem onStore_keeps (program : ServiceM α) :
    KeepsTrace config i (fun _ _ => True) log (onStore tenantId program) := by
  have hquery : ∀ q : StoreQuery, True →
      Client.Meets (fun c => ∃ q, c = ServiceCall.query tenantId q) (fun _ _ => True)
        (fun _ => True) (Client.request (ServiceCall.query tenantId q) :
          Client ServiceCall ServiceCall.Reply q.Reply) :=
    fun q _ => ⟨⟨q, rfl⟩, fun _ _ => trivial⟩
  have hqueries : Client.Meets (fun c => ∃ q, c = ServiceCall.query tenantId q)
      (fun _ _ => True) (fun _ => True) (onStore tenantId program).run :=
    Client.Meets.translate hquery (Client.Meets.trivial program.run)
  refine hqueries.safe ?_
  intro log state c hs hallowed hc
  obtain ⟨q, rfl⟩ := hc
  exact ⟨hs.call hallowed, trivial⟩

theorem storeReadSchema_keeps (log : Log ServiceCall) :
    KeepsTrace config i (fun later r => ∃ moment, log <+: moment ∧ moment <+: later ∧
      Short later ∧ r = .ok (storeAlong tenantId moment).schema) log
      (storeReadSchema tenantId) := by
  refine Safe.call ?_
  intro moment state hlog hs hallowed
  refine ⟨hs.call hallowed, moment, hlog, List.prefix_append _ _, hallowed.2, ?_⟩
  show Except.ok (state.stores tenantId).schema = _
  rw [hs.stores]

/-- **The schema that is loaded** was stored for the tenant at some time. -/
theorem loadSchemaCached_keeps (log : Log ServiceCall) :
    KeepsTrace config i (fun later r => log <+: later ∧ Short later ∧
      ∃ text, WasStored tenantId later text ∧ r = CachedService.parseText text) log
      (CachedService.loadSchemaCached tenantId) := by
  refine Safe.call ?_
  intro later state hlog hs hallowed
  have hprefix : later <+: later ++ [(i, ServiceCall.schemaGet tenantId)] :=
    List.prefix_append _ _
  refine ⟨hs.call hallowed, ?_⟩
  cases hget : state.schemaCache tenantId with
  | some schema =>
      obtain ⟨text, hstored, hparse⟩ := hs.schemas tenantId schema hget
      have hdone : KeepsTrace config i (fun later r => log <+: later ∧ Short later ∧
          ∃ text, WasStored tenantId later text ∧ r = CachedService.parseText text)
          (later ++ [(i, .schemaGet tenantId)]) (pure schema) :=
        ⟨hlog.trans hprefix, hallowed.2, text, hstored.mono hprefix, hparse.symm⟩
      have hreply : ((shortOperations config).handle state (.schemaGet tenantId)).1 =
          some schema := hget
      rw [hreply]
      exact hdone
  | none =>
      have hreply : ((shortOperations config).handle state (.schemaGet tenantId)).1 =
          none := hget
      rw [hreply]
      refine Safe.andThen (storeReadSchema_keeps _) ?_ ?_
      · intro read text _ hread
        obtain ⟨moment, hmoment, hread, hshort, htext⟩ := hread
        obtain rfl := Except.ok.inj htext
        have hstored : WasStored tenantId read (storeAlong tenantId moment).schema :=
          wasStored_now.mono hread
        have horigin : log <+: read :=
          ((hlog.trans hprefix).trans hmoment).trans hread
        refine Safe.andThen (M := fun later r => read <+: later ∧ Short later ∧
          r = CachedService.parseText (storeAlong tenantId moment).schema)
          ⟨List.prefix_rfl, hshort, rfl⟩ ?_ ?_
        · intro later schema _ hparse
          obtain ⟨hlater, -, hparse⟩ := hparse
          refine Safe.call ?_
          intro last state hlast hs hallowed
          have hinsert : last <+: last ++ [(i, ServiceCall.schemaInsert tenantId schema)] :=
            List.prefix_append _ _
          refine ⟨hs.step hallowed.2 ?_ nofun, ?_⟩
          · intro other parsed heq
            cases heq
            exact ⟨_, hstored.mono (hlater.trans hlast), hparse.symm⟩
          · exact ⟨((horigin.trans hlater).trans hlast).trans hinsert, hallowed.2, _,
              hstored.mono ((hlater.trans hlast).trans hinsert), hparse⟩
        · intro later e _ hparse
          obtain ⟨hlater, hshort, hparse⟩ := hparse
          exact ⟨horigin.trans hlater, hshort, _, hstored.mono hlater, hparse⟩
      · intro later e _ hread
        obtain ⟨moment, -, -, -, hread⟩ := hread
        cases hread

/-! ### Operations at a snapshot -/

/-- `r` is what `result` says of the tenant's store at a moment since `origin`, under a
schema that was stored for the tenant at some time. -/
def TakesEffect (tenantId : TenantId) (result : InnerState → Except ApiError α)
    (origin later : Log ServiceCall) (r : Except ApiError α) : Prop :=
  ∃ moment text, origin <+: moment ∧ moment <+: later ∧ WasStored tenantId later text ∧
    r = result { storeAlong tenantId moment with schema := text }

theorem TakesEffect.weaken {result : InnerState → Except ApiError α}
    {earlier later : Log ServiceCall} {r : Except ApiError α} (horigin : earlier <+: origin)
    (h : TakesEffect tenantId result origin later r) :
    TakesEffect tenantId result earlier later r := by
  obtain ⟨moment, text, hmoment, hrest⟩ := h
  exact ⟨moment, text, horigin.trans hmoment, hrest⟩

/-- **Resolving the snapshot first.**  An operation that takes effect at a moment once
its snapshot is given, and the same at any later one once the snapshot is handed out,
takes effect at a moment when it resolves the snapshot itself. -/
theorem resolved_keeps {consistency : Consistency}
    {rest : Option SnapshotToken → ServiceProgram α}
    {result : Option SnapshotToken → InnerState → Except ApiError α}
    (hpinned : consistency ≠ .minimizeLatency)
    (hrest : ∀ s log, KeepsTrace config i (fun later r => Short later ∧
      TakesEffect tenantId (result (some s)) log later r) log (rest (some s)))
    (hfixed : ∀ s moment later text, moment <+: later → Short later →
      s ≤ (storeAlong tenantId moment).currentTx →
      result (some s) { storeAlong tenantId later with schema := text } =
        result (some s) { storeAlong tenantId moment with schema := text }) :
    KeepsTrace config i (TakesEffect tenantId (fun store =>
      store.answers (AuthzService.resolveSnapshot consistency) >>= fun snapshot =>
        result snapshot store) origin) origin
      (onStore tenantId (AuthzService.resolveSnapshot consistency) >>= rest) := by
  cases consistency with
  | fullConsistency =>
      refine Safe.call ?_
      intro moment state horigin hs hallowed
      refine ⟨hs.call hallowed, ?_⟩
      have hbefore : moment <+: moment ++ [(i, ServiceCall.query tenantId .snapshot)] :=
        List.prefix_append _ _
      have hreply : ((shortOperations config).handle state (.query tenantId .snapshot)).1 =
          .ok (storeAlong tenantId moment).currentTx := by
        show Except.ok (state.stores tenantId).currentTx = _
        rw [hs.stores]
      rw [hreply]
      refine Safe.imp (hrest (storeAlong tenantId moment).currentTx _) ?_
      intro later r hr
      obtain ⟨hshort, read, text, hread, hlater, hstored, rfl⟩ := hr
      refine ⟨moment, text, horigin, (hbefore.trans hread).trans hlater, hstored, ?_⟩
      exact hfixed _ _ _ _ (hbefore.trans hread) (hshort.of_prefix hlater) le_rfl
  | minimizeLatency => exact absurd rfl hpinned
  | atLeastAsFresh token => exact Safe.imp (hrest token origin) fun _ _ h => h.2
  | atExactSnapshot token => exact Safe.imp (hrest token origin) fun _ _ h => h.2

/-- A request under a schema that is loaded first. -/
theorem loaded_keeps {β : Type} {program : Schema → ServiceM β} {f : β → α}
    {last : β → ServiceProgram α}
    (hprogram : ∀ schema, QueriesAt (some s) (program schema))
    (hlast : ∀ moment later text schema b, moment <+: later →
      WasStored tenantId later text → Short later →
      CachedService.parseText text = .ok schema →
      (storeAlong tenantId moment).answers (program schema) = .ok b →
      KeepsTrace config i (fun final r => later <+: final ∧ Short final ∧ r = .ok (f b)) later
        (last b)) :
    KeepsTrace config i (fun later r => Short later ∧ TakesEffect tenantId (fun store => do
        let schema ← store.loadSchema
        let b ← store.answers (program schema)
        return f b) log later r) log
      (do
        let schema ← CachedService.loadSchemaCached tenantId
        let b ← onStore tenantId (program schema)
        last b) := by
  refine Safe.andThen (loadSchemaCached_keeps log) ?_ ?_
  · intro loaded schema _ hload
    obtain ⟨hloaded, hshort, text, hstored, hparse⟩ := hload
    refine Safe.andThen (onStore_keeps_at (hprogram schema) hshort) ?_ ?_
    · intro read b _ hread
      obtain ⟨moment, hmoment, hread, hreadShort, hb⟩ := hread
      have hstored' : WasStored tenantId read text := hstored.mono (hmoment.trans hread)
      refine Safe.imp (hlast moment read text schema b hread hstored' hreadShort
        hparse.symm hb.symm) ?_
      intro final r hr
      obtain ⟨hfinal, hfinalShort, rfl⟩ := hr
      refine ⟨hfinalShort, moment, text, hloaded.trans hmoment, hread.trans hfinal,
        hstored'.mono hfinal, Eq.symm ?_⟩
      exact bind_eq_ok.mpr ⟨schema, hparse.symm, bind_eq_ok.mpr ⟨b, hb.symm, rfl⟩⟩
    · intro read e _ hread
      obtain ⟨moment, hmoment, hread, hreadShort, he⟩ := hread
      refine ⟨hreadShort, moment, text, hloaded.trans hmoment, hread,
        hstored.mono (hmoment.trans hread), Eq.symm ?_⟩
      exact bind_eq_error.mpr
        (.inr ⟨schema, hparse.symm, bind_eq_error.mpr (.inl he.symm)⟩)
  · intro loaded e _ hload
    obtain ⟨hloaded, hshort, text, hstored, hparse⟩ := hload
    refine ⟨hshort, loaded, text, hloaded, List.prefix_rfl, hstored, Eq.symm ?_⟩
    exact bind_eq_error.mpr (.inl hparse.symm)

/-- What a check answers at a snapshot. -/
def checkResultAt (config : ServiceConfig) (input : CheckPermissionInput)
    (snapshot : Option SnapshotToken) (store : InnerState) :
    Except ApiError CheckPermissionOutput := do
  let schema ← store.loadSchema
  let result ← store.answers (CachedService.evaluate config schema input snapshot)
  return { allowed := result.allowed, snapshot }

/-- A cached decision is what the check answers. -/
theorem checkResultAt_of_decision {input : CheckPermissionInput} {store : InnerState}
    {allowed : Bool}
    (h : (CachedService.cacheKey tenantId input s).decision config store = .ok allowed) :
    checkResultAt config input (some s) store = .ok ⟨allowed, some s⟩ := by
  obtain ⟨schema, hschema, h⟩ := bind_eq_ok.mp h
  obtain ⟨result, hresult, h⟩ := bind_eq_ok.mp h
  obtain rfl := Except.ok.inj h
  exact bind_eq_ok.mpr ⟨schema, hschema, bind_eq_ok.mpr ⟨result, hresult, rfl⟩⟩

/-- A check at a token takes effect at one moment, also when the cache answers. -/
theorem checkAt_keeps (input : CheckPermissionInput) (s : SnapshotToken)
    (log : Log ServiceCall) :
    KeepsTrace config i (fun later r => Short later ∧
      TakesEffect tenantId (checkResultAt config input (some s)) log later r) log
      (do
        match ← ServiceCall.ask (.checkGet (CachedService.cacheKey tenantId input s)) with
        | some cachedAllowed => return { allowed := cachedAllowed, snapshot := some s }
        | none =>
            let schema ← CachedService.loadSchemaCached tenantId
            let result ← onStore tenantId
              (CachedService.evaluate config schema input (some s))
            ServiceCall.ask
              (.checkInsert (CachedService.cacheKey tenantId input s) result.allowed)
            return { allowed := result.allowed, snapshot := some s }) := by
  refine Safe.call ?_
  intro later state hlog hs hallowed
  have hprefix : later <+:
      later ++ [(i, ServiceCall.checkGet (CachedService.cacheKey tenantId input s))] :=
    List.prefix_append _ _
  refine ⟨hs.call hallowed, ?_⟩
  cases hget : ((shortOperations config).handle state
      (.checkGet (CachedService.cacheKey tenantId input s))).1 with
  | some allowed =>
      obtain ⟨text, hstored, hdecision⟩ := hs.checks _ allowed hget
      exact ⟨hallowed.2, later, text, hlog, hprefix, hstored.mono hprefix,
        (checkResultAt_of_decision hdecision).symm⟩
  | none =>
      refine Safe.imp (loaded_keeps (fun schema => evaluate_queriesAt schema input (some s))
        (f := fun result => ⟨result.allowed, some s⟩) ?_) ?_
      · intro moment read text schema result hmoment hstored hshort hparse hresult
        refine Safe.call ?_
        intro last state hlast hs hallowed
        have hinsert : last <+: last ++ [(i, ServiceCall.checkInsert
            (CachedService.cacheKey tenantId input s) result.allowed)] :=
          List.prefix_append _ _
        refine ⟨hs.step hallowed.2 nofun ?_, hlast.trans hinsert, hallowed.2, rfl⟩
        intro key allowed heq
        cases heq
        refine ⟨text, hstored.mono hlast, CheckCacheKey.decision_later
          (hmoment.trans hlast) (Short.of_prefix hinsert hallowed.2) ?_⟩
        exact bind_eq_ok.mpr ⟨schema, hparse, bind_eq_ok.mpr ⟨result, hresult, rfl⟩⟩
      · intro final r hr
        exact ⟨hr.1, hr.2.weaken (hlog.trans hprefix)⟩

theorem checkPermission_keeps (input : CheckPermissionInput)
    (hpinned : input.consistency ≠ .minimizeLatency) :
    KeepsTrace config i (TakesEffect tenantId (fun store =>
      Operation.checkResult config store input) origin) origin
      (CachedService.checkPermission config tenantId input) := by
  refine resolved_keeps hpinned (fun s log => checkAt_keeps input s log) ?_
  intro s moment later text hlater hshort hs
  refine bind_congr fun schema => ?_
  have hqueries : QueriesAt (some s) (CachedService.evaluate config schema input (some s)) :=
    evaluate_queriesAt schema input (some s)
  have hanswers := hqueries.answers_fixed hs hlater hshort
  exact congrArg (· >>= _) hanswers

theorem expandPermissionTree_keeps (input : ExpandPermissionInput)
    (hpinned : input.consistency ≠ .minimizeLatency) :
    KeepsTrace config i (TakesEffect tenantId (fun store =>
      Operation.expandResult config store input) origin) origin
      (CachedService.expandPermissionTree config tenantId input) := by
  have hqueries : ∀ schema (snapshot : Option SnapshotToken), QueriesAt snapshot
      (StoreTupleReader.run (ExpandEngine.expand ⟨schema, config.engineConfig⟩
        { objectType := input.objectType, objectId := input.objectId,
          permission := input.permission, snapshot })) :=
    fun schema snapshot => StoreTupleReader.run_queriesAt (ExpandEngine.expand_readsAt rfl)
  refine resolved_keeps hpinned (fun s log => ?_) ?_
  · refine loaded_keeps (fun schema => hqueries schema (some s))
      (f := fun tree => ({ tree, snapshot := some s } : ExpandPermissionOutput)) ?_
    intro moment read text schema tree _ _ hshort _ _
    exact ⟨List.prefix_rfl, hshort, rfl⟩
  · intro s moment later text hlater hshort hs
    refine bind_congr fun schema => ?_
    have hanswers := (hqueries schema (some s)).answers_fixed hs hlater hshort
    exact congrArg (· >>= _) hanswers

theorem lookupSubjects_keeps (input : LookupSubjectsInput)
    (hpinned : input.consistency ≠ .minimizeLatency) :
    KeepsTrace config i (TakesEffect tenantId (fun store =>
      (Operation.lookupSubjects input).result config store) origin) origin
      (CachedService.lookupSubjects config tenantId input) := by
  refine Safe.andThen (expandPermissionTree_keeps _ hpinned) ?_ ?_
  · intro later output _ houtput
    obtain ⟨moment, text, hmoment, hlater, hstored, houtput⟩ := houtput
    refine ⟨moment, text, hmoment, hlater, hstored, Eq.symm ?_⟩
    exact bind_eq_ok.mpr ⟨output, houtput.symm, rfl⟩
  · intro later e _ houtput
    obtain ⟨moment, text, hmoment, hlater, hstored, houtput⟩ := houtput
    refine ⟨moment, text, hmoment, hlater, hstored, Eq.symm ?_⟩
    exact bind_eq_error.mpr (.inl houtput.symm)

/-- The object ids are listed before the schema is loaded: listing them succeeds only at
a token that was handed out. -/
theorem lookupResources_keeps (input : LookupResourcesInput)
    (hpinned : input.consistency ≠ .minimizeLatency) :
    KeepsTrace config i (TakesEffect tenantId (fun store =>
      (Operation.lookupResources input).result config store) origin) origin
      (CachedService.lookupResources config tenantId input) := by
  refine resolved_keeps hpinned (fun s log => ?_) ?_
  · refine Safe.andThen (onStore_keeps_query _ log) ?_ ?_
    · intro listed objectIds _ hlist
      obtain ⟨moment, hmoment, hlisted, hshort, hlist⟩ := hlist
      have hs : s ≤ (storeAlong tenantId moment).currentTx := by
        by_contra hahead
        have hat : StoreQuery.At (some s)
            (.listObjectIds input.resourceType (some s) none) := rfl
        obtain ⟨e, he⟩ := query_ahead (Nat.lt_of_not_le hahead) hat
        unfold answersAlong at hlist
        rw [he] at hlist
        cases hlist
      refine Safe.andThen (loadSchemaCached_keeps listed) ?_ ?_
      · intro loaded schema _ hload
        obtain ⟨hloaded, hshort, text, hstored, hparse⟩ := hload
        refine Safe.andThen (onStore_keeps_fixed (AuthzService.lookupLoop_queriesAt _ _ _ _ _ _)
          hs (hlisted.trans hloaded) hshort) ?_ ?_
        · intro later resourceIds _ hloop
          obtain ⟨hlater, hshort, hloop⟩ := hloop
          refine ⟨hshort, moment, text, hmoment, (hlisted.trans hloaded).trans hlater,
            hstored.mono hlater, Eq.symm ?_⟩
          exact bind_eq_ok.mpr ⟨objectIds, hlist.symm, bind_eq_ok.mpr ⟨schema, hparse.symm,
            bind_eq_ok.mpr ⟨resourceIds, hloop.symm, rfl⟩⟩⟩
        · intro later e _ hloop
          obtain ⟨hlater, hshort, hloop⟩ := hloop
          refine ⟨hshort, moment, text, hmoment, (hlisted.trans hloaded).trans hlater,
            hstored.mono hlater, Eq.symm ?_⟩
          exact bind_eq_error.mpr (.inr ⟨objectIds, hlist.symm, bind_eq_error.mpr
            (.inr ⟨schema, hparse.symm, bind_eq_error.mpr (.inl hloop.symm)⟩)⟩)
      · intro loaded e _ hload
        obtain ⟨hloaded, hshort, text, hstored, hparse⟩ := hload
        refine ⟨hshort, moment, text, hmoment, hlisted.trans hloaded, hstored, Eq.symm ?_⟩
        exact bind_eq_error.mpr
          (.inr ⟨objectIds, hlist.symm, bind_eq_error.mpr (.inl hparse.symm)⟩)
    · intro listed e _ hlist
      obtain ⟨moment, hmoment, hlisted, hshort, hlist⟩ := hlist
      exact ⟨hshort, moment, _, hmoment, hlisted, wasStored_now.mono hlisted,
        (bind_eq_error.mpr (.inl hlist.symm)).symm⟩
  · intro s moment later text hlater hshort hs
    have hlist := (storeListObjectIds_queriesAt input.resourceType (some s)
      none).answers_fixed hs hlater hshort
    have hloop := fun schema objectIds => (AuthzService.lookupLoop_queriesAt
      ⟨schema, config.engineConfig⟩ input (some s) (input.limit.getD 1000) objectIds
      []).answers_fixed hs hlater hshort
    refine (congrArg (· >>= _) hlist).trans ?_
    refine bind_congr fun objectIds => bind_congr fun schema => ?_
    exact congrArg (· >>= _) (hloop schema objectIds)

/-! ### The other operations -/

theorem KeepsTrace.andThen_trivial {β : Type} {program : ServiceProgram α}
    {f : α → ServiceProgram β} {post : Log ServiceCall → Except ApiError α → Prop}
    (h : KeepsTrace config i post log program)
    (hf : ∀ later a, KeepsTrace config i (fun _ _ => True) later (f a)) :
    KeepsTrace config i (fun _ _ => True) log (program >>= f) :=
  Safe.andThen h (fun later a _ _ => hf later a) fun _ _ _ _ => trivial

theorem done_keeps (a : α) :
    KeepsTrace config i (fun _ _ => True) log (pure a : ServiceProgram α) :=
  trivial

/-- Without a token an operation keeps the invariant, whatever it returns. -/
theorem checkPermission_unpinned {input : CheckPermissionInput}
    (h : input.consistency = .minimizeLatency) :
    KeepsTrace config i (fun _ _ => True) log
      (CachedService.checkPermission config tenantId input) := by
  unfold CachedService.checkPermission CachedService.checkPermissionWith
  rw [h]
  exact (loadSchemaCached_keeps log).andThen_trivial fun later schema =>
    (onStore_keeps _).andThen_trivial fun final result => done_keeps _

theorem expandPermissionTree_unpinned {input : ExpandPermissionInput} :
    KeepsTrace config i (fun _ _ => True) log
      (CachedService.expandPermissionTree config tenantId input) :=
  (onStore_keeps _).andThen_trivial fun resolved _ =>
    (loadSchemaCached_keeps resolved).andThen_trivial fun _ _ =>
      (onStore_keeps _).andThen_trivial fun _ _ => done_keeps _

theorem lookupResources_unpinned {input : LookupResourcesInput} :
    KeepsTrace config i (fun _ _ => True) log
      (CachedService.lookupResources config tenantId input) :=
  (onStore_keeps _).andThen_trivial fun _ _ =>
    (onStore_keeps _).andThen_trivial fun listed _ =>
      (loadSchemaCached_keeps listed).andThen_trivial fun _ _ =>
        (onStore_keeps _).andThen_trivial fun _ _ => done_keeps _

/-- A read of relationships is one query, so it takes effect at once also without a
token. -/
theorem readRelationships_keeps (filter : TupleFilter) (consistency : Consistency)
    (limit : Option Nat) :
    KeepsTrace config i (TakesEffect tenantId (fun store =>
      (Operation.readRelationships filter consistency limit).result config store) origin)
      origin (CachedService.readRelationships tenantId filter consistency limit) := by
  have hread : ∀ snapshot log, KeepsTrace config i (fun later r => Short later ∧
      TakesEffect tenantId (fun store => do
        let tuples ← store.answers (storeRead filter snapshot limit)
        return (⟨tuples, snapshot⟩ : ReadRelationshipsOutput)) log later r) log
      (do
        let tuples ← onStore tenantId (storeRead filter snapshot limit)
        return (⟨tuples, snapshot⟩ : ReadRelationshipsOutput)) := by
    intro snapshot log
    refine Safe.andThen (onStore_keeps_query _ log) ?_ ?_
    · intro later tuples _ hr
      obtain ⟨moment, hmoment, hlater, hshort, hr⟩ := hr
      refine ⟨hshort, moment, _, hmoment, hlater, wasStored_now.mono hlater, Eq.symm ?_⟩
      exact bind_eq_ok.mpr ⟨tuples, hr.symm, rfl⟩
    · intro later e _ hr
      obtain ⟨moment, hmoment, hlater, hshort, hr⟩ := hr
      refine ⟨hshort, moment, _, hmoment, hlater, wasStored_now.mono hlater, Eq.symm ?_⟩
      exact bind_eq_error.mpr (.inl hr.symm)
  by_cases hpinned : consistency = .minimizeLatency
  · subst hpinned
    exact Safe.imp (hread none origin) fun _ _ h => h.2
  · refine resolved_keeps hpinned (fun s log => hread (some s) log) ?_
    intro s moment later text hlater hshort hs
    have hqueries : QueriesAt (some s) (storeRead filter (some s) limit) := by
      refine .call rfl ?_ (fun _ => .done _)
      intro reply hreply
      obtain ⟨e, rfl⟩ := hreply
      exact ⟨_, rfl, _, rfl⟩
    exact congrArg (· >>= _) (hqueries.answers_fixed hs hlater hshort)

/-- What one call of a thread does: its place in the log, and its reply. -/
theorem storeWrite_keeps (call : WriteCall) :
    KeepsTrace config i (fun later r => ∃ moment, log <+: moment ∧
      moment ++ [(i, .write tenantId call)] <+: later ∧
      r = (Operation.writeRelationships call).result config (storeAlong tenantId moment)) log
      (storeWrite tenantId call) := by
  refine Safe.call ?_
  intro moment state hlog hs hallowed
  refine ⟨hs.call hallowed, moment, hlog, List.prefix_rfl, ?_⟩
  show (InMemoryStore.write (state.stores tenantId) call).1.mapError _ = _
  rw [hs.stores]
  rfl

theorem writeRelationships_keeps (call : WriteCall) :
    KeepsTrace config i (fun later r => ∃ moment, log <+: moment ∧
      moment ++ [(i, .write tenantId call)] <+: later ∧
      r = (Operation.writeRelationships call).result config (storeAlong tenantId moment)) log
      (CachedService.writeRelationships tenantId call) := by
  refine Safe.andThen (storeWrite_keeps call) ?_ fun _ _ _ h => h
  intro written token _ hwritten
  obtain ⟨moment, hmoment, hwritten, hr⟩ := hwritten
  refine Safe.call ?_
  intro later state hlater hs hallowed
  refine ⟨hs.call hallowed, moment, hmoment, ?_, hr⟩
  exact (hwritten.trans hlater).trans (List.prefix_append _ _)

/-- A schema write answers for the schema it has read. -/
theorem writeSchema_keeps (definition : String) (force : Bool) :
    KeepsTrace config i (fun later r => ∃ moment, log <+: moment ∧ moment <+: later ∧
      r = Operation.writeSchemaResult config (storeAlong tenantId moment) definition force)
      log (CachedService.writeSchema config tenantId definition force) := by
  refine Safe.andThen (M := fun later r => later = log ∧
    r = CachedService.acceptSchema config definition) ⟨rfl, rfl⟩ ?_ ?_
  · intro started newSchema _ haccept
    obtain ⟨rfl, haccept⟩ := haccept
    refine Safe.andThen (storeReadSchema_keeps started) ?_ ?_
    · intro read text _ hread
      obtain ⟨moment, hmoment, hread, -, htext⟩ := hread
      obtain rfl := Except.ok.inj htext
      refine Safe.andThen (M := fun later r => later = read ∧
        r = CachedService.compareStored (storeAlong tenantId moment).schema newSchema force)
        ⟨rfl, rfl⟩ ?_ ?_
      · intro compared overridden _ hcompare
        obtain ⟨rfl, hcompare⟩ := hcompare
        refine Safe.call ?_
        intro log₁ state₁ hlog₁ hs₁ hallowed₁
        refine ⟨hs₁.call hallowed₁, Safe.call ?_⟩
        intro log₂ state₂ hlog₂ hs₂ hallowed₂
        refine ⟨hs₂.call hallowed₂, Safe.call ?_⟩
        intro log₃ state₃ hlog₃ hs₃ hallowed₃
        refine ⟨hs₃.call hallowed₃, moment, hmoment, ?_, Eq.symm ?_⟩
        · refine (hread.trans hlog₁).trans ?_
          refine (List.prefix_append _ _).trans (hlog₂.trans ?_)
          exact (List.prefix_append _ _).trans (hlog₃.trans (List.prefix_append _ _))
        · exact bind_eq_ok.mpr ⟨newSchema, haccept.symm,
            bind_eq_ok.mpr ⟨overridden, hcompare.symm, rfl⟩⟩
      · intro compared e _ hcompare
        obtain ⟨rfl, hcompare⟩ := hcompare
        refine ⟨moment, hmoment, hread, Eq.symm ?_⟩
        exact bind_eq_error.mpr
          (.inr ⟨newSchema, haccept.symm, bind_eq_error.mpr (.inl hcompare.symm)⟩)
    · intro read e _ hread
      obtain ⟨moment, -, -, -, hread⟩ := hread
      cases hread
  · intro started e _ haccept
    obtain ⟨rfl, haccept⟩ := haccept
    exact ⟨started, List.prefix_rfl, List.prefix_rfl,
      (bind_eq_error.mpr (.inl haccept.symm)).symm⟩

end

/-! ## All operations -/

/-- The operation reads at a token, or awaits the store once. -/
def Operation.Pinned : Operation → Prop
  | .checkPermission input => input.consistency ≠ .minimizeLatency
  | .expandPermissionTree input => input.consistency ≠ .minimizeLatency
  | .lookupSubjects input => input.consistency ≠ .minimizeLatency
  | .lookupResources input => input.consistency ≠ .minimizeLatency
  | _ => True

/-- The operation loads the schema, maybe from the cache. -/
def Operation.Evaluates : Operation → Prop
  | .checkPermission _ | .expandPermissionTree _ | .lookupSubjects _
  | .lookupResources _ => True
  | _ => False

/-- The operation of thread `i` took effect after the calls of `moment`, under the schema
stored as `text`. -/
structure EffectAt (config : ServiceConfig) (i : ℕ) (op : TenantOp)
    (moment later : Log ServiceCall) (text : Option String) (r : op.Result) : Prop where
  before : moment <+: later
  stored : WasStored op.1 later text
  /-- Only a schema that is loaded may be an old one. -/
  current : ¬ op.2.Evaluates → text = (storeAlong op.1 moment).schema
  /-- A write is the next call. -/
  written : ∀ call, op.2 = .writeRelationships call →
    moment ++ [(i, .write op.1 call)] <+: later
  result : r = op.2.result config { storeAlong op.1 moment with schema := text }

/-- What a thread ends with. -/
def EffectPost (config : ServiceConfig) (i : ℕ) (op : TenantOp)
    (origin later : Log ServiceCall) (r : op.Result) : Prop :=
  op.2.Pinned → ∃ moment text, origin <+: moment ∧ EffectAt config i op moment later text r

section

variable {config : ServiceConfig} {i : ℕ} {tenantId : TenantId} {op : Operation}
variable {origin later : Log ServiceCall} {r : op.Result}

theorem EffectPost.evaluates (hop : op.Evaluates)
    (h : TakesEffect tenantId (fun store => op.result config store) origin later r) :
    EffectPost config i (tenantId, op) origin later r := by
  intro _
  obtain ⟨moment, text, hmoment, hlater, hstored, hr⟩ := h
  refine ⟨moment, text, hmoment, hlater, hstored, fun h => absurd hop h, ?_, hr⟩
  intro call heq
  obtain rfl : op = .writeRelationships call := heq
  cases hop

theorem EffectPost.current {moment : Log ServiceCall} (hmoment : origin <+: moment)
    (hlater : moment <+: later)
    (hwritten : ∀ call, op = .writeRelationships call →
      moment ++ [(i, .write tenantId call)] <+: later)
    (hr : r = op.result config (storeAlong tenantId moment)) :
    EffectPost config i (tenantId, op) origin later r :=
  fun _ => ⟨moment, _, hmoment, hlater, wasStored_now.mono hlater, fun _ => rfl, hwritten, hr⟩

end

/-- **Every operation** keeps the invariant, and takes effect at one moment if it is
pinned. -/
theorem operations_keep {config : ServiceConfig} (i : ℕ) (op : TenantOp)
    (origin : Log ServiceCall) :
    Safe (shortOperations config) (Traced config) i (EffectPost config i op origin) origin
      ((shortOperations config).program op) := by
  obtain ⟨tenantId, op⟩ := op
  cases op with
  | checkPermission input =>
      by_cases hpinned : input.consistency = .minimizeLatency
      · exact Safe.imp (checkPermission_unpinned hpinned) fun _ _ _ h => absurd hpinned h
      · exact Safe.imp (checkPermission_keeps input hpinned) fun _ _ h => .evaluates trivial h
  | expandPermissionTree input =>
      by_cases hpinned : input.consistency = .minimizeLatency
      · exact Safe.imp expandPermissionTree_unpinned fun _ _ _ h => absurd hpinned h
      · exact Safe.imp (expandPermissionTree_keeps input hpinned) fun _ _ h =>
          .evaluates trivial h
  | writeRelationships call =>
      refine Safe.imp (writeRelationships_keeps call) ?_
      intro later r hr
      obtain ⟨moment, hmoment, hwritten, hr⟩ := hr
      refine .current hmoment ((List.prefix_append _ _).trans hwritten) ?_ hr
      intro other heq
      cases heq
      exact hwritten
  | readRelationships filter consistency limit =>
      refine Safe.imp (readRelationships_keeps filter consistency limit) ?_
      intro later r hr
      obtain ⟨moment, text, hmoment, hlater, -, hr⟩ := hr
      exact .current hmoment hlater nofun hr
  | writeSchema definition force =>
      refine Safe.imp (writeSchema_keeps definition force) ?_
      intro later r hr
      obtain ⟨moment, hmoment, hlater, hr⟩ := hr
      exact .current hmoment hlater nofun hr
  | readSchema =>
      refine Safe.imp (storeReadSchema_keeps origin) ?_
      intro later r hr
      obtain ⟨moment, hmoment, hlater, -, hr⟩ := hr
      exact .current hmoment hlater nofun hr
  | lookupSubjects input =>
      by_cases hpinned : input.consistency = .minimizeLatency
      · refine Safe.imp (KeepsTrace.andThen_trivial expandPermissionTree_unpinned
          fun _ _ => done_keeps _) fun _ _ _ h => absurd hpinned h
      · exact Safe.imp (lookupSubjects_keeps input hpinned) fun _ _ h => .evaluates trivial h
  | lookupResources input =>
      by_cases hpinned : input.consistency = .minimizeLatency
      · exact Safe.imp lookupResources_unpinned fun _ _ _ h => absurd hpinned h
      · exact Safe.imp (lookupResources_keeps input hpinned) fun _ _ h => .evaluates trivial h

/-- The invariant holds and every thread meets its postcondition, in every interleaving
from a new service. -/
theorem operations_ok {config : ServiceConfig} {p : ServicePool}
    (hp : Pool.Steps (operations config) (Pool.init .new) p) (hshort : Short p.log) :
    Pool.Ok (shortOperations config) (Traced config) (EffectPost config) p :=
  (hp.within (fun _ _ hlog h => h.of_prefix hlog) hshort).ok
    (fun i op origin _ => operations_keep i op origin) (fun _ _ _ hs ht => hs.evict ht)
    (.init traced_new)

/-- What a returned thread has done. -/
theorem effect_of_returned {config : ServiceConfig} {p : ServicePool}
    (hp : Pool.Steps (operations config) (Pool.init .new) p) (hshort : Short p.log)
    {i : ℕ} {op : TenantOp} {r : op.Result} (hi : p.returned i = some ⟨op, r⟩)
    (hop : op.2.Pinned) :
    ∃ origin moment text, p.threads i = some ⟨op, origin, .done r⟩ ∧ origin <+: moment ∧
      EffectAt config i op moment p.log text r := by
  obtain ⟨origin, later, hthread, hlater, hpost⟩ := (operations_ok hp hshort).returned hi
  obtain ⟨moment, text, hmoment, heffect⟩ := hpost hop
  exact ⟨origin, moment, text, hthread, hmoment, heffect.before.trans hlater,
    heffect.stored.mono hlater, heffect.current,
    fun call heq => (heffect.written call heq).trans hlater, heffect.result⟩

def readmeShared : WriteCall :=
  ⟨[⟨⟨"document", "readme"⟩, "viewer", .direct "user" "alice"⟩], []⟩

def takeBackDocuments : WriteCall :=
  ⟨[], [{ objectType := some "document" }]⟩

def aliceViews : ServicePool :=
  (Pool.init .new).play (operations {})
    [.start 0 (acme, .writeSchema viewersView false), .call 0, .call 0, .call 0, .call 0,
      .start 1 (acme, .writeRelationships readmeShared), .call 1, .call 1]

/-- While a check is under way, its document is taken back. -/
def revokedMeanwhile : ServicePool :=
  aliceViews.play (operations {})
    [.start 2 (acme, .checkPermission aliceInput), .call 2,
      .start 3 (acme, .writeRelationships takeBackDocuments), .call 3, .call 3,
      .call 2, .call 2, .call 2, .call 2, .call 2, .call 2]

theorem aliceViews_steps :
    Pool.Steps (operations {}) (Pool.init .new) aliceViews :=
  Pool.play_steps _

theorem revokedMeanwhile_steps : Pool.Steps (operations {}) aliceViews revokedMeanwhile :=
  Pool.play_steps _

theorem revokedMeanwhile_run :
    aliceViews.wrote 1 acme readmeShared 1 = true ∧
      revokedMeanwhile.answered 2 acme aliceInput (.ok ⟨true, some 1⟩) = true ∧
      revokedMeanwhile.wrote 3 acme takeBackDocuments 2 = true ∧
      revokedMeanwhile.log.length < 2 ^ 64 - 1 := by
  decide +kernel

end Kraalzibar
