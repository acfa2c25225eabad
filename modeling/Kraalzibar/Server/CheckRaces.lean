import Kraalzibar.Server.SchemaRaces

/-!
# Checks among schema writes

A check reads the schema, evaluates, and inserts its decision into the check cache under
a key that does not name the schema.  As long as no schema write stores its text and
empties the cache in between, the cache only holds decisions under schemas that are no
older than any finished schema write.

* `ChecksFresh` — the invariant of log and check cache;
* `checks_follow_schema_writes` — what a check answers while no insert is overtaken;
* `stale_decision_served` — a run in which one is.
-/

namespace Kraalzibar

open Foundations SchemaRaces

namespace SchemaRaces

variable {config : ServiceConfig} {tenantId : TenantId} {store : InnerState}
variable {log origin : Log ServiceCall} {i : ℕ} {s : ServiceState} {c : ServiceCall}

/-- The check cache holds decisions under fresh schemas. -/
structure ChecksFresh (config : ServiceConfig) (tenantId : TenantId) (store : InnerState)
    (log : Log ServiceCall) (s : ServiceState) : Prop where
  storeAt : StoreAt tenantId store log s
  fresh : s.checkCache.Coherent fun key allowed => key.tenantId = tenantId →
    ∃ text, Fresh store.schema .checkInvalidateAll log text ∧
      key.decision config { store with schema := text } = .ok allowed

theorem ChecksFresh.step (h : ChecksFresh config tenantId store log s)
    (hc : MayCall tenantId c)
    (hinsert : ∀ key allowed, c = .checkInsert key allowed → key.tenantId = tenantId →
      ∃ text, Fresh store.schema .checkInvalidateAll log text ∧
        key.decision config { store with schema := text } = .ok allowed) :
    ChecksFresh config tenantId store (log ++ [(i, c)])
      (ServiceState.handle true s c).2 := by
  have hkept : c ≠ .checkInvalidateAll →
      s.checkCache.Coherent fun key allowed => key.tenantId = tenantId →
        ∃ text, Fresh store.schema .checkInvalidateAll (log ++ [(i, c)]) text ∧
          key.decision config { store with schema := text } = .ok allowed := by
    intro hne
    refine h.fresh.imp ?_
    intro key allowed hright hkey
    obtain ⟨text, hfresh, hdecision⟩ := hright hkey
    exact ⟨text, hfresh.concat hne, hdecision⟩
  refine ⟨h.storeAt.step hc, ?_⟩
  cases c with
  | checkInvalidateAll => exact Cache.coherent_empty
  | checkInsert key allowed =>
      refine (hkept nofun).insert ?_
      intro hkey
      obtain ⟨text, hfresh, hdecision⟩ := hinsert key allowed rfl hkey
      exact ⟨text, hfresh.concat nofun, hdecision⟩
  | _ => exact hkept nofun

theorem ChecksFresh.init {stores : TenantId → InnerState}
    (h : s.Coherent config stores) :
    ChecksFresh config tenantId (s.stores tenantId) [] s where
  storeAt := rfl
  fresh := by
    refine h.checks.imp ?_
    intro key allowed hdecision hkey
    subst hkey
    rw [← h.stores_eq] at hdecision
    exact ⟨_, fresh_stored, hdecision⟩

theorem ChecksFresh.evict {t : ServiceState} (h : ChecksFresh config tenantId store log s)
    (ht : s.Evicts t) : ChecksFresh config tenantId store log t where
  storeAt := h.storeAt.evict ht
  fresh := h.fresh.forget ht.checkCache

/-- Interleavings of checks and schema writes in which no insert into the check cache is
overtaken by its invalidation. -/
def checkRaces (config : ServiceConfig) (tenantId : TenantId) :
    System ServiceState SchemaOp ServiceCall ServiceCall.Reply SchemaOp.Result :=
  races config tenantId
    (fun op => match op with
      | .loadSchema => False
      | _ => True)
    (fun log i c => match c with
      | .checkInsert _ _ => ¬ Overtaken tenantId .checkInvalidateAll log i
      | _ => True)

/-- What a request returns, given the log when it started and the log when it returned. -/
def CheckPost (config : ServiceConfig) (tenantId : TenantId) (store : InnerState) (i : ℕ) :
    ∀ op : SchemaOp, Log ServiceCall → Log ServiceCall → op.Result → Prop
  | .checkPermission input, origin, log, r =>
      ∃ text, Follows tenantId store.schema .checkInvalidateAll origin log text ∧
        r = Operation.checkResult config { store with schema := text } input
  | .writeSchema definition _, _, log, r =>
      ∀ output, r = .ok output → Finished tenantId log i definition
  | .loadSchema, _, _, _ => True

/-- Queries of the tenant's store have fixed answers. -/
theorem onStore_safe {α : Type} {K : Log ServiceCall → Prop} (hlog : K log)
    (hK : ∀ log later, log <+: later → K log → K later) (program : ServiceM α) :
    Safe (checkRaces config tenantId) (ChecksFresh config tenantId store) i
      (fun log r => r = store.answers program ∧ K log) log
      (onStore tenantId program).run := by
  refine Safe.translate hlog ?_ program.run
  intro q log hlog later s hlater hs _
  refine ⟨hs.step trivial nofun, ?_, ?_⟩
  · show InMemoryStore.store.query (s.stores tenantId) q = _
    rw [hs.storeAt]
    rfl
  · exact hK _ _ (hlater.trans (List.prefix_append _ _)) hlog

/-- The decision of a check at `snapshot` under the schema stored as `text`. -/
def checkUnder (config : ServiceConfig) (store : InnerState) (input : CheckPermissionInput)
    (snapshot : Option SnapshotToken) (text : Option String) :
    Except ApiError CheckPermissionOutput := do
  let schema ← CachedService.parseText text
  let result ← store.answers (CachedService.evaluate config schema input snapshot)
  return { allowed := result.allowed, snapshot }

/-- The answer is a decision under a schema that follows every schema write that had
finished in `origin`. -/
def Decides (config : ServiceConfig) (tenantId : TenantId) (store : InnerState)
    (input : CheckPermissionInput) (snapshot : Option SnapshotToken)
    (origin log : Log ServiceCall) (r : Except ApiError CheckPermissionOutput) : Prop :=
  ∃ text, Follows tenantId store.schema .checkInvalidateAll origin log text ∧
    r = checkUnder config store input snapshot text

variable {input : CheckPermissionInput} {snapshot : Option SnapshotToken}

/-- A cached decision is what the check would answer. -/
theorem decision_iff {snap : SnapshotToken} {text : Option String} {allowed : Bool} :
    (CachedService.cacheKey tenantId input snap).decision config
        { store with schema := text } = .ok allowed ↔
      checkUnder config store input (some snap) text = .ok ⟨allowed, some snap⟩ := by
  unfold CheckCacheKey.decision checkUnder
  rw [bind_eq_ok, bind_eq_ok]
  refine exists_congr fun schema => and_congr_right fun _ => ?_
  rw [bind_eq_ok, bind_eq_ok]
  refine exists_congr fun result => and_congr_right fun _ => ?_
  constructor
  · intro h
    obtain rfl := Except.ok.inj h
    rfl
  · intro h
    cases h
    rfl

/-- A check that loads the schema evaluates under what it read. -/
theorem loadEvaluate_safe {f : CheckResult → ServiceProgram CheckPermissionOutput}
    (horigin : origin <+: log)
    (hf : ∀ log text result, ReadAt tenantId store.schema log i text →
      Follows tenantId store.schema .checkInvalidateAll origin log text →
      checkUnder config store input snapshot text = .ok ⟨result.allowed, snapshot⟩ →
      Safe (checkRaces config tenantId) (ChecksFresh config tenantId store) i
        (Decides config tenantId store input snapshot origin) log (f result).run) :
    Safe (checkRaces config tenantId) (ChecksFresh config tenantId store) i
      (Decides config tenantId store input snapshot origin) log
      (do
        let schema ← loadStored tenantId
        let result ← onStore tenantId (CachedService.evaluate config schema input snapshot)
        f result : ServiceProgram CheckPermissionOutput).run := by
  refine Safe.andThen (loadStored_safe .checkInvalidateAll horigin
    (fun _ _ hs => hs.storeAt)
    fun log s hs _ => hs.step (c := .readSchema tenantId) trivial nofun) ?_ ?_
  · intro log schema _ hload
    obtain ⟨text, hread, hfollows, hparse⟩ := hload
    refine Safe.andThen (onStore_safe (K := fun log =>
      ReadAt tenantId store.schema log i text ∧
        Follows tenantId store.schema .checkInvalidateAll origin log text)
      ⟨hread, hfollows⟩ (fun _ _ hlog h => ⟨h.1.mono hlog, h.2.mono hlog⟩) _) ?_ ?_
    · intro later result _ hresult
      obtain ⟨hresult, hread, hfollows⟩ := hresult
      refine hf later text result hread hfollows ?_
      exact bind_eq_ok.mpr ⟨schema, hparse.symm, bind_eq_ok.mpr ⟨result, hresult.symm, rfl⟩⟩
    · intro later e _ hresult
      obtain ⟨hresult, -, hfollows⟩ := hresult
      refine ⟨text, hfollows, Eq.symm ?_⟩
      exact bind_eq_error.mpr
        (.inr ⟨schema, hparse.symm, bind_eq_error.mpr (.inl hresult.symm)⟩)
  · intro log e _ hload
    obtain ⟨text, -, hfollows, hparse⟩ := hload
    exact ⟨text, hfollows, (bind_eq_error.mpr (.inl hparse.symm)).symm⟩

/-- From its snapshot on, a check decides under a schema that is no older than it. -/
theorem checkPermission_safe (input : CheckPermissionInput) :
    Safe (checkRaces config tenantId) (ChecksFresh config tenantId store) i
      (CheckPost config tenantId store i (.checkPermission input) origin) origin
      ((SchemaOp.checkPermission input).program config tenantId).run := by
  refine Safe.andThen (onStore_safe (K := fun log => origin <+: log) List.prefix_rfl
    (fun _ _ hlater h => h.trans hlater) _) ?_ ?_
  · intro log snapshot _ hresolve
    obtain ⟨hresolve, horigin⟩ := hresolve
    have hpost : CheckPost config tenantId store i (.checkPermission input) origin =
        Decides config tenantId store input snapshot origin := by
      funext log r
      unfold CheckPost Decides
      simp only [checkResult_schema, ← hresolve]
      rfl
    rw [hpost]
    cases snapshot with
    | none =>
        refine loadEvaluate_safe horigin ?_
        intro log text result _ hfollows hdecide
        exact ⟨text, hfollows, hdecide.symm⟩
    | some snap =>
        refine Safe.call ?_
        intro log s hlog hs _
        refine ⟨hs.step trivial nofun, ?_⟩
        have hstarted : origin <+: log ++ [(i, .checkGet
            (CachedService.cacheKey tenantId input snap))] :=
          (horigin.trans hlog).trans (List.prefix_append _ _)
        cases hget : ((checkRaces config tenantId).handle s
            (.checkGet (CachedService.cacheKey tenantId input snap))).1 with
        | some allowed =>
            obtain ⟨text, hfresh, hdecision⟩ := hs.fresh _ allowed hget rfl
            have hnow : Fresh store.schema .checkInvalidateAll
                (log ++ [(i, .checkGet (CachedService.cacheKey tenantId input snap))])
                text :=
              hfresh.concat nofun
            exact ⟨text, hnow.follows hstarted, (decision_iff.mp hdecision).symm⟩
        | none =>
            refine loadEvaluate_safe hstarted ?_
            intro log text result hread hfollows hdecide
            refine Safe.call ?_
            intro later s hlater hs hallowed
            refine ⟨hs.step trivial ?_, ?_⟩
            · intro key allowed heq _
              cases heq
              exact ⟨text, (hread.mono hlater).fresh hallowed, decision_iff.mpr hdecide⟩
            · exact ⟨text, hfollows.mono (hlater.trans (List.prefix_append _ _)),
                hdecide.symm⟩
  · intro log e _ hresolve
    obtain ⟨hresolve, horigin⟩ := hresolve
    refine ⟨stored store.schema log, follows_stored horigin, ?_⟩
    rw [checkResult_schema, ← hresolve]
    rfl

/-- Every request of these interleavings is safe. -/
theorem checkRaces_safe (i : ℕ) (op : SchemaOp) (origin : Log ServiceCall)
    (hop : (checkRaces config tenantId).starts op) :
    Safe (checkRaces config tenantId) (ChecksFresh config tenantId store) i
      (CheckPost config tenantId store i op origin) origin
      ((checkRaces config tenantId).program op) := by
  cases op with
  | loadSchema => cases hop
  | checkPermission input => exact checkPermission_safe input
  | writeSchema definition force =>
      refine writeSchema_safe definition force (fun _ _ hs => hs.storeAt) ?_
      intro log s c hs _ hc _
      refine hs.step (mayCall_of_mem hc) ?_
      intro key allowed heq
      subst heq
      simp at hc

end SchemaRaces

/-- **A decision does not survive a schema change** while no insert is overtaken: a check
that starts after a schema write has returned answers under its schema or a later one. -/
theorem checks_follow_schema_writes (config : ServiceConfig) (tenantId : TenantId)
    {done : List Completed} {s₀ : ServiceState} (h₀ : Session config true .new done s₀)
    {p q : SchemaPool} (hp : Pool.Steps (checkRaces config tenantId) (Pool.init s₀) p)
    (hq : Pool.Steps (checkRaces config tenantId) p q)
    {w : ℕ} {definition : String} {force : Bool} {output : WriteSchemaOutput}
    (hw : p.returned w = some ⟨.writeSchema definition force, .ok output⟩)
    {c : ℕ} (hnew : p.threads c = none) {input : CheckPermissionInput}
    {r : Except ApiError CheckPermissionOutput}
    (hc : q.returned c = some ⟨.checkPermission input, r⟩) :
    ∃ later, StoredSince tenantId (s₀.stores tenantId).schema q.log w definition later ∧
      r = Operation.checkResult config
        { s₀.stores tenantId with schema := some later } input := by
  have hcoherent := (h₀.eq_serve (ServiceState.coherent_new config)).2
  obtain ⟨_, log, origin, log', hlog, hlog', hwritten, text, hfollows, hr⟩ :=
    Pool.Steps.sequential checkRaces_safe (fun _ _ _ hs ht => ChecksFresh.evict hs ht)
      (ChecksFresh.init hcoherent) hp hq hw hnew hc
  have hfinished : [(w, ServiceCall.writeSchema tenantId definition),
      (w, .checkInvalidateAll)].Sublist origin :=
    List.Sublist.trans (by simp) ((hwritten output rfl).trans hlog.sublist)
  obtain ⟨later, rfl, hsince⟩ := hfollows w definition hfinished
  exact ⟨later, hsince.mono hlog', hr⟩

/-! ### A check on each side of a schema write -/

instance {config : ServiceConfig} {tenantId : TenantId} :
    DecidablePred (checkRaces config tenantId).starts
  | .loadSchema => inferInstanceAs (Decidable False)
  | .checkPermission _ => inferInstanceAs (Decidable True)
  | .writeSchema _ _ => inferInstanceAs (Decidable True)

instance {config : ServiceConfig} {tenantId : TenantId} (log : Log ServiceCall) (i : ℕ)
    (c : ServiceCall) : Decidable ((checkRaces config tenantId).allows log i c) :=
  match c with
  | .checkInsert _ _ =>
      inferInstanceAs (Decidable (¬ Overtaken tenantId .checkInvalidateAll log i))
  | .query _ _ | .write _ _ | .readSchema _ | .writeSchema _ _ | .schemaGet _
  | .schemaInsert _ _ | .schemaInvalidate _ | .checkGet _ | .checkInvalidateAll =>
      inferInstanceAs (Decidable True)

def readersSee : String :=
  "definition user {}
  definition doc { relation r: user relation w: user permission view = r }"

def writersSee : String :=
  "definition user {}
  definition doc { relation r: user relation w: user permission view = w }"

/-- A service on which a document has one reader. -/
def docShared : ServiceState :=
  (runSession {} true .new [(acme, .writeSchema readersSee false),
    (acme, .writeRelationships ⟨[⟨⟨"doc", "1"⟩, "r", .direct "user" "alice"⟩], []⟩)]).2

def seesDoc : CheckPermissionInput :=
  ⟨"doc", "1", "view", "user", "alice", .fullConsistency⟩

/-- A check inserts its decision, then a write replaces the schema. -/
def writersSeeAfter : SchemaPool :=
  (Pool.init docShared).play (checkRaces {} acme)
    [.start 0 (.checkPermission seesDoc), .call 0, .call 0, .call 0, .call 0, .call 0,
      .start 1 (.writeSchema writersSee false), .call 1, .call 1, .call 1, .call 1]

def readerDenied : SchemaPool :=
  writersSeeAfter.play (checkRaces {} acme)
    [.start 2 (.checkPermission seesDoc), .call 2, .call 2, .call 2, .call 2, .call 2]

theorem checks_follow_schema_writes_reader :
    ∃ later,
      StoredSince acme (docShared.stores acme).schema readerDenied.log 1 writersSee later ∧
      .ok ⟨false, some 1⟩ = Operation.checkResult {}
        { docShared.stores acme with schema := some later } seesDoc := by
  have hp : Pool.Steps (checkRaces {} acme) (Pool.init docShared) writersSeeAfter :=
    Pool.play_steps _
  have hq : Pool.Steps (checkRaces {} acme) writersSeeAfter readerDenied :=
    Pool.play_steps _
  have hrun : writersSeeAfter.returned 1 =
        some ⟨.writeSchema writersSee false, .ok ⟨false⟩⟩ ∧
      (writersSeeAfter.threads 2).isNone = true ∧
      readerDenied.returned 2 =
        some ⟨.checkPermission seesDoc, .ok ⟨false, some 1⟩⟩ := by
    decide +kernel
  obtain ⟨hw, hnew, hc⟩ := hrun
  exact checks_follow_schema_writes {} acme (session_runSession true _ _) hp hq hw
    (Option.isNone_iff_eq_none.mp hnew) hc

/-- A check has evaluated under the first schema when a write replaces it. -/
def writersSeeMeanwhile : SchemaPool :=
  (Pool.init docShared).play (checkRaces {} acme).free
    [.start 0 (.checkPermission seesDoc), .call 0, .call 0, .call 0, .call 0,
      .start 1 (.writeSchema writersSee false), .call 1, .call 1, .call 1, .call 1]

/-- Then it inserts its decision, which answers the next check. -/
def readerAllowed : SchemaPool :=
  writersSeeMeanwhile.play (checkRaces {} acme).free
    [.call 0, .start 2 (.checkPermission seesDoc), .call 2, .call 2]

theorem stale_decision_served :
    ∃ p q : SchemaPool,
      Pool.Steps (checkRaces {} acme).free (Pool.init docShared) p ∧
      Pool.Steps (checkRaces {} acme).free p q ∧
      p.returned 1 = some ⟨.writeSchema writersSee false, .ok ⟨false⟩⟩ ∧
      p.threads 2 = none ∧
      q.returned 2 = some ⟨.checkPermission seesDoc, .ok ⟨true, some 1⟩⟩ ∧
      ¬ ∃ later,
        StoredSince acme (docShared.stores acme).schema q.log 1 writersSee later ∧
        .ok ⟨true, some 1⟩ = Operation.checkResult {}
          { docShared.stores acme with schema := some later } seesDoc := by
  have hp : Pool.Steps (checkRaces {} acme).free (Pool.init docShared)
      writersSeeMeanwhile := Pool.play_steps _
  have hq : Pool.Steps (checkRaces {} acme).free writersSeeMeanwhile readerAllowed :=
    Pool.play_steps _
  have hrun : writersSeeMeanwhile.returned 1 =
        some ⟨.writeSchema writersSee false, .ok ⟨false⟩⟩ ∧
      (writersSeeMeanwhile.threads 2).isNone = true ∧
      readerAllowed.returned 2 =
        some ⟨.checkPermission seesDoc, .ok ⟨true, some 1⟩⟩ := by
    decide +kernel
  obtain ⟨hw, hnew, hc⟩ := hrun
  refine ⟨_, _, hp, hq, hw, Option.isNone_iff_eq_none.mp hnew, hc, ?_⟩
  intro h
  obtain ⟨later, hsince, hresult⟩ := h
  obtain rfl := hsince.eq_own (by decide +kernel)
  have hdenied : Operation.checkResult {}
      { docShared.stores acme with schema := some writersSee } seesDoc =
        .ok ⟨false, some 1⟩ := by decide +kernel
  cases hresult.trans hdenied

end Kraalzibar
