import Kraalzibar.Server.SchemaRaces

/-!
# Schema loads among schema writes

`load_schema_cached` reads the stored schema and inserts it into the cache later.  As
long as no schema write stores its text and invalidates the entry in between, the cache
only holds schemas that are no older than any finished schema write.

* `LoadsFresh` — the invariant of log and schema cache;
* `loads_follow_schema_writes` — what a load yields while no insert is overtaken;
* `stale_schema_loaded` — a run in which one is.
-/

namespace Kraalzibar

open Foundations SchemaRaces

namespace SchemaRaces

variable {config : ServiceConfig} {tenantId : TenantId} {store : InnerState}
variable {log origin : Log ServiceCall} {i : ℕ} {s : ServiceState} {c : ServiceCall}

/-- The schema cache holds what was parsed from a fresh text. -/
structure LoadsFresh (tenantId : TenantId) (store : InnerState) (log : Log ServiceCall)
    (s : ServiceState) : Prop where
  storeAt : StoreAt tenantId store log s
  accepted : ∀ call ∈ log, ∀ definition, call.2.storedText = some definition →
    ∃ schema, parseSchema definition = .ok schema
  fresh : s.schemaCache.Coherent fun key schema => key = tenantId →
    ∃ text, Fresh store.schema (.schemaInvalidate tenantId) log text ∧
      CachedService.parseText text = .ok schema

theorem LoadsFresh.step (h : LoadsFresh tenantId store log s) (hc : MayCall tenantId c)
    (hstored : ∀ definition, c.storedText = some definition →
      ∃ schema, parseSchema definition = .ok schema)
    (hinsert : ∀ schema, c = .schemaInsert tenantId schema →
      ∃ text, Fresh store.schema (.schemaInvalidate tenantId) log text ∧
        CachedService.parseText text = .ok schema) :
    LoadsFresh tenantId store (log ++ [(i, c)]) (ServiceState.handle true s c).2 := by
  have haccepted : ∀ call ∈ log ++ [(i, c)], ∀ definition,
      call.2.storedText = some definition →
        ∃ schema, parseSchema definition = .ok schema := by
    intro call hcall definition hdefinition
    obtain hlog | hlast := List.mem_append.mp hcall
    · exact h.accepted call hlog definition hdefinition
    · obtain rfl := List.mem_singleton.mp hlast
      exact hstored definition hdefinition
  have hkept : c ≠ .schemaInvalidate tenantId →
      s.schemaCache.Coherent fun key schema => key = tenantId →
        ∃ text, Fresh store.schema (.schemaInvalidate tenantId) (log ++ [(i, c)]) text ∧
          CachedService.parseText text = .ok schema := by
    intro hne
    refine h.fresh.imp ?_
    intro key schema hright hkey
    obtain ⟨text, hfresh, hparse⟩ := hright hkey
    exact ⟨text, hfresh.concat hne, hparse⟩
  refine ⟨h.storeAt.step hc, haccepted, ?_⟩
  cases c with
  | schemaInvalidate other =>
      obtain rfl : other = tenantId := hc
      refine h.fresh.invalidate ?_
      intro key hkey schema _ heq
      exact absurd heq hkey
  | schemaInsert other schema =>
      refine (hkept nofun).insert ?_
      intro heq
      subst heq
      obtain ⟨text, hfresh, hparse⟩ := hinsert schema rfl
      exact ⟨text, hfresh.concat nofun, hparse⟩
  | _ => exact hkept nofun

/-- Interleavings of loads and schema writes in which no insert into the schema cache
is overtaken by an invalidation. -/
def loadRaces (config : ServiceConfig) (tenantId : TenantId) :
    System ServiceState SchemaOp ServiceCall ServiceCall.Reply SchemaOp.Result :=
  races config tenantId
    (fun op => match op with
      | .checkPermission _ => False
      | _ => True)
    (fun log i c => match c with
      | .schemaInsert _ _ => ¬ Overtaken tenantId (.schemaInvalidate tenantId) log i
      | _ => True)

/-- What a request returns, given the log when it started and the log when it returned. -/
def LoadPost (tenantId : TenantId) (store : InnerState) (i : ℕ) :
    ∀ op : SchemaOp, Log ServiceCall → Log ServiceCall → op.Result → Prop
  | .loadSchema, origin, log, r =>
      ∃ text, Follows tenantId store.schema (.schemaInvalidate tenantId) origin log text ∧
        r = CachedService.parseText text
  | .writeSchema definition _, _, log, r =>
      ∀ output, r = .ok output → Finished tenantId log i definition
  | .checkPermission _, _, _, _ => True

theorem loadSchema_safe :
    Safe (loadRaces config tenantId) (LoadsFresh tenantId store) i
      (LoadPost tenantId store i .loadSchema origin) origin
      (CachedService.loadSchemaCached tenantId).run := by
  refine Safe.call ?_
  intro log s hlog hs _
  refine ⟨hs.step trivial nofun nofun, ?_⟩
  cases hget : ((loadRaces config tenantId).handle s (.schemaGet tenantId)).1 with
  | some schema =>
      obtain ⟨text, hfresh, hparse⟩ := hs.fresh tenantId schema hget rfl
      have hnow : Fresh store.schema (.schemaInvalidate tenantId)
          (log ++ [(i, .schemaGet tenantId)]) text := hfresh.concat nofun
      exact ⟨text, hnow.follows (hlog.trans (List.prefix_append _ _)), hparse.symm⟩
  | none =>
      suffices hload : Safe (loadRaces config tenantId) (LoadsFresh tenantId store) i
          (LoadPost tenantId store i .loadSchema origin) (log ++ [(i, .schemaGet tenantId)])
          (do
            let schema ← loadStored tenantId
            ServiceCall.ask (.schemaInsert tenantId schema)
            return schema : ServiceProgram Schema).run by
        rwa [loadStored, bind_assoc] at hload
      refine Safe.andThen (loadStored_safe (.schemaInvalidate tenantId)
        (hlog.trans (List.prefix_append _ _)) (fun _ _ hs => hs.storeAt)
        fun log s hs _ => hs.step (c := .readSchema tenantId) trivial nofun nofun) ?_ ?_
      · intro log schema _ hload
        obtain ⟨text, hread, hfollows, hparse⟩ := hload
        refine Safe.call ?_
        intro later s hlater hs hallowed
        refine ⟨hs.step trivial nofun ?_, ?_⟩
        · intro inserted heq
          cases heq
          exact ⟨text, (hread.mono hlater).fresh hallowed, hparse.symm⟩
        · exact ⟨text, hfollows.mono (hlater.trans (List.prefix_append _ _)), hparse⟩
      · intro log e _ hload
        obtain ⟨text, -, hfollows, hparse⟩ := hload
        exact ⟨text, hfollows, hparse⟩

theorem LoadsFresh.init {stores : TenantId → InnerState}
    (h : s.Coherent config stores) : LoadsFresh tenantId (s.stores tenantId) [] s where
  storeAt := rfl
  accepted := nofun
  fresh := by
    refine h.schemas.imp ?_
    intro key schema hload hkey
    subst hkey
    rw [← h.stores_eq] at hload
    exact ⟨_, fresh_stored, hload⟩

theorem LoadsFresh.evict {t : ServiceState} (h : LoadsFresh tenantId store log s)
    (ht : s.Evicts t) : LoadsFresh tenantId store log t where
  storeAt := h.storeAt.evict ht
  accepted := h.accepted
  fresh := h.fresh.forget ht.schemaCache

/-- Every request of these interleavings is safe. -/
theorem loadRaces_safe (i : ℕ) (op : SchemaOp) (origin : Log ServiceCall)
    (hop : (loadRaces config tenantId).starts op) :
    Safe (loadRaces config tenantId) (LoadsFresh tenantId store) i
      (LoadPost tenantId store i op origin) origin
      ((loadRaces config tenantId).program op) := by
  cases op with
  | checkPermission input => cases hop
  | loadSchema => exact loadSchema_safe
  | writeSchema definition force =>
      refine writeSchema_safe definition force (fun _ _ hs => hs.storeAt) ?_
      intro log s c hs _ hc hcompared
      refine hs.step (mayCall_of_mem hc) ?_ ?_
      · intro text htext
        obtain ⟨_, newSchema, _, _, haccept, _⟩ := hcompared text htext
        exact ⟨newSchema, parse_of_accept haccept⟩
      · intro schema heq
        subst heq
        simp at hc

end SchemaRaces

/-- **The schema cache never goes back** while no insert is overtaken: a load that
starts after a schema write has returned yields its schema or a later one. -/
theorem loads_follow_schema_writes (config : ServiceConfig) (tenantId : TenantId)
    {done : List Completed} {s₀ : ServiceState} (h₀ : Session config true .new done s₀)
    {p q : SchemaPool} (hp : Pool.Steps (loadRaces config tenantId) (Pool.init s₀) p)
    (hq : Pool.Steps (loadRaces config tenantId) p q)
    {w : ℕ} {definition : String} {force : Bool} {output : WriteSchemaOutput}
    (hw : p.returned w = some ⟨.writeSchema definition force, .ok output⟩)
    {l : ℕ} (hnew : p.threads l = none) {r : Except ApiError Schema}
    (hl : q.returned l = some ⟨.loadSchema, r⟩) :
    ∃ later schema,
      StoredSince tenantId (s₀.stores tenantId).schema q.log w definition later ∧
      parseSchema later = .ok schema ∧ r = .ok schema := by
  have hcoherent := (h₀.eq_serve (ServiceState.coherent_new config)).2
  have hinit : LoadsFresh tenantId (s₀.stores tenantId) [] s₀ := LoadsFresh.init hcoherent
  obtain ⟨_, log, origin, log', hlog, hlog', hwritten, text, hfollows, hr⟩ :=
    Pool.Steps.sequential loadRaces_safe (fun _ _ _ hs ht => LoadsFresh.evict hs ht)
      hinit hp hq hw hnew hl
  have hfinished : [(w, ServiceCall.writeSchema tenantId definition),
      (w, .schemaInvalidate tenantId)].Sublist origin :=
    List.Sublist.trans (by simp) ((hwritten output rfl).trans hlog.sublist)
  obtain ⟨later, rfl, hsince⟩ := hfollows w definition hfinished
  have hq' : Pool.Ok (loadRaces config tenantId) (LoadsFresh tenantId (s₀.stores tenantId))
      (LoadPost tenantId (s₀.stores tenantId)) q :=
    Pool.Steps.ok loadRaces_safe (fun _ _ _ hs ht => LoadsFresh.evict hs ht)
      (hp.trans hq) (.init hinit)
  have hsince := hsince.mono hlog'
  obtain ⟨call, hcall, htext⟩ := hsince.exists_call
  obtain ⟨schema, hparse⟩ := hq'.keeps.accepted call hcall later htext
  refine ⟨later, schema, hsince, hparse, ?_⟩
  exact hr.trans (parseStored_eq_ok.mpr hparse)

/-! ### A load on each side of a schema write -/

instance {config : ServiceConfig} {tenantId : TenantId} :
    DecidablePred (loadRaces config tenantId).starts
  | .loadSchema => inferInstanceAs (Decidable True)
  | .checkPermission _ => inferInstanceAs (Decidable False)
  | .writeSchema _ _ => inferInstanceAs (Decidable True)

instance {config : ServiceConfig} {tenantId : TenantId} (log : Log ServiceCall) (i : ℕ)
    (c : ServiceCall) : Decidable ((loadRaces config tenantId).allows log i c) :=
  match c with
  | .schemaInsert _ _ =>
      inferInstanceAs (Decidable (¬ Overtaken tenantId (.schemaInvalidate tenantId) log i))
  | .query _ _ | .write _ _ | .readSchema _ | .writeSchema _ _ | .schemaGet _
  | .schemaInvalidate _ | .checkGet _ | .checkInsert _ _ | .checkInvalidateAll =>
      inferInstanceAs (Decidable True)

/-- A load inserts the first schema, then a write replaces it. -/
def groupsWritten : SchemaPool :=
  (Pool.init usersStored).play (loadRaces {} acme)
    [.start 0 .loadSchema, .call 0, .call 0, .call 0,
      .start 1 (.writeSchema groups false), .call 1, .call 1, .call 1, .call 1]

def groupsLoaded : SchemaPool :=
  groupsWritten.play (loadRaces {} acme) [.start 2 .loadSchema, .call 2, .call 2, .call 2]

theorem loads_follow_schema_writes_groups :
    groupsLoaded.returned 2 = some ⟨.loadSchema, parseStored groups⟩ ∧
    ∃ later schema,
      StoredSince acme (usersStored.stores acme).schema groupsLoaded.log 1 groups later ∧
      parseSchema later = .ok schema ∧ parseStored groups = .ok schema := by
  have hp : Pool.Steps (loadRaces {} acme) (Pool.init usersStored) groupsWritten :=
    Pool.play_steps _
  have hq : Pool.Steps (loadRaces {} acme) groupsWritten groupsLoaded :=
    Pool.play_steps _
  have hrun : groupsWritten.returned 1 =
        some ⟨.writeSchema groups false, .ok ⟨false⟩⟩ ∧
      (groupsWritten.threads 2).isNone = true ∧
      groupsLoaded.returned 2 = some ⟨.loadSchema, parseStored groups⟩ := by
    decide +kernel
  obtain ⟨hw, hnew, hl⟩ := hrun
  exact ⟨hl,
    loads_follow_schema_writes {} acme (session_runSession true _ _) hp hq hw
      (Option.isNone_iff_eq_none.mp hnew) hl⟩

/-- The load has read the first schema when the write replaces it. -/
def groupsWrittenMeanwhile : SchemaPool :=
  (Pool.init usersStored).play (loadRaces {} acme).free
    [.start 0 .loadSchema, .call 0, .call 0,
      .start 1 (.writeSchema groups false), .call 1, .call 1, .call 1, .call 1]

/-- Then it inserts what it has read, where the next load finds it. -/
def usersLoaded : SchemaPool :=
  groupsWrittenMeanwhile.play (loadRaces {} acme).free
    [.call 0, .start 2 .loadSchema, .call 2]

theorem stale_schema_loaded :
    ∃ p q : SchemaPool,
      Pool.Steps (loadRaces {} acme).free (Pool.init usersStored) p ∧
      Pool.Steps (loadRaces {} acme).free p q ∧
      p.returned 1 = some ⟨.writeSchema groups false, .ok ⟨false⟩⟩ ∧
      p.threads 2 = none ∧
      q.returned 2 = some ⟨.loadSchema, parseStored users⟩ ∧
      ¬ ∃ later schema,
        StoredSince acme (usersStored.stores acme).schema q.log 1 groups later ∧
        parseSchema later = .ok schema ∧ parseStored users = .ok schema := by
  have hp : Pool.Steps (loadRaces {} acme).free (Pool.init usersStored)
      groupsWrittenMeanwhile := Pool.play_steps _
  have hq : Pool.Steps (loadRaces {} acme).free groupsWrittenMeanwhile usersLoaded :=
    Pool.play_steps _
  have hrun : groupsWrittenMeanwhile.returned 1 =
        some ⟨.writeSchema groups false, .ok ⟨false⟩⟩ ∧
      (groupsWrittenMeanwhile.threads 2).isNone = true ∧
      usersLoaded.returned 2 = some ⟨.loadSchema, parseStored users⟩ := by
    decide +kernel
  obtain ⟨hw, hnew, hl⟩ := hrun
  refine ⟨_, _, hp, hq, hw, Option.isNone_iff_eq_none.mp hnew, hl, ?_⟩
  intro h
  obtain ⟨later, schema, hsince, hlater, husers⟩ := h
  obtain rfl := hsince.eq_own (by decide +kernel)
  have hdiffer : parseStored groups ≠ parseStored users := by decide +kernel
  exact hdiffer ((parseStored_eq_ok.mpr hlater).trans husers.symm)

end Kraalzibar
