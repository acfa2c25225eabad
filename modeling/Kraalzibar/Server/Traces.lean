import Kraalzibar.Foundations.Moments
import Kraalzibar.Server.Interleavings
import Kraalzibar.Server.Isolation

/-!
# Stores and caches along a log

The log of all calls says what is in the stores, whatever the operations were that made
them, and what the caches may hold: entries that are right under some schema the tenant
has had.

* `storeAlong` — the store of a tenant after the calls of a log, one after another;
* `WasStored` — the schemas a tenant has had;
* `storeAlong_visible` — what is visible at a token handed out stays;
* `QueriesAt.answers_fixed`, `QueriesAt.answers_ok` — programs at a token;
* `Traced`, `Traced.step` — the invariant of log, stores and caches.
-/

namespace Kraalzibar

open Foundations

/-! ## The stores along a log -/

/-- What a call does to the store of a tenant. -/
def ServiceCall.storeAfter (tenantId : TenantId) (store : InnerState) :
    ServiceCall → InnerState
  | .write other call =>
      if other = tenantId then (InMemoryStore.write store call).2 else store
  | .writeSchema other definition =>
      if other = tenantId then { store with schema := some definition } else store
  | _ => store

/-- The store of a tenant after the calls of a log, made one after another on a new
service. -/
def storeAlong (tenantId : TenantId) (log : Log ServiceCall) : InnerState :=
  log.foldl (fun store entry => entry.2.storeAfter tenantId store) InMemoryStore.new

/-- A log too short for the token counter of a store to reach the mark of active rows. -/
def Short (log : Log ServiceCall) : Prop :=
  log.length < ACTIVE_TX_ID

/-- `text` was the stored schema of the tenant at some moment. -/
def WasStored (tenantId : TenantId) (log : Log ServiceCall) (text : Option String) : Prop :=
  ∃ before, before <+: log ∧ (storeAlong tenantId before).schema = text

section

variable {tenantId : TenantId} {log later : Log ServiceCall} {i : ℕ} {c : ServiceCall}
variable {store : InnerState} {text : Option String} {s : SnapshotToken}

theorem storeAlong_concat (entry : ℕ × ServiceCall) :
    storeAlong tenantId (log ++ [entry]) =
      entry.2.storeAfter tenantId (storeAlong tenantId log) := by
  simp [storeAlong]

theorem Short.of_prefix (hlog : log <+: later) (h : Short later) : Short log :=
  Nat.lt_of_le_of_lt hlog.length_le h

theorem WasStored.mono (hlog : log <+: later) (h : WasStored tenantId log text) :
    WasStored tenantId later text := by
  obtain ⟨before, hbefore, htext⟩ := h
  exact ⟨before, hbefore.trans hlog, htext⟩

theorem wasStored_now : WasStored tenantId log (storeAlong tenantId log).schema :=
  ⟨log, List.prefix_rfl, rfl⟩

variable (tenantId) (store) (c) in
/-- A call moves the counter of a store by one at most. -/
theorem ServiceCall.storeAfter_currentTx :
    store.currentTx ≤ (c.storeAfter tenantId store).currentTx ∧
      (c.storeAfter tenantId store).currentTx ≤ store.currentTx + 1 := by
  cases c with
  | write other call =>
      simp only [storeAfter]
      split
      · by_cases hacc : call.accepted = true
        · rw [InMemoryStore.write_accepted store hacc]
          exact ⟨Nat.le_succ _, le_rfl⟩
        · rw [InMemoryStore.write_rejected store (by simpa using hacc)]
          exact ⟨le_rfl, Nat.le_succ _⟩
      · exact ⟨le_rfl, Nat.le_succ _⟩
  | writeSchema other definition =>
      simp only [storeAfter]
      split <;> exact ⟨le_rfl, Nat.le_succ _⟩
  | _ => exact ⟨le_rfl, Nat.le_succ _⟩

variable (tenantId) (log) in
theorem storeAlong_currentTx_le : (storeAlong tenantId log).currentTx ≤ log.length := by
  induction log using List.reverseRecOn with
  | nil => exact le_rfl
  | append_singleton log entry ih =>
      rw [storeAlong_concat, List.length_append, List.length_singleton]
      have hstep := (entry.2.storeAfter_currentTx tenantId (storeAlong tenantId log)).2
      omega

/-- No call changes what is visible at a token handed out before. -/
theorem ServiceCall.storeAfter_visible (hs : s ≤ store.currentTx)
    (hcount : store.currentTx + 1 < ACTIVE_TX_ID) :
    (c.storeAfter tenantId store).visible s = store.visible s := by
  cases c with
  | write other call =>
      simp only [storeAfter]
      split
      · have hstep : WriteStep store (InMemoryStore.write store call).2 :=
          ⟨hcount, call, rfl⟩
        exact (hstep.visible hs).1
      · rfl
  | writeSchema other definition =>
      simp only [storeAfter]
      split <;> rfl
  | _ => rfl

/-- **What is visible at a token handed out stays.** -/
theorem storeAlong_visible (hlog : log <+: later) (hlater : Short later)
    (hs : s ≤ (storeAlong tenantId log).currentTx) :
    (storeAlong tenantId later).visible s = (storeAlong tenantId log).visible s ∧
      s ≤ (storeAlong tenantId later).currentTx := by
  obtain ⟨more, rfl⟩ := hlog
  induction more using List.reverseRecOn with
  | nil =>
      rw [List.append_nil]
      exact ⟨rfl, hs⟩
  | append_singleton more entry ih =>
      rw [← List.append_assoc] at hlater ⊢
      have hshort : Short (log ++ more) := hlater.of_prefix (List.prefix_append _ _)
      obtain ⟨hvisible, hle⟩ := ih hshort
      have hcount : (storeAlong tenantId (log ++ more)).currentTx + 1 < ACTIVE_TX_ID := by
        have hlength := storeAlong_currentTx_le tenantId (log ++ more)
        have hlast : (log ++ more ++ [entry]).length < ACTIVE_TX_ID := hlater
        rw [List.length_append, List.length_singleton] at hlast
        omega
      rw [storeAlong_concat]
      refine ⟨?_, hle.trans (entry.2.storeAfter_currentTx _ _).1⟩
      rw [ServiceCall.storeAfter_visible hle hcount, hvisible]

/-! ### Queries at a snapshot -/

/-- The answers of the tenant's store after the calls of a log. -/
def answersAlong (tenantId : TenantId) (log : Log ServiceCall) : ∀ q : StoreQuery, q.Reply :=
  InMemoryStore.store.query (storeAlong tenantId log)

/-- From the moment at which a token is handed out, the answers at it are fixed. -/
theorem answersAlong_fixed (hs : s ≤ (storeAlong tenantId log).currentTx)
    (hlog : log <+: later) (hlater : Short later) {q : StoreQuery} (hq : q.At (some s)) :
    answersAlong tenantId later q = answersAlong tenantId log q := by
  obtain ⟨hvisible, hle⟩ := storeAlong_visible hlog hlater hs
  unfold answersAlong
  rw [query_some hle hq, query_some hs hq, InnerState.versionAt, InnerState.versionAt,
    hvisible]

/-- At every moment the answers at a token are fixed from then on, or all errors. -/
theorem answersAlong_fixed_or_error (s : SnapshotToken) (moment : Log ServiceCall) :
    (∀ later, moment <+: later → Short later → ∀ q : StoreQuery, q.At (some s) →
      answersAlong tenantId later q = answersAlong tenantId moment q) ∨
    ∀ q : StoreQuery, q.At (some s) → ∃ e, answersAlong tenantId moment q = .error e := by
  by_cases hs : s ≤ (storeAlong tenantId moment).currentTx
  · exact Or.inl fun later hlog hlater q hq => answersAlong_fixed hs hlog hlater hq
  · exact Or.inr fun q hq => query_ahead (Nat.lt_of_not_le hs) hq

variable {α : Type} {x : ServiceM α}

/-- A program at a token that was handed out returns the same ever after. -/
theorem QueriesAt.answers_fixed (hx : QueriesAt (some s) x)
    (hs : s ≤ (storeAlong tenantId log).currentTx) (hlog : log <+: later)
    (hlater : Short later) :
    (storeAlong tenantId later).answers x = (storeAlong tenantId log).answers x :=
  Client.Guarded.runWith_congr hx fun _ hq => answersAlong_fixed hs hlog hlater hq

/-- A program at a token that has succeeded succeeds alike ever after. -/
theorem QueriesAt.answers_ok (hx : QueriesAt (some s) x) (hlog : log <+: later)
    (hlater : Short later) {a : α} (h : (storeAlong tenantId log).answers x = .ok a) :
    (storeAlong tenantId later).answers x = .ok a := by
  by_cases hs : s ≤ (storeAlong tenantId log).currentTx
  · rw [hx.answers_fixed hs hlog hlater, h]
  · have hbad : ∀ q : StoreQuery, q.At (some s) →
        ∃ e, InMemoryStore.store.query (storeAlong tenantId log) q = .error e :=
      fun q hq => query_ahead (Nat.lt_of_not_le hs) hq
    obtain ⟨result, hdone⟩ | ⟨e, hfailed⟩ := Client.Guarded.done_or_failed hx hbad
    · unfold InnerState.answers Fallible.eval at h ⊢
      rw [hdone] at h ⊢
      exact h
    · cases hfailed.symm.trans h

end

/-! ## The invariant -/

/-- The stores are those of the log, and each cached entry is right under some schema of
its tenant: the schema cache about the schema itself, the check cache about what the
check would answer now. -/
structure Traced (config : ServiceConfig) (log : Log ServiceCall) (s : ServiceState) :
    Prop where
  stores : ∀ tenantId, s.stores tenantId = storeAlong tenantId log
  schemas : s.schemaCache.Coherent fun tenantId schema =>
    ∃ text, WasStored tenantId log text ∧ CachedService.parseText text = .ok schema
  checks : s.checkCache.Coherent fun key allowed =>
    ∃ text, WasStored key.tenantId log text ∧
      key.decision config { storeAlong key.tenantId log with schema := text } = .ok allowed

section

variable {config : ServiceConfig} {tenantId : TenantId} {log later origin : Log ServiceCall}
variable {i : ℕ} {c : ServiceCall} {s : ServiceState}

theorem evaluate_queriesAt (schema : Schema) (input : CheckPermissionInput)
    (snapshot : Option SnapshotToken) :
    QueriesAt snapshot (CachedService.evaluate config schema input snapshot) :=
  StoreTupleReader.run_queriesAt (CheckEngine.check_readsAt rfl)

/-- A decision is right ever after. -/
theorem CheckCacheKey.decision_later {key : CheckCacheKey} {text : Option String}
    {allowed : Bool} (hlog : log <+: later) (hlater : Short later)
    (h : key.decision config { storeAlong key.tenantId log with schema := text } =
      .ok allowed) :
    key.decision config { storeAlong key.tenantId later with schema := text } =
      .ok allowed := by
  obtain ⟨schema, hschema, h⟩ := bind_eq_ok.mp h
  obtain ⟨result, hresult, h⟩ := bind_eq_ok.mp h
  refine bind_eq_ok.mpr ⟨schema, hschema, bind_eq_ok.mpr ⟨result, ?_, h⟩⟩
  exact (evaluate_queriesAt schema _ _).answers_ok hlog hlater hresult

theorem traced_new : Traced config [] ServiceState.new where
  stores := fun _ => rfl
  schemas := Cache.coherent_empty
  checks := Cache.coherent_empty

theorem Traced.evict {t : ServiceState} (h : Traced config log s) (ht : s.Evicts t) :
    Traced config log t where
  stores := by
    rw [ht.stores]
    exact h.stores
  schemas := h.schemas.forget ht.schemaCache
  checks := h.checks.forget ht.checkCache

/-- The stores follow the log. -/
theorem stores_step (h : ∀ tenantId, s.stores tenantId = storeAlong tenantId log)
    (tenantId : TenantId) :
    (ServiceState.handle true s c).2.stores tenantId =
      storeAlong tenantId (log ++ [(i, c)]) := by
  rw [storeAlong_concat]
  have hset : ∀ (other : TenantId) (store : InnerState),
      (s.setStore other store).stores tenantId =
        if other = tenantId then store else storeAlong tenantId log := by
    intro other store
    by_cases hother : other = tenantId
    · subst hother
      rw [if_pos rfl]
      exact Function.update_self ..
    · rw [if_neg hother, ← h]
      exact Function.update_of_ne (fun heq => hother heq.symm) ..
  cases c with
  | write other call =>
      refine (hset other _).trans ?_
      simp only [ServiceCall.storeAfter]
      split
      · next heq =>
          subst heq
          rw [h]
          rfl
      · rfl
  | writeSchema other definition =>
      refine (hset other _).trans ?_
      simp only [ServiceCall.storeAfter]
      split
      · next heq =>
          subst heq
          rw [h]
      · rfl
  | _ => exact h tenantId

/-- **Step lemma.**  A call keeps the invariant, if what it puts into a cache is right. -/
theorem Traced.step (h : Traced config log s) (hshort : Short (log ++ [(i, c)]))
    (hschema : ∀ tenantId schema, c = .schemaInsert tenantId schema →
      ∃ text, WasStored tenantId log text ∧ CachedService.parseText text = .ok schema)
    (hcheck : ∀ key allowed, c = .checkInsert key allowed →
      ∃ text, WasStored key.tenantId log text ∧
        key.decision config { storeAlong key.tenantId log with schema := text } =
          .ok allowed) :
    Traced config (log ++ [(i, c)]) (ServiceState.handle true s c).2 := by
  have hlog : log <+: log ++ [(i, c)] := List.prefix_append _ _
  have hschemas : ∀ tenantId schema,
      (∃ text, WasStored tenantId log text ∧ CachedService.parseText text = .ok schema) →
      ∃ text, WasStored tenantId (log ++ [(i, c)]) text ∧
        CachedService.parseText text = .ok schema := by
    intro tenantId schema hright
    obtain ⟨text, hstored, hparse⟩ := hright
    exact ⟨text, hstored.mono hlog, hparse⟩
  have hchecks : ∀ (key : CheckCacheKey) allowed,
      (∃ text, WasStored key.tenantId log text ∧
        key.decision config { storeAlong key.tenantId log with schema := text } =
          .ok allowed) →
      ∃ text, WasStored key.tenantId (log ++ [(i, c)]) text ∧
        key.decision config
          { storeAlong key.tenantId (log ++ [(i, c)]) with schema := text } =
            .ok allowed := by
    intro key allowed hright
    obtain ⟨text, hstored, hdecision⟩ := hright
    exact ⟨text, hstored.mono hlog, key.decision_later hlog hshort hdecision⟩
  have hkeptSchemas := h.schemas.imp hschemas
  have hkeptChecks := h.checks.imp hchecks
  refine ⟨stores_step h.stores, ?_, ?_⟩
  · cases c with
    | schemaInsert tenantId schema =>
        exact hkeptSchemas.insert (hschemas _ _ (hschema tenantId schema rfl))
    | schemaInvalidate tenantId =>
        exact hkeptSchemas.invalidate fun _ _ _ hright => hright
    | _ => exact hkeptSchemas
  · cases c with
    | checkInsert key allowed =>
        exact hkeptChecks.insert (hchecks _ _ (hcheck key allowed rfl))
    | checkInvalidateAll => exact Cache.coherent_empty
    | _ => exact hkeptChecks

end

end Kraalzibar
