import Kraalzibar.Server.Moments
import Kraalzibar.Storage.MemoryHistory

/-!
# Tokens in use

A write returns a token, and a request with full consistency the token it has read at.
Whoever holds one may name it in later requests, while all other operations go on.

* `Operation.issued` — the tokens that the service chooses itself;
* `tokens_only_grow` — they follow the order in which operations ran, and no two writes
  get the same;
* `writes_are_not_lost` — what is visible at a write's token, from then on.
-/

namespace Kraalzibar

open Foundations

/-- The snapshot of a response, if the service has chosen it. -/
def Consistency.chosen (consistency : Consistency) (snapshot : Option SnapshotToken) :
    Option SnapshotToken :=
  if consistency = .fullConsistency then snapshot else none

namespace Operation

/-- The token a result issues: of a write its own, of a read the one it was given. -/
def issued : ∀ op : Operation, op.Result → Option SnapshotToken
  | .writeRelationships _, .ok token => some token
  | .checkPermission input, .ok output => input.consistency.chosen output.snapshot
  | .expandPermissionTree input, .ok output => input.consistency.chosen output.snapshot
  | .readRelationships _ consistency _, .ok output => consistency.chosen output.snapshot
  | .lookupSubjects input, .ok output => input.consistency.chosen output.snapshot
  | .lookupResources input, .ok output => input.consistency.chosen output.snapshot
  | _, _ => none

end Operation

/-! ## What a result issues -/

section

variable {config : ServiceConfig} {store : InnerState} {t : ℕ}
variable {tenantId : TenantId} {log later : Log ServiceCall}

variable (tenantId) in
theorem storeAlong_currentTx_mono (hlog : log <+: later) :
    (storeAlong tenantId log).currentTx ≤ (storeAlong tenantId later).currentTx := by
  obtain ⟨more, rfl⟩ := hlog
  induction more using List.reverseRecOn with
  | nil => rw [List.append_nil]
  | append_singleton more entry ih =>
      rw [← List.append_assoc, storeAlong_concat]
      exact ih.trans (entry.2.storeAfter_currentTx _ _).1

theorem write_eq_ok {call : WriteCall}
    (h : (InMemoryStore.write store call).1 = .ok t) :
    call.accepted = true ∧ t = store.currentTx + 1 ∧
      (InMemoryStore.write store call).2.currentTx = t := by
  by_cases hacc : call.accepted = true
  · rw [InMemoryStore.write_accepted store hacc] at h ⊢
    obtain rfl := Except.ok.inj h
    exact ⟨hacc, rfl, rfl⟩
  · rw [InMemoryStore.write_rejected store (by simpa using hacc)] at h
    cases h

/-- A snapshot that was chosen by resolving it. -/
theorem chosen_eq {consistency : Consistency} {snapshot : Option SnapshotToken}
    (hresolve : store.answers (AuthzService.resolveSnapshot consistency) = .ok snapshot)
    (h : consistency.chosen snapshot = some t) : t = store.currentTx := by
  unfold Consistency.chosen at h
  split at h
  · next hfull =>
      subst hfull
      obtain rfl := Except.ok.inj hresolve
      exact (Option.some.inj h).symm
  · cases h

/-- **A read issues the counter** of the store it reads. -/
theorem Operation.issued_eq {op : Operation} {r : op.Result}
    (hr : r = op.result config store) (hop : ∀ call, op ≠ .writeRelationships call)
    (h : op.issued r = some t) : t = store.currentTx := by
  cases r with
  | error e => cases op <;> cases h
  | ok output =>
      cases op with
      | writeRelationships call => exact absurd rfl (hop call)
      | writeSchema definition force => cases h
      | readSchema => cases h
      | checkPermission input =>
          obtain ⟨snapshot, hresolve, hr⟩ := bind_eq_ok.mp hr.symm
          obtain ⟨_, _, hr⟩ := bind_eq_ok.mp hr
          obtain ⟨_, _, hr⟩ := bind_eq_ok.mp hr
          obtain rfl := Except.ok.inj hr
          exact chosen_eq hresolve h
      | expandPermissionTree input =>
          obtain ⟨snapshot, hresolve, hr⟩ := bind_eq_ok.mp hr.symm
          obtain ⟨_, _, hr⟩ := bind_eq_ok.mp hr
          obtain ⟨_, _, hr⟩ := bind_eq_ok.mp hr
          obtain rfl := Except.ok.inj hr
          exact chosen_eq hresolve h
      | readRelationships filter consistency limit =>
          obtain ⟨snapshot, hresolve, hr⟩ := bind_eq_ok.mp hr.symm
          obtain ⟨_, _, hr⟩ := bind_eq_ok.mp hr
          obtain rfl := Except.ok.inj hr
          exact chosen_eq hresolve h
      | lookupSubjects input =>
          obtain ⟨_, hexpand, hr⟩ := bind_eq_ok.mp hr.symm
          obtain ⟨snapshot, hresolve, hexpand⟩ := bind_eq_ok.mp hexpand
          obtain ⟨_, _, hexpand⟩ := bind_eq_ok.mp hexpand
          obtain ⟨_, _, hexpand⟩ := bind_eq_ok.mp hexpand
          obtain rfl := Except.ok.inj hexpand
          obtain rfl := Except.ok.inj hr
          exact chosen_eq hresolve h
      | lookupResources input =>
          obtain ⟨snapshot, hresolve, hr⟩ := bind_eq_ok.mp hr.symm
          obtain ⟨_, _, hr⟩ := bind_eq_ok.mp hr
          obtain ⟨_, _, hr⟩ := bind_eq_ok.mp hr
          obtain ⟨_, _, hr⟩ := bind_eq_ok.mp hr
          obtain rfl := Except.ok.inj hr
          exact chosen_eq hresolve h

/-- An operation that issues a token takes effect at one moment. -/
theorem Operation.pinned_of_issued {op : Operation} {r : op.Result}
    (h : op.issued r = some t) : op.Pinned := by
  have hchosen : ∀ {consistency : Consistency} {snapshot : Option SnapshotToken},
      consistency.chosen snapshot = some t → consistency ≠ .minimizeLatency := by
    intro consistency snapshot h hlatency
    subst hlatency
    cases h
  cases r with
  | error e => cases op <;> cases h
  | ok output =>
      cases op with
      | checkPermission input => exact hchosen h
      | expandPermissionTree input => exact hchosen h
      | lookupSubjects input => exact hchosen h
      | lookupResources input => exact hchosen h
      | _ => trivial

end

/-! ## The order of tokens -/

section

variable {config : ServiceConfig} {tenantId : TenantId} {i : ℕ} {op : Operation}
variable {moment later : Log ServiceCall} {text : Option String} {r : op.Result}
variable {t : ℕ}

/-- A write that issues a token was accepted, and moved the counter to it. -/
theorem EffectAt.issued_write {call : WriteCall}
    {r : (Operation.writeRelationships call).Result}
    (h : EffectAt config i (tenantId, .writeRelationships call) moment later text r)
    (ht : (Operation.writeRelationships call).issued r = some t) :
    call.accepted = true ∧ t = (storeAlong tenantId moment).currentTx + 1 ∧
      storeAlong tenantId (moment ++ [(i, .write tenantId call)]) =
        (InMemoryStore.write (storeAlong tenantId moment) call).2 ∧
      (storeAlong tenantId (moment ++ [(i, .write tenantId call)])).currentTx = t := by
  have hstore : storeAlong tenantId (moment ++ [(i, .write tenantId call)]) =
      (InMemoryStore.write (storeAlong tenantId moment) call).2 := by
    rw [storeAlong_concat]
    exact if_pos rfl
  have hr : r = ((InMemoryStore.write (storeAlong tenantId moment) call).1.mapError
      ApiError.storage) := by
    have hcurrent := h.current nofun
    subst hcurrent
    exact h.result
  cases r with
  | error e => cases ht
  | ok token =>
      obtain rfl := Option.some.inj ht
      obtain ⟨hacc, hnext, hcounter⟩ := write_eq_ok (mapError_eq_ok.mp hr.symm)
      refine ⟨hacc, hnext, hstore, ?_⟩
      rw [hstore]
      exact hcounter

/-- **A token is issued** no earlier than the operation read, and has been reached. -/
theorem EffectAt.issued_bounds (h : EffectAt config i (tenantId, op) moment later text r)
    (ht : op.issued r = some t) :
    (storeAlong tenantId moment).currentTx ≤ t ∧
      t ≤ (storeAlong tenantId later).currentTx := by
  by_cases hwrite : ∃ call, op = .writeRelationships call
  · obtain ⟨call, rfl⟩ := hwrite
    obtain ⟨-, hnext, -, hcounter⟩ := h.issued_write ht
    have hle := storeAlong_currentTx_mono tenantId (h.written call rfl)
    rw [hcounter] at hle
    exact ⟨hnext ▸ Nat.le_succ _, hle⟩
  · have heq := Operation.issued_eq h.result (fun call heq => hwrite ⟨call, heq⟩) ht
    subst heq
    exact ⟨le_rfl, storeAlong_currentTx_mono tenantId h.before⟩

end

/-- **Tokens only grow.**  In every interleaving, an operation that starts after another
has returned a token is given one that is no smaller, a write a greater one; and no two
writes of a tenant are given the same, whenever they run. -/
theorem tokens_only_grow (config : ServiceConfig) {p q : ServicePool}
    (hp : Pool.Steps (operations config) (Pool.init .new) p)
    (hq : Pool.Steps (operations config) p q) (hcount : q.log.length < 2 ^ 64 - 1)
    {i j : ℕ} {tenantId : TenantId} {op op' : Operation} {r : op.Result} {r' : op'.Result}
    {t t' : ℕ} (hi : p.returned i = some ⟨(tenantId, op), r⟩)
    (ht : op.issued r = some t) (hj : q.returned j = some ⟨(tenantId, op'), r'⟩)
    (ht' : op'.issued r' = some t') :
    (p.threads j = none → t ≤ t') ∧
      ((∃ call, op' = .writeRelationships call) → p.threads j = none → t < t') ∧
      ((∃ call, op = .writeRelationships call) → (∃ call, op' = .writeRelationships call) →
        i ≠ j → t ≠ t') := by
  have hqshort : Short q.log := hcount
  have hpshort : Short p.log := hqshort.of_prefix hq.log
  obtain ⟨_, moment, text, -, -, heffect⟩ :=
    effect_of_returned hp hpshort hi (Operation.pinned_of_issued ht)
  obtain ⟨origin', moment', text', hthread', hmoment', heffect'⟩ :=
    effect_of_returned (hp.trans hq) hqshort hj (Operation.pinned_of_issued ht')
  have hlater : p.threads j = none → t ≤ (storeAlong tenantId moment').currentTx := by
    intro hnew
    have hstarted : p.log <+: moment' := (hq.origin hnew hthread').trans hmoment'
    exact (heffect.issued_bounds ht).2.trans (storeAlong_currentTx_mono tenantId hstarted)
  refine ⟨?_, ?_, ?_⟩
  · intro hnew
    exact (hlater hnew).trans (heffect'.issued_bounds ht').1
  · intro hwrite hnew
    obtain ⟨call, rfl⟩ := hwrite
    have hnext := (heffect'.issued_write ht').2.1
    have hle := hlater hnew
    omega
  · intro hwrite hwrite' hne heq
    obtain ⟨call, rfl⟩ := hwrite
    obtain ⟨call', rfl⟩ := hwrite'
    obtain ⟨-, hnext, -, hcounter⟩ := heffect.issued_write ht
    obtain ⟨-, hnext', -, hcounter'⟩ := heffect'.issued_write ht'
    have hcall := (heffect.written call rfl).trans hq.log
    have hcall' := heffect'.written call' rfl
    -- both calls are in one log: one of them comes first
    obtain hle | hlt := Nat.lt_or_ge moment.length moment'.length
    · have hfirst : moment ++ [(i, .write tenantId call)] <+: moment' := by
        refine List.prefix_of_prefix_length_le hcall
          ((List.prefix_append _ _).trans hcall') ?_
        rw [List.length_append, List.length_singleton]
        exact hle
      have hmono := storeAlong_currentTx_mono tenantId hfirst
      omega
    · obtain hlt | hsame := Nat.lt_or_eq_of_le hlt
      · have hfirst : moment' ++ [(j, .write tenantId call')] <+: moment := by
          refine List.prefix_of_prefix_length_le hcall'
            ((List.prefix_append _ _).trans hcall) ?_
          rw [List.length_append, List.length_singleton]
          exact hlt
        have hmono := storeAlong_currentTx_mono tenantId hfirst
        omega
      · have heqlog : moment ++ [(i, ServiceCall.write tenantId call)] =
            moment' ++ [(j, .write tenantId call')] :=
          (List.prefix_of_prefix_length_le hcall hcall' (by simp [hsame])).eq_of_length
            (by simp [hsame])
        have hlast := (List.append_inj' heqlog rfl).2
        exact hne (congrArg Prod.fst (List.cons.inj hlast).1)

/-! ### Two writes -/

theorem aliceViews_wrote :
    aliceViews.returned 1 = some ⟨(acme, .writeRelationships readmeShared), .ok 1⟩ :=
  ServicePool.returned_of_wrote revokedMeanwhile_run.1

theorem revokedMeanwhile_wrote :
    revokedMeanwhile.returned 3 =
      some ⟨(acme, .writeRelationships takeBackDocuments), .ok 2⟩ :=
  ServicePool.returned_of_wrote revokedMeanwhile_run.2.2.1

theorem revokedMeanwhile_count : revokedMeanwhile.log.length < 2 ^ 64 - 1 :=
  revokedMeanwhile_run.2.2.2

theorem tokens_only_grow_revoked :
    (aliceViews.threads 3 = none → 1 ≤ 2) ∧
      ((∃ call, Operation.writeRelationships takeBackDocuments = .writeRelationships call) →
        aliceViews.threads 3 = none → 1 < 2) ∧
      ((∃ call, Operation.writeRelationships readmeShared = .writeRelationships call) →
        (∃ call, Operation.writeRelationships takeBackDocuments =
          .writeRelationships call) → 1 ≠ 3 → 1 ≠ 2) :=
  tokens_only_grow {} aliceViews_steps revokedMeanwhile_steps revokedMeanwhile_count
    aliceViews_wrote rfl revokedMeanwhile_wrote rfl

/-! ## The writes of a tenant -/

theorem reachable_storeAlong (tenantId : TenantId) (log : Log ServiceCall) :
    InMemoryStore.Reachable (storeAlong tenantId log) := by
  induction log using List.reverseRecOn with
  | nil => exact .new
  | append_singleton log entry ih =>
      obtain ⟨j, c⟩ := entry
      rw [storeAlong_concat]
      cases c with
      | write other call =>
          simp only [ServiceCall.storeAfter]
          split
          · exact .write call ih
          · exact ih
      | writeSchema other definition =>
          simp only [ServiceCall.storeAfter]
          split
          · exact .writeSchema definition ih
          · exact ih
      | _ => exact ih

/-- **No write is lost.**  In every interleaving, whatever the other writers do, what is
visible at the token of a write is what was visible at the token before it, without what
the write deletes and with what it touches. -/
theorem writes_are_not_lost (config : ServiceConfig) {p : ServicePool}
    (hp : Pool.Steps (operations config) (Pool.init .new) p)
    (hcount : p.log.length < 2 ^ 64 - 1) {i : ℕ} {tenantId : TenantId} {call : WriteCall}
    {t : ℕ} (hi : p.returned i = some ⟨(tenantId, .writeRelationships call), .ok t⟩) :
    ∃ before, t = before + 1 ∧ ∀ tuple, tuple ∈ (p.state.stores tenantId).visible t ↔
      (tuple ∈ (p.state.stores tenantId).visible before ∧ call.deleted tuple = false) ∨
        tuple ∈ call.writes.map TupleWrite.toTuple := by
  have hshort : Short p.log := hcount
  obtain ⟨_, moment, text, -, -, heffect⟩ := effect_of_returned hp hshort hi trivial
  obtain ⟨hacc, hnext, hstore, hcounter⟩ := heffect.issued_write rfl
  have hwritten := heffect.written call rfl
  obtain ⟨hnow, -⟩ := storeAlong_visible hwritten hshort (hcounter.symm.le)
  have hbefore : (storeAlong tenantId p.log).visible (storeAlong tenantId moment).currentTx =
      (storeAlong tenantId moment).visible (storeAlong tenantId moment).currentTx :=
    (storeAlong_visible heffect.before hshort le_rfl).1
  refine ⟨(storeAlong tenantId moment).currentTx, hnext, ?_⟩
  intro tuple
  rw [(operations_ok hp hshort).keeps.stores, hnow, hbefore, hstore, hnext,
    (reachable_storeAlong tenantId moment).mem_visible_write hacc]
  have hcount : (storeAlong tenantId moment).currentTx + 1 < ACTIVE_TX_ID := by
    have hle := storeAlong_currentTx_le tenantId (moment ++ [(i, .write tenantId call)])
    rw [hcounter, hnext] at hle
    exact Nat.lt_of_le_of_lt hle (hshort.of_prefix hwritten)
  exact and_iff_right hcount

theorem writes_are_not_lost_revoked :
    ∃ before, 2 = before + 1 ∧
      ∀ tuple, tuple ∈ (revokedMeanwhile.state.stores acme).visible 2 ↔
        (tuple ∈ (revokedMeanwhile.state.stores acme).visible before ∧
          takeBackDocuments.deleted tuple = false) ∨
        tuple ∈ takeBackDocuments.writes.map TupleWrite.toTuple :=
  writes_are_not_lost {} (aliceViews_steps.trans revokedMeanwhile_steps)
    revokedMeanwhile_count revokedMeanwhile_wrote

end Kraalzibar
