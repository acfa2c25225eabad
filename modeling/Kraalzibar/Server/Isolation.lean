import Kraalzibar.Core.Pinned
import Kraalzibar.Server.Service
import Kraalzibar.Storage.Memory

/-!
# Requests among concurrent writers

A request makes many store queries, and writes may commit between any two of
them.  A request pinned to a token is not affected: no later write changes what
is visible at the token, and every query of the request carries it.  A request
without a token reads each relation at whatever version is current, so its
answer may mix versions.

* `IsolatedFromWrites` — what pinning a request to a token promises;
* `pinned_requests_isolated` — `check`, `expand` and `lookup_resources` keep it;
* `torn_check` — without a token, a check answers what no version grants;
* `check_replays_versions` — what a check without a token does answer.
-/

namespace Kraalzibar

open Foundations

/-! ## Versions of the in-memory store -/

/-- A store with fixed contents. -/
structure StoreVersion where
  token : SnapshotToken
  tuples : List Tuple

/-- Every query of a fixed store is answered from its contents. -/
def StoreVersion.query (v : StoreVersion) : ∀ q : StoreQuery, q.Reply
  | .read filter _ limit =>
      .ok (limited limit (v.tuples.filter (fun t => filter.matches t)))
  | .snapshot => .ok v.token
  | .listObjectIds objectType _ limit =>
      .ok (limited limit (sortDedup ((v.tuples.filter
        (fun t => decide (t.object.objectType = objectType))).map (·.object.objectId))))

/-- The version of the store at token `s`. -/
def InnerState.versionAt (state : InnerState) (s : Nat) : StoreVersion :=
  { token := s, tuples := state.visible s }

/-- The version a read without a token sees. -/
def InnerState.current (state : InnerState) : StoreVersion :=
  state.versionAt state.currentTx

/-- One `write_relationships` call, failed or not.  The token counter is a `u64`
whose last value marks active rows. -/
def WriteStep (state state' : InnerState) : Prop :=
  state.currentTx + 1 < ACTIVE_TX_ID ∧
    ∃ call, state' = (InMemoryStore.store.write state call).2

/-- A write either leaves the store as it was or moves to the next token. -/
theorem WriteStep.cases {state state' : InnerState} (h : WriteStep state state') :
    state' = state ∨ state'.currentTx = state.currentTx + 1 := by
  obtain ⟨htx, call, rfl⟩ := h
  by_cases hacc : call.accepted = true
  · exact Or.inr (InMemoryStore.write_ok state hacc htx).2.1
  · refine Or.inl ?_
    show (InMemoryStore.write state call).2 = state
    rw [InMemoryStore.write_rejected state (by simpa using hacc)]

/-- No write changes what is visible at a token already handed out. -/
theorem WriteStep.visible {state state' : InnerState} (h : WriteStep state state')
    {s : Nat} (hs : s ≤ state.currentTx) :
    state'.visible s = state.visible s ∧ s ≤ state'.currentTx := by
  obtain ⟨htx, call, rfl⟩ := h
  show (InMemoryStore.write state call).2.visible s = _ ∧
    s ≤ (InMemoryStore.write state call).2.currentTx
  by_cases hacc : call.accepted = true
  · obtain ⟨-, hcurrent, -, hversions⟩ := InMemoryStore.write_ok state hacc htx
    refine ⟨?_, by omega⟩
    rw [InnerState.visible, hversions]
    exact Version.visible_commit_old (by omega) (by omega)
  · rw [InMemoryStore.write_rejected state (by simpa using hacc)]
    exact ⟨rfl, hs⟩

/-- The query reads at `snapshot`. -/
def StoreQuery.At (snapshot : Option SnapshotToken) : StoreQuery → Prop
  | .read _ snap _ => snap = snapshot
  | .snapshot => False
  | .listObjectIds _ snap _ => snap = snapshot

theorem query_some {state : InnerState} {s : Nat} (hs : s ≤ state.currentTx)
    {q : StoreQuery} (hq : q.At (some s)) :
    InMemoryStore.store.query state q = (state.versionAt s).query q := by
  cases q with
  | read filter snap limit =>
      obtain rfl : snap = some s := hq
      show InMemoryStore.read state filter (some s) limit = _
      rw [InMemoryStore.read_eq, InMemoryStore.resolve_some hs]
      rfl
  | snapshot => exact hq.elim
  | listObjectIds objectType snap limit =>
      obtain rfl : snap = some s := hq
      show InMemoryStore.listObjectIds state objectType (some s) limit = _
      rw [InMemoryStore.listObjectIds_eq, InMemoryStore.resolve_some hs]
      rfl

theorem query_none (state : InnerState) {q : StoreQuery} (hq : q.At none) :
    InMemoryStore.store.query state q = state.current.query q := by
  cases q with
  | read filter snap limit =>
      obtain rfl : snap = none := hq
      show InMemoryStore.read state filter none limit = _
      rw [InMemoryStore.read_eq]
      rfl
  | snapshot => exact hq.elim
  | listObjectIds objectType snap limit =>
      obtain rfl : snap = none := hq
      show InMemoryStore.listObjectIds state objectType none limit = _
      rw [InMemoryStore.listObjectIds_eq]
      rfl

theorem query_ahead {state : InnerState} {s : Nat} (hs : state.currentTx < s)
    {q : StoreQuery} (hq : q.At (some s)) :
    ∃ e, InMemoryStore.store.query state q = .error e := by
  refine ⟨.snapshotAhead s state.currentTx, ?_⟩
  cases q with
  | read filter snap limit =>
      obtain rfl : snap = some s := hq
      show InMemoryStore.read state filter (some s) limit = _
      rw [InMemoryStore.read_eq, InMemoryStore.resolve_ahead hs]
      rfl
  | snapshot => exact hq.elim
  | listObjectIds objectType snap limit =>
      obtain rfl : snap = some s := hq
      show InMemoryStore.listObjectIds state objectType (some s) limit = _
      rw [InMemoryStore.listObjectIds_eq, InMemoryStore.resolve_ahead hs]
      rfl

/-! ## Requests read at their snapshot -/

/-- Every query of the request is at `snapshot`, and a failed one ends it. -/
def QueriesAt {α : Type} (snapshot : Option SnapshotToken) (x : ServiceM α) : Prop :=
  Fallible.Guarded (StoreQuery.At snapshot) (fun _ reply => ∃ e, reply = .error e) x

theorem StoreTupleReader.run_queriesAt {α : Type} {snapshot : Option SnapshotToken}
    {program : ReadM α} (h : ReadsAt snapshot program) :
    QueriesAt snapshot (StoreTupleReader.run program) := by
  have hadapt : ∀ call : ReadCall, call.snapshot = snapshot →
      Client.Guarded (StoreQuery.At snapshot) (fun _ reply => ∃ e, reply = .error e)
        (fun reply => ∃ e, reply = .error e) (StoreTupleReader.readTuples call) := by
    intro call hcall
    refine .call hcall ?_ (fun _ => .done _)
    intro _ hparts
    obtain ⟨e, rfl⟩ := hparts
    exact ⟨_, rfl, _, rfl⟩
  refine Client.Guarded.bind (h.translate hadapt) (fun _ => .done _) ?_
  intro _ hparts
  obtain ⟨e, rfl⟩ := hparts
  exact ⟨_, rfl, _, rfl⟩

theorem storeListObjectIds_queriesAt (objectType : String)
    (snapshot : Option SnapshotToken) (limit : Option Nat) :
    QueriesAt snapshot (storeListObjectIds objectType snapshot limit) := by
  refine .call rfl ?_ (fun _ => .done _)
  intro _ hparts
  obtain ⟨e, rfl⟩ := hparts
  exact ⟨_, rfl, _, rfl⟩

namespace AuthzService

variable (schema : Schema) (engineConfig : EngineConfig)

/-- A check after its snapshot is resolved. -/
def checkAt (input : CheckPermissionInput) (snapshot : Option SnapshotToken) :
    ServiceM CheckPermissionOutput := do
  let result ← StoreTupleReader.run (CheckEngine.check ⟨schema, engineConfig⟩
    { objectType := input.objectType, objectId := input.objectId,
      permission := input.permission, subjectType := input.subjectType,
      subjectId := input.subjectId, snapshot })
  pure { allowed := result.allowed, snapshot }

/-- An expansion after its snapshot is resolved. -/
def expandAt (input : ExpandPermissionInput) (snapshot : Option SnapshotToken) :
    ServiceM ExpandPermissionOutput := do
  let tree ← StoreTupleReader.run (ExpandEngine.expand ⟨schema, engineConfig⟩
    { objectType := input.objectType, objectId := input.objectId,
      permission := input.permission, snapshot })
  pure { tree, snapshot }

/-- A lookup after its snapshot is resolved. -/
def lookupAt (input : LookupResourcesInput) (snapshot : Option SnapshotToken) :
    ServiceM LookupResourcesOutput := do
  let objectIds ← storeListObjectIds input.resourceType snapshot none
  let resourceIds ← lookupLoop ⟨schema, engineConfig⟩ input snapshot
    (input.limit.getD 1000) objectIds []
  pure { resourceIds, snapshot }

theorem checkPermission_eq (input : CheckPermissionInput) :
    checkPermission schema engineConfig input =
      resolveSnapshot input.consistency >>= checkAt schema engineConfig input := rfl

variable {schema engineConfig}

theorem checkAt_queriesAt (input : CheckPermissionInput)
    (snapshot : Option SnapshotToken) :
    QueriesAt snapshot (checkAt schema engineConfig input snapshot) :=
  Fallible.Guarded.bind (StoreTupleReader.run_queriesAt (CheckEngine.check_readsAt rfl))
    fun _ => .pure _

theorem expandAt_queriesAt (input : ExpandPermissionInput)
    (snapshot : Option SnapshotToken) :
    QueriesAt snapshot (expandAt schema engineConfig input snapshot) :=
  Fallible.Guarded.bind (StoreTupleReader.run_queriesAt (ExpandEngine.expand_readsAt rfl))
    fun _ => .pure _

theorem lookupLoop_queriesAt (engine : CheckEngine) (input : LookupResourcesInput)
    (snapshot : Option SnapshotToken) (limit : Nat) (objectIds results : List String) :
    QueriesAt snapshot (lookupLoop engine input snapshot limit objectIds results) := by
  induction objectIds generalizing results with
  | nil => exact .pure _
  | cons objectId objectIds ih =>
      unfold lookupLoop
      split
      · exact .pure _
      · exact Fallible.Guarded.bind
          (StoreTupleReader.run_queriesAt (CheckEngine.check_readsAt rfl)) fun _ => ih _

theorem lookupAt_queriesAt (input : LookupResourcesInput)
    (snapshot : Option SnapshotToken) :
    QueriesAt snapshot (lookupAt schema engineConfig input snapshot) :=
  (storeListObjectIds_queriesAt _ _ _).bind fun _ =>
    (lookupLoop_queriesAt _ _ _ _ _ _).bind fun _ => .pure _

end AuthzService

/-! ## Pinned requests -/

/-- The snapshot a request is pinned to when its first query is answered in
`state`. -/
def Consistency.pinned (consistency : Consistency) (state : InnerState) :
    Option SnapshotToken :=
  match consistency with
  | .fullConsistency => some state.currentTx
  | .minimizeLatency => none
  | .atLeastAsFresh token => some token
  | .atExactSnapshot token => some token

/-- In every interleaving with writes, a request pinned to `s` when its first
query is answered returns what it returns alone on the version at `s`, and
fails if `s` is ahead of the store at that moment. -/
def IsolatedFromWrites {α : Type} (consistency : Consistency) (request : ServiceM α) :
    Prop :=
  ∀ state states reads result,
    Client.Run WriteStep InMemoryStore.store.query state request.run states reads result →
    ∀ first s, reads.head? = some first → consistency.pinned first = some s →
      (s ≤ first.currentTx → result = Fallible.eval (first.versionAt s).query request) ∧
      (first.currentTx < s → ∃ e, result = .error e)

/-- A program whose queries are at `s`, from a state where `s` is handed out. -/
theorem QueriesAt.isolated {α : Type} {s : Nat} {x : ServiceM α}
    (hx : QueriesAt (some s) x) {state first : InnerState}
    {states reads : List InnerState} {result : Except ApiError α}
    (hrun : Client.Run WriteStep InMemoryStore.store.query state x.run states reads result)
    (hfirst : ∀ t ∈ reads.head?, t.visible s = first.visible s ∧ s ≤ t.currentTx) :
    result = Fallible.eval (first.versionAt s).query x := by
  refine Client.Run.eq_runWith
    (I := fun t => t.visible s = first.visible s ∧ s ≤ t.currentTx) ?_ ?_ hrun hx hfirst
  · intro t t' ht hstep
    obtain ⟨hvisible, hle⟩ := hstep.visible ht.2
    exact ⟨hvisible.trans ht.1, hle⟩
  · intro t q ht hq
    rw [query_some ht.2 hq, InnerState.versionAt, ht.1]
    rfl

/-- **A request that passes its snapshot to every query is isolated.** -/
theorem isolatedFromWrites {α : Type} (consistency : Consistency)
    {rest : Option SnapshotToken → ServiceM α}
    (hrest : ∀ snapshot, QueriesAt snapshot (rest snapshot)) :
    IsolatedFromWrites consistency
      (AuthzService.resolveSnapshot consistency >>= rest) := by
  -- with an explicit token, resolving makes no query
  have explicit : ∀ token state states reads result,
      Client.Run WriteStep InMemoryStore.store.query state (rest (some token)).run states
        reads result →
      ∀ first, reads.head? = some first →
        (token ≤ first.currentTx → result =
          Fallible.eval (first.versionAt token).query (rest (some token))) ∧
        (first.currentTx < token → ∃ e, result = .error e) := by
    intro token state states reads result hrun first hfirst
    constructor
    · intro hle
      refine (hrest (some token)).isolated hrun ?_
      intro t ht
      obtain rfl : first = t := Option.some.inj (hfirst.symm.trans ht)
      exact ⟨rfl, hle⟩
    · intro hlt
      exact hrun.failed (hrest (some token)) hfirst (fun q hq => query_ahead hlt hq)
  intro state states reads result hrun first s hfirst hpinned
  cases consistency with
  | fullConsistency =>
      obtain rfl : first.currentTx = s := Option.some.inj hpinned
      refine ⟨fun _ => ?_, fun hlt => absurd hlt (lt_irrefl _)⟩
      obtain ⟨states', reads', hrun'⟩ := Client.Run.after_first hrun hfirst
      refine (hrest (some first.currentTx)).isolated hrun' ?_
      intro t ht
      -- the queries after `snapshot` are answered in later states
      have hmem := hrun'.reads_subset t (List.mem_of_mem_head? ht)
      exact hrun'.forall_states (I := fun t =>
        t.visible first.currentTx = first.visible first.currentTx ∧
          first.currentTx ≤ t.currentTx)
        (fun t t' h hstep =>
          ⟨(hstep.visible h.2).1.trans h.1, (hstep.visible h.2).2⟩) ⟨rfl, le_rfl⟩ t hmem
  | minimizeLatency => cases hpinned
  | atLeastAsFresh token =>
      obtain rfl : token = s := Option.some.inj hpinned
      exact explicit token state states reads result hrun first hfirst
  | atExactSnapshot token =>
      obtain rfl : token = s := Option.some.inj hpinned
      exact explicit token state states reads result hrun first hfirst

/-- **Pinned requests are isolated from concurrent writes**: `check`, `expand`
and `lookup_resources`, for every schema, input and interleaving. -/
theorem pinned_requests_isolated (schema : Schema) (engineConfig : EngineConfig)
    (check : CheckPermissionInput) (expand : ExpandPermissionInput)
    (lookup : LookupResourcesInput) :
    IsolatedFromWrites check.consistency
      (AuthzService.checkPermission schema engineConfig check) ∧
    IsolatedFromWrites expand.consistency
      (AuthzService.expandPermissionTree schema engineConfig expand) ∧
    IsolatedFromWrites lookup.consistency
      (AuthzService.lookupResources schema engineConfig lookup) :=
  ⟨isolatedFromWrites _ (AuthzService.checkAt_queriesAt check),
    isolatedFromWrites _ (AuthzService.expandAt_queriesAt expand),
    isolatedFromWrites _ (AuthzService.lookupAt_queriesAt lookup)⟩

/-- `definition document { relation viewer: user relation banned: user
permission view = viewer - banned }`. -/
def bannedSchema : Schema where
  types :=
    [{ name := "user", relations := [], permissions := [] },
     { name := "document"
       relations := [⟨"viewer", [⟨"user", none⟩]⟩, ⟨"banned", [⟨"user", none⟩]⟩]
       permissions := [⟨"view", .exclusion (.this "viewer") (.this "banned")⟩] }]

/-- Alice is a viewer and banned; the next write removes both at once. -/
def bannedCalls : WriteCall × WriteCall :=
  (⟨[⟨⟨"document", "readme"⟩, "viewer", .direct "user" "alice"⟩,
     ⟨⟨"document", "readme"⟩, "banned", .direct "user" "alice"⟩], []⟩,
   ⟨[], [{ objectId := some "readme" }]⟩)

def bannedState : InnerState :=
  InMemoryStore.store.afterWrites InMemoryStore.new [bannedCalls.1]

def clearedState : InnerState :=
  (InMemoryStore.store.write bannedState bannedCalls.2).2

def viewCheck (consistency : Consistency) : ServiceM CheckPermissionOutput :=
  AuthzService.checkPermission bannedSchema {}
    ⟨"document", "readme", "view", "user", "alice", consistency⟩

theorem bannedState_step : WriteStep bannedState clearedState :=
  ⟨by decide, bannedCalls.2, rfl⟩

/-- Pinned to token 1, the check is not affected by the write between its two
reads: it answers what version 1 says. -/
theorem pinned_requests_isolated_cleared :
    (.ok ⟨false, some 1⟩ : Except ApiError CheckPermissionOutput) =
      Fallible.eval (bannedState.versionAt 1).query (viewCheck (.atExactSnapshot 1)) := by
  have hrun : Client.Run WriteStep InMemoryStore.store.query bannedState
      (viewCheck (.atExactSnapshot 1)).run [bannedState, clearedState]
      [bannedState, clearedState] (.ok ⟨false, some 1⟩) :=
    .call (.env bannedState_step (.call (.done _ _)))
  have hisolated := (pinned_requests_isolated bannedSchema {}
    ⟨"document", "readme", "view", "user", "alice", .atExactSnapshot 1⟩
    ⟨"document", "readme", "view", .atExactSnapshot 1⟩
    ⟨"document", "view", "user", "alice", .atExactSnapshot 1, none⟩).1
  exact (hisolated _ _ _ _ hrun bannedState 1 rfl rfl).1 (by decide)

/-! ## Requests without a token -/

/-- Later in a run the token is no smaller, and an equal token is an equal
state. -/
def NotBefore (state state' : InnerState) : Prop :=
  state.currentTx ≤ state'.currentTx ∧
    (state.currentTx = state'.currentTx → state = state')

theorem notBefore_reads {α : Type} {x : ServiceM α} {state : InnerState}
    {states reads : List InnerState} {result : Except ApiError α}
    (hrun : Client.Run WriteStep InMemoryStore.store.query state x.run states reads result) :
    reads.Pairwise NotBefore := by
  refine (hrun.pairwise_reads NotBefore ?_ ?_ ?_).2
  · exact fun t => ⟨le_rfl, fun _ => rfl⟩
  · intro t u v htu huv
    refine ⟨htu.1.trans huv.1, fun heq => ?_⟩
    have htu' : t.currentTx = u.currentTx := by
      have hle := htu.1
      have hle' := huv.1
      omega
    rw [htu.2 htu', huv.2 (by omega)]
  · intro t u hstep
    rcases hstep.cases with rfl | hnext
    · exact ⟨le_rfl, fun _ => rfl⟩
    · exact ⟨by omega, fun heq => by omega⟩

/-- **What a check without a token answers.**  Its reads are answered at
versions current during the call, in the order of their tokens, and the result
is the evaluation with each read answered from its own version.  If the token
does not move between the first read and the last, one version current during
the call gives the result. -/
theorem check_replays_versions (schema : Schema) (engineConfig : EngineConfig)
    (input : CheckPermissionInput) (hlatency : input.consistency = .minimizeLatency)
    (state : InnerState) (states reads : List InnerState)
    (result : Except ApiError CheckPermissionOutput)
    (hrun : Client.Run WriteStep InMemoryStore.store.query state
      (AuthzService.checkPermission schema engineConfig input).run states reads result) :
    (∀ t ∈ reads, t ∈ states) ∧
    reads.Pairwise (fun t t' => t.currentTx ≤ t'.currentTx) ∧
    Client.replay (fun t => t.current.query)
      (AuthzService.checkPermission schema engineConfig input).run reads = some result ∧
    ((∀ t ∈ reads, ∀ t' ∈ reads, t.currentTx = t'.currentTx) →
      ∃ t ∈ states, result = Fallible.eval t.current.query
        (AuthzService.checkPermission schema engineConfig input)) := by
  have hguarded : QueriesAt none
      (AuthzService.checkPermission schema engineConfig input) := by
    rw [AuthzService.checkPermission_eq, hlatency]
    exact AuthzService.checkAt_queriesAt input none
  have horder := notBefore_reads hrun
  refine ⟨hrun.reads_subset, horder.imp (fun h => h.1), ?_, ?_⟩
  · rw [← hrun.replay_reads]
    exact (Client.replay_congr hguarded fun t _ q hq => query_none t hq).symm
  · intro hsame
    -- one state answered every read
    obtain ⟨t, hmem, hall⟩ : ∃ t ∈ states, ∀ u ∈ reads, u = t := by
      cases hreads : reads with
      | nil => exact ⟨state, List.mem_of_mem_head? hrun.head_states, by simp⟩
      | cons t reads' =>
          subst hreads
          refine ⟨t, hrun.reads_subset t List.mem_cons_self, ?_⟩
          intro u hu
          rcases List.mem_cons.mp hu with rfl | hu'
          · rfl
          · have hbefore := (List.pairwise_cons.mp horder).1 u hu'
            exact (hbefore.2 (hsame t List.mem_cons_self u hu)).symm
    refine ⟨t, hmem, Client.replay_eq_runWith hguarded ?_ hrun.replay_reads⟩
    intro u hu q hq
    rw [hall u hu, query_none t hq]

/-- The write falls between the reads of `viewer` and `banned`. -/
private theorem torn_run :
    Client.Run WriteStep InMemoryStore.store.query bannedState
      (viewCheck .minimizeLatency).run [bannedState, clearedState]
      [bannedState, clearedState] (.ok ⟨true, none⟩) :=
  .call (.env bannedState_step (.call (.done _ _)))

/-- **A torn check.**  While one atomic write removes alice both as a viewer and
from the banned list, the check without a token answers `true`; at every version
current during the call the engine answers `false`. -/
theorem torn_check : ∃ states reads,
    Client.Run WriteStep InMemoryStore.store.query bannedState
      (viewCheck .minimizeLatency).run states reads (.ok ⟨true, none⟩) ∧
    ∀ t ∈ states, Fallible.eval (listReader t.current.tuples)
      (CheckEngine.check ⟨bannedSchema, {}⟩
        ⟨"document", "readme", "view", "user", "alice", none⟩) = .ok ⟨false⟩ :=
  ⟨[bannedState, clearedState], _, torn_run, by decide +kernel⟩

/-- The torn check answers its two reads at versions 1 and 2. -/
theorem check_replays_versions_torn :
    [bannedState, clearedState].Pairwise (fun t t' => t.currentTx ≤ t'.currentTx) ∧
    Client.replay (fun t => t.current.query) (viewCheck .minimizeLatency).run
      [bannedState, clearedState] = some (.ok ⟨true, none⟩) := by
  have h := check_replays_versions bannedSchema {}
    ⟨"document", "readme", "view", "user", "alice", .minimizeLatency⟩ rfl bannedState
    _ _ _ torn_run
  exact ⟨h.2.1, h.2.2.1⟩

end Kraalzibar
