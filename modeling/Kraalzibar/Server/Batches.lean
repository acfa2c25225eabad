import Kraalzibar.Server.Deletes
import Kraalzibar.Storage.MemoryHistory

/-!
# Batches of updates

A request is a list of updates, but the store takes the touches and the deletes of a
write apart: the deletes are applied first, to the rows that were there before, and the
touches after them.  So the order of the updates in the request has no effect: a delete
undoes no touch of its own batch, whichever comes first.

* `WriteRequest.steps` — the updates of a request, by operation and relationship;
* `loop_collects` — what the handlers' loops make of them;
* `touches_outlast_deletes` — a relationship that is named is visible afterwards
  exactly if it is touched;
* `inRequestOrder_iff` — the batches for which this is what the request's order says;
* `delete_after_touch_lost` — a batch for which it is not.
-/

namespace Kraalzibar

open Foundations

/-- The operation of a REST update, as the handler compares it. -/
def Rest.RelationshipUpdate.op (update : Rest.RelationshipUpdate) : V1.UpdateOperation :=
  if update.operation = "touch" then .touch
  else if update.operation = "delete" then .delete
  else .unspecified

namespace WriteRequest

/-- The updates in request order: the operation, and the relationship it names. -/
def steps : WriteRequest → List (V1.UpdateOperation × Tuple)
  | .grpc updates => updates.filterMap fun u => u.named.map fun t => (.ofI32 u.operation, t)
  | .rest updates => updates.map fun u => (u.op, u.named)

/-- The operation of the last update that names `t`. -/
def lastOperation (request : WriteRequest) (t : Tuple) : Option V1.UpdateOperation :=
  ((request.steps.filter fun (_, named) => named = t).getLast?).map Prod.fst

/-- The handler runs from `s` to `s'`, accepts the request and returns `token`. -/
def Returns (tenantId : TenantId) (s s' : ServiceState) (token : SnapshotToken) :
    WriteRequest → Prop
  | .grpc updates =>
      Client.Exec ServiceState.Evicts (ServiceState.handle true) s
        (RelationshipService.writeRelationships ⟨some tenantId, ⟨updates⟩⟩).run s'
        (.ok { writtenAt := snapshotToZedToken (some token) })
  | .rest updates =>
      Client.Exec ServiceState.Evicts (ServiceState.handle true) s
        (Rest.writeRelationships tenantId ⟨updates⟩).run s'
        (.ok { writtenAt := toString token })

/-- The batch takes effect in request order: at `token` the last update of each
relationship decides. -/
def InRequestOrder (request : WriteRequest) (state : InnerState) (token : SnapshotToken) :
    Prop :=
  ∀ t, (request.lastOperation t = some .touch → t ∈ state.visible token) ∧
    (request.lastOperation t = some .delete → t ∉ state.visible token)

/-- What a write call takes over from updates: its touches, and a filter for each
relationship that a delete names. -/
structure Collects (call : WriteCall) (steps : List (V1.UpdateOperation × Tuple)) : Prop where
  touches : ∀ t, t ∈ call.writes.map TupleWrite.toTuple ↔ (.touch, t) ∈ steps
  deletes : ∀ t, (.delete, t) ∈ steps → call.deleted t = true
  specified : ∀ step ∈ steps, step.1 ≠ .unspecified

end WriteRequest

/-! ## The loops -/

/-- The filter of a delete matches the relationship it names. -/
theorem RelationshipService.deleteFilter_matches {rel : V1.Relationship} {write : TupleWrite}
    (h : protoRelationshipToWrite rel = .ok write) :
    (deleteFilter rel).matches write.toTuple = true := by
  obtain ⟨object, hobject, h⟩ := bind_eq_ok.mp h
  obtain ⟨subject, hsubject, h⟩ := bind_eq_ok.mp h
  obtain rfl := Except.ok.inj h
  rw [okOr_eq_ok, Option.map_eq_some_iff] at hobject hsubject
  obtain ⟨o, ho, rfl⟩ := hobject
  obtain ⟨sub, hsub, rfl⟩ := hsubject
  rw [TupleFilter.matches_iff]
  obtain ⟨ot, oi⟩ := o
  obtain ⟨st, si, sr⟩ := sub
  cases sr <;>
    simp [deleteFilter, protoFilterToDomain, ho, hsub, TupleWrite.toTuple, protoObjectToDomain,
      protoSubjectToDomain, SubjectRef.direct, SubjectRef.userset]

theorem Rest.deleteFilter_matches (update : Rest.RelationshipUpdate) :
    update.deleteFilter.matches update.named = true := by
  rw [TupleFilter.matches_iff]
  cases hrel : update.subjectRelation <;>
    simp [RelationshipUpdate.deleteFilter, RelationshipUpdate.named,
      RelationshipUpdate.object, RelationshipUpdate.subject, hrel, SubjectRef.direct,
      SubjectRef.userset]

namespace WriteRequest

variable {writes : List TupleWrite} {deletes : List TupleFilter}
  {steps : List (V1.UpdateOperation × Tuple)}

theorem Collects.nil : Collects ⟨[], []⟩ [] where
  touches := by simp
  deletes := by simp
  specified := by simp

theorem Collects.touch (h : Collects ⟨writes, deletes⟩ steps) (write : TupleWrite) :
    Collects ⟨write :: writes, deletes⟩ ((.touch, write.toTuple) :: steps) where
  touches := by
    intro t
    rw [List.map_cons, List.mem_cons, List.mem_cons, h.touches t]
    simp
  deletes := by
    intro t ht
    rcases List.mem_cons.mp ht with heq | ht
    · cases heq
    · exact h.deletes t ht
  specified := by
    intro step hstep
    rcases List.mem_cons.mp hstep with rfl | hstep
    · nofun
    · exact h.specified step hstep

/-- A filter more only deletes more. -/
theorem Collects.filter (h : Collects ⟨writes, deletes⟩ steps) (f : TupleFilter) :
    Collects ⟨writes, f :: deletes⟩ steps where
  touches := h.touches
  deletes := by
    intro t ht
    rw [WriteCall.deleted, List.any_cons, Bool.or_eq_true]
    exact Or.inr (h.deletes t ht)
  specified := h.specified

theorem Collects.delete (h : Collects ⟨writes, deletes⟩ steps) {f : TupleFilter} {t : Tuple}
    (hmatches : f.matches t = true) :
    Collects ⟨writes, f :: deletes⟩ ((.delete, t) :: steps) where
  touches := by
    intro t'
    rw [List.mem_cons, or_iff_right (by nofun)]
    exact h.touches t'
  deletes := by
    intro t' ht'
    rw [WriteCall.deleted, List.any_cons, Bool.or_eq_true]
    rcases List.mem_cons.mp ht' with heq | ht'
    · obtain rfl : t' = t := congrArg Prod.snd heq
      exact Or.inl hmatches
    · exact Or.inr (h.deletes t' ht')
  specified := by
    intro step hstep
    rcases List.mem_cons.mp hstep with rfl | hstep
    · nofun
    · exact h.specified step hstep

/-- The gRPC loop collects the updates, whatever it has collected before. -/
theorem grpc_loop_collects {updates : List V1.RelationshipUpdate} {call : WriteCall}
    (h : RelationshipService.updateLoop updates writes deletes = .ok call) :
    ∃ writes' deletes', call = ⟨writes ++ writes', deletes ++ deletes'⟩ ∧
      Collects ⟨writes', deletes'⟩ (WriteRequest.grpc updates).steps := by
  induction updates generalizing writes deletes with
  | nil =>
      obtain rfl := Except.ok.inj h
      exact ⟨[], [], by simp, .nil⟩
  | cons update updates ih =>
      obtain ⟨rel, hrel, h⟩ := bind_eq_ok.mp h
      rw [okOr_eq_ok] at hrel
      have hsteps : (WriteRequest.grpc (update :: updates)).steps =
          (update.named.map fun t => (.ofI32 update.operation, t)).toList ++
            (WriteRequest.grpc updates).steps := by
        cases hnamed : update.named <;> simp [WriteRequest.steps, hnamed]
      rw [hsteps]
      cases hop : V1.UpdateOperation.ofI32 update.operation with
      | touch =>
          rw [hop] at h
          obtain ⟨write, hwrite, h⟩ := bind_eq_ok.mp h
          obtain ⟨writes', deletes', rfl, hcollects⟩ := ih h
          have hnamed : update.named = some write.toTuple := by
            rw [V1.RelationshipUpdate.named, hrel, Option.map_some, hwrite]
          refine ⟨write :: writes', deletes', by simp, ?_⟩
          rw [hnamed]
          exact hcollects.touch write
      | delete =>
          rw [hop] at h
          obtain ⟨writes', deletes', rfl, hcollects⟩ := ih h
          refine ⟨writes', RelationshipService.deleteFilter rel :: deletes', by simp, ?_⟩
          cases hwrite : protoRelationshipToWrite rel with
          | ok write =>
              have hnamed : update.named = some write.toTuple := by
                rw [V1.RelationshipUpdate.named, hrel, Option.map_some, hwrite]
              rw [hnamed]
              exact hcollects.delete (RelationshipService.deleteFilter_matches hwrite)
          | error status =>
              -- without an object or a subject the delete names no relationship
              have hnamed : update.named = none := by
                rw [V1.RelationshipUpdate.named, hrel, Option.map_some, hwrite]
              rw [hnamed]
              exact hcollects.filter _
      | unspecified =>
          rw [hop] at h
          cases h

/-- The REST loop collects the updates, whatever it has collected before. -/
theorem rest_loop_collects {updates : List Rest.RelationshipUpdate} {call : WriteCall}
    (h : Rest.updateLoop updates writes deletes = .ok call) :
    ∃ writes' deletes', call = ⟨writes ++ writes', deletes ++ deletes'⟩ ∧
      Collects ⟨writes', deletes'⟩ (WriteRequest.rest updates).steps := by
  induction updates generalizing writes deletes with
  | nil =>
      obtain rfl := Except.ok.inj h
      exact ⟨[], [], by simp, .nil⟩
  | cons update updates ih =>
      obtain ⟨_, -, h⟩ := bind_eq_ok.mp h
      have hsteps : (WriteRequest.rest (update :: updates)).steps =
          (update.op, update.named) :: (WriteRequest.rest updates).steps := rfl
      rw [hsteps]
      by_cases htouch : update.operation = "touch"
      · rw [if_pos htouch] at h
        obtain ⟨writes', deletes', rfl, hcollects⟩ := ih h
        have hop : update.op = .touch := if_pos htouch
        refine ⟨⟨update.object, update.relation, update.subject⟩ :: writes', deletes',
          by simp, ?_⟩
        rw [hop]
        exact hcollects.touch _
      · rw [if_neg htouch] at h
        by_cases hdelete : update.operation = "delete"
        · rw [if_pos hdelete] at h
          obtain ⟨writes', deletes', rfl, hcollects⟩ := ih h
          have hop : update.op = .delete := by
            rw [Rest.RelationshipUpdate.op, if_neg htouch, if_pos hdelete]
          refine ⟨writes', update.deleteFilter :: deletes', by simp, ?_⟩
          rw [hop]
          exact hcollects.delete (Rest.deleteFilter_matches update)
        · rw [if_neg hdelete] at h
          cases h

/-! ## An accepted batch -/

/-- Two tokens with the same text are equal. -/
theorem toString_token_inj {m n : SnapshotToken} (h : toString m = toString n) : m = n := by
  have hdigits := congrArg (fun text : String => Nat.ofDigitChars 10 text.toList 0) h
  simpa using hdigits

/-- A successful write was accepted and returned the next token. -/
theorem accepted_of_write {state : InnerState} {call : WriteCall} {token : SnapshotToken}
    (h : (InMemoryStore.write state call).1 = .ok token) :
    call.accepted = true ∧ token = state.currentTx + 1 := by
  have hacc : call.accepted = true := by
    by_contra hrejected
    rw [InMemoryStore.write_rejected _ (Bool.not_eq_true _ ▸ hrejected)] at h
    cases h
  rw [InMemoryStore.write_accepted state hacc] at h
  exact ⟨hacc, (Except.ok.inj h).symm⟩

variable {tenantId : TenantId} {s s' : ServiceState} {token : SnapshotToken}

/-- **An accepted batch is one write** of what the loop collects. -/
theorem Returns.write {request : WriteRequest} (h : request.Returns tenantId s s' token) :
    ∃ call, Collects call request.steps ∧ call.accepted = true ∧
      token = (s.stores tenantId).currentTx + 1 ∧
      s'.stores tenantId = (InMemoryStore.write (s.stores tenantId) call).2 := by
  cases request with
  | grpc updates =>
      obtain ⟨call, hloop, ⟨token', hwrite, hresponse⟩, hstore⟩ :=
        accepted_write (s.stores tenantId) s s' _ rfl h _ rfl
      obtain ⟨writes', deletes', rfl, hcollects⟩ := grpc_loop_collects hloop
      obtain ⟨hacc, htoken'⟩ := accepted_of_write hwrite
      have htext : some (V1.ZedToken.mk (toString token)) = some ⟨toString token'⟩ :=
        congrArg V1.WriteRelationshipsResponse.writtenAt hresponse
      have htoken : token = token' := by
        rw [Option.some_inj, V1.ZedToken.mk.injEq] at htext
        exact toString_token_inj htext
      exact ⟨_, hcollects, hacc, htoken.trans htoken', hstore⟩
  | rest updates =>
      have hrun : Client.Exec ServiceState.Evicts (ServiceState.handle true) s
        (Rest.writeRelationships tenantId ⟨updates⟩).run s' (.ok ⟨toString token⟩) := h
      unfold Rest.writeRelationships at hrun
      by_cases hbatch : updates.length > Rest.maxBatchSize
      · rw [if_pos hbatch] at hrun
        cases Client.Exec.eq_of_done hrun
      · rw [if_neg hbatch] at hrun
        obtain ⟨call, hloop, ⟨token', hwrite, hresponse⟩, hstore⟩ :=
          accepted_write (s.stores tenantId) s s' _ rfl hrun _ rfl
        obtain ⟨writes', deletes', rfl, hcollects⟩ := rest_loop_collects hloop
        obtain ⟨hacc, htoken'⟩ := accepted_of_write hwrite
        have htoken : token = token' :=
          toString_token_inj (congrArg Rest.WriteRelationshipsResponse.writtenAt hresponse)
        exact ⟨_, hcollects, hacc, htoken.trans htoken', hstore⟩

/-- What an accepted batch leaves visible of the relationships it names. -/
theorem Returns.mem_visible {request : WriteRequest}
    (hreach : InMemoryStore.Reachable (s.stores tenantId))
    (h : request.Returns tenantId s s' token) {op : V1.UpdateOperation} {t : Tuple}
    (hnamed : (op, t) ∈ request.steps) :
    t ∈ (s'.stores tenantId).visible token ↔
      token < ACTIVE_TX_ID ∧ (.touch, t) ∈ request.steps := by
  obtain ⟨call, hcollects, hacc, rfl, hstore⟩ := h.write
  rw [hstore, hreach.mem_visible_write hacc, hcollects.touches t]
  refine and_congr_right fun _ => ⟨?_, Or.inr⟩
  rintro (⟨-, hkept⟩ | htouch)
  · cases op with
    | unspecified => exact absurd rfl (hcollects.specified _ hnamed)
    | touch => exact hnamed
    | delete =>
        rw [hcollects.deletes t hnamed] at hkept
        cases hkept
  · exact htouch

/-- The last update that names a relationship is one of the updates. -/
theorem mem_steps_of_lastOperation {request : WriteRequest} {t : Tuple}
    {op : V1.UpdateOperation} (h : request.lastOperation t = some op) :
    (op, t) ∈ request.steps := by
  obtain ⟨⟨op', t'⟩, hlast, rfl⟩ := Option.map_eq_some_iff.mp h
  have hmem := List.mem_of_getLast? hlast
  rw [List.mem_filter, decide_eq_true_eq] at hmem
  obtain ⟨hmem, rfl⟩ := hmem
  exact hmem

/-- **When the request's order is kept**: no relationship that is deleted last is
touched earlier in the batch. -/
theorem inRequestOrder_iff {request : WriteRequest}
    (hreach : InMemoryStore.Reachable (s.stores tenantId))
    (h : request.Returns tenantId s s' token) (htoken : token < ACTIVE_TX_ID) :
    request.InRequestOrder (s'.stores tenantId) token ↔
      ∀ t, request.lastOperation t = some .delete → (.touch, t) ∉ request.steps := by
  refine forall_congr' fun t => ?_
  constructor
  · intro horder hlast htouch
    have hnamed := mem_steps_of_lastOperation hlast
    exact horder.2 hlast ((h.mem_visible hreach hnamed).mpr ⟨htoken, htouch⟩)
  · intro hkept
    refine ⟨?_, ?_⟩
    · intro hlast
      have hnamed := mem_steps_of_lastOperation hlast
      exact (h.mem_visible hreach hnamed).mpr ⟨htoken, hnamed⟩
    · intro hlast hvisible
      have hnamed := mem_steps_of_lastOperation hlast
      exact hkept hlast ((h.mem_visible hreach hnamed).mp hvisible).2

/-- **Touches outlast deletes.**  After an accepted batch, over gRPC or REST and from
any state the store passes through, a relationship that some update names is read back
at the returned token exactly if some update touches it, wherever the two stand in the
request; the token must be below the active mark, at which nothing is read. -/
theorem touches_outlast_deletes (request : WriteRequest) (tenantId : TenantId)
    (s s' : ServiceState) (token : SnapshotToken)
    (hreach : InMemoryStore.Reachable (s.stores tenantId))
    (hreturns : request.Returns tenantId s s' token) :
    ∃ tuples, InMemoryStore.read (s'.stores tenantId) {} (some token) none = .ok tuples ∧
      ∀ op t, (op, t) ∈ request.steps →
        (t ∈ tuples ↔ (.touch, t) ∈ request.steps ∧ token < ACTIVE_TX_ID) := by
  obtain ⟨call, -, hacc, htoken, hstore⟩ := hreturns.write
  have hcurrent : token ≤ (s'.stores tenantId).currentTx := by
    rw [hstore, InMemoryStore.write_accepted _ hacc, htoken]
  refine ⟨(s'.stores tenantId).visible token, ?_, ?_⟩
  · rw [InMemoryStore.read_eq, InMemoryStore.resolve_some hcurrent]
    simp [Except.map, limited]
  · intro op t hnamed
    rw [hreturns.mem_visible hreach hnamed, and_comm]

end WriteRequest

/-! ### Granting and revoking in one batch -/

/-- Alice is made a viewer and then removed, over gRPC. -/
def grantThenRevoke : List V1.RelationshipUpdate :=
  let alice := some ⟨some ⟨"doc", "1"⟩, "viewer", some ⟨"user", "alice", none⟩⟩
  [⟨1, alice⟩, ⟨2, alice⟩]

/-- The same batch over REST. -/
def grantThenRevokeRest : List Rest.RelationshipUpdate :=
  [⟨"touch", "doc", "1", "viewer", "user", "alice", none⟩,
    ⟨"delete", "doc", "1", "viewer", "user", "alice", none⟩]

def afterRevoke : Except Tonic.Status V1.WriteRelationshipsResponse × ServiceState :=
  Client.exec (ServiceState.handle true)
    (RelationshipService.writeRelationships ⟨some acme, ⟨grantThenRevoke⟩⟩).run .new

def afterRevokeRest :
    Except Rest.ErrorResponse Rest.WriteRelationshipsResponse × ServiceState :=
  Client.exec (ServiceState.handle true)
    (Rest.writeRelationships acme ⟨grantThenRevokeRest⟩).run .new

theorem returns_grantThenRevoke :
    (WriteRequest.grpc grantThenRevoke).Returns acme .new afterRevoke.2 1 := by
  have hresult : afterRevoke.1 = .ok ⟨snapshotToZedToken (some 1)⟩ := by decide +kernel
  show Client.Exec _ _ _ _ _ _
  rw [← hresult]
  exact Client.exec_spec _ _

theorem returns_grantThenRevokeRest :
    (WriteRequest.rest grantThenRevokeRest).Returns acme .new afterRevokeRest.2 1 := by
  have hresult : afterRevokeRest.1 = .ok ⟨toString 1⟩ := by decide +kernel
  show Client.Exec _ _ _ _ _ _
  rw [← hresult]
  exact Client.exec_spec _ _

/-- The touch of that batch is read back. -/
theorem touches_outlast_deletes_grantThenRevoke :
    ∃ tuples, InMemoryStore.read (afterRevoke.2.stores acme) {} (some 1) none = .ok tuples ∧
      ∀ op t, (op, t) ∈ (WriteRequest.grpc grantThenRevoke).steps →
        (t ∈ tuples ↔
          (.touch, t) ∈ (WriteRequest.grpc grantThenRevoke).steps ∧ 1 < ACTIVE_TX_ID) :=
  WriteRequest.touches_outlast_deletes (.grpc grantThenRevoke) acme .new afterRevoke.2 1 .new
    returns_grantThenRevoke

/-- **The delete of that batch is lost**: it comes last, and Alice can still view, over
gRPC and over REST. -/
theorem delete_after_touch_lost :
    (WriteRequest.grpc grantThenRevoke).Returns acme .new afterRevoke.2 1 ∧
    (WriteRequest.grpc grantThenRevoke).lastOperation
      ⟨⟨"doc", "1"⟩, "viewer", .direct "user" "alice"⟩ = some .delete ∧
    ⟨⟨"doc", "1"⟩, "viewer", .direct "user" "alice"⟩ ∈ (afterRevoke.2.stores acme).visible 1 ∧
    (WriteRequest.rest grantThenRevokeRest).Returns acme .new afterRevokeRest.2 1 ∧
    (WriteRequest.rest grantThenRevokeRest).lastOperation
      ⟨⟨"doc", "1"⟩, "viewer", .direct "user" "alice"⟩ = some .delete ∧
    ⟨⟨"doc", "1"⟩, "viewer", .direct "user" "alice"⟩ ∈
      (afterRevokeRest.2.stores acme).visible 1 ∧
    ¬ ∀ (request : WriteRequest) (tenantId : TenantId) (s s' : ServiceState)
        (token : SnapshotToken), InMemoryStore.Reachable (s.stores tenantId) →
      request.Returns tenantId s s' token →
      request.InRequestOrder (s'.stores tenantId) token := by
  have hlast : (WriteRequest.grpc grantThenRevoke).lastOperation
      ⟨⟨"doc", "1"⟩, "viewer", .direct "user" "alice"⟩ = some .delete := by decide
  have hvisible : ⟨⟨"doc", "1"⟩, "viewer", .direct "user" "alice"⟩ ∈
      (afterRevoke.2.stores acme).visible 1 := by decide +kernel
  refine ⟨returns_grantThenRevoke, hlast, hvisible, returns_grantThenRevokeRest, by decide,
    by decide +kernel, ?_⟩
  intro horder
  have h := horder (.grpc grantThenRevoke) acme .new afterRevoke.2 1 .new
    returns_grantThenRevoke ⟨⟨"doc", "1"⟩, "viewer", .direct "user" "alice"⟩
  exact h.2 hlast hvisible

end Kraalzibar
