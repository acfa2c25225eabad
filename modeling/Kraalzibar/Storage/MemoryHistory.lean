import Kraalzibar.Storage.Memory

/-!
# The in-memory store refines a history of sets

Read as a specification, a store is a sequence of sets: the `i`-th successful
write removes the tuples its filters match from the previous set and adds the
tuples it touches, and a read at token `i` returns the `i`-th set.

* `Recorded` — the version rows hold the contents after every successful write;
* `Recorded.write`, `recorded_afterWrites` — one write keeps it, a run has it;
* `Reachable.mem_visible_write` — what a write leaves visible, in every state a store
  passes through;
* `refines_history` — every answer of a store that has seen any writes is read
  off the history.
-/

namespace Kraalzibar

open Foundations

/-- A write call as a batch of the history. -/
def WriteCall.batch (call : WriteCall) : Batch Tuple :=
  { deletes := call.deleted, adds := call.writes.map TupleWrite.toTuple }

/-- The batches of the calls that succeed. -/
def successful (calls : List WriteCall) : List (Batch Tuple) :=
  (calls.filter (·.accepted)).map WriteCall.batch

theorem successful_concat_rejected {calls : List WriteCall} {call : WriteCall}
    (h : call.accepted = false) : successful (calls ++ [call]) = successful calls := by
  simp [successful, h]

theorem successful_concat_accepted {calls : List WriteCall} {call : WriteCall}
    (h : call.accepted = true) :
    successful (calls ++ [call]) = successful calls ++ [call.batch] := by
  simp [successful, h]

theorem length_successful_le (calls : List WriteCall) :
    (successful calls).length ≤ calls.length := by
  rw [successful, List.length_map]
  exact List.length_filter_le _ _

namespace InMemoryStore

/-- The state records the contents after each successful call. -/
structure Recorded (state : InnerState) (calls : List WriteCall) : Prop where
  currentTx : state.currentTx = (successful calls).length
  records : Version.Records ACTIVE_TX_ID (successful calls).length state.versions
    (Batch.contents (successful calls))

theorem recorded_new : Recorded new [] where
  currentTx := rfl
  records := {
    bounded := (Version.Records.nil ACTIVE_TX_ID).bounded
    visible_eq := by
      intro s _
      simp [Batch.contents, successful, new, InnerState.versions, Version.visible] }

/-- **Step lemma.**  A write, successful or not, keeps the state recorded. -/
theorem Recorded.write {state : InnerState} {calls : List WriteCall}
    (h : Recorded state calls) (call : WriteCall)
    (hcount : (successful calls).length + 1 < ACTIVE_TX_ID) :
    Recorded (write state call).2 (calls ++ [call]) := by
  by_cases hacc : call.accepted = true
  · have htx : state.currentTx + 1 < ACTIVE_TX_ID := by
      rw [h.currentTx]
      exact hcount
    obtain ⟨-, hcurrent, -, hversions⟩ := write_ok state hacc htx
    have hlength : (successful (calls ++ [call])).length =
        (successful calls).length + 1 := by
      rw [successful_concat_accepted hacc, List.length_append]
      rfl
    refine ⟨?_, ?_⟩
    · rw [hcurrent, h.currentTx, hlength]
    · rw [hlength, hversions, h.currentTx, successful_concat_accepted hacc]
      exact h.records.commit hcount (fun s hs => Batch.contents_concat_old hs)
        Batch.contents_concat_new
  · have hacc : call.accepted = false := by simpa using hacc
    rw [write_rejected state hacc]
    refine ⟨?_, ?_⟩
    · rw [successful_concat_rejected hacc]
      exact h.currentTx
    · rw [successful_concat_rejected hacc]
      exact h.records

/-- **Run lemma.**  Every run of writes from the empty store is recorded. -/
theorem recorded_afterWrites {calls : List WriteCall}
    (hcount : calls.length < ACTIVE_TX_ID) :
    Recorded (store.afterWrites new calls) calls := by
  induction calls using List.reverseRecOn with
  | nil => exact recorded_new
  | append_singleton calls call ih =>
      rw [List.length_append, List.length_singleton] at hcount
      have hle := length_successful_le calls
      rw [RelationshipStore.afterWrites_concat]
      exact (ih (by omega)).write call (by omega)

theorem Recorded.visible {state : InnerState} {calls : List WriteCall}
    (h : Recorded state calls) {s : Nat} (hs : s ≤ (successful calls).length) :
    state.visible s = Batch.contents (successful calls) s :=
  h.records.visible_eq s hs

/-! ## Reachable states -/

/-- The states a store passes through: it starts empty, and tuples and the schema are
written. -/
inductive Reachable : InnerState → Prop
  | new : Reachable new
  | write {state : InnerState} (call : WriteCall) :
      Reachable state → Reachable (write state call).2
  | writeSchema {state : InnerState} (definition : String) :
      Reachable state → Reachable (schemaStore.writeSchema state definition).2

/-- The touches of a write only add their own rows. -/
theorem mem_touchLoop {txId : Nat} {indices : List Nat} {writes seen : List TupleWrite}
    {tuples : List StoredTuple} {t : StoredTuple}
    (h : t ∈ touchLoop txId indices writes seen tuples) :
    t ∈ tuples ∨ ∃ w ∈ writes, t = .ofWrite w txId := by
  induction writes generalizing seen tuples with
  | nil => exact Or.inl h
  | cons w writes ih =>
      have hlater : ∀ {seen' tuples'}, t ∈ touchLoop txId indices writes seen' tuples' →
          t ∈ tuples' ∨ ∃ w' ∈ w :: writes, t = .ofWrite w' txId := by
        intro seen' tuples' hmem
        refine (ih hmem).imp_right ?_
        rintro ⟨w', hw', rfl⟩
        exact ⟨w', List.mem_cons_of_mem _ hw', rfl⟩
      rw [touchLoop] at h
      split at h
      · exact hlater h
      · split at h
        · exact hlater h
        · rcases hlater h with hmem | hnew
          · rw [List.mem_append, List.mem_singleton] at hmem
            exact hmem.imp_right fun hw => ⟨w, List.mem_cons_self, hw⟩
          · exact Or.inr hnew

/-- **Step lemma.**  A write stamps its rows with the counter it leaves behind, also
when that is the active mark. -/
theorem bounded_write {state : InnerState} (call : WriteCall)
    (h : Version.Bounded ACTIVE_TX_ID state.currentTx state.versions) :
    Version.Bounded ACTIVE_TX_ID (write state call).2.currentTx
      (write state call).2.versions := by
  by_cases hacc : call.accepted = true
  · rw [write_accepted state hacc]
    intro v hv
    obtain ⟨t, ht, rfl⟩ := List.mem_map.mp hv
    have hold : ∀ u ∈ state.tuples, u.createdTxId ≤ state.currentTx + 1 ∧
        (u.deletedTxId = ACTIVE_TX_ID ∨ u.deletedTxId ≤ state.currentTx + 1) := by
      intro u hu
      have hbound := h u.toVersion (List.mem_map_of_mem hu)
      exact ⟨Nat.le_succ_of_le hbound.1, hbound.2.imp_right Nat.le_succ_of_le⟩
    rcases mem_touchLoop ht with hstamped | ⟨w, -, rfl⟩
    · rw [stampAll_toDelete, List.mem_map] at hstamped
      obtain ⟨u, hu, rfl⟩ := hstamped
      split
      · exact ⟨(hold u hu).1, Or.inr le_rfl⟩
      · exact hold u hu
    · exact ⟨le_rfl, Or.inl rfl⟩
  · rw [write_rejected state (by simpa using hacc)]
    exact h

/-- **Run lemma.**  Every state a store passes through is bounded by its counter. -/
theorem Reachable.bounded {state : InnerState} (h : Reachable state) :
    Version.Bounded ACTIVE_TX_ID state.currentTx state.versions := by
  induction h with
  | new => exact recorded_new.records.bounded
  | write call _ ih => exact bounded_write call ih
  | writeSchema definition _ ih => exact ih

/-- **What a write leaves visible at its own token**: what was visible and no filter
matches, and what it touches; nothing, once the token is the active mark. -/
theorem Reachable.mem_visible_write {state : InnerState} {call : WriteCall}
    (h : Reachable state) (hacc : call.accepted = true) (t : Tuple) :
    t ∈ (InMemoryStore.write state call).2.visible (state.currentTx + 1) ↔
      state.currentTx + 1 < ACTIVE_TX_ID ∧
        ((t ∈ state.visible state.currentTx ∧ call.deleted t = false) ∨
          t ∈ call.writes.map TupleWrite.toTuple) := by
  by_cases htx : state.currentTx + 1 < ACTIVE_TX_ID
  · obtain ⟨-, -, -, hversions⟩ := write_ok state hacc htx
    rw [InnerState.visible, hversions,
      Version.visible_commit_new h.bounded (Nat.lt_succ_self _) htx, mem_applyBatch]
    simp only [htx, true_and]
    rfl
  · have hbounded := bounded_write call h.bounded
    rw [write_accepted state hacc] at hbounded ⊢
    simp only [htx, false_and, iff_false]
    intro hmem
    obtain ⟨v, hv, ⟨-, hdeleted⟩, -⟩ := Version.mem_visible.mp hmem
    have hbound := (hbounded v hv).2
    simp only at hbound
    omega

/-! ## The history -/

/-- The answers of a store that started empty and has seen `calls`, in terms of
the history of the successful ones. -/
structure RefinesHistory (calls : List WriteCall) : Prop where
  /-- The `i`-th successful write returned token `i`. -/
  token : ∀ earlier call later, calls = earlier ++ call :: later →
    call.accepted = true →
    (store.write (store.afterWrites new earlier) call).1 =
      .ok ((successful earlier).length + 1)
  /-- A write with an empty delete filter failed and left the store as it was. -/
  rejected : ∀ earlier call later, calls = earlier ++ call :: later →
    call.accepted = false →
    store.write (store.afterWrites new earlier) call =
      (.error .emptyDeleteFilter, store.afterWrites new earlier)
  /-- The current token is the number of successful writes. -/
  current : store.query (store.afterWrites new calls) .snapshot =
    .ok (successful calls).length
  /-- A read at `s` returns each matching tuple of the `s`-th set once. -/
  read : ∀ s ≤ (successful calls).length, ∀ filter, ∃ tuples : List Tuple,
    store.query (store.afterWrites new calls) (.read filter (some s) none) = .ok tuples ∧
    tuples.Nodup ∧
    ∀ t, t ∈ tuples ↔ t ∈ Batch.history (successful calls) s ∧ filter.matches t = true
  /-- Listing object ids at `s` returns those of the `s`-th set, sorted. -/
  listObjectIds : ∀ s ≤ (successful calls).length, ∀ objectType, ∃ ids : List String,
    store.query (store.afterWrites new calls) (.listObjectIds objectType (some s) none) =
      .ok ids ∧
    ids.Pairwise (· < ·) ∧
    ∀ id, id ∈ ids ↔ ∃ t ∈ Batch.history (successful calls) s,
      t.object.objectType = objectType ∧ t.object.objectId = id
  /-- A limit returns the first entries of the unlimited answer. -/
  limited : ∀ filter objectType snap n,
    store.query (store.afterWrites new calls) (.read filter snap (some n)) =
      (store.query (store.afterWrites new calls) (.read filter snap none)).map
        (List.take n) ∧
    store.query (store.afterWrites new calls) (.listObjectIds objectType snap (some n)) =
      (store.query (store.afterWrites new calls)
        (.listObjectIds objectType snap none)).map (List.take n)
  /-- A token ahead of the current one is rejected. -/
  ahead : ∀ s > (successful calls).length, ∀ filter objectType limit,
    store.query (store.afterWrites new calls) (.read filter (some s) limit) =
      .error (.snapshotAhead s (successful calls).length) ∧
    store.query (store.afterWrites new calls) (.listObjectIds objectType (some s) limit) =
      .error (.snapshotAhead s (successful calls).length)

/-- **The in-memory store refines the history of its successful writes.** -/
theorem refines_history (calls : List WriteCall) (hcount : calls.length < 2 ^ 64 - 1) :
    RefinesHistory calls := by
  have hrec : Recorded (store.afterWrites new calls) calls := recorded_afterWrites hcount
  have hprefix : ∀ earlier call later, calls = earlier ++ call :: later →
      Recorded (store.afterWrites new earlier) earlier ∧
        earlier.length + 1 < ACTIVE_TX_ID := by
    intro earlier call later hcalls
    have hlength : earlier.length + 1 < ACTIVE_TX_ID := by
      have h := congrArg List.length hcalls
      rw [List.length_append, List.length_cons] at h
      have hcount : calls.length < ACTIVE_TX_ID := hcount
      omega
    exact ⟨recorded_afterWrites (by omega), hlength⟩
  refine ⟨?token, ?rejected, ?current, ?read, ?listObjectIds, ?limited, ?ahead⟩
  case token =>
    intro earlier call later hcalls hacc
    obtain ⟨hearlier, hlength⟩ := hprefix earlier call later hcalls
    have hle := length_successful_le earlier
    have hok := (write_ok _ hacc (by rw [hearlier.currentTx]; omega)).1
    rwa [hearlier.currentTx] at hok
  case rejected =>
    intro earlier call later _ hacc
    exact write_rejected _ hacc
  case current =>
    show Except.ok _ = _
    rw [hrec.currentTx]
  case read =>
    intro s hs filter
    refine ⟨(Batch.contents (successful calls) s).filter (fun t => filter.matches t),
      ?_, ?_, ?_⟩
    · show read _ filter (some s) none = _
      rw [read_eq, resolve_some (by rw [hrec.currentTx]; exact hs), ← hrec.visible hs]
      rfl
    · exact Batch.nodup_contents_and_mem.1.filter _
    · intro t
      rw [List.mem_filter, Batch.nodup_contents_and_mem.2]
  case listObjectIds =>
    intro s hs objectType
    refine ⟨sortDedup (((Batch.contents (successful calls) s).filter
      (fun t => decide (t.object.objectType = objectType))).map (·.object.objectId)),
      ?_, pairwise_sortDedup _, ?_⟩
    · show listObjectIds _ objectType (some s) none = _
      rw [listObjectIds_eq, resolve_some (by rw [hrec.currentTx]; exact hs),
        ← hrec.visible hs]
      rfl
    · intro id
      rw [mem_sortDedup, List.mem_map]
      simp only [List.mem_filter, Batch.nodup_contents_and_mem.2, decide_eq_true_eq,
        and_assoc]
  case limited =>
    intro filter objectType snap n
    constructor
    · show read _ _ _ _ = (read _ _ _ _).map _
      rw [read_eq, read_eq]
      cases resolve (store.afterWrites new calls) snap <;> rfl
    · show listObjectIds _ _ _ _ = (listObjectIds _ _ _ _).map _
      rw [listObjectIds_eq, listObjectIds_eq]
      cases resolve (store.afterWrites new calls) snap <;> rfl
  case ahead =>
    intro s hs filter objectType limit
    have hahead : resolve (store.afterWrites new calls) (some s) =
        .error (.snapshotAhead s (successful calls).length) := by
      rw [resolve_ahead (by rw [hrec.currentTx]; exact hs), hrec.currentTx]
    constructor
    · show read _ _ _ _ = _
      rw [read_eq, hahead]
      rfl
    · show listObjectIds _ _ _ _ = _
      rw [listObjectIds_eq, hahead]
      rfl

/-- One tuple is written, deleted and re-created in a batch that deletes it too,
with a rejected write in between. -/
def churn : List WriteCall :=
  [⟨[⟨⟨"document", "readme"⟩, "viewer", .direct "user" "alice"⟩], []⟩,
   ⟨[], [{}]⟩,
   ⟨[⟨⟨"document", "readme"⟩, "viewer", .direct "user" "alice"⟩,
     ⟨⟨"document", "readme"⟩, "viewer", .direct "user" "alice"⟩],
    [{ objectId := some "readme" }]⟩]

/-- The history bound to a run of three writes. -/
theorem refines_history_churn : RefinesHistory churn :=
  refines_history churn (by decide)

end InMemoryStore

end Kraalzibar
