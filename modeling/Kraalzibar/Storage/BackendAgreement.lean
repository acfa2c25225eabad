import Kraalzibar.Storage.MemoryHistory
import Kraalzibar.Storage.Postgres.Store

/-!
# The two backends agree

Called one call after another, `InMemoryStore` and `PostgresStore` give the same
answers: both hold the history of the successful writes, one in a vector it
scans, the other in a table it updates statement by statement.
-/

namespace Kraalzibar

open Foundations

/-- Any call of the trait. -/
inductive StoreCall where
  | write (call : WriteCall)
  | query (q : StoreQuery)

def StoreCall.Reply : StoreCall → Type
  | .write _ => Except StorageError SnapshotToken
  | .query q => q.Reply

def StoreCall.isWrite : StoreCall → Bool
  | .write _ => true
  | .query _ => false

namespace RelationshipStore

variable {σ : Type} (store : RelationshipStore σ)

/-- One call: its reply and the state after it. -/
def perform (st : σ) : ∀ call : StoreCall, call.Reply × σ
  | .write call => store.write st call
  | .query q => (store.query st q, st)

/-- The state after a sequence of calls. -/
def afterCalls (st : σ) (calls : List StoreCall) : σ :=
  calls.foldl (fun st call => (store.perform st call).2) st

end RelationshipStore

/-- The writes of a sequence of calls. -/
def writesOf (calls : List StoreCall) : List WriteCall :=
  calls.filterMap fun
    | .write call => some call
    | .query _ => none

/-- Queries leave a store as it is. -/
theorem afterCalls_eq {σ : Type} (store : RelationshipStore σ) (st : σ)
    (calls : List StoreCall) :
    store.afterCalls st calls = store.afterWrites st (writesOf calls) := by
  induction calls generalizing st with
  | nil => rfl
  | cons call calls ih =>
      cases call with
      | write call => exact ih _
      | query q => exact ih st

theorem length_writesOf (calls : List StoreCall) :
    (writesOf calls).length = (calls.filter StoreCall.isWrite).length := by
  induction calls with
  | nil => rfl
  | cons call calls ih =>
      cases call with
      | write call => exact congrArg Nat.succ ih
      | query q => exact ih

/-- Two replies are the same to a caller.  An unlimited read promises a multiset
of tuples; which of them a limited read returns is up to the store, but not
whether it fails nor how many it returns. -/
def SameReply : ∀ call : StoreCall, call.Reply → call.Reply → Prop
  | .write _, a, b => a = b
  | .query .snapshot, a, b => a = b
  | .query (.listObjectIds ..), a, b => a = b
  | .query (.read _ _ none), a, b =>
      (∃ e, a = .error e ∧ b = .error e) ∨
        ∃ tuples tuples' : List Tuple, a = .ok tuples ∧ b = .ok tuples' ∧
          tuples.Perm tuples'
  | .query (.read _ _ (some _)), a, b =>
      (∃ e, a = .error e ∧ b = .error e) ∨
        ∃ tuples tuples' : List Tuple, a = .ok tuples ∧ b = .ok tuples' ∧
          tuples.length = tuples'.length

section

variable {state : InnerState} {db : Postgres.Database} {calls : List WriteCall}

/-- Both stores read the same contents at every token handed out. -/
theorem visible_eq (hmem : InMemoryStore.Recorded state calls)
    (hpg : Postgres.PostgresStore.Stored db calls) {s : Nat}
    (hs : s ≤ (successful calls).length) :
    Version.visible (Postgres.versions db.rows) s = state.visible s := by
  rw [hpg.records.visible_eq s hs, hmem.visible hs]

/-- Both stores resolve a snapshot in the same way. -/
theorem resolve_eq (hmem : InMemoryStore.Recorded state calls)
    (hpg : Postgres.PostgresStore.Stored db calls) (snap : Option SnapshotToken) :
    InMemoryStore.resolve state snap = Postgres.PostgresStore.resolve db snap ∧
      ∀ s, InMemoryStore.resolve state snap = .ok s → s ≤ (successful calls).length := by
  cases snap with
  | none =>
      refine ⟨?_, ?_⟩
      · show Except.ok _ = Except.ok _
        rw [hmem.currentTx, hpg.currentTxId]
      · intro s hs
        obtain rfl : state.currentTx = s := Except.ok.inj hs
        exact hmem.currentTx.le
  | some token =>
      refine ⟨?_, ?_⟩
      · simp only [InMemoryStore.resolve, Postgres.PostgresStore.resolve, hmem.currentTx,
          hpg.currentTxId]
      · intro s hs
        by_cases hahead : state.currentTx < token
        · rw [InMemoryStore.resolve_ahead hahead] at hs
          cases hs
        · have hle : token ≤ state.currentTx := Nat.le_of_not_lt hahead
          rw [InMemoryStore.resolve_some hle] at hs
          obtain rfl : token = s := Except.ok.inj hs
          rw [← hmem.currentTx]
          exact hle

/-- **Queries agree** on stores that hold the same history. -/
theorem query_agrees (server : Postgres.Server)
    (hmem : InMemoryStore.Recorded state calls)
    (hpg : Postgres.PostgresStore.Stored db calls) (q : StoreQuery) :
    SameReply (.query q) (InMemoryStore.store.query state q)
      ((Postgres.PostgresStore.store server).query db q) := by
  cases q with
  | snapshot =>
      show Except.ok _ = Except.ok _
      rw [hmem.currentTx, hpg.currentTxId]
  | listObjectIds objectType snap limit =>
      obtain ⟨hresolve, hle⟩ := resolve_eq hmem hpg snap
      show InMemoryStore.listObjectIds _ _ _ _ = Postgres.PostgresStore.listObjectIds _ _ _ _
      rw [InMemoryStore.listObjectIds_eq, Postgres.PostgresStore.listObjectIds, ← hresolve]
      cases hs : InMemoryStore.resolve state snap with
      | error e => rfl
      | ok s =>
          show Except.ok _ = Except.ok _
          rw [Postgres.listDistinctObjectIds_eq, visible_eq hmem hpg (hle s hs)]
  | read filter snap limit =>
      obtain ⟨hresolve, hle⟩ := resolve_eq hmem hpg snap
      have hread : InMemoryStore.store.query state (.read filter snap limit) =
          InMemoryStore.read state filter snap limit := rfl
      have hread' : (Postgres.PostgresStore.store server).query db (.read filter snap limit)
          = Postgres.PostgresStore.read server db filter snap limit := rfl
      rw [hread, hread', InMemoryStore.read_eq, Postgres.PostgresStore.read, ← hresolve]
      cases hs : InMemoryStore.resolve state snap with
      | error e => cases limit <;> exact Or.inl ⟨e, rfl, rfl⟩
      | ok s =>
          have hperm : (Postgres.readTuples server db.rows filter s none).Perm _ :=
            Postgres.readTuples_perm server filter s
          rw [visible_eq hmem hpg (hle s hs)] at hperm
          cases limit with
          | none => exact Or.inr ⟨_, _, rfl, rfl, hperm.symm⟩
          | some n =>
              refine Or.inr ⟨_, _, rfl, rfl, ?_⟩
              show (List.take n _).length =
                (List.take n (Postgres.readTuples server db.rows filter s none)).length
              rw [List.length_take, List.length_take, hperm.length_eq]

end

/-- **The backends agree.**  For every sequence of calls on one tenant and every
order in which PostgreSQL returns rows, each call gets the same reply from
`InMemoryStore` and from `PostgresStore`. -/
theorem backends_agree (server : Postgres.Server) (calls : List StoreCall)
    (hcount : (calls.filter StoreCall.isWrite).length < 2 ^ 63 - 1)
    (earlier later : List StoreCall) (call : StoreCall)
    (hcalls : calls = earlier ++ call :: later) :
    SameReply call
      (InMemoryStore.store.perform
        (InMemoryStore.store.afterCalls InMemoryStore.new earlier) call).1
      ((Postgres.PostgresStore.store server).perform
        ((Postgres.PostgresStore.store server).afterCalls Postgres.PostgresStore.new
          earlier) call).1 := by
  have hlimit : Postgres.ACTIVE_TX_ID < ACTIVE_TX_ID := by decide
  have hcount : (writesOf calls).length < Postgres.ACTIVE_TX_ID := by
    rw [length_writesOf]
    exact hcount
  have hsplit : (writesOf calls).length =
      (writesOf earlier).length + (writesOf (call :: later)).length := by
    rw [hcalls, writesOf, List.filterMap_append, List.length_append]
    rfl
  rw [afterCalls_eq, afterCalls_eq]
  have hmem : InMemoryStore.Recorded
      (InMemoryStore.store.afterWrites InMemoryStore.new (writesOf earlier))
      (writesOf earlier) := InMemoryStore.recorded_afterWrites (by omega)
  have hpg : Postgres.PostgresStore.Stored
      ((Postgres.PostgresStore.store server).afterWrites Postgres.PostgresStore.new
        (writesOf earlier)) (writesOf earlier) :=
    Postgres.PostgresStore.stored_afterWrites server (by omega)
  cases call with
  | query q => exact query_agrees server hmem hpg q
  | write call =>
      have hnext : (successful (writesOf earlier)).length + 1 < Postgres.ACTIVE_TX_ID := by
        have hle := length_successful_le (writesOf earlier)
        have hcons : (writesOf (.write call :: later)).length =
            (writesOf later).length + 1 := rfl
        omega
      show (InMemoryStore.write _ call).1 = (Postgres.PostgresStore.write server _ call).1
      by_cases hacc : call.accepted = true
      · rw [(InMemoryStore.write_ok _ hacc (by rw [hmem.currentTx]; omega)).1,
          hmem.currentTx, (hpg.write server call hnext).2 hacc]
      · have hacc : call.accepted = false := by simpa using hacc
        rw [InMemoryStore.write_rejected _ hacc,
          Postgres.PostgresStore.write_rejected server _ hacc]

/-- A server that returns rows newest first. -/
def newestFirst : Postgres.Server where
  scan := List.reverse
  scan_perm := List.reverse_perm
  duplicateKey := "duplicate key value violates unique constraint"

/-- Two touches of one tuple, a delete and touch of it in one batch, and a read
of everything. -/
def agreementCalls : List StoreCall :=
  [.write ⟨[⟨⟨"document", "readme"⟩, "viewer", .direct "user" "alice"⟩,
      ⟨⟨"document", "readme"⟩, "viewer", .userset "group" "eng" "member"⟩,
      ⟨⟨"document", "readme"⟩, "viewer", .direct "user" "alice"⟩], []⟩,
   .write ⟨[⟨⟨"document", "readme"⟩, "viewer", .direct "user" "alice"⟩],
      [{ subjectRelation := some none }, { objectId := some "readme" }]⟩,
   .query (.read {} (some 1) none)]

/-- The read at token 1 returns the same two tuples from both. -/
theorem backends_agree_read :
    SameReply (.query (.read {} (some 1) none))
      (InMemoryStore.store.query (InMemoryStore.store.afterCalls InMemoryStore.new
        (agreementCalls.take 2)) (.read {} (some 1) none))
      ((Postgres.PostgresStore.store newestFirst).query
        ((Postgres.PostgresStore.store newestFirst).afterCalls Postgres.PostgresStore.new
          (agreementCalls.take 2)) (.read {} (some 1) none)) :=
  backends_agree newestFirst agreementCalls (by decide) (agreementCalls.take 2) []
    (.query (.read {} (some 1) none)) rfl

end Kraalzibar
