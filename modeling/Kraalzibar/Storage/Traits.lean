import Kraalzibar.Core.Tuple

/-!
# The storage interface

`RelationshipStore` is the trait both backends implement.  A write is one
atomic step of the store; `read`, `snapshot` and `list_object_ids` do not change
it, and are collected in `StoreQuery` so that a client's queries can be
answered one at a time by a store that moves in between.
-/

namespace Kraalzibar

inductive StorageError where
  | emptyDeleteFilter
  | snapshotAhead (requested current : Nat)
  | internal (message : String)
deriving DecidableEq

/-- The texts of the `#[error]` attributes. -/
def StorageError.message : StorageError → String
  | .emptyDeleteFilter => "delete filter must have at least one field set"
  | .snapshotAhead requested current =>
      "snapshot " ++ toString requested ++ " is ahead of current " ++ toString current
  | .internal message => "internal storage error: " ++ message

/-- The arguments of one `write`. -/
structure WriteCall where
  writes : List TupleWrite
  deletes : List TupleFilter
deriving DecidableEq

/-- A write is rejected when one of its delete filters sets no field. -/
def WriteCall.accepted (call : WriteCall) : Bool :=
  call.deletes.all (·.hasAnyField)

/-- The tuples some delete filter of the call matches. -/
def WriteCall.deleted (call : WriteCall) (t : Tuple) : Bool :=
  call.deletes.any (fun f => f.matches t)

/-- The calls that only read a store. -/
inductive StoreQuery where
  | read (filter : TupleFilter) (snapshot : Option SnapshotToken) (limit : Option Nat)
  | snapshot
  | listObjectIds (objectType : String) (snapshot : Option SnapshotToken)
      (limit : Option Nat)
deriving DecidableEq

/-- What a query returns when it succeeds. -/
abbrev StoreQuery.Answer : StoreQuery → Type
  | .read .. => List Tuple
  | .snapshot => SnapshotToken
  | .listObjectIds .. => List String

abbrev StoreQuery.Reply (q : StoreQuery) : Type :=
  Except StorageError q.Answer

/-- `trait RelationshipStore`, with the state of the store explicit. -/
structure RelationshipStore (σ : Type) where
  write : σ → WriteCall → Except StorageError SnapshotToken × σ
  query : σ → ∀ q : StoreQuery, q.Reply

namespace RelationshipStore

variable {σ : Type}

/-- The state after a list of write calls, failed ones included. -/
def afterWrites (store : RelationshipStore σ) (st : σ) (calls : List WriteCall) : σ :=
  calls.foldl (fun st call => (store.write st call).2) st

theorem afterWrites_concat (store : RelationshipStore σ) (st : σ)
    (calls : List WriteCall) (call : WriteCall) :
    store.afterWrites st (calls ++ [call]) =
      (store.write (store.afterWrites st calls) call).2 := by
  simp [afterWrites]

end RelationshipStore

/-- `trait SchemaStore`, with the state of the store explicit. -/
structure SchemaStore (σ : Type) where
  writeSchema : σ → String → Except StorageError Unit × σ
  readSchema : σ → Except StorageError (Option String)

/-- `LIMIT`: the first `n` entries, or all of them. -/
def limited {α : Type} (limit : Option Nat) (l : List α) : List α :=
  match limit with
  | some n => l.take n
  | none => l

end Kraalzibar
