import Kraalzibar.Server.CachedService
import Kraalzibar.Server.Conversions

/-!
# gRPC requests

The messages of the protocol, their conversions, and the handlers of
`WriteRelationships` and `CheckPermission`.  A message that is absent is `none`, an
enumeration is its number, as in the generated code.

* `V1.*` — the messages;
* `Tonic.Status`, `apiErrorToStatus` — how a call fails;
* `protoRelationshipToWrite`, `protoFilterToDomain`, `protoConsistencyToDomain` — from a
  message to the service's own data;
* `RelationshipService.writeRelationships`, `PermissionService.checkPermission` — the
  handlers, as programs of service calls.
-/

namespace Kraalzibar

open Foundations

namespace V1

structure ObjectReference where
  objectType : String
  objectId : String
deriving DecidableEq

structure Relationship where
  object : Option ObjectReference
  relation : String
  subject : Option SubjectReference
deriving DecidableEq

/-- `relationship_update::Operation` -/
inductive UpdateOperation where
  | unspecified
  | touch
  | delete
deriving DecidableEq

def UpdateOperation.toI32 : UpdateOperation → Int
  | .unspecified => 0
  | .touch => 1
  | .delete => 2

/-- `Operation::try_from(value).unwrap_or(Operation::Unspecified)` -/
def UpdateOperation.ofI32 (value : Int) : UpdateOperation :=
  if value = 1 then .touch
  else if value = 2 then .delete
  else .unspecified

structure RelationshipUpdate where
  operation : Int
  relationship : Option Relationship

structure RelationshipFilter where
  objectType : Option String
  objectId : Option String
  relation : Option String
  subjectType : Option String
  subjectId : Option String

structure ZedToken where
  token : String
deriving DecidableEq

/-- `consistency::Requirement` -/
inductive Requirement where
  | fullConsistency (value : Bool)
  | minimizeLatency (value : Bool)
  | atLeastAsFresh (token : ZedToken)
  | atExactSnapshot (token : ZedToken)

structure Consistency where
  requirement : Option Requirement

structure WriteRelationshipsRequest where
  updates : List RelationshipUpdate

structure WriteRelationshipsResponse where
  writtenAt : Option ZedToken
deriving DecidableEq

structure CheckPermissionRequest where
  consistency : Option Consistency
  resource : Option ObjectReference
  permission : String
  subject : Option SubjectReference

inductive Permissionship where
  | unspecified
  | noPermission
  | hasPermission

def Permissionship.toI32 : Permissionship → Int
  | .unspecified => 0
  | .noPermission => 1
  | .hasPermission => 2

structure CheckPermissionResponse where
  checkedAt : Option ZedToken
  permissionship : Int
deriving DecidableEq

end V1

/-! ## Statuses -/

inductive Code where
  | invalidArgument
  | notFound
  | resourceExhausted
  | failedPrecondition
  | internal
  | unauthenticated
deriving DecidableEq

/-- A text of the handlers, or `err.to_string()`, for which the error stands. -/
inductive Message where
  | text (text : String)
  | rendered (err : ApiError)
deriving DecidableEq

structure Tonic.Status where
  code : Code
  message : Message
deriving DecidableEq

def Tonic.Status.invalidArgument (text : String) : Tonic.Status :=
  { code := .invalidArgument, message := .text text }

def apiErrorToStatus (err : ApiError) : Tonic.Status :=
  match err with
  | .check (.typeNotFound _) | .check (.permissionNotFound _ _)
  | .check (.relationNotFound _ _) => { code := .notFound, message := .rendered err }
  | .check (.maxDepthExceeded _) => { code := .resourceExhausted, message := .rendered err }
  | .storage .emptyDeleteFilter | .storage (.snapshotAhead _ _) =>
      { code := .invalidArgument, message := .rendered err }
  | .check (.storageError _) | .storage (.internal _) =>
      { code := .internal, message := .text "internal server error" }
  | .parse _ | .validation _ => { code := .invalidArgument, message := .rendered err }
  | .breakingChanges _ => { code := .failedPrecondition, message := .rendered err }
  | .schemaNotFound => { code := .notFound, message := .rendered err }

/-- A handler: it makes service calls and may stop with a status. -/
abbrev GrpcProgram (α : Type) := Fallible Tonic.Status ServiceCall ServiceCall.Reply α

/-- `Request<M>`, with the tenant that authentication put into its extensions. -/
structure Request (M : Type) where
  tenantId : Option TenantId
  message : M

/-- `option.ok_or_else(|| status)?` -/
def okOr {α : Type} (value : Option α) (status : Tonic.Status) : Except Tonic.Status α :=
  match value with
  | some a => .ok a
  | none => .error status

theorem okOr_eq_ok {α : Type} {value : Option α} {status : Tonic.Status} {a : α} :
    okOr value status = .ok a ↔ value = some a := by
  cases value <;> simp [okOr]

def extractTenantId {M : Type} (request : Request M) : Except Tonic.Status TenantId :=
  okOr request.tenantId
    { code := .unauthenticated, message := .text "missing tenant context" }

/-- `.map_err(api_error_to_status)?` -/
def mapStatus {α : Type} (program : ServiceProgram α) : GrpcProgram α :=
  ExceptT.mk (program.run >>= fun result => pure (result.mapError apiErrorToStatus))

/-- A conversion that makes no call, followed by `?`. -/
def ofStatus {α : Type} (result : Except Tonic.Status α) : GrpcProgram α :=
  ExceptT.mk (pure result)

/-! ## Conversions -/

def protoObjectToDomain (obj : V1.ObjectReference) : ObjectRef :=
  { objectType := obj.objectType, objectId := obj.objectId }

def protoSubjectToDomain (subj : V1.SubjectReference) : SubjectRef :=
  match subj.subjectRelation with
  | some rel => SubjectRef.userset subj.subjectType subj.subjectId rel
  | none => SubjectRef.direct subj.subjectType subj.subjectId

def protoRelationshipToWrite (rel : V1.Relationship) : Except Tonic.Status TupleWrite := do
  let object ← okOr (rel.object.map protoObjectToDomain)
    (.invalidArgument "relationship object is required")
  let subject ← okOr (rel.subject.map protoSubjectToDomain)
    (.invalidArgument "relationship subject is required")
  return { object, relation := rel.relation, subject }

def protoFilterToDomain (filter : V1.RelationshipFilter) : TupleFilter :=
  { objectType := filter.objectType, objectId := filter.objectId,
    relation := filter.relation, subjectType := filter.subjectType,
    subjectId := filter.subjectId, subjectRelation := none }

/-- `text.parse::<u64>()`: decimal digits, after at most one plus sign. -/
def parseU64 (text : String) : Option Nat :=
  let digits := match text.toList with
    | '+' :: rest => rest
    | chars => chars
  if digits.isEmpty || !digits.all Char.isDigit then none
  else
    let value := digits.foldl (fun n c => 10 * n + (c.toNat - '0'.toNat)) 0
    if value < 2 ^ 64 then some value else none

def zedTokenToSnapshot (token : V1.ZedToken) : Except Tonic.Status SnapshotToken :=
  okOr (parseU64 token.token) (.invalidArgument "invalid snapshot token format")

def protoConsistencyToDomain (consistency : Option V1.Consistency) :
    Except Tonic.Status Consistency :=
  match consistency.bind (·.requirement) with
  | some (.fullConsistency _) => .ok .fullConsistency
  | some (.atLeastAsFresh token) => do
      let snapshot ← zedTokenToSnapshot token
      return .atLeastAsFresh snapshot
  | some (.atExactSnapshot token) => do
      let snapshot ← zedTokenToSnapshot token
      return .atExactSnapshot snapshot
  | some (.minimizeLatency _) | none => .ok .minimizeLatency

def snapshotToZedToken (snapshot : Option SnapshotToken) : Option V1.ZedToken :=
  snapshot.map fun s => { token := toString s }

/-! ## Handlers -/

namespace RelationshipService

/-- The filter of a `Delete` update. -/
def deleteFilter (rel : V1.Relationship) : TupleFilter :=
  protoFilterToDomain
    { objectType := rel.object.map (·.objectType)
      objectId := rel.object.map (·.objectId)
      relation := some rel.relation
      subjectType := rel.subject.map (·.subjectType)
      subjectId := rel.subject.map (·.subjectId) }

/-- `for update in &req.updates`, with the writes and deletes so far. -/
def updateLoop : List V1.RelationshipUpdate → List TupleWrite → List TupleFilter →
    Except Tonic.Status WriteCall
  | [], writes, deletes => .ok { writes, deletes }
  | update :: updates, writes, deletes => do
      let rel ← okOr update.relationship
        (.invalidArgument "relationship is required in update")
      match V1.UpdateOperation.ofI32 update.operation with
      | .touch => do
          let write ← protoRelationshipToWrite rel
          updateLoop updates (writes ++ [write]) deletes
      | .delete => updateLoop updates writes (deletes ++ [deleteFilter rel])
      | .unspecified => throw (.invalidArgument "operation must be specified")

def writeRelationships (request : Request V1.WriteRelationshipsRequest) :
    GrpcProgram V1.WriteRelationshipsResponse := do
  let tenantId ← ofStatus (extractTenantId request)
  let call ← ofStatus (updateLoop request.message.updates [] [])
  let token ← mapStatus (CachedService.writeRelationships tenantId call)
  return { writtenAt := snapshotToZedToken (some token) }

end RelationshipService

namespace PermissionService

def checkPermission (config : ServiceConfig) (request : Request V1.CheckPermissionRequest) :
    GrpcProgram V1.CheckPermissionResponse := do
  let tenantId ← ofStatus (extractTenantId request)
  let req := request.message
  let resource ← ofStatus (okOr req.resource (.invalidArgument "resource is required"))
  let subject ← ofStatus (okOr req.subject (.invalidArgument "subject is required"))
  let consistency ← ofStatus (protoConsistencyToDomain req.consistency)
  let result ← mapStatus (CachedService.checkPermission config tenantId
    { objectType := resource.objectType, objectId := resource.objectId,
      permission := req.permission, subjectType := subject.subjectType,
      subjectId := subject.subjectId, consistency })
  let permissionship : V1.Permissionship :=
    if result.allowed then .hasPermission else .noPermission
  return { checkedAt := snapshotToZedToken result.snapshot,
           permissionship := permissionship.toI32 }

end PermissionService

end Kraalzibar
