import Kraalzibar.Server.Grpc

/-!
# REST requests

The REST handler of `write_relationships`.  It bounds the batch and checks each field
of an update before it looks at the operation.

* `ApiResponse`, `apiErrorToResponse` — how a request is refused;
* `validateIdentifier` — the check of one field;
* `Rest.writeRelationships` — the handler, as a program of service calls.
-/

namespace Kraalzibar

open Foundations

namespace Rest

def maxBatchSize : Nat := 1000

def maxIdentifierLength : Nat := 256

inductive StatusCode where
  | badRequest
  | notFound
  | preconditionFailed
  | unprocessableEntity
  | internalServerError
deriving DecidableEq

/-- `error_response(status, msg)` -/
structure ErrorResponse where
  status : StatusCode
  error : Message
deriving DecidableEq

def badRequest (text : String) : ErrorResponse :=
  { status := .badRequest, error := .text text }

/-- A field may be neither empty nor longer than `MAX_IDENTIFIER_LENGTH` bytes. -/
def validateIdentifier (field value : String) : Except ErrorResponse Unit :=
  if value.isEmpty then
    .error (badRequest (field ++ " must not be empty"))
  else if value.utf8ByteSize > maxIdentifierLength then
    .error (badRequest
      (field ++ " exceeds maximum length of " ++ toString maxIdentifierLength))
  else .ok ()

def apiErrorToResponse (err : ApiError) : ErrorResponse :=
  match err with
  | .check (.typeNotFound _) | .check (.permissionNotFound _ _)
  | .check (.relationNotFound _ _) | .schemaNotFound =>
      { status := .notFound, error := .rendered err }
  | .check (.maxDepthExceeded _) =>
      { status := .unprocessableEntity, error := .rendered err }
  | .parse _ | .validation _ => { status := .badRequest, error := .rendered err }
  | .breakingChanges _ => { status := .preconditionFailed, error := .rendered err }
  | .storage .emptyDeleteFilter | .storage (.snapshotAhead _ _) =>
      { status := .badRequest, error := .rendered err }
  | .check (.storageError _) | .storage (.internal _) =>
      { status := .internalServerError, error := .text "internal server error" }

structure RelationshipUpdate where
  operation : String
  resourceType : String
  resourceId : String
  relation : String
  subjectType : String
  subjectId : String
  subjectRelation : Option String

structure WriteRelationshipsRequest where
  updates : List RelationshipUpdate

structure WriteRelationshipsResponse where
  writtenAt : String
deriving DecidableEq

/-- A handler: it makes service calls and may stop with an error response. -/
abbrev RestProgram (α : Type) := Fallible ErrorResponse ServiceCall ServiceCall.Reply α

namespace RelationshipUpdate

def validate (update : RelationshipUpdate) : Except ErrorResponse Unit := do
  validateIdentifier "resource_type" update.resourceType
  validateIdentifier "resource_id" update.resourceId
  validateIdentifier "relation" update.relation
  validateIdentifier "subject_type" update.subjectType
  validateIdentifier "subject_id" update.subjectId

def object (update : RelationshipUpdate) : ObjectRef :=
  { objectType := update.resourceType, objectId := update.resourceId }

def subject (update : RelationshipUpdate) : SubjectRef :=
  match update.subjectRelation with
  | some rel => SubjectRef.userset update.subjectType update.subjectId rel
  | none => SubjectRef.direct update.subjectType update.subjectId

/-- The filter of a `"delete"` update. -/
def deleteFilter (update : RelationshipUpdate) : TupleFilter :=
  { objectType := some update.resourceType, objectId := some update.resourceId,
    relation := some update.relation, subjectType := some update.subjectType,
    subjectId := some update.subjectId, subjectRelation := none }

end RelationshipUpdate

/-- `for update in &req.updates`, with the writes and deletes so far. -/
def updateLoop : List RelationshipUpdate → List TupleWrite → List TupleFilter →
    Except ErrorResponse WriteCall
  | [], writes, deletes => .ok { writes, deletes }
  | update :: updates, writes, deletes => do
      update.validate
      if update.operation = "touch" then
        let write : TupleWrite :=
          { object := update.object, relation := update.relation,
            subject := update.subject }
        updateLoop updates (writes ++ [write]) deletes
      else if update.operation = "delete" then
        updateLoop updates writes (deletes ++ [update.deleteFilter])
      else
        throw (badRequest ("unknown operation: " ++ update.operation))

def writeRelationships (tenantId : TenantId) (request : WriteRelationshipsRequest) :
    RestProgram WriteRelationshipsResponse := do
  if request.updates.length > maxBatchSize then
    throw (badRequest ("batch size exceeds maximum of " ++ toString maxBatchSize))
  let call ← ExceptT.mk (pure (updateLoop request.updates [] []))
  let token ← ExceptT.mk ((CachedService.writeRelationships tenantId call).run >>=
    fun result => pure (result.mapError apiErrorToResponse))
  return { writtenAt := toString token }

end Rest

end Kraalzibar
