import Kraalzibar.Server.GrpcReads
import Kraalzibar.Server.Rest

/-!
# The other handlers

Every operation of the service has two front ends.  The gRPC handlers take optional
messages and numbers; the REST handlers take JSON bodies and bound every identifier.

* `PermissionService.expandPermissionTree`, `lookupSubjects`, `SchemaService.*` — over gRPC;
* `expandTreeToJson` — an expansion as a JSON value;
* `Rest.checkPermission`, `expandPermission`, `lookupResources`, `lookupSubjects`,
  `readRelationships`, `writeSchema`, `readSchema` — over REST.
-/

namespace Kraalzibar

open Foundations

/-! ## gRPC -/

namespace V1

structure ExpandPermissionTreeRequest where
  consistency : Option Consistency
  resource : Option ObjectReference
  permission : String

structure ExpandPermissionTreeResponse where
  expandedAt : Option ZedToken
  tree : Option PermissionExpansionTree

structure LookupSubjectsRequest where
  consistency : Option Consistency
  resource : Option ObjectReference
  permission : String
  subjectType : String

structure LookupSubjectsResponse where
  lookedUpAt : Option ZedToken
  subject : Option SubjectReference
deriving DecidableEq

structure WriteSchemaRequest where
  schema : String
  force : Bool

structure WriteSchemaResponse where
  writtenAt : Option ZedToken
  breakingChangesOverridden : Bool
deriving DecidableEq

structure ReadSchemaRequest where

structure ReadSchemaResponse where
  schema : String
deriving DecidableEq

end V1

namespace PermissionService

def expandPermissionTree (config : ServiceConfig)
    (request : Request V1.ExpandPermissionTreeRequest) :
    GrpcProgram V1.ExpandPermissionTreeResponse := do
  let tenantId ← ofStatus (extractTenantId request)
  let req := request.message
  let resource ← ofStatus (okOr req.resource (.invalidArgument "resource is required"))
  let consistency ← ofStatus (protoConsistencyToDomain req.consistency)
  let output ← mapStatus (CachedService.expandPermissionTree config tenantId
    { objectType := resource.objectType, objectId := resource.objectId,
      permission := req.permission, consistency })
  return { expandedAt := snapshotToZedToken output.snapshot,
           tree := some (domainExpandTreeToProto output.tree) }

/-- The responses are streamed, as those of `lookup_resources`. -/
def lookupSubjects (config : ServiceConfig) (request : Request V1.LookupSubjectsRequest) :
    GrpcProgram (List V1.LookupSubjectsResponse) := do
  let tenantId ← ofStatus (extractTenantId request)
  let req := request.message
  let resource ← ofStatus (okOr req.resource (.invalidArgument "resource is required"))
  let consistency ← ofStatus (protoConsistencyToDomain req.consistency)
  let output ← mapStatus (CachedService.lookupSubjects config tenantId
    { objectType := resource.objectType, objectId := resource.objectId,
      permission := req.permission, subjectType := req.subjectType, consistency })
  let lookedUpAt := snapshotToZedToken output.snapshot
  return output.subjects.map fun subject =>
    { lookedUpAt, subject := some (domainSubjectToProto subject) }

end PermissionService

namespace SchemaService

def writeSchema (config : ServiceConfig) (request : Request V1.WriteSchemaRequest) :
    GrpcProgram V1.WriteSchemaResponse := do
  let tenantId ← ofStatus (extractTenantId request)
  let req := request.message
  let result ← mapStatus (CachedService.writeSchema config tenantId req.schema req.force)
  return { writtenAt := none,
           breakingChangesOverridden := result.breakingChangesOverridden }

def readSchema (request : Request V1.ReadSchemaRequest) :
    GrpcProgram V1.ReadSchemaResponse := do
  let tenantId ← ofStatus (extractTenantId request)
  let schema ← mapStatus (CachedService.readSchema tenantId)
  match schema with
  | some text => return { schema := text }
  | none => throw { code := .notFound, message := .text "no schema has been written" }

end SchemaService

/-- What a gRPC handler goes on with once it has read the consistency mode. -/
theorem consistency_passed {β : Type} {consistency : Option V1.Consistency} {c : Consistency}
    (k : Consistency → GrpcProgram β) (hc : protoConsistencyToDomain consistency = .ok c) :
    (ofStatus (protoConsistencyToDomain consistency) >>= k) = k c := by
  rw [hc]
  rfl

/-! ## REST -/

/-- `serde_json::Value`, as far as the handlers build it. -/
inductive Json where
  | null
  | string (text : String)
  | array (items : List Json)
  | object (fields : List (String × Json))

/-- An `Option<String>` in `json!`. -/
def Json.ofOption : Option String → Json
  | some text => .string text
  | none => .null

mutual

def expandTreeToJson : ExpandTree → Json
  | .leaf subject =>
      .object [("type", .string "leaf"),
        ("subject", .object [("subject_type", .string subject.subjectType),
          ("subject_id", .string subject.subjectId),
          ("subject_relation", .ofOption subject.subjectRelation)])]
  | .this _ subjects =>
      .object [("type", .string "this"), ("children", .array (expandTreesToJson subjects))]
  | .union children =>
      .object [("type", .string "union"), ("children", .array (expandTreesToJson children))]
  | .intersection children =>
      .object [("type", .string "intersection"),
        ("children", .array (expandTreesToJson children))]
  | .exclusion base excluded =>
      .object [("type", .string "exclusion"), ("base", expandTreeToJson base),
        ("excluded", expandTreeToJson excluded)]
  | .arrow _ _ children =>
      .object [("type", .string "arrow"), ("children", .array (expandTreesToJson children))]

def expandTreesToJson : List ExpandTree → List Json
  | [] => []
  | child :: children => expandTreeToJson child :: expandTreesToJson children

end

namespace Rest

def defaultReadLimit : Nat := 1000

inductive ConsistencyRequest where
  | full
  | minimizeLatency
  | atLeastAsFresh (token : String)
  | atExactSnapshot (token : String)

structure CheckPermissionRequest where
  resourceType : String
  resourceId : String
  permission : String
  subjectType : String
  subjectId : String
  consistency : Option ConsistencyRequest

structure CheckPermissionResponse where
  allowed : Bool
  checkedAt : Option String
deriving DecidableEq

structure ExpandPermissionRequest where
  resourceType : String
  resourceId : String
  permission : String
  consistency : Option ConsistencyRequest

structure ExpandPermissionResponse where
  tree : Json
  expandedAt : Option String

structure LookupResourcesRequest where
  resourceType : String
  permission : String
  subjectType : String
  subjectId : String
  limit : Option Nat
  consistency : Option ConsistencyRequest

structure LookupResourcesResponse where
  resourceIds : List String
  lookedUpAt : Option String
deriving DecidableEq

structure LookupSubjectsRequest where
  resourceType : String
  resourceId : String
  permission : String
  subjectType : String
  consistency : Option ConsistencyRequest

structure SubjectResponse where
  subjectType : String
  subjectId : String
  subjectRelation : Option String
deriving DecidableEq

structure LookupSubjectsResponse where
  subjects : List SubjectResponse
  lookedUpAt : Option String
deriving DecidableEq

structure RelationshipFilterRequest where
  resourceType : Option String
  resourceId : Option String
  relation : Option String
  subjectType : Option String
  subjectId : Option String

structure ReadRelationshipsRequest where
  filter : Option RelationshipFilterRequest
  limit : Option Nat
  consistency : Option ConsistencyRequest

structure RelationshipResponse where
  resourceType : String
  resourceId : String
  relation : String
  subjectType : String
  subjectId : String
  subjectRelation : Option String
deriving DecidableEq

structure ReadRelationshipsResponse where
  relationships : List RelationshipResponse
  readAt : Option String
deriving DecidableEq

structure WriteSchemaRequest where
  schema : String
  force : Bool

structure WriteSchemaResponse where
  breakingChangesOverridden : Bool
deriving DecidableEq

structure ReadSchemaResponse where
  schema : String
deriving DecidableEq

/-- `validate_identifier(..).and_then(|()| validate_identifier(..))` and so on -/
def validateIdentifiers : List (String × String) → Except ErrorResponse Unit
  | [] => .ok ()
  | (field, value) :: fields => do
      validateIdentifier field value
      validateIdentifiers fields

def parseToken (token : String) : Except ErrorResponse SnapshotToken :=
  match parseU64 token with
  | some val => .ok val
  | none => .error (badRequest "invalid snapshot token format")

def resolveConsistency : Option ConsistencyRequest → Except ErrorResponse Consistency
  | some .full => .ok .fullConsistency
  | some (.atLeastAsFresh token) => return .atLeastAsFresh (← parseToken token)
  | some (.atExactSnapshot token) => return .atExactSnapshot (← parseToken token)
  | some .minimizeLatency | none => .ok .minimizeLatency

/-- A check that makes no call, with the early `return` of its error. -/
def ofResponse {α : Type} (result : Except ErrorResponse α) : RestProgram α :=
  ExceptT.mk (pure result)

/-- `Err(e) => api_error_to_response(e)` -/
def mapResponse {α : Type} (program : ServiceProgram α) : RestProgram α :=
  ExceptT.mk (program.run >>= fun result => pure (result.mapError apiErrorToResponse))

/-- `snapshot.map(|s| s.value().to_string())` -/
def renderToken (snapshot : Option SnapshotToken) : Option String :=
  snapshot.map toString

def checkPermission (config : ServiceConfig) (tenantId : TenantId)
    (req : CheckPermissionRequest) : RestProgram CheckPermissionResponse := do
  ofResponse (validateIdentifiers [("resource_type", req.resourceType),
    ("resource_id", req.resourceId), ("permission", req.permission),
    ("subject_type", req.subjectType), ("subject_id", req.subjectId)])
  let consistency ← ofResponse (resolveConsistency req.consistency)
  let result ← mapResponse (CachedService.checkPermission config tenantId
    { objectType := req.resourceType, objectId := req.resourceId,
      permission := req.permission, subjectType := req.subjectType,
      subjectId := req.subjectId, consistency })
  return { allowed := result.allowed, checkedAt := renderToken result.snapshot }

def expandPermission (config : ServiceConfig) (tenantId : TenantId)
    (req : ExpandPermissionRequest) : RestProgram ExpandPermissionResponse := do
  ofResponse (validateIdentifiers [("resource_type", req.resourceType),
    ("resource_id", req.resourceId), ("permission", req.permission)])
  let consistency ← ofResponse (resolveConsistency req.consistency)
  let output ← mapResponse (CachedService.expandPermissionTree config tenantId
    { objectType := req.resourceType, objectId := req.resourceId,
      permission := req.permission, consistency })
  return { tree := expandTreeToJson output.tree,
           expandedAt := renderToken output.snapshot }

def lookupResources (config : ServiceConfig) (tenantId : TenantId)
    (req : LookupResourcesRequest) : RestProgram LookupResourcesResponse := do
  ofResponse (validateIdentifiers [("resource_type", req.resourceType),
    ("permission", req.permission), ("subject_type", req.subjectType),
    ("subject_id", req.subjectId)])
  let consistency ← ofResponse (resolveConsistency req.consistency)
  let output ← mapResponse (CachedService.lookupResources config tenantId
    { resourceType := req.resourceType, permission := req.permission,
      subjectType := req.subjectType, subjectId := req.subjectId, consistency,
      limit := req.limit.map (min · 10000) })
  return { resourceIds := output.resourceIds, lookedUpAt := renderToken output.snapshot }

def subjectResponse (subject : SubjectRef) : SubjectResponse :=
  { subjectType := subject.subjectType, subjectId := subject.subjectId,
    subjectRelation := subject.subjectRelation }

def lookupSubjects (config : ServiceConfig) (tenantId : TenantId)
    (req : LookupSubjectsRequest) : RestProgram LookupSubjectsResponse := do
  ofResponse (validateIdentifiers [("resource_type", req.resourceType),
    ("resource_id", req.resourceId), ("permission", req.permission),
    ("subject_type", req.subjectType)])
  let consistency ← ofResponse (resolveConsistency req.consistency)
  let output ← mapResponse (CachedService.lookupSubjects config tenantId
    { objectType := req.resourceType, objectId := req.resourceId,
      permission := req.permission, subjectType := req.subjectType, consistency })
  return { subjects := output.subjects.map subjectResponse,
           lookedUpAt := renderToken output.snapshot }

def RelationshipFilterRequest.toFilter (f : RelationshipFilterRequest) : TupleFilter :=
  { objectType := f.resourceType, objectId := f.resourceId, relation := f.relation,
    subjectType := f.subjectType, subjectId := f.subjectId, subjectRelation := none }

def relationshipResponse (t : Tuple) : RelationshipResponse :=
  { resourceType := t.object.objectType, resourceId := t.object.objectId,
    relation := t.relation, subjectType := t.subject.subjectType,
    subjectId := t.subject.subjectId, subjectRelation := t.subject.subjectRelation }

/-- No identifier of the filter is checked. -/
def readRelationships (tenantId : TenantId) (req : ReadRelationshipsRequest) :
    RestProgram ReadRelationshipsResponse := do
  let filter := (req.filter.map (·.toFilter)).getD {}
  let consistency ← ofResponse (resolveConsistency req.consistency)
  let limit := some (min (req.limit.getD defaultReadLimit) 10000)
  let output ← mapResponse
    (CachedService.readRelationships tenantId filter consistency limit)
  return { relationships := output.tuples.map relationshipResponse,
           readAt := renderToken output.snapshot }

def writeSchema (config : ServiceConfig) (tenantId : TenantId) (req : WriteSchemaRequest) :
    RestProgram WriteSchemaResponse := do
  let result ← mapResponse (CachedService.writeSchema config tenantId req.schema req.force)
  return { breakingChangesOverridden := result.breakingChangesOverridden }

def readSchema (tenantId : TenantId) : RestProgram ReadSchemaResponse := do
  match ← mapResponse (CachedService.readSchema tenantId) with
  | some schema => return { schema }
  | none => throw { status := .notFound, error := .text "no schema has been written" }

end Rest

end Kraalzibar
