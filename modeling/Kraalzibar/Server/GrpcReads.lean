import Kraalzibar.Server.Grpc
import Kraalzibar.Server.Transparency

/-!
# Reads over gRPC

The handlers of `ReadRelationships` and `LookupResources`.  A limit is a `uint32` whose
zero stands for its absence; each handler clamps it and puts its own default in.

* `RelationshipService.readRelationships`, `PermissionService.lookupResources` — the
  handlers, as programs of service calls;
* `readRelationships_returns`, `lookupResources_returns` — each is a function of its
  tenant's store.
-/

namespace Kraalzibar

open Foundations

namespace V1

structure ReadRelationshipsRequest where
  consistency : Option Consistency
  filter : Option RelationshipFilter
  optionalLimit : UInt32

structure ReadRelationshipsResponse where
  readAt : Option ZedToken
  relationships : List Relationship
deriving DecidableEq

structure LookupResourcesRequest where
  consistency : Option Consistency
  resourceType : String
  permission : String
  subject : Option SubjectReference
  optionalLimit : UInt32

structure LookupResourcesResponse where
  lookedUpAt : Option ZedToken
  resourceId : String
deriving DecidableEq

end V1

def domainObjectToProto (obj : ObjectRef) : V1.ObjectReference :=
  { objectType := obj.objectType, objectId := obj.objectId }

def domainTupleToProto (tuple : Tuple) : V1.Relationship :=
  { object := some (domainObjectToProto tuple.object), relation := tuple.relation,
    subject := some (domainSubjectToProto tuple.subject) }

/-! ## Handlers -/

namespace RelationshipService

/-- The limit `read_relationships` hands to the store. -/
def readLimit (optionalLimit : UInt32) : Option Nat :=
  if optionalLimit > 0 then some (min optionalLimit.toNat 10000)
  else some 1000

def readRelationships (request : Request V1.ReadRelationshipsRequest) :
    GrpcProgram V1.ReadRelationshipsResponse := do
  let tenantId ← ofStatus (extractTenantId request)
  let req := request.message
  let filter := (req.filter.map protoFilterToDomain).getD {}
  let consistency ← ofStatus (protoConsistencyToDomain req.consistency)
  let limit := readLimit req.optionalLimit
  let output ← mapStatus (CachedService.readRelationships tenantId filter consistency limit)
  return { readAt := snapshotToZedToken output.snapshot,
           relationships := output.tuples.map domainTupleToProto }

end RelationshipService

namespace PermissionService

/-- The limit `lookup_resources` passes to the service, which turns `None` into 1000. -/
def lookupLimit (optionalLimit : UInt32) : Option Nat :=
  if optionalLimit > 0 then some (min optionalLimit.toNat 10000)
  else none

/-- The input `lookup_resources` makes of a request. -/
def lookupInput (req : V1.LookupResourcesRequest) (subject : V1.SubjectReference)
    (consistency : Consistency) : LookupResourcesInput :=
  { resourceType := req.resourceType, permission := req.permission,
    subjectType := subject.subjectType, subjectId := subject.subjectId, consistency,
    limit := lookupLimit req.optionalLimit }

/-- The responses are streamed; all of them are sent before the handler returns. -/
def lookupResources (config : ServiceConfig) (request : Request V1.LookupResourcesRequest) :
    GrpcProgram (List V1.LookupResourcesResponse) := do
  let tenantId ← ofStatus (extractTenantId request)
  let req := request.message
  let subject ← ofStatus (okOr req.subject (.invalidArgument "subject is required"))
  let consistency ← ofStatus (protoConsistencyToDomain req.consistency)
  let output ← mapStatus
    (CachedService.lookupResources config tenantId (lookupInput req subject consistency))
  let lookedUpAt := snapshotToZedToken output.snapshot
  return output.resourceIds.map fun resourceId => { lookedUpAt, resourceId }

end PermissionService

/-! ## The handlers as functions of the stores -/

section

variable {config : ServiceConfig} {caching : Bool} {stores : TenantId → InnerState}

/-- The response of `read_relationships`, computed on the stores. -/
def RelationshipService.readResult (config : ServiceConfig)
    (stores : TenantId → InnerState) (request : Request V1.ReadRelationshipsRequest) :
    Except Tonic.Status V1.ReadRelationshipsResponse := do
  let tenantId ← extractTenantId request
  let req := request.message
  let filter := (req.filter.map protoFilterToDomain).getD {}
  let consistency ← protoConsistencyToDomain req.consistency
  let output ← ((Operation.readRelationships filter consistency
    (readLimit req.optionalLimit)).result config (stores tenantId)).mapError apiErrorToStatus
  return { readAt := snapshotToZedToken output.snapshot,
           relationships := output.tuples.map domainTupleToProto }

/-- **`read_relationships` is that function**, whatever is cached. -/
theorem readRelationships_returns (request : Request V1.ReadRelationshipsRequest) :
    Fallible.Returns ServiceState.Evicts (ServiceState.handle caching)
      (ServiceState.Coherent config stores) (RelationshipService.readRelationships request)
      (RelationshipService.readResult config stores request) := by
  have hstable : Client.Stable ServiceState.Evicts (ServiceState.Coherent config stores) :=
    ServiceState.stable_coherent
  refine Fallible.Returns.bind hstable (.ofExcept hstable) fun tenantId _ => ?_
  refine Fallible.Returns.bind hstable (.ofExcept hstable) fun consistency _ => ?_
  refine Fallible.Returns.bind hstable (Fallible.Triple.mapError hstable
    (cacheFree_readRelationships _ consistency _)) fun output _ => ?_
  exact .pure hstable

/-- The responses of `lookup_resources`, computed on the stores. -/
def PermissionService.lookupResult (config : ServiceConfig)
    (stores : TenantId → InnerState) (request : Request V1.LookupResourcesRequest) :
    Except Tonic.Status (List V1.LookupResourcesResponse) := do
  let tenantId ← extractTenantId request
  let req := request.message
  let subject ← okOr req.subject (.invalidArgument "subject is required")
  let consistency ← protoConsistencyToDomain req.consistency
  let output ← ((Operation.lookupResources (lookupInput req subject consistency)).result
    config (stores tenantId)).mapError apiErrorToStatus
  let lookedUpAt := snapshotToZedToken output.snapshot
  return output.resourceIds.map fun resourceId => { lookedUpAt, resourceId }

/-- **`lookup_resources` is that function**, whatever is cached. -/
theorem lookupResources_returns (request : Request V1.LookupResourcesRequest) :
    Fallible.Returns ServiceState.Evicts (ServiceState.handle caching)
      (ServiceState.Coherent config stores)
      (PermissionService.lookupResources config request)
      (PermissionService.lookupResult config stores request) := by
  have hstable : Client.Stable ServiceState.Evicts (ServiceState.Coherent config stores) :=
    ServiceState.stable_coherent
  refine Fallible.Returns.bind hstable (.ofExcept hstable) fun tenantId _ => ?_
  refine Fallible.Returns.bind hstable (.ofExcept hstable) fun subject _ => ?_
  refine Fallible.Returns.bind hstable (.ofExcept hstable) fun consistency _ => ?_
  refine Fallible.Returns.bind hstable (Fallible.Triple.mapError hstable
    (cacheFree_lookupResources _)) fun output _ => ?_
  exact .pure hstable

end

end Kraalzibar
