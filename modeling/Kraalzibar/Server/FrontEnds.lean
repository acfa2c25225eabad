import Kraalzibar.Foundations.Rendering
import Kraalzibar.Server.Handlers

/-!
# The two front ends

A REST request that passes its checks is the same program of service calls as the gRPC
message with the same content, and the two answers say the same.  A REST request that does
not pass is refused before any call.

* `Rest.ApiRequest`, `V1.Rpc` — the requests of the two front ends;
* `Rest.ApiRequest.Accepted` — the checks of a REST request, as a condition on its fields;
* `Rest.ApiRequest.toRpc` — the gRPC message with the same content;
* `front_ends_agree` — the agreement.
-/

namespace Kraalzibar

open Foundations

/-! ## The requests -/

namespace V1

/-- A message of the protocol, with the method it is sent to. -/
inductive Rpc where
  | checkPermission (req : CheckPermissionRequest)
  | expandPermissionTree (req : ExpandPermissionTreeRequest)
  | lookupResources (req : LookupResourcesRequest)
  | lookupSubjects (req : LookupSubjectsRequest)
  | writeRelationships (req : WriteRelationshipsRequest)
  | readRelationships (req : ReadRelationshipsRequest)
  | writeSchema (req : WriteSchemaRequest)
  | readSchema (req : ReadSchemaRequest)

/-- What the method answers.  A stream is the list of its messages. -/
abbrev Rpc.Response : Rpc → Type
  | .checkPermission _ => CheckPermissionResponse
  | .expandPermissionTree _ => ExpandPermissionTreeResponse
  | .lookupResources _ => List LookupResourcesResponse
  | .lookupSubjects _ => List LookupSubjectsResponse
  | .writeRelationships _ => WriteRelationshipsResponse
  | .readRelationships _ => ReadRelationshipsResponse
  | .writeSchema _ => WriteSchemaResponse
  | .readSchema _ => ReadSchemaResponse

/-- The handler of the method, for an authenticated tenant. -/
def Rpc.handle (config : ServiceConfig) (tenantId : TenantId) :
    ∀ rpc : Rpc, GrpcProgram rpc.Response
  | .checkPermission req => PermissionService.checkPermission config ⟨some tenantId, req⟩
  | .expandPermissionTree req =>
      PermissionService.expandPermissionTree config ⟨some tenantId, req⟩
  | .lookupResources req => PermissionService.lookupResources config ⟨some tenantId, req⟩
  | .lookupSubjects req => PermissionService.lookupSubjects config ⟨some tenantId, req⟩
  | .writeRelationships req => RelationshipService.writeRelationships ⟨some tenantId, req⟩
  | .readRelationships req => RelationshipService.readRelationships ⟨some tenantId, req⟩
  | .writeSchema req => SchemaService.writeSchema config ⟨some tenantId, req⟩
  | .readSchema req => SchemaService.readSchema ⟨some tenantId, req⟩

end V1

namespace Rest

/-- A request to one of the routes that need a tenant. -/
inductive ApiRequest where
  | checkPermission (req : CheckPermissionRequest)
  | expandPermission (req : ExpandPermissionRequest)
  | lookupResources (req : LookupResourcesRequest)
  | lookupSubjects (req : LookupSubjectsRequest)
  | writeRelationships (req : WriteRelationshipsRequest)
  | readRelationships (req : ReadRelationshipsRequest)
  | writeSchema (req : WriteSchemaRequest)
  | readSchema

namespace ApiRequest

abbrev Response : ApiRequest → Type
  | .checkPermission _ => CheckPermissionResponse
  | .expandPermission _ => ExpandPermissionResponse
  | .lookupResources _ => LookupResourcesResponse
  | .lookupSubjects _ => LookupSubjectsResponse
  | .writeRelationships _ => WriteRelationshipsResponse
  | .readRelationships _ => ReadRelationshipsResponse
  | .writeSchema _ => WriteSchemaResponse
  | .readSchema => ReadSchemaResponse

/-- The handler of the route, for an authenticated tenant. -/
def handle (config : ServiceConfig) (tenantId : TenantId) :
    ∀ req : ApiRequest, RestProgram req.Response
  | .checkPermission req => Rest.checkPermission config tenantId req
  | .expandPermission req => Rest.expandPermission config tenantId req
  | .lookupResources req => Rest.lookupResources config tenantId req
  | .lookupSubjects req => Rest.lookupSubjects config tenantId req
  | .writeRelationships req => Rest.writeRelationships tenantId req
  | .readRelationships req => Rest.readRelationships tenantId req
  | .writeSchema req => Rest.writeSchema config tenantId req
  | .readSchema => Rest.readSchema tenantId

end ApiRequest

/-! ### Which requests pass -/

def ValidIdentifier (value : String) : Prop :=
  value ≠ "" ∧ value.utf8ByteSize ≤ maxIdentifierLength

instance : DecidablePred ValidIdentifier := fun value =>
  inferInstanceAs (Decidable (value ≠ "" ∧ value.utf8ByteSize ≤ maxIdentifierLength))

def ConsistencyRequest.Readable : ConsistencyRequest → Prop
  | .full | .minimizeLatency => True
  | .atLeastAsFresh token | .atExactSnapshot token => (parseU64 token).isSome

/-- The token of a consistency mode, if it has one, is a number below 2^64. -/
def TokenReadable (consistency : Option ConsistencyRequest) : Prop :=
  ∀ c, consistency = some c → c.Readable

def RelationshipUpdate.identifiers (update : RelationshipUpdate) : List (String × String) :=
  [("resource_type", update.resourceType), ("resource_id", update.resourceId),
    ("relation", update.relation), ("subject_type", update.subjectType),
    ("subject_id", update.subjectId)]

def RelationshipUpdate.Accepted (update : RelationshipUpdate) : Prop :=
  (∀ p ∈ update.identifiers, ValidIdentifier p.2) ∧
    (update.operation = "touch" ∨ update.operation = "delete")

instance : DecidablePred RelationshipUpdate.Accepted := fun update =>
  inferInstanceAs (Decidable ((∀ p ∈ update.identifiers, ValidIdentifier p.2) ∧
    (update.operation = "touch" ∨ update.operation = "delete")))

namespace ApiRequest

/-- The identifiers of a request that its handler checks.  An empty subject relation is
one it does not. -/
def identifiers : ApiRequest → List (String × String)
  | .checkPermission req =>
      [("resource_type", req.resourceType), ("resource_id", req.resourceId),
        ("permission", req.permission), ("subject_type", req.subjectType),
        ("subject_id", req.subjectId)]
  | .expandPermission req =>
      [("resource_type", req.resourceType), ("resource_id", req.resourceId),
        ("permission", req.permission)]
  | .lookupResources req =>
      [("resource_type", req.resourceType), ("permission", req.permission),
        ("subject_type", req.subjectType), ("subject_id", req.subjectId)]
  | .lookupSubjects req =>
      [("resource_type", req.resourceType), ("resource_id", req.resourceId),
        ("permission", req.permission), ("subject_type", req.subjectType)]
  | .writeRelationships _ | .readRelationships _ | .writeSchema _ | .readSchema => []

def consistency : ApiRequest → Option ConsistencyRequest
  | .checkPermission req => req.consistency
  | .expandPermission req => req.consistency
  | .lookupResources req => req.consistency
  | .lookupSubjects req => req.consistency
  | .readRelationships req => req.consistency
  | .writeRelationships _ | .writeSchema _ | .readSchema => none

def updates : ApiRequest → List RelationshipUpdate
  | .writeRelationships req => req.updates
  | _ => []

/-- The fields of the request are ones that its handler lets through. -/
structure Accepted (req : ApiRequest) : Prop where
  identifiers : ∀ p ∈ req.identifiers, ValidIdentifier p.2
  consistency : TokenReadable req.consistency
  batch : req.updates.length ≤ maxBatchSize
  updates : ∀ update ∈ req.updates, update.Accepted

end ApiRequest

/-! ### The same content over gRPC -/

def ConsistencyRequest.toRequirement : ConsistencyRequest → V1.Requirement
  | .full => .fullConsistency true
  | .minimizeLatency => .minimizeLatency true
  | .atLeastAsFresh token => .atLeastAsFresh ⟨token⟩
  | .atExactSnapshot token => .atExactSnapshot ⟨token⟩

def toConsistency (consistency : Option ConsistencyRequest) : Option V1.Consistency :=
  consistency.map fun c => ⟨some c.toRequirement⟩

/-- A limit, as the `uint32` whose zero stands for its absence. -/
def toOptionalLimit (limit : Option Nat) : UInt32 :=
  .ofNat (min (limit.getD 0) 10000)

def RelationshipUpdate.toProto (update : RelationshipUpdate) : V1.RelationshipUpdate :=
  { operation :=
      if update.operation = "touch" then V1.UpdateOperation.touch.toI32
      else if update.operation = "delete" then V1.UpdateOperation.delete.toI32
      else V1.UpdateOperation.unspecified.toI32
    relationship := some
      { object := some ⟨update.resourceType, update.resourceId⟩
        relation := update.relation
        subject := some ⟨update.subjectType, update.subjectId, update.subjectRelation⟩ } }

def RelationshipFilterRequest.toProto (f : RelationshipFilterRequest) :
    V1.RelationshipFilter :=
  { objectType := f.resourceType, objectId := f.resourceId, relation := f.relation,
    subjectType := f.subjectType, subjectId := f.subjectId }

namespace ApiRequest

/-- The gRPC message with the content of the request. -/
def toRpc : ApiRequest → V1.Rpc
  | .checkPermission req => .checkPermission
      { consistency := toConsistency req.consistency
        resource := some ⟨req.resourceType, req.resourceId⟩
        permission := req.permission
        subject := some ⟨req.subjectType, req.subjectId, none⟩ }
  | .expandPermission req => .expandPermissionTree
      { consistency := toConsistency req.consistency
        resource := some ⟨req.resourceType, req.resourceId⟩
        permission := req.permission }
  | .lookupResources req => .lookupResources
      { consistency := toConsistency req.consistency
        resourceType := req.resourceType
        permission := req.permission
        subject := some ⟨req.subjectType, req.subjectId, none⟩
        optionalLimit := toOptionalLimit req.limit }
  | .lookupSubjects req => .lookupSubjects
      { consistency := toConsistency req.consistency
        resource := some ⟨req.resourceType, req.resourceId⟩
        permission := req.permission
        subjectType := req.subjectType }
  | .writeRelationships req => .writeRelationships ⟨req.updates.map (·.toProto)⟩
  | .readRelationships req => .readRelationships
      { consistency := toConsistency req.consistency
        filter := req.filter.map (·.toProto)
        optionalLimit := toOptionalLimit req.limit }
  | .writeSchema req => .writeSchema ⟨req.schema, req.force⟩
  | .readSchema => .readSchema {}

def limit : ApiRequest → Option Nat
  | .lookupResources req => req.limit
  | .readRelationships req => req.limit
  | _ => none

end ApiRequest

/-! ### The operation behind both -/

def touches (updates : List RelationshipUpdate) : List TupleWrite :=
  (updates.filter (·.operation = "touch")).map fun update =>
    { object := update.object, relation := update.relation, subject := update.subject }

def deletes (updates : List RelationshipUpdate) : List TupleFilter :=
  (updates.filter (·.operation = "delete")).map (·.deleteFilter)

/-- The operation of the service that a request stands for, under consistency `c`. -/
def ApiRequest.operation (c : Consistency) : ApiRequest → Operation
  | .checkPermission req => .checkPermission
      { objectType := req.resourceType, objectId := req.resourceId,
        permission := req.permission, subjectType := req.subjectType,
        subjectId := req.subjectId, consistency := c }
  | .expandPermission req => .expandPermissionTree
      { objectType := req.resourceType, objectId := req.resourceId,
        permission := req.permission, consistency := c }
  | .lookupResources req => .lookupResources
      { resourceType := req.resourceType, permission := req.permission,
        subjectType := req.subjectType, subjectId := req.subjectId, consistency := c,
        limit := req.limit.map (min · 10000) }
  | .lookupSubjects req => .lookupSubjects
      { objectType := req.resourceType, objectId := req.resourceId,
        permission := req.permission, subjectType := req.subjectType, consistency := c }
  | .writeRelationships req => .writeRelationships
      { writes := touches req.updates, deletes := deletes req.updates }
  | .readRelationships req => .readRelationships ((req.filter.map (·.toFilter)).getD {}) c
      (some (min (req.limit.getD defaultReadLimit) 10000))
  | .writeSchema req => .writeSchema req.schema req.force
  | .readSchema => .readSchema

/-! ### The same answer -/

def textOf (token : Option V1.ZedToken) : Option String :=
  token.map (·.token)

def SubjectResponse.Shows (s : SubjectResponse) (subject : V1.SubjectReference) : Prop :=
  s.subjectType = subject.subjectType ∧ s.subjectId = subject.subjectId ∧
    s.subjectRelation = subject.subjectRelation

def RelationshipResponse.Shows (r : RelationshipResponse) (rel : V1.Relationship) : Prop :=
  rel = { object := some ⟨r.resourceType, r.resourceId⟩, relation := r.relation,
          subject := some ⟨r.subjectType, r.subjectId, r.subjectRelation⟩ }

/-- The body and the message say the same.  A stream repeats the token in each of its
messages; an expansion is one tree in two notations. -/
def ApiRequest.Same :
    ∀ req : ApiRequest, req.Response → req.toRpc.Response → Prop
  | .checkPermission _ => fun body msg =>
      (msg.permissionship = if body.allowed then V1.Permissionship.hasPermission.toI32
        else V1.Permissionship.noPermission.toI32) ∧
      body.checkedAt = textOf msg.checkedAt
  | .expandPermission _ => fun body msg =>
      (∃ tree, body.tree = expandTreeToJson tree ∧
        msg.tree = some (domainExpandTreeToProto tree)) ∧
      body.expandedAt = textOf msg.expandedAt
  | .lookupResources _ => fun body (msgs : List V1.LookupResourcesResponse) =>
      body.resourceIds = msgs.map (·.resourceId) ∧
      ∀ msg ∈ msgs, body.lookedUpAt = textOf msg.lookedUpAt
  | .lookupSubjects _ => fun body (msgs : List V1.LookupSubjectsResponse) =>
      List.Forall₂ (fun s msg => ∃ subject, msg.subject = some subject ∧ s.Shows subject)
        body.subjects msgs ∧
      ∀ msg ∈ msgs, body.lookedUpAt = textOf msg.lookedUpAt
  | .writeRelationships _ => fun body msg => some body.writtenAt = textOf msg.writtenAt
  | .readRelationships _ => fun body msg =>
      List.Forall₂ RelationshipResponse.Shows body.relationships msg.relationships ∧
      body.readAt = textOf msg.readAt
  | .writeSchema _ => fun body msg =>
      body.breakingChangesOverridden = msg.breakingChangesOverridden
  | .readSchema => fun body msg => body.schema = msg.schema

/-- The gRPC code of a status code. -/
def StatusCode.code : StatusCode → Code
  | .badRequest => .invalidArgument
  | .notFound => .notFound
  | .preconditionFailed => .failedPrecondition
  | .unprocessableEntity => .resourceExhausted
  | .internalServerError => .internal

/-- Both succeed and say the same, or both fail with the same code and text. -/
inductive Alike {α β : Type} (same : α → β → Prop) :
    Except ErrorResponse α → Except Tonic.Status β → Prop
  | ok {a : α} {b : β} (h : same a b) : Alike same (.ok a) (.ok b)
  | error {response : ErrorResponse} {status : Tonic.Status}
      (hcode : status.code = response.status.code)
      (hmessage : status.message = response.error) : Alike same (.error response) (.error status)

theorem alike_apiError {α β : Type} (same : α → β → Prop) (err : ApiError) :
    Alike same (.error (apiErrorToResponse err)) (.error (apiErrorToStatus err)) := by
  cases err with
  | check e => cases e <;> exact .error rfl rfl
  | storage e => cases e <;> exact .error rfl rfl
  | _ => exact .error rfl rfl

/-! ## The checks -/

theorem validateIdentifier_ok {field value : String} (h : ValidIdentifier value) :
    validateIdentifier field value = .ok () := by
  have hempty : ¬ value.isEmpty = true := by simpa using h.1
  have hlength : ¬ value.utf8ByteSize > maxIdentifierLength := by
    have := h.2
    omega
  rw [validateIdentifier, if_neg hempty, if_neg hlength]

theorem validateIdentifier_refused {field value : String} (h : ¬ ValidIdentifier value) :
    ∃ text, validateIdentifier field value = .error (badRequest text) := by
  by_cases hempty : value.isEmpty = true
  · exact ⟨_, if_pos hempty⟩
  · have hlength : value.utf8ByteSize > maxIdentifierLength := by
      by_contra hle
      exact h ⟨by simpa using hempty, by omega⟩
    exact ⟨_, (if_neg hempty).trans (if_pos hlength)⟩

theorem validateIdentifiers_ok {fields : List (String × String)}
    (h : ∀ p ∈ fields, ValidIdentifier p.2) : validateIdentifiers fields = .ok () := by
  induction fields with
  | nil => rfl
  | cons p fields ih =>
      obtain ⟨field, value⟩ := p
      rw [validateIdentifiers, validateIdentifier_ok (h (field, value) List.mem_cons_self),
        ok_bind]
      exact ih fun p hp => h p (List.mem_cons_of_mem _ hp)

theorem validateIdentifiers_refused {fields : List (String × String)}
    (h : ¬ ∀ p ∈ fields, ValidIdentifier p.2) :
    ∃ text, validateIdentifiers fields = .error (badRequest text) := by
  induction fields with
  | nil => exact absurd nofun h
  | cons p fields ih =>
      obtain ⟨field, value⟩ := p
      rw [validateIdentifiers]
      by_cases hvalid : ValidIdentifier value
      · rw [validateIdentifier_ok hvalid, ok_bind]
        refine ih fun hrest => h ?_
        rintro p hp
        rcases List.mem_cons.mp hp with rfl | hp
        · exact hvalid
        · exact hrest p hp
      · obtain ⟨text, htext⟩ := @validateIdentifier_refused field _ hvalid
        exact ⟨text, by rw [htext, error_bind]⟩

/-- The checks of an update are those of its identifiers. -/
theorem validate_eq (update : RelationshipUpdate) :
    update.validate = validateIdentifiers update.identifiers := by
  simp only [RelationshipUpdate.validate, RelationshipUpdate.identifiers, validateIdentifiers]
  cases validateIdentifier "resource_type" update.resourceType <;> try rfl
  cases validateIdentifier "resource_id" update.resourceId <;> try rfl
  cases validateIdentifier "relation" update.relation <;> try rfl
  cases validateIdentifier "subject_type" update.subjectType <;> try rfl
  cases validateIdentifier "subject_id" update.subjectId <;> rfl

/-- Both front ends read a token alike. -/
theorem resolveConsistency_ok {consistency : Option ConsistencyRequest}
    (h : TokenReadable consistency) :
    ∃ c, resolveConsistency consistency = .ok c ∧
      protoConsistencyToDomain (toConsistency consistency) = .ok c := by
  have htoken : ∀ {token : String}, (parseU64 token).isSome → ∃ val,
      parseToken token = .ok val ∧ zedTokenToSnapshot ⟨token⟩ = .ok val := by
    intro token hsome
    obtain ⟨val, hval⟩ := Option.isSome_iff_exists.mp hsome
    exact ⟨val, by rw [parseToken, hval], by rw [zedTokenToSnapshot, hval, okOr]⟩
  cases consistency with
  | none => exact ⟨_, rfl, rfl⟩
  | some c =>
      have hreadable : c.Readable := h c rfl
      cases c with
      | full => exact ⟨_, rfl, rfl⟩
      | minimizeLatency => exact ⟨_, rfl, rfl⟩
      | atLeastAsFresh token =>
          obtain ⟨val, hrest, hgrpc⟩ := htoken hreadable
          refine ⟨.atLeastAsFresh val, by rw [resolveConsistency, hrest]; rfl, ?_⟩
          show (zedTokenToSnapshot ⟨token⟩ >>= _) = _
          rw [hgrpc]
          rfl
      | atExactSnapshot token =>
          obtain ⟨val, hrest, hgrpc⟩ := htoken hreadable
          refine ⟨.atExactSnapshot val, by rw [resolveConsistency, hrest]; rfl, ?_⟩
          show (zedTokenToSnapshot ⟨token⟩ >>= _) = _
          rw [hgrpc]
          rfl

/-- A token that is no number is refused. -/
theorem resolveConsistency_refused {consistency : Option ConsistencyRequest}
    (h : ¬ TokenReadable consistency) :
    ∃ text, resolveConsistency consistency = .error (badRequest text) := by
  have htoken : ∀ {token : String}, ¬ (parseU64 token).isSome → ∃ text,
      parseToken token = .error (badRequest text) := by
    intro token hnone
    have hval : parseU64 token = none := by simpa using hnone
    exact ⟨_, by rw [parseToken, hval]⟩
  cases consistency with
  | none => exact absurd nofun h
  | some c =>
      have hreadable : ¬ c.Readable := fun hc => h fun c' hc' => Option.some.inj hc' ▸ hc
      cases c with
      | full => exact absurd trivial hreadable
      | minimizeLatency => exact absurd trivial hreadable
      | atLeastAsFresh token =>
          obtain ⟨text, htext⟩ := htoken hreadable
          exact ⟨text, by rw [resolveConsistency, htext]; rfl⟩
      | atExactSnapshot token =>
          obtain ⟨text, htext⟩ := htoken hreadable
          exact ⟨text, by rw [resolveConsistency, htext]; rfl⟩

/-- Both loops collect the touches and the deletes, in order. -/
theorem updateLoop_ok {updates : List RelationshipUpdate}
    (h : ∀ update ∈ updates, update.Accepted) (ws : List TupleWrite) (ds : List TupleFilter) :
    updateLoop updates ws ds = .ok ⟨ws ++ touches updates, ds ++ deletes updates⟩ ∧
      RelationshipService.updateLoop (updates.map (·.toProto)) ws ds =
        .ok ⟨ws ++ touches updates, ds ++ deletes updates⟩ := by
  induction updates generalizing ws ds with
  | nil => simp [updateLoop, RelationshipService.updateLoop, touches, deletes]
  | cons update updates ih =>
      obtain ⟨hidentifiers, hoperation⟩ := h update List.mem_cons_self
      have hlater := ih fun u hu => h u (List.mem_cons_of_mem _ hu)
      have hvalid : update.validate = .ok () := by
        rw [validate_eq, validateIdentifiers_ok hidentifiers]
      rw [updateLoop, hvalid, ok_bind, List.map_cons, RelationshipService.updateLoop]
      rcases hoperation with htouch | hdelete
      · have htouches : touches (update :: updates) =
            ⟨update.object, update.relation, update.subject⟩ :: touches updates := by
          simp [touches, htouch]
        have hdeletes : deletes (update :: updates) = deletes updates := by
          simp [deletes, htouch]
        rw [if_pos htouch, htouches, hdeletes, List.append_cons]
        refine ⟨(hlater _ _).1, Eq.trans ?_ (hlater _ _).2⟩
        simp only [RelationshipUpdate.toProto, if_pos htouch]
        rfl
      · have hne : update.operation ≠ "touch" := by
          rw [hdelete]
          decide
        have htouches : touches (update :: updates) = touches updates := by
          simp [touches, hdelete]
        have hdeletes : deletes (update :: updates) =
            update.deleteFilter :: deletes updates := by
          simp [deletes, hdelete]
        rw [if_neg hne, if_pos hdelete, htouches, hdeletes,
          List.append_cons ds update.deleteFilter (deletes updates)]
        refine ⟨(hlater _ _).1, Eq.trans ?_ (hlater _ _).2⟩
        simp only [RelationshipUpdate.toProto, if_neg hne, if_pos hdelete]
        rfl

theorem updateLoop_refused {updates : List RelationshipUpdate}
    (h : ¬ ∀ update ∈ updates, update.Accepted) (writes : List TupleWrite)
    (deletes : List TupleFilter) :
    ∃ text, updateLoop updates writes deletes = .error (badRequest text) := by
  induction updates generalizing writes deletes with
  | nil => exact absurd nofun h
  | cons update updates ih =>
      rw [updateLoop, validate_eq]
      by_cases hidentifiers : ∀ p ∈ update.identifiers, ValidIdentifier p.2
      · rw [validateIdentifiers_ok hidentifiers, ok_bind]
        by_cases hoperation : update.operation = "touch" ∨ update.operation = "delete"
        · have hlater := ih fun hrest => h fun u hu => by
            rcases List.mem_cons.mp hu with rfl | hu
            · exact ⟨hidentifiers, hoperation⟩
            · exact hrest u hu
          split
          · exact hlater _ _
          · rename_i hne
            rw [if_pos (hoperation.resolve_left hne)]
            exact hlater _ _
        · rw [not_or] at hoperation
          exact ⟨_, by rw [if_neg hoperation.1, if_neg hoperation.2]; rfl⟩
      · obtain ⟨text, htext⟩ := validateIdentifiers_refused hidentifiers
        exact ⟨text, by rw [htext, error_bind]⟩

/-! ### Limits -/

theorem toNat_toOptionalLimit (limit : Option Nat) :
    (toOptionalLimit limit).toNat = min (limit.getD 0) 10000 := by
  rw [toOptionalLimit, UInt32.toNat_ofNat']
  exact Nat.mod_eq_of_lt (by omega)

theorem lookupLimit_toOptionalLimit {limit : Option Nat} (h : limit ≠ some 0) :
    PermissionService.lookupLimit (toOptionalLimit limit) = limit.map (min · 10000) := by
  have hpos : toOptionalLimit limit > 0 ↔ 0 < limit.getD 0 := by
    rw [gt_iff_lt, UInt32.lt_iff_toNat_lt, toNat_toOptionalLimit]
    exact ⟨fun h => by simp at h; omega, fun h => by simp; omega⟩
  unfold PermissionService.lookupLimit
  rw [toNat_toOptionalLimit]
  cases limit with
  | none => rw [if_neg (mt hpos.mp (by simp))]; rfl
  | some n =>
      have hn : 0 < n := by
        rcases Nat.eq_zero_or_pos n with rfl | hn
        · exact absurd rfl h
        · exact hn
      rw [if_pos (hpos.mpr hn)]
      simp

theorem readLimit_toOptionalLimit {limit : Option Nat} (h : limit ≠ some 0) :
    RelationshipService.readLimit (toOptionalLimit limit) =
      some (min (limit.getD defaultReadLimit) 10000) := by
  have hlookup := lookupLimit_toOptionalLimit h
  unfold PermissionService.lookupLimit at hlookup
  unfold RelationshipService.readLimit
  cases limit with
  | none =>
      have hneg : ¬ toOptionalLimit none > 0 := fun hpos => by
        rw [if_pos hpos] at hlookup
        cases hlookup
      rw [if_neg hneg]
      rfl
  | some n =>
      have hpos : toOptionalLimit (some n) > 0 := by
        by_contra hneg
        rw [if_neg hneg] at hlookup
        cases hlookup
      rw [if_pos hpos] at hlookup ⊢
      exact hlookup

/-! ## Refusals -/

section

variable {config : ServiceConfig} {tenantId : TenantId}

/-- A request that stops at its identifiers or at its token makes no call. -/
theorem checks_refused {β : Type} {fields : List (String × String)}
    {consistency : Option ConsistencyRequest} (k : Consistency → RestProgram β)
    (h : ¬ ((∀ p ∈ fields, ValidIdentifier p.2) ∧ TokenReadable consistency)) :
    ∃ text, (ofResponse (validateIdentifiers fields) >>= fun _ =>
      ofResponse (resolveConsistency consistency) >>= k) =
        ofResponse (.error (badRequest text)) := by
  by_cases hfields : ∀ p ∈ fields, ValidIdentifier p.2
  · obtain ⟨text, htext⟩ := resolveConsistency_refused fun htoken => h ⟨hfields, htoken⟩
    exact ⟨text, by rw [validateIdentifiers_ok hfields, htext]; rfl⟩
  · obtain ⟨text, htext⟩ := validateIdentifiers_refused hfields
    exact ⟨text, by rw [htext]; rfl⟩

/-- **A request that is not accepted** is refused before any call. -/
theorem handle_refused {req : ApiRequest} (h : ¬ req.Accepted) :
    ∃ text, req.handle config tenantId = ofResponse (.error (badRequest text)) := by
  cases req with
  | checkPermission req =>
      exact checks_refused _ fun hchecks => h ⟨hchecks.1, hchecks.2, Nat.zero_le _, nofun⟩
  | expandPermission req =>
      exact checks_refused _ fun hchecks => h ⟨hchecks.1, hchecks.2, Nat.zero_le _, nofun⟩
  | lookupResources req =>
      exact checks_refused _ fun hchecks => h ⟨hchecks.1, hchecks.2, Nat.zero_le _, nofun⟩
  | lookupSubjects req =>
      exact checks_refused _ fun hchecks => h ⟨hchecks.1, hchecks.2, Nat.zero_le _, nofun⟩
  | readRelationships req =>
      exact @checks_refused _ [] _ _ fun hchecks =>
        h ⟨hchecks.1, hchecks.2, Nat.zero_le _, nofun⟩
  | writeRelationships req =>
      show ∃ text, writeRelationships tenantId req = _
      unfold writeRelationships
      by_cases hbatch : req.updates.length > maxBatchSize
      · exact ⟨_, by rw [if_pos hbatch]; rfl⟩
      · have hupdates : ¬ ∀ update ∈ req.updates, update.Accepted :=
          fun hupdates => h ⟨nofun, nofun, Nat.le_of_not_lt hbatch, hupdates⟩
        obtain ⟨text, htext⟩ := updateLoop_refused hupdates [] []
        exact ⟨text, by rw [if_neg hbatch, htext]; rfl⟩
  | writeSchema req => exact absurd ⟨nofun, nofun, Nat.zero_le _, nofun⟩ h
  | readSchema => exact absurd ⟨nofun, nofun, Nat.zero_le _, nofun⟩ h

/-! ## The agreement -/

theorem textOf_snapshotToZedToken (snapshot : Option SnapshotToken) :
    renderToken snapshot = textOf (snapshotToZedToken snapshot) := by
  cases snapshot <;> rfl

/-- Past the checks, what is left of either handler is the operation and its rendering. -/
theorem Agrees.of_eq {α β γ : Type} {same : β → γ → Prop} {program : ServiceProgram α}
    {x : RestProgram β} {y : GrpcProgram γ} (f : α → Except ErrorResponse β)
    (g : α → Except Tonic.Status γ) (hx : x = mapResponse program >>= fun a => ofResponse (f a))
    (hy : y = mapStatus program >>= fun a => ofStatus (g a))
    (halike : ∀ a, Alike same (f a) (g a)) :
    Fallible.Rendering (Alike same) program x y := by
  rw [hx, hy]
  exact Fallible.Rendering.of_mapError f g (alike_apiError same) halike

/-- What a REST handler goes on with once its checks have passed. -/
theorem checks_passed {β : Type} {fields : List (String × String)}
    {consistency : Option ConsistencyRequest} {c : Consistency} (k : Consistency → RestProgram β)
    (hfields : ∀ p ∈ fields, ValidIdentifier p.2) (hc : resolveConsistency consistency = .ok c) :
    (ofResponse (validateIdentifiers fields) >>= fun _ =>
      ofResponse (resolveConsistency consistency) >>= k) = k c := by
  rw [validateIdentifiers_ok hfields, hc]
  rfl

section

variable {c : Consistency}

theorem checkPermission_agrees {req : CheckPermissionRequest}
    (hfields : ∀ p ∈ (ApiRequest.checkPermission req).identifiers, ValidIdentifier p.2)
    (hrest : resolveConsistency req.consistency = .ok c)
    (hgrpc : protoConsistencyToDomain (toConsistency req.consistency) = .ok c) :
    Fallible.Rendering (Alike (ApiRequest.checkPermission req).Same)
      (((ApiRequest.checkPermission req).operation c).program config tenantId)
      (Rest.checkPermission config tenantId req)
      ((ApiRequest.checkPermission req).toRpc.handle config tenantId) := by
  refine Agrees.of_eq (fun result => .ok ⟨result.allowed, renderToken result.snapshot⟩)
    (fun result => .ok ⟨snapshotToZedToken result.snapshot,
      (if result.allowed then V1.Permissionship.hasPermission else .noPermission).toI32⟩)
    (checks_passed _ hfields hrest) (consistency_passed _ hgrpc) fun result => ?_
  refine .ok ⟨?_, textOf_snapshotToZedToken _⟩
  cases result.allowed <;> rfl

theorem expandPermission_agrees {req : ExpandPermissionRequest}
    (hfields : ∀ p ∈ (ApiRequest.expandPermission req).identifiers, ValidIdentifier p.2)
    (hrest : resolveConsistency req.consistency = .ok c)
    (hgrpc : protoConsistencyToDomain (toConsistency req.consistency) = .ok c) :
    Fallible.Rendering (Alike (ApiRequest.expandPermission req).Same)
      (((ApiRequest.expandPermission req).operation c).program config tenantId)
      (Rest.expandPermission config tenantId req)
      ((ApiRequest.expandPermission req).toRpc.handle config tenantId) := by
  refine Agrees.of_eq
    (fun output => .ok ⟨expandTreeToJson output.tree, renderToken output.snapshot⟩)
    (fun output => .ok ⟨snapshotToZedToken output.snapshot,
      some (domainExpandTreeToProto output.tree)⟩)
    (checks_passed _ hfields hrest) (consistency_passed _ hgrpc) fun output => ?_
  exact .ok ⟨⟨output.tree, rfl, rfl⟩, textOf_snapshotToZedToken _⟩

theorem lookupResources_agrees {req : LookupResourcesRequest} (hlimit : req.limit ≠ some 0)
    (hfields : ∀ p ∈ (ApiRequest.lookupResources req).identifiers, ValidIdentifier p.2)
    (hrest : resolveConsistency req.consistency = .ok c)
    (hgrpc : protoConsistencyToDomain (toConsistency req.consistency) = .ok c) :
    Fallible.Rendering (Alike (ApiRequest.lookupResources req).Same)
      (((ApiRequest.lookupResources req).operation c).program config tenantId)
      (Rest.lookupResources config tenantId req)
      ((ApiRequest.lookupResources req).toRpc.handle config tenantId) := by
  refine Agrees.of_eq
    (fun output => .ok ⟨output.resourceIds, renderToken output.snapshot⟩)
    (fun output => .ok (output.resourceIds.map fun resourceId =>
      ⟨snapshotToZedToken output.snapshot, resourceId⟩))
    (checks_passed _ hfields hrest) ?_ fun output => .ok ⟨?_, ?_⟩
  · refine (consistency_passed _ hgrpc).trans ?_
    have hinput := lookupLimit_toOptionalLimit hlimit
    rw [PermissionService.lookupInput, hinput]
    rfl
  · rw [List.map_map]
    exact (List.map_id _).symm
  · intro msg hmsg
    obtain ⟨resourceId, -, rfl⟩ := List.mem_map.mp hmsg
    exact textOf_snapshotToZedToken _

theorem lookupSubjects_agrees {req : LookupSubjectsRequest}
    (hfields : ∀ p ∈ (ApiRequest.lookupSubjects req).identifiers, ValidIdentifier p.2)
    (hrest : resolveConsistency req.consistency = .ok c)
    (hgrpc : protoConsistencyToDomain (toConsistency req.consistency) = .ok c) :
    Fallible.Rendering (Alike (ApiRequest.lookupSubjects req).Same)
      (((ApiRequest.lookupSubjects req).operation c).program config tenantId)
      (Rest.lookupSubjects config tenantId req)
      ((ApiRequest.lookupSubjects req).toRpc.handle config tenantId) := by
  refine Agrees.of_eq
    (fun output => .ok ⟨output.subjects.map subjectResponse, renderToken output.snapshot⟩)
    (fun output => .ok (output.subjects.map fun subject =>
      ⟨snapshotToZedToken output.snapshot, some (domainSubjectToProto subject)⟩))
    (checks_passed _ hfields hrest) (consistency_passed _ hgrpc) fun output => .ok ⟨?_, ?_⟩
  · rw [List.forall₂_map_left_iff, List.forall₂_map_right_iff]
    exact List.forall₂_same.mpr fun subject _ =>
      ⟨domainSubjectToProto subject, rfl, rfl, rfl, rfl⟩
  · intro msg hmsg
    obtain ⟨subject, -, rfl⟩ := List.mem_map.mp hmsg
    exact textOf_snapshotToZedToken _

theorem readRelationships_agrees {req : ReadRelationshipsRequest}
    (hlimit : req.limit ≠ some 0) (hrest : resolveConsistency req.consistency = .ok c)
    (hgrpc : protoConsistencyToDomain (toConsistency req.consistency) = .ok c) :
    Fallible.Rendering (Alike (ApiRequest.readRelationships req).Same)
      (((ApiRequest.readRelationships req).operation c).program config tenantId)
      (Rest.readRelationships tenantId req)
      ((ApiRequest.readRelationships req).toRpc.handle config tenantId) := by
  refine Agrees.of_eq
    (fun output => .ok ⟨output.tuples.map relationshipResponse, renderToken output.snapshot⟩)
    (fun output => .ok ⟨snapshotToZedToken output.snapshot,
      output.tuples.map domainTupleToProto⟩)
    (@checks_passed _ [] _ _ _ nofun hrest) ?_ fun output =>
      .ok ⟨?_, textOf_snapshotToZedToken _⟩
  · refine (consistency_passed _ hgrpc).trans ?_
    have hfilter : ((req.filter.map (·.toProto)).map protoFilterToDomain).getD {} =
        (req.filter.map (·.toFilter)).getD {} := by
      cases req.filter <;> rfl
    rw [readLimit_toOptionalLimit hlimit, hfilter]
    rfl
  · rw [List.forall₂_map_left_iff, List.forall₂_map_right_iff]
    exact List.forall₂_same.mpr fun _ _ => rfl

theorem writeRelationships_agrees {req : WriteRelationshipsRequest}
    (hbatch : req.updates.length ≤ maxBatchSize)
    (hupdates : ∀ update ∈ req.updates, update.Accepted) :
    Fallible.Rendering (Alike (ApiRequest.writeRelationships req).Same)
      (((ApiRequest.writeRelationships req).operation c).program config tenantId)
      (Rest.writeRelationships tenantId req)
      ((ApiRequest.writeRelationships req).toRpc.handle config tenantId) := by
  obtain ⟨hrest, hgrpc⟩ := updateLoop_ok hupdates [] []
  refine Agrees.of_eq (fun token : SnapshotToken => .ok ⟨toString token⟩)
    (fun token => .ok ⟨snapshotToZedToken (some token)⟩) ?_ ?_ fun token => .ok rfl
  · unfold Rest.writeRelationships
    rw [if_neg (Nat.not_lt.mpr hbatch), hrest]
    rfl
  · show RelationshipService.writeRelationships _ = _
    unfold RelationshipService.writeRelationships
    rw [hgrpc]
    rfl

theorem writeSchema_agrees {req : WriteSchemaRequest} :
    Fallible.Rendering (Alike (ApiRequest.writeSchema req).Same)
      (((ApiRequest.writeSchema req).operation c).program config tenantId)
      (Rest.writeSchema config tenantId req)
      ((ApiRequest.writeSchema req).toRpc.handle config tenantId) :=
  Agrees.of_eq (fun result => .ok ⟨result.breakingChangesOverridden⟩)
    (fun result => .ok ⟨none, result.breakingChangesOverridden⟩) rfl rfl fun _ => .ok rfl

theorem readSchema_agrees :
    Fallible.Rendering (Alike ApiRequest.readSchema.Same)
      ((ApiRequest.readSchema.operation c).program config tenantId) (Rest.readSchema tenantId)
      (ApiRequest.readSchema.toRpc.handle config tenantId) := by
  refine Agrees.of_eq
    (fun schema => (schema.map ReadSchemaResponse.mk).elim
      (.error ⟨.notFound, .text "no schema has been written"⟩) .ok)
    (fun schema => (schema.map V1.ReadSchemaResponse.mk).elim
      (.error ⟨.notFound, .text "no schema has been written"⟩) .ok) ?_ ?_ fun schema => ?_
  · refine congrArg (mapResponse _ >>= ·) (funext fun schema => ?_)
    cases schema <;> rfl
  · refine congrArg (mapStatus _ >>= ·) (funext fun schema => ?_)
    cases schema <;> rfl
  · cases schema with
    | none => exact .error rfl rfl
    | some text => exact .ok rfl

end

/-- **An accepted request** is one operation of the service, over either front end. -/
theorem handle_agrees {req : ApiRequest} (h : req.Accepted) (hlimit : req.limit ≠ some 0) :
    ∃ c, resolveConsistency req.consistency = .ok c ∧
      Fallible.Rendering (Alike req.Same) ((req.operation c).program config tenantId)
        (req.handle config tenantId) (req.toRpc.handle config tenantId) := by
  obtain ⟨c, hrest, hgrpc⟩ := resolveConsistency_ok h.consistency
  refine ⟨c, hrest, ?_⟩
  cases req with
  | checkPermission req => exact checkPermission_agrees h.identifiers hrest hgrpc
  | expandPermission req => exact expandPermission_agrees h.identifiers hrest hgrpc
  | lookupResources req => exact lookupResources_agrees hlimit h.identifiers hrest hgrpc
  | lookupSubjects req => exact lookupSubjects_agrees h.identifiers hrest hgrpc
  | writeRelationships req => exact writeRelationships_agrees h.batch h.updates
  | readRelationships req => exact readRelationships_agrees hlimit hrest hgrpc
  | writeSchema req => exact writeSchema_agrees
  | readSchema => exact readSchema_agrees

/-- Alice becomes a viewer of the document `readme`, and bob no longer is one. -/
def shareUpdates : List RelationshipUpdate :=
  [⟨"touch", "document", "readme", "viewer", "user", "alice", none⟩,
    ⟨"delete", "document", "readme", "viewer", "user", "bob", none⟩]

def shareCall : WriteCall :=
  { writes := [⟨⟨"document", "readme"⟩, "viewer", .direct "user" "alice"⟩]
    deletes := [{ objectType := some "document", objectId := some "readme",
                  relation := some "viewer", subjectType := some "user",
                  subjectId := some "bob", subjectRelation := none }] }

end

end Rest

end Kraalzibar
