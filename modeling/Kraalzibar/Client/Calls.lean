import Kraalzibar.Client.ResultLimit
import Kraalzibar.Foundations.Rendering
import Kraalzibar.Server.Handlers

/-!
# The calls of the Rust client

A call is encoded into a message, handled by the server, and its response decoded.  What
is left of this for the caller is one operation of the service, on what the message keeps
of the arguments, with the result unchanged.

* `KraalzibarClient.ClientError` — how a call fails;
* `KraalzibarClient.Call`, `Call.run` — the calls, with the server's handler in place of
  the connection;
* `Call.operation`, `Call.expected` — the operation a call stands for, and what its caller
  receives;
* `calls_are_operations` — the round trip.
-/

namespace Kraalzibar

open Foundations

namespace KraalzibarClient

/-- The errors of a client, as far as the server's statuses become one of them. -/
inductive ClientError where
  | invalidArgument (message : Message)
  | notFound (message : Message)
  | unauthenticated (message : Message)
  | failedPrecondition (message : Message)
  | internal (message : Message)
  | status (status : Tonic.Status)
deriving DecidableEq

/-- `From<tonic::Status>` -/
def ClientError.ofStatus (status : Tonic.Status) : ClientError :=
  match status.code with
  | .notFound => .notFound status.message
  | .unauthenticated => .unauthenticated status.message
  | .invalidArgument => .invalidArgument status.message
  | .internal => .internal status.message
  | .failedPrecondition => .failedPrecondition status.message
  | .resourceExhausted => .status status

/-- A call of the client: it may fail with a `ClientError`. -/
abbrev ClientProgram (α : Type) := Fallible ClientError ServiceCall ServiceCall.Reply α

/-- `.await?` on the response of the server. -/
def received {α : Type} (program : GrpcProgram α) : ClientProgram α :=
  Fallible.rendered (·.mapError ClientError.ofStatus) program

/-- A token that cannot be parsed is dropped. -/
def zedTokenToSnapshot (token : V1.ZedToken) : Option SnapshotToken :=
  parseU64 token.token

structure CheckPermissionRequest where
  resource : ObjectRef
  permission : String
  subject : SubjectRef
  consistency : Consistency

structure CheckPermissionResponse where
  allowed : Bool
  checkedAt : Option SnapshotToken
deriving DecidableEq

inductive RelationshipOperation where
  | touch
  | delete
deriving DecidableEq

structure RelationshipUpdate where
  operation : RelationshipOperation
  object : ObjectRef
  relation : String
  subject : SubjectRef

structure WriteRelationshipsResponse where
  writtenAt : Option SnapshotToken
deriving DecidableEq

structure LookupSubjectsRequest where
  resource : ObjectRef
  permission : String
  subjectType : String
  consistency : Consistency

structure WriteSchemaResponse where
  writtenAt : Option SnapshotToken
  breakingChangesOverridden : Bool
deriving DecidableEq

structure ExpandPermissionTreeRequest where
  resource : ObjectRef
  permission : String
  consistency : Consistency

structure ExpandPermissionTreeResponse where
  expandedAt : Option SnapshotToken
  tree : Option V1.PermissionExpansionTree

section

variable (config : ServiceConfig) (tenantId : TenantId)

def checkPermission (request : CheckPermissionRequest) :
    ClientProgram CheckPermissionResponse := do
  let response ← received (PermissionService.checkPermission config ⟨some tenantId,
    { consistency := some (consistencyToProto request.consistency)
      resource := some (domainObjectToProto request.resource)
      permission := request.permission
      subject := some (domainSubjectToProto request.subject) }⟩)
  return { allowed := response.permissionship = V1.Permissionship.hasPermission.toI32
           checkedAt := response.checkedAt.bind zedTokenToSnapshot }

def RelationshipOperation.toProto : RelationshipOperation → V1.UpdateOperation
  | .touch => .touch
  | .delete => .delete

def RelationshipUpdate.toProto (u : RelationshipUpdate) : V1.RelationshipUpdate :=
  { operation := u.operation.toProto.toI32
    relationship := some
      { object := some (domainObjectToProto u.object), relation := u.relation,
        subject := some (domainSubjectToProto u.subject) } }

def writeRelationships (updates : List RelationshipUpdate) :
    ClientProgram WriteRelationshipsResponse := do
  let response ← received (RelationshipService.writeRelationships
    ⟨some tenantId, ⟨updates.map (·.toProto)⟩⟩)
  return { writtenAt := response.writtenAt.bind zedTokenToSnapshot }

def lookupSubjects (request : LookupSubjectsRequest) : ClientProgram (List SubjectRef) := do
  let responses ← received (PermissionService.lookupSubjects config ⟨some tenantId,
    { consistency := some (consistencyToProto request.consistency)
      resource := some (domainObjectToProto request.resource)
      permission := request.permission
      subjectType := request.subjectType }⟩)
  return responses.filterMap fun response => response.subject.map protoSubjectToDomain

def writeSchema (schema : String) (force : Bool) : ClientProgram WriteSchemaResponse := do
  let response ← received (SchemaService.writeSchema config ⟨some tenantId, ⟨schema, force⟩⟩)
  return { writtenAt := response.writtenAt.bind zedTokenToSnapshot
           breakingChangesOverridden := response.breakingChangesOverridden }

/-- An empty text is taken for no schema. -/
def readSchema : ClientProgram (Option String) := do
  let response ← received (SchemaService.readSchema ⟨some tenantId, {}⟩)
  return if response.schema.isEmpty then none else some response.schema

def expandPermissionTree (request : ExpandPermissionTreeRequest) :
    ClientProgram ExpandPermissionTreeResponse := do
  let response ← received (PermissionService.expandPermissionTree config ⟨some tenantId,
    { consistency := some (consistencyToProto request.consistency)
      resource := some (domainObjectToProto request.resource)
      permission := request.permission }⟩)
  return { expandedAt := response.expandedAt.bind zedTokenToSnapshot
           tree := response.tree }

end

/-! ## The calls together -/

/-- The calls of a client, with their arguments. -/
inductive Call where
  | checkPermission (request : CheckPermissionRequest)
  | expandPermissionTree (request : ExpandPermissionTreeRequest)
  | lookupResources (request : LookupResourcesRequest)
  | lookupSubjects (request : LookupSubjectsRequest)
  | writeRelationships (updates : List RelationshipUpdate)
  | readRelationships (request : ReadRelationshipsRequest)
  | writeSchema (schema : String) (force : Bool)
  | readSchema

namespace Call

abbrev Outcome : Call → Type
  | .checkPermission _ => CheckPermissionResponse
  | .expandPermissionTree _ => ExpandPermissionTreeResponse
  | .lookupResources _ => List String
  | .lookupSubjects _ => List SubjectRef
  | .writeRelationships _ => WriteRelationshipsResponse
  | .readRelationships _ => List Tuple
  | .writeSchema _ _ => WriteSchemaResponse
  | .readSchema => Option String

/-- The call, for a client whose key belongs to `tenantId`. -/
def run (config : ServiceConfig) (tenantId : TenantId) :
    ∀ call : Call, ClientProgram call.Outcome
  | .checkPermission request => KraalzibarClient.checkPermission config tenantId request
  | .expandPermissionTree request =>
      KraalzibarClient.expandPermissionTree config tenantId request
  | .lookupResources request =>
      received (KraalzibarClient.lookupResources config tenantId request)
  | .lookupSubjects request => KraalzibarClient.lookupSubjects config tenantId request
  | .writeRelationships updates => KraalzibarClient.writeRelationships tenantId updates
  | .readRelationships request =>
      received (KraalzibarClient.readRelationships tenantId request)
  | .writeSchema schema force => KraalzibarClient.writeSchema config tenantId schema force
  | .readSchema => KraalzibarClient.readSchema tenantId

def consistency : Call → Consistency
  | .checkPermission request => request.consistency
  | .expandPermissionTree request => request.consistency
  | .lookupResources request => request.consistency
  | .lookupSubjects request => request.consistency
  | .readRelationships request => request.consistency
  | .writeRelationships _ | .writeSchema _ _ | .readSchema => .minimizeLatency

end Call

def touches (updates : List RelationshipUpdate) : List TupleWrite :=
  (updates.filter (·.operation = .touch)).map fun u =>
    { object := u.object, relation := u.relation, subject := u.subject }

/-- The filter of a delete matches whatever the subject's relation is. -/
def RelationshipUpdate.deleteFilter (u : RelationshipUpdate) : TupleFilter :=
  { objectType := some u.object.objectType, objectId := some u.object.objectId,
    relation := some u.relation, subjectType := some u.subject.subjectType,
    subjectId := some u.subject.subjectId, subjectRelation := none }

def deletes (updates : List RelationshipUpdate) : List TupleFilter :=
  (updates.filter (·.operation = .delete)).map (·.deleteFilter)

/-- The operation of the service that a call stands for.  A check and a lookup drop the
relation of the subject, a read drops that of the filter, and a limit is clamped. -/
def Call.operation : Call → Operation
  | .checkPermission request => .checkPermission
      { objectType := request.resource.objectType, objectId := request.resource.objectId,
        permission := request.permission, subjectType := request.subject.subjectType,
        subjectId := request.subject.subjectId, consistency := request.consistency }
  | .expandPermissionTree request => .expandPermissionTree
      { objectType := request.resource.objectType, objectId := request.resource.objectId,
        permission := request.permission, consistency := request.consistency }
  | .lookupResources request => .lookupResources
      { resourceType := request.resourceType, permission := request.permission,
        subjectType := request.subject.subjectType, subjectId := request.subject.subjectId,
        consistency := request.consistency,
        limit := PermissionService.lookupLimit (optionalLimit request.limit) }
  | .lookupSubjects request => .lookupSubjects
      { objectType := request.resource.objectType, objectId := request.resource.objectId,
        permission := request.permission, subjectType := request.subjectType,
        consistency := request.consistency }
  | .writeRelationships updates => .writeRelationships
      { writes := touches updates, deletes := deletes updates }
  | .readRelationships request => .readRelationships
      { request.filter with subjectRelation := none } request.consistency
      (some (handedLimit (optionalLimit request.limit)))
  | .writeSchema schema force => .writeSchema schema force
  | .readSchema => .readSchema

/-- What the caller receives when the operation succeeds.  A tenant without a schema is an
error, and an empty schema is none. -/
def Call.expected : ∀ call : Call, call.operation.Output → Except ClientError call.Outcome
  | .checkPermission _ => fun output => .ok ⟨output.allowed, output.snapshot⟩
  | .expandPermissionTree _ => fun output =>
      .ok ⟨output.snapshot, some (domainExpandTreeToProto output.tree)⟩
  | .lookupResources _ => fun output => .ok output.resourceIds
  | .lookupSubjects _ => fun output => .ok output.subjects
  | .writeRelationships _ => fun token => .ok ⟨some token⟩
  | .readRelationships _ => fun output => .ok output.tuples
  | .writeSchema _ _ => fun output => .ok ⟨none, output.breakingChangesOverridden⟩
  | .readSchema => fun schema =>
      match schema with
      | none => .error (.notFound (.text "no schema has been written"))
      | some text => .ok (if text.isEmpty then none else some text)

end KraalzibarClient

/-! ## Tokens -/

/-- A token is a `u64`. -/
def SnapshotToken.Fits (token : SnapshotToken) : Prop :=
  token < 2 ^ 64

/-- The token that a consistency mode names is a `u64`. -/
def Consistency.Fits : Consistency → Prop
  | .fullConsistency | .minimizeLatency => True
  | .atLeastAsFresh token | .atExactSnapshot token => SnapshotToken.Fits token

/-- The token that an operation returns to its caller. -/
def Operation.token : ∀ op : Operation, op.Output → Option SnapshotToken
  | .checkPermission _ => fun output => output.snapshot
  | .expandPermissionTree _ => fun output => output.snapshot
  | .writeRelationships _ => fun token => some token
  | .readRelationships _ _ _ => fun output => output.snapshot
  | .writeSchema _ _ => fun _ => none
  | .readSchema => fun _ => none
  | .lookupSubjects _ => fun output => output.snapshot
  | .lookupResources _ => fun output => output.snapshot

/-- **A token survives its text.** -/
theorem parseU64_toString_eq {token : SnapshotToken} (h : SnapshotToken.Fits token) :
    parseU64 (toString token) = some token := by
  have htext : (toString token).toList = Nat.toDigits 10 token := by
    rw [Nat.toString_eq_repr, Nat.toList_repr]
  have hdigits : ∀ c ∈ Nat.toDigits 10 token, c.isDigit := fun c hc =>
    Nat.isDigit_of_mem_toDigits (by decide) (by decide) hc
  have hplus : ∀ rest, Nat.toDigits 10 token ≠ '+' :: rest := by
    intro rest heq
    have hdigit := hdigits '+' (by rw [heq]; exact List.mem_cons_self)
    exact absurd hdigit (by decide)
  have hnonempty : ¬ ((Nat.toDigits 10 token).isEmpty ||
      !(Nat.toDigits 10 token).all Char.isDigit) = true := by
    rw [List.all_eq_true.mpr hdigits]
    simp
  have hbound : token < 2 ^ 64 := h
  rw [parseU64_digits htext hplus, if_neg hnonempty, Nat.ofDigitChars_ten_toDigits,
    if_pos hbound]

theorem zedToken_roundTrip {snapshot : Option SnapshotToken}
    (h : ∀ token, snapshot = some token → SnapshotToken.Fits token) :
    (snapshotToZedToken snapshot).bind KraalzibarClient.zedTokenToSnapshot = snapshot := by
  cases snapshot with
  | none => rfl
  | some token => exact parseU64_toString_eq (h token rfl)

/-- The server reads the consistency mode that the client wrote. -/
theorem consistency_roundTrip {consistency : Consistency} (h : consistency.Fits) :
    protoConsistencyToDomain (some (KraalzibarClient.consistencyToProto consistency)) =
      .ok consistency := by
  have htoken : ∀ {token : SnapshotToken}, SnapshotToken.Fits token →
      zedTokenToSnapshot ⟨toString token⟩ = .ok token := by
    intro token hfits
    rw [zedTokenToSnapshot, parseU64_toString_eq hfits]
    rfl
  cases consistency with
  | fullConsistency => rfl
  | minimizeLatency => rfl
  | atLeastAsFresh token =>
      show (zedTokenToSnapshot ⟨toString token⟩ >>= _) = _
      rw [htoken h]
      rfl
  | atExactSnapshot token =>
      show (zedTokenToSnapshot ⟨toString token⟩ >>= _) = _
      rw [htoken h]
      rfl

theorem protoSubjectToDomain_domainSubjectToProto (subject : SubjectRef) :
    protoSubjectToDomain (domainSubjectToProto subject) = subject := by
  obtain ⟨subjectType, subjectId, subjectRelation⟩ := subject
  cases subjectRelation <;> rfl

namespace KraalzibarClient

/-! ## What is left of a call -/

section

variable {config : ServiceConfig} {tenantId : TenantId}

/-- The server's loop collects the touches and the deletes, in order. -/
theorem updateLoop_toProto (updates : List RelationshipUpdate) (ws : List TupleWrite)
    (ds : List TupleFilter) :
    RelationshipService.updateLoop (updates.map (·.toProto)) ws ds =
      .ok ⟨ws ++ touches updates, ds ++ deletes updates⟩ := by
  induction updates generalizing ws ds with
  | nil => simp [RelationshipService.updateLoop, touches, deletes]
  | cons u updates ih =>
      obtain ⟨operation, object, relation, subject⟩ := u
      have hsubject := protoSubjectToDomain_domainSubjectToProto subject
      rw [List.map_cons, RelationshipService.updateLoop]
      cases operation with
      | touch =>
          have htouches : touches (⟨.touch, object, relation, subject⟩ :: updates) =
              ⟨object, relation, subject⟩ :: touches updates := by
            simp [touches]
          have hdeletes : deletes (⟨.touch, object, relation, subject⟩ :: updates) =
              deletes updates := by
            simp [deletes]
          rw [htouches, hdeletes, List.append_cons ws _ (touches updates), ← ih]
          show RelationshipService.updateLoop _ (ws ++ [⟨_, _,
            protoSubjectToDomain (domainSubjectToProto subject)⟩]) ds = _
          rw [hsubject]
          rfl
      | delete =>
          have htouches : touches (⟨.delete, object, relation, subject⟩ :: updates) =
              touches updates := by
            simp [touches]
          have hdeletes : deletes (⟨.delete, object, relation, subject⟩ :: updates) =
              RelationshipUpdate.deleteFilter ⟨.delete, object, relation, subject⟩ ::
                deletes updates := by
            simp [deletes]
          rw [htouches, hdeletes, List.append_cons ds _ (deletes updates), ← ih]
          rfl

/-- What a caller receives of the result of its operation. -/
def Call.answer (call : Call) (result : call.operation.Result) :
    Except ClientError call.Outcome :=
  result.mapError (fun err => .ofStatus (apiErrorToStatus err)) >>= call.expected

/-- A call is its operation, with the result decoded. -/
def Call.IsOperation (config : ServiceConfig) (tenantId : TenantId) (call : Call) : Prop :=
  ∃ f : call.operation.Result → Except ClientError call.Outcome,
    call.run config tenantId =
      Fallible.rendered f (call.operation.program config tenantId) ∧
    ∀ result : call.operation.Result,
      (∀ output token, result = .ok output → call.operation.token output = some token →
        SnapshotToken.Fits token) →
      f result = call.answer result

/-- The decoding of a response is that of the operation's result. -/
theorem Call.IsOperation.of_eq {call : Call} {β : Type}
    (g : call.operation.Output → Except Tonic.Status β) (k : β → call.Outcome)
    (hrun : call.run config tenantId =
      received (mapStatus (call.operation.program config tenantId) >>= fun a =>
        ofStatus (g a)) >>= fun response => pure (k response))
    (hg : ∀ output, (∀ token, call.operation.token output = some token →
      SnapshotToken.Fits token) →
        ((g output).mapError .ofStatus).map k = call.expected output) :
    call.IsOperation config tenantId := by
  refine ⟨fun result =>
    ((result.mapError apiErrorToStatus >>= g).mapError .ofStatus).map k, ?_, ?_⟩
  · have hhandler := Fallible.rendered_bind (·.mapError apiErrorToStatus)
      (call.operation.program config tenantId) g
    have hdecoded := Fallible.rendered_bind
      (fun result => (result.mapError apiErrorToStatus >>= g).mapError ClientError.ofStatus)
      (call.operation.program config tenantId) fun response => .ok (k response)
    refine hrun.trans (Eq.trans ?_ hdecoded)
    refine congrArg (· >>= fun response => pure (k response)) ?_
    exact (congrArg received hhandler).trans (Fallible.rendered_rendered _ _ _)
  · intro result hfits
    cases result with
    | error e => rfl
    | ok output => exact hg output fun token htoken => hfits output token rfl htoken

theorem checkPermission_isOperation {request : CheckPermissionRequest}
    (h : request.consistency.Fits) :
    (Call.checkPermission request).IsOperation config tenantId := by
  refine Call.IsOperation.of_eq
    (fun output => .ok (⟨snapshotToZedToken output.snapshot,
      (if output.allowed then V1.Permissionship.hasPermission else .noPermission).toI32⟩ :
        V1.CheckPermissionResponse))
    (fun response => ⟨response.permissionship = V1.Permissionship.hasPermission.toI32,
      response.checkedAt.bind zedTokenToSnapshot⟩) ?_ fun output hfits => ?_
  · refine congrArg (fun program => received program >>= _) ?_
    exact consistency_passed _ (consistency_roundTrip h)
  · obtain ⟨allowed, snapshot⟩ := output
    have hsnapshot := @zedToken_roundTrip snapshot hfits
    cases allowed
    all_goals exact congrArg (fun s => Except.ok (CheckPermissionResponse.mk _ s)) hsnapshot

theorem expandPermissionTree_isOperation {request : ExpandPermissionTreeRequest}
    (h : request.consistency.Fits) :
    (Call.expandPermissionTree request).IsOperation config tenantId := by
  refine Call.IsOperation.of_eq
    (fun output => .ok (⟨snapshotToZedToken output.snapshot,
      some (domainExpandTreeToProto output.tree)⟩ : V1.ExpandPermissionTreeResponse))
    (fun response => ⟨response.expandedAt.bind zedTokenToSnapshot, response.tree⟩) ?_
    fun output hfits => ?_
  · refine congrArg (fun program => received program >>= _) ?_
    exact consistency_passed _ (consistency_roundTrip h)
  · have hsnapshot := @zedToken_roundTrip (ExpandPermissionOutput.snapshot output) hfits
    exact congrArg (fun s => Except.ok (ExpandPermissionTreeResponse.mk s _)) hsnapshot

theorem lookupResources_isOperation {request : LookupResourcesRequest}
    (h : request.consistency.Fits) :
    (Call.lookupResources request).IsOperation config tenantId := by
  refine Call.IsOperation.of_eq
    (fun output => .ok (output.resourceIds.map fun resourceId =>
      (⟨snapshotToZedToken output.snapshot, resourceId⟩ : V1.LookupResourcesResponse)))
    (fun responses => responses.map (·.resourceId)) ?_ fun output _ => ?_
  · refine (Fallible.rendered_pure _ _ _).trans ?_
    refine congrArg (fun program => received program >>= _) ?_
    exact consistency_passed _ (consistency_roundTrip h)
  · refine congrArg Except.ok ?_
    exact List.map_map.trans (List.map_id _)

theorem lookupSubjects_isOperation {request : LookupSubjectsRequest}
    (h : request.consistency.Fits) :
    (Call.lookupSubjects request).IsOperation config tenantId := by
  refine Call.IsOperation.of_eq
    (fun output => .ok (output.subjects.map fun subject =>
      (⟨snapshotToZedToken output.snapshot, some (domainSubjectToProto subject)⟩ :
        V1.LookupSubjectsResponse)))
    (fun responses => responses.filterMap fun response =>
      response.subject.map protoSubjectToDomain) ?_ fun output _ => ?_
  · refine congrArg (fun program => received program >>= _) ?_
    exact consistency_passed _ (consistency_roundTrip h)
  · refine congrArg Except.ok (List.filterMap_map.trans ?_)
    refine (List.filterMap_congr fun subject _ => ?_).trans List.filterMap_some
    exact congrArg some (protoSubjectToDomain_domainSubjectToProto subject)

theorem writeRelationships_isOperation {updates : List RelationshipUpdate} :
    (Call.writeRelationships updates).IsOperation config tenantId := by
  refine Call.IsOperation.of_eq
    (fun token => .ok (⟨snapshotToZedToken (some token)⟩ : V1.WriteRelationshipsResponse))
    (fun response => ⟨response.writtenAt.bind zedTokenToSnapshot⟩) ?_ fun token hfits => ?_
  · refine congrArg (fun program => received program >>= _) ?_
    unfold RelationshipService.writeRelationships
    rw [updateLoop_toProto]
    rfl
  · have htoken := @zedToken_roundTrip (some token) hfits
    exact congrArg (fun s => Except.ok (WriteRelationshipsResponse.mk s)) htoken

theorem readRelationships_isOperation {request : ReadRelationshipsRequest}
    (h : request.consistency.Fits) :
    (Call.readRelationships request).IsOperation config tenantId := by
  refine Call.IsOperation.of_eq
    (fun output => .ok (⟨snapshotToZedToken output.snapshot,
      output.tuples.map domainTupleToProto⟩ : V1.ReadRelationshipsResponse))
    (fun response => response.relationships.filterMap relationshipOfProto) ?_
    fun output _ => ?_
  · refine (Fallible.rendered_pure _ _ _).trans ?_
    refine congrArg (fun program => received program >>= _) ?_
    refine (consistency_passed _ (consistency_roundTrip h)).trans ?_
    rw [readLimit_eq]
    rfl
  · refine congrArg Except.ok (List.filterMap_map.trans ?_)
    exact (List.filterMap_congr fun t _ => relationshipOfProto_domainTupleToProto t).trans
      List.filterMap_some

theorem writeSchema_isOperation {schema : String} {force : Bool} :
    (Call.writeSchema schema force).IsOperation config tenantId :=
  Call.IsOperation.of_eq
    (fun output => .ok (⟨none, output.breakingChangesOverridden⟩ : V1.WriteSchemaResponse))
    (fun response => ⟨response.writtenAt.bind zedTokenToSnapshot,
      response.breakingChangesOverridden⟩) rfl fun _ _ => rfl

theorem readSchema_isOperation : Call.readSchema.IsOperation config tenantId := by
  refine Call.IsOperation.of_eq
    (fun schema => (schema.map V1.ReadSchemaResponse.mk).elim
      (.error ⟨.notFound, .text "no schema has been written"⟩) .ok)
    (fun response => if response.schema.isEmpty then none else some response.schema) ?_
    fun schema _ => ?_
  · refine congrArg (fun program => received program >>= _) ?_
    refine congrArg (mapStatus _ >>= ·) (funext fun schema => ?_)
    cases schema <;> rfl
  · cases schema <;> rfl

end

/-- Alice's permission on the document `readme`, as of token 7. -/
def freshCheck : CheckPermissionRequest :=
  { resource := ⟨"document", "readme"⟩, permission := "view",
    subject := .direct "user" "alice", consistency := .atLeastAsFresh 7 }

end KraalzibarClient

end Kraalzibar
