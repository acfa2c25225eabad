import Kraalzibar.Core.Usersets
import Kraalzibar.Server.Grpc
import Kraalzibar.Server.LookupSubjects
import Kraalzibar.Server.Transparency

/-!
# A check over gRPC

The subject of a `CheckPermission` request is a `SubjectReference`, which may carry a
relation.  The handler passes its type and its id on, and the service's input, the key of
the check cache and the engine's context have no more fields than these.  So a request
about the members of a group is answered for the group itself.

* `handler_returns` — the handler is a function of its tenant's store;
* `handler_answers_direct` — for a permission that names a relation it answers for the
  direct subject;
* `grpc_check_exact_iff` — when that is the answer for the subject it was given;
* `userset_subject_confused` — when it is not, either way.
-/

namespace Kraalzibar

open Foundations

namespace PermissionService

/-- The handler's response, computed on the stores of a service. -/
def checkResult (config : ServiceConfig) (stores : TenantId → InnerState)
    (request : Request V1.CheckPermissionRequest) :
    Except Tonic.Status V1.CheckPermissionResponse := do
  let tenantId ← extractTenantId request
  let req := request.message
  let resource ← okOr req.resource (.invalidArgument "resource is required")
  let subject ← okOr req.subject (.invalidArgument "subject is required")
  let consistency ← protoConsistencyToDomain req.consistency
  let result ← (Operation.checkResult config (stores tenantId)
    { objectType := resource.objectType, objectId := resource.objectId,
      permission := req.permission, subjectType := subject.subjectType,
      subjectId := subject.subjectId, consistency }).mapError apiErrorToStatus
  let permissionship : V1.Permissionship :=
    if result.allowed then .hasPermission else .noPermission
  return { checkedAt := snapshotToZedToken result.snapshot,
           permissionship := permissionship.toI32 }

/-- **The handler is that function**, whatever is cached. -/
theorem handler_returns {config : ServiceConfig} {caching : Bool}
    {stores : TenantId → InnerState} (request : Request V1.CheckPermissionRequest) :
    Fallible.Returns ServiceState.Evicts (ServiceState.handle caching)
      (ServiceState.Coherent config stores) (checkPermission config request)
      (checkResult config stores request) := by
  have hstable : Client.Stable ServiceState.Evicts (ServiceState.Coherent config stores) :=
    ServiceState.stable_coherent
  refine Fallible.Returns.bind hstable (.ofExcept hstable) fun tenantId _ => ?_
  refine Fallible.Returns.bind hstable (.ofExcept hstable) fun resource _ => ?_
  refine Fallible.Returns.bind hstable (.ofExcept hstable) fun subject _ => ?_
  refine Fallible.Returns.bind hstable (.ofExcept hstable) fun consistency _ => ?_
  refine Fallible.Returns.bind hstable
    (Fallible.Triple.mapError hstable (cacheFree_checkPermission _)) fun result _ => ?_
  exact .pure hstable

end PermissionService

/-- The request asks a tenant's store, at the token it reaches, about a permission whose
rule names the relation `r`, which no permission shadows. -/
structure AsksRelation (stores : TenantId → InnerState)
    (request : Request V1.CheckPermissionRequest) (tenantId : TenantId)
    (resource : V1.ObjectReference) (subject : V1.SubjectReference) (token : Nat)
    (r : String) : Prop where
  tenantId_eq : request.tenantId = some tenantId
  resource_eq : request.message.resource = some resource
  subject_eq : request.message.subject = some subject
  reaches : ∃ consistency snapshot,
    protoConsistencyToDomain request.message.consistency = .ok consistency ∧
    (stores tenantId).answers (AuthzService.resolveSnapshot consistency) = .ok snapshot ∧
    InMemoryStore.resolve (stores tenantId) snapshot = .ok token
  names : ∃ schema td pd rd, (stores tenantId).loadSchema = .ok schema ∧
    schema.getType resource.objectType = some td ∧
    td.getPermission request.message.permission = some pd ∧ pd.rule = .this r ∧
    td.getPermission r = none ∧ td.getRelation r = some rd

/-- **The handler answers for the direct subject** with the type and the id of the
subject it was given. -/
theorem handler_answers_direct {config : ServiceConfig} {stores : TenantId → InnerState}
    {request : Request V1.CheckPermissionRequest} {tenantId : TenantId}
    {resource : V1.ObjectReference} {subject : V1.SubjectReference} {token : Nat}
    {r : String} (h : AsksRelation stores request tenantId resource subject token r) :
    ∃ response, PermissionService.checkResult config stores request = .ok response ∧
      (response.permissionship = V1.Permissionship.hasPermission.toI32 ↔
        LeafHolds ((stores tenantId).visible token)
          (.direct subject.subjectType subject.subjectId)
          (protoObjectToDomain resource) r) := by
  obtain ⟨consistency, snapshot, hconsistency, hsnapshot, hresolve⟩ := h.reaches
  obtain ⟨schema, td, pd, rd, hschema, htype, hperm, hrule, hunshadowed, hrel⟩ := h.names
  obtain ⟨allowed, hcheck, hleaf⟩ := @check_this_of_get schema
    ((stores tenantId).visible token) config.engineConfig
    (StoreTupleReader.over (InMemoryStore.store.query (stores tenantId)))
    ⟨resource.objectType, resource.objectId, request.message.permission,
      subject.subjectType, subject.subjectId, snapshot⟩ r td pd rd
    (serves_memory hresolve) htype hperm hrule hunshadowed hrel
  have hevaluate : (stores tenantId).answers (CachedService.evaluate config schema
      ⟨resource.objectType, resource.objectId, request.message.permission,
        subject.subjectType, subject.subjectId, consistency⟩ snapshot) = .ok ⟨allowed⟩ := by
    rw [InnerState.answers, CachedService.evaluate, StoreTupleReader.eval_run, hcheck]
    rfl
  have hresult : Operation.checkResult config (stores tenantId)
      ⟨resource.objectType, resource.objectId, request.message.permission,
        subject.subjectType, subject.subjectId, consistency⟩ = .ok ⟨allowed, snapshot⟩ := by
    rw [Operation.checkResult, hsnapshot, ok_bind, hschema, ok_bind, hevaluate]
    rfl
  refine ⟨⟨snapshotToZedToken snapshot,
    (if allowed then V1.Permissionship.hasPermission else .noPermission).toI32⟩, ?_, ?_⟩
  · simp only [PermissionService.checkResult, extractTenantId, h.tenantId_eq, okOr, ok_bind,
      h.resource_eq, h.subject_eq, hconsistency, hresult]
    rfl
  · have hpermissionship : ∀ b : Bool,
        (if b then V1.Permissionship.hasPermission else .noPermission).toI32 =
          V1.Permissionship.hasPermission.toI32 ↔ b = true := by
      decide
    exact (hpermissionship allowed).trans hleaf

/-- **When a check is about the subject it was given.**  After any session of a service
started over any stores, the response is "has permission" exactly for the subject
references stored on the relation, directly or in one of its usersets, if and only if the
stored tuples do not tell the given reference from the direct subject. -/
theorem grpc_check_exact_iff (config : ServiceConfig) (stores : TenantId → InnerState)
    (done : List Completed) (s s' : ServiceState)
    (hsession : Session config true ⟨stores, .empty, .empty⟩ done s)
    (request : Request V1.CheckPermissionRequest) (tenantId : TenantId)
    (resource : V1.ObjectReference) (subject : V1.SubjectReference) (token : Nat)
    (r : String) (hasks : AsksRelation s.stores request tenantId resource subject token r)
    (result : Except Tonic.Status V1.CheckPermissionResponse)
    (hrun : Client.Exec ServiceState.Evicts (ServiceState.handle true) s
      (PermissionService.checkPermission config request).run s' result) :
    ∃ response, result = .ok response ∧
      ((response.permissionship = V1.Permissionship.hasPermission.toI32 ↔
          LeafHolds ((s.stores tenantId).visible token) (protoSubjectToDomain subject)
            (protoObjectToDomain resource) r) ↔
        (LeafHolds ((s.stores tenantId).visible token) (protoSubjectToDomain subject)
            (protoObjectToDomain resource) r ↔
          LeafHolds ((s.stores tenantId).visible token)
            (.direct subject.subjectType subject.subjectId)
            (protoObjectToDomain resource) r)) := by
  have hstart : ServiceState.Coherent config stores ⟨stores, .empty, .empty⟩ :=
    ⟨rfl, Cache.coherent_empty, Cache.coherent_empty⟩
  have hcoherent : s.Coherent config s.stores := by
    have hs := (hsession.eq_serve hstart).2
    rwa [← hs.stores_eq] at hs
  obtain ⟨hresult, -⟩ :=
    PermissionService.handler_returns request s s' result hcoherent hrun
  obtain ⟨response, hresponse, hdirect⟩ :=
    @handler_answers_direct config _ _ _ _ _ _ _ hasks
  refine ⟨response, hresult.trans hresponse, ?_⟩
  rw [hdirect]
  constructor
  · exact Iff.symm
  · exact Iff.symm

/-! ### A group and its members -/

def groupsView : String :=
  "definition group \x7b relation member: group \x7d
  definition document \x7b
    relation viewer: group | group#member permission view = viewer \x7d"

def groupsViewSchema : Schema where
  types :=
    [{ name := "group", relations := [⟨"member", [⟨"group", none⟩]⟩], permissions := [] },
     { name := "document"
       relations := [⟨"viewer", [⟨"group", none⟩, ⟨"group", some "member"⟩]⟩]
       permissions := [⟨"view", .this "viewer"⟩] }]

/-- The document's viewer: the members of the group, or the group. -/
def sharedWith (members : Bool) : SubjectRef :=
  if members then .userset "group" "eng" "member" else .direct "group" "eng"

def documentShared (members : Bool) : List (TenantId × Operation) :=
  [(acme, .writeSchema groupsView false),
    (acme, .writeRelationships
      ⟨[⟨⟨"document", "readme"⟩, "viewer", sharedWith members⟩], []⟩)]

def groupService (members : Bool) : ServiceState :=
  (runSession {} true .new (documentShared members)).2

/-- May `group:eng`, with this relation, view the document? -/
def viewRequest (relation : Option String) : Request V1.CheckPermissionRequest :=
  ⟨some acme, ⟨some ⟨some (.fullConsistency true)⟩, some ⟨"document", "readme"⟩, "view",
    some ⟨"group", "eng", relation⟩⟩⟩

def viewAnswer (members : Bool) (relation : Option String) :
    Except Tonic.Status V1.CheckPermissionResponse :=
  (Client.exec (ServiceState.handle true)
    (PermissionService.checkPermission {} (viewRequest relation)).run
    (groupService members)).1

theorem groupService_store (members : Bool) :
    ((groupService members).stores acme).currentTx = 1 ∧
    ((groupService members).stores acme).loadSchema = .ok groupsViewSchema ∧
    ((groupService members).stores acme).visible 1 =
      [⟨⟨"document", "readme"⟩, "viewer", sharedWith members⟩] := by
  cases members <;> decide +kernel

theorem asks_viewer (members : Bool) (relation : Option String) :
    AsksRelation (groupService members).stores (viewRequest relation) acme
      ⟨"document", "readme"⟩ ⟨"group", "eng", relation⟩ 1 "viewer" := by
  obtain ⟨hcurrent, hschema, -⟩ := groupService_store members
  refine ⟨rfl, rfl, rfl, ⟨.fullConsistency, some 1, rfl, ?_, ?_⟩,
    groupsViewSchema, _, _, _, hschema, rfl, rfl, rfl, rfl, rfl⟩
  · show (Except.ok (some ((groupService members).stores acme).currentTx)) = _
    rw [hcurrent]
  · exact InMemoryStore.resolve_some hcurrent.ge

/-- Asked about a direct subject, the response is the right one. -/
theorem grpc_check_exact_group :
    ∃ response, viewAnswer false none = .ok response ∧
      (response.permissionship = V1.Permissionship.hasPermission.toI32 ↔
        LeafHolds (((groupService false).stores acme).visible 1) (.direct "group" "eng")
          ⟨"document", "readme"⟩ "viewer") := by
  obtain ⟨response, hresponse, hexact⟩ := grpc_check_exact_iff {}
    (fun _ => InMemoryStore.new) _ (groupService false) _
    (session_runSession true _ (documentShared false))
    (viewRequest none) acme ⟨"document", "readme"⟩ ⟨"group", "eng", none⟩ 1 "viewer"
    (asks_viewer false none) _ (Client.exec_spec _ _)
  exact ⟨response, hresponse, hexact.mpr Iff.rfl⟩

/-- **A group is taken for its members**, and they for it.  The members are stored as
viewers and are denied; the group is stored, and its members are granted. -/
theorem userset_subject_confused :
    (∀ members, AsksRelation (groupService members).stores
      (viewRequest (some "member")) acme ⟨"document", "readme"⟩ ⟨"group", "eng", some "member"⟩ 1 "viewer") ∧
    LeafHolds (((groupService true).stores acme).visible 1)
      (.userset "group" "eng" "member") ⟨"document", "readme"⟩ "viewer" ∧
    viewAnswer true (some "member") =
      .ok ⟨some ⟨"1"⟩, V1.Permissionship.noPermission.toI32⟩ ∧
    ¬ LeafHolds (((groupService false).stores acme).visible 1)
      (.userset "group" "eng" "member") ⟨"document", "readme"⟩ "viewer" ∧
    viewAnswer false (some "member") =
      .ok ⟨some ⟨"1"⟩, V1.Permissionship.hasPermission.toI32⟩ := by
  have hdenied : viewAnswer true (some "member") =
      .ok ⟨some ⟨"1"⟩, V1.Permissionship.noPermission.toI32⟩ := by
    decide +kernel
  have hgranted : viewAnswer false (some "member") =
      .ok ⟨some ⟨"1"⟩, V1.Permissionship.hasPermission.toI32⟩ := by
    decide +kernel
  refine ⟨fun members => asks_viewer members _, ?_, hdenied, ?_, hgranted⟩
  · rw [(groupService_store true).2.2]
    exact Or.inl (.head _)
  · rw [(groupService_store false).2.2]
    simp [LeafHolds, sharedWith, SubjectRef.direct, SubjectRef.userset]

end Kraalzibar
