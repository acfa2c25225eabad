import Kraalzibar.Server.GrpcReads
import Kraalzibar.Server.LookupResources

/-!
# The limit of a read, from the client to the store

The Rust client takes an optional 64-bit limit and puts `unwrap_or(0) as u32` into the
request; the server reads a zero as no limit, and clamps every other number.  So a limit
of zero, and one whose low 32 bits are zero, becomes the default, and a limit of 2^32
or more loses what is above its low 32 bits.

* `KraalzibarClient.readRelationships`, `lookupResources` — the client's calls, down to
  the store;
* `LimitSurvives` — the limit that is handed to the store is the one asked for, and what
  this means for the results;
* `limitSurvives_iff` — exactly which limits survive;
* `limit_lost` — some that do not.
-/

namespace Kraalzibar

open Foundations

namespace KraalzibarClient

structure ReadRelationshipsRequest where
  filter : TupleFilter
  consistency : Consistency
  limit : Option UInt64

structure LookupResourcesRequest where
  resourceType : String
  permission : String
  subject : SubjectRef
  consistency : Consistency
  limit : Option UInt64

def domainFilterToProto (filter : TupleFilter) : V1.RelationshipFilter :=
  { objectType := filter.objectType, objectId := filter.objectId,
    relation := filter.relation, subjectType := filter.subjectType,
    subjectId := filter.subjectId }

def consistencyToProto : Consistency → V1.Consistency
  | .fullConsistency => ⟨some (.fullConsistency true)⟩
  | .minimizeLatency => ⟨some (.minimizeLatency true)⟩
  | .atLeastAsFresh token => ⟨some (.atLeastAsFresh ⟨toString token⟩)⟩
  | .atExactSnapshot token => ⟨some (.atExactSnapshot ⟨toString token⟩)⟩

/-- `request.limit.unwrap_or(0) as u32` -/
def optionalLimit (limit : Option UInt64) : UInt32 :=
  (limit.getD 0).toUInt32

/-- A relationship of a response, unless its object or its subject is absent.  The
client's `Relationship` has the fields of a tuple. -/
def relationshipOfProto (rel : V1.Relationship) : Option Tuple := do
  let object ← rel.object.map protoObjectToDomain
  let subject ← rel.subject.map protoSubjectToDomain
  return { object, relation := rel.relation, subject }

def ReadRelationshipsRequest.toProto (request : ReadRelationshipsRequest) :
    V1.ReadRelationshipsRequest :=
  { consistency := some (consistencyToProto request.consistency)
    filter := some (domainFilterToProto request.filter)
    optionalLimit := optionalLimit request.limit }

/-- `read_relationships`, with the server's handler in place of the connection. -/
def readRelationships (tenantId : TenantId) (request : ReadRelationshipsRequest) :
    GrpcProgram (List Tuple) := do
  let response ← RelationshipService.readRelationships ⟨some tenantId, request.toProto⟩
  return response.relationships.filterMap relationshipOfProto

def LookupResourcesRequest.toProto (request : LookupResourcesRequest) :
    V1.LookupResourcesRequest :=
  { consistency := some (consistencyToProto request.consistency)
    resourceType := request.resourceType
    permission := request.permission
    subject := some (domainSubjectToProto request.subject)
    optionalLimit := optionalLimit request.limit }

/-- `lookup_resources`, likewise. -/
def lookupResources (config : ServiceConfig) (tenantId : TenantId)
    (request : LookupResourcesRequest) : GrpcProgram (List String) := do
  let responses ← PermissionService.lookupResources config ⟨some tenantId, request.toProto⟩
  return responses.map (·.resourceId)

end KraalzibarClient

/-! ## What a limit promises -/

/-- The snapshot that a consistency mode reads an in-memory store at. -/
def Consistency.snapshot (store : InnerState) : Consistency → Option SnapshotToken
  | .fullConsistency => some store.currentTx
  | .minimizeLatency => none
  | .atLeastAsFresh token => some token
  | .atExactSnapshot token => some token

/-- The relationships a read asks for, without its limit. -/
def KraalzibarClient.ReadRelationshipsRequest.existing
    (request : KraalzibarClient.ReadRelationshipsRequest) (store : InnerState) :
    List Tuple :=
  (store.visible ((request.consistency.snapshot store).getD store.currentTx)).filter
    fun t => request.filter.matches t

/-- The check of `id` that a lookup makes, under the stored schema, allows. -/
def KraalzibarClient.LookupResourcesRequest.Grants
    (request : KraalzibarClient.LookupResourcesRequest) (config : ServiceConfig)
    (store : InnerState) (id : String) : Prop :=
  ∃ schema, store.loadSchema = .ok schema ∧
    Fallible.eval (StoreTupleReader.over (InMemoryStore.store.query store))
      (CheckEngine.check ⟨schema, config.engineConfig⟩
        { objectType := request.resourceType, objectId := id,
          permission := request.permission, subjectType := request.subject.subjectType,
          subjectId := request.subject.subjectId,
          snapshot := request.consistency.snapshot store }) = .ok ⟨true⟩

/-- A caller asking for at most `n` results receives no more, and one asking for at most
10000 receives them all whenever that many exist. -/
def Delivers {α : Type} (limit : Option UInt64) (received : List α) (exist : Nat → Prop) :
    Prop :=
  ∀ n, limit = some n → received.length ≤ n.toNat ∧
    (n.toNat ≤ 10000 → exist n.toNat → received.length = n.toNat)

/-- The limit a caller asks for. -/
def requestedLimit : Option UInt64 → Nat
  | some n => min n.toNat 10000
  | none => 1000

/-- **The limit survives the trip.**  The store and the lookup loop are handed the limit
that was asked for, and every call that succeeds, whatever is cached, delivers it. -/
structure LimitSurvives (limit : Option UInt64) : Prop where
  store : RelationshipService.readLimit (KraalzibarClient.optionalLimit limit) =
    some (requestedLimit limit)
  loop : (PermissionService.lookupLimit (KraalzibarClient.optionalLimit limit)).getD 1000 =
    requestedLimit limit
  read : ∀ (config : ServiceConfig) (s s' : ServiceState) (tenantId : TenantId)
      (request : KraalzibarClient.ReadRelationshipsRequest) (received : List Tuple),
    s.Coherent config s.stores → request.limit = limit →
    Client.Exec ServiceState.Evicts (ServiceState.handle true) s
      (KraalzibarClient.readRelationships tenantId request).run s' (.ok received) →
    Delivers limit received fun n => n ≤ (request.existing (s.stores tenantId)).length
  lookup : ∀ (config : ServiceConfig) (s s' : ServiceState) (tenantId : TenantId)
      (request : KraalzibarClient.LookupResourcesRequest) (received : List String),
    s.Coherent config s.stores → request.limit = limit →
    Client.Exec ServiceState.Evicts (ServiceState.handle true) s
      (KraalzibarClient.lookupResources config tenantId request).run s' (.ok received) →
    Delivers limit received fun n => ∃ ids : List String, ids.Nodup ∧ n ≤ ids.length ∧
      ∀ id ∈ ids, request.Grants config (s.stores tenantId) id

/-- The limit is absent, or it keeps its low 32 bits without becoming zero or falling
below the clamp. -/
def Kept (limit : Option UInt64) : Prop :=
  ∀ n, limit = some n →
    n.toNat % 2 ^ 32 ≠ 0 ∧ (n.toNat < 2 ^ 32 ∨ 10000 ≤ n.toNat % 2 ^ 32)

/-! ## The number -/

/-- What either handler makes of a `uint32`. -/
def handedLimit (optionalLimit : UInt32) : Nat :=
  if optionalLimit.toNat = 0 then 1000 else min optionalLimit.toNat 10000

theorem pos_iff_toNat (u : UInt32) : u > 0 ↔ u.toNat ≠ 0 := by
  rw [gt_iff_lt, UInt32.lt_iff_toNat_lt, UInt32.toNat_zero, Nat.pos_iff_ne_zero]

theorem readLimit_eq (u : UInt32) : RelationshipService.readLimit u = some (handedLimit u) := by
  unfold RelationshipService.readLimit handedLimit
  by_cases hzero : u.toNat = 0
  · rw [if_neg (mt (pos_iff_toNat u).mp (not_not.mpr hzero)), if_pos hzero]
  · rw [if_pos ((pos_iff_toNat u).mpr hzero), if_neg hzero]

theorem lookupLimit_eq (u : UInt32) :
    (PermissionService.lookupLimit u).getD 1000 = handedLimit u := by
  unfold PermissionService.lookupLimit handedLimit
  by_cases hzero : u.toNat = 0
  · rw [if_neg (mt (pos_iff_toNat u).mp (not_not.mpr hzero)), if_pos hzero]
    rfl
  · rw [if_pos ((pos_iff_toNat u).mpr hzero), if_neg hzero]
    rfl

/-- The number on the wire is the limit's low 32 bits. -/
theorem toNat_optionalLimit (n : UInt64) :
    (KraalzibarClient.optionalLimit (some n)).toNat = n.toNat % 2 ^ 32 :=
  UInt64.toNat_toUInt32 n

/-- **The limit that is handed over** is the one asked for exactly if it is kept. -/
theorem handedLimit_eq_iff (limit : Option UInt64) :
    handedLimit (KraalzibarClient.optionalLimit limit) = requestedLimit limit ↔
      Kept limit := by
  cases limit with
  | none =>
      have hdefault : handedLimit (KraalzibarClient.optionalLimit none) = 1000 := rfl
      exact iff_of_true hdefault nofun
  | some n =>
      have hkept : Kept (some n) ↔
          n.toNat % 2 ^ 32 ≠ 0 ∧ (n.toNat < 2 ^ 32 ∨ 10000 ≤ n.toNat % 2 ^ 32) := by
        simp [Kept]
      rw [hkept, handedLimit, toNat_optionalLimit, requestedLimit]
      by_cases hzero : n.toNat % 2 ^ 32 = 0
      · rw [if_pos hzero]
        omega
      · rw [if_neg hzero]
        omega

/-! ## The request on the server's side -/

/-- A text without a plus sign is read as its digits. -/
theorem parseU64_digits {text : String} {chars : List Char} (htext : text.toList = chars)
    (hplus : ∀ rest, chars ≠ '+' :: rest) :
    parseU64 text =
      if chars.isEmpty || !chars.all Char.isDigit then none
      else if Nat.ofDigitChars 10 chars 0 < 2 ^ 64 then some (Nat.ofDigitChars 10 chars 0)
      else none := by
  rw [Nat.ofDigitChars_eq_foldl]
  unfold parseU64
  rw [htext]
  split
  · exact absurd rfl (hplus _)
  · rfl

/-- A token is read back from its text. -/
theorem parseU64_toString {token value : Nat} (h : parseU64 (toString token) = some value) :
    value = token := by
  have htext : (toString token).toList = Nat.toDigits 10 token := by
    rw [Nat.toString_eq_repr, Nat.toList_repr]
  have hplus : ∀ rest, Nat.toDigits 10 token ≠ '+' :: rest := by
    intro rest heq
    have hdigit := Nat.isDigit_of_mem_toDigits (b := 10) (n := token) (c := '+')
      (by decide) (by decide) (by rw [heq]; exact List.mem_cons_self)
    exact absurd hdigit (by decide)
  rw [parseU64_digits htext hplus, Nat.ofDigitChars_ten_toDigits] at h
  split at h
  · cases h
  · split at h
    · exact (Option.some.inj h).symm
    · cases h

/-- The server reads the consistency mode the client wrote. -/
theorem consistency_of_proto {consistency consistency' : Consistency}
    (h : protoConsistencyToDomain
      (some (KraalzibarClient.consistencyToProto consistency)) = .ok consistency') :
    consistency' = consistency := by
  have htoken : ∀ {token snapshot : Nat},
      zedTokenToSnapshot ⟨toString token⟩ = .ok snapshot → snapshot = token := by
    intro token snapshot hparse
    exact parseU64_toString (okOr_eq_ok.mp hparse)
  cases consistency with
  | fullConsistency => exact (Except.ok.inj h).symm
  | minimizeLatency => exact (Except.ok.inj h).symm
  | atLeastAsFresh token =>
      obtain ⟨snapshot, hparse, h⟩ := bind_eq_ok.mp h
      rw [htoken hparse] at h
      exact (Except.ok.inj h).symm
  | atExactSnapshot token =>
      obtain ⟨snapshot, hparse, h⟩ := bind_eq_ok.mp h
      rw [htoken hparse] at h
      exact (Except.ok.inj h).symm

theorem answers_resolveSnapshot (store : InnerState) (consistency : Consistency) :
    store.answers (AuthzService.resolveSnapshot consistency) =
      .ok (consistency.snapshot store) := by
  cases consistency <;> rfl

theorem relationshipOfProto_domainTupleToProto (t : Tuple) :
    KraalzibarClient.relationshipOfProto (domainTupleToProto t) = some t := by
  obtain ⟨⟨ot, oi⟩, rel, ⟨st, si, sr⟩⟩ := t
  cases sr <;> rfl

/-- The filter the server reads matches at least what the caller's does: the subject
relation does not travel. -/
theorem matches_of_proto {filter : TupleFilter} {t : Tuple} (h : filter.matches t = true) :
    (protoFilterToDomain (KraalzibarClient.domainFilterToProto filter)).matches t = true := by
  rw [TupleFilter.matches_iff] at h ⊢
  obtain ⟨hot, hoi, hrel, hst, hsi, -⟩ := h
  exact ⟨hot, hoi, hrel, hst, hsi, nofun⟩

/-! ## What the caller receives -/

section

variable {config : ServiceConfig} {s s' : ServiceState} {tenantId : TenantId}

/-- Every token a consistency mode names is the one the store is read at. -/
theorem resolve_snapshot {store : InnerState} {consistency : Consistency} {token : Nat}
    (h : InMemoryStore.resolve store (consistency.snapshot store) = .ok token) :
    token = (consistency.snapshot store).getD store.currentTx := by
  cases hsnapshot : consistency.snapshot store with
  | none =>
      rw [hsnapshot] at h
      exact (Except.ok.inj h).symm
  | some t =>
      rw [hsnapshot, InMemoryStore.resolve] at h
      split at h
      · cases h
      · exact (Except.ok.inj h).symm

/-- What a read of the service returns when it succeeds. -/
theorem readRelationships_result_ok {store : InnerState} {filter : TupleFilter}
    {consistency : Consistency} {limit : Nat} {output : ReadRelationshipsOutput}
    (h : (Operation.readRelationships filter consistency (some limit)).result config store =
      .ok output) :
    output.tuples = ((store.visible ((consistency.snapshot store).getD store.currentTx)).filter
      fun t => filter.matches t).take limit := by
  obtain ⟨snapshot, hsnapshot, h⟩ := bind_eq_ok.mp h
  rw [answers_resolveSnapshot] at hsnapshot
  obtain rfl := Except.ok.inj hsnapshot
  obtain ⟨tuples, htuples, h⟩ := bind_eq_ok.mp h
  obtain rfl := Except.ok.inj h
  have hread : (InMemoryStore.read store filter (consistency.snapshot store)
      (some limit)).mapError ApiError.storage = .ok tuples := htuples
  rw [mapError_eq_ok, InMemoryStore.read_eq] at hread
  cases hresolve : InMemoryStore.resolve store (consistency.snapshot store) with
  | error e =>
      rw [hresolve] at hread
      cases hread
  | ok token =>
      rw [hresolve, resolve_snapshot hresolve] at hread
      exact (Except.ok.inj hread).symm

/-- **A read receives** the first relationships that the transported filter matches. -/
theorem readRelationships_received {request : KraalzibarClient.ReadRelationshipsRequest}
    {received : List Tuple} (hs : s.Coherent config s.stores)
    (hrun : Client.Exec ServiceState.Evicts (ServiceState.handle true) s
      (KraalzibarClient.readRelationships tenantId request).run s' (.ok received)) :
    received = (((s.stores tenantId).visible
      ((request.consistency.snapshot (s.stores tenantId)).getD
        (s.stores tenantId).currentTx)).filter fun t =>
          (protoFilterToDomain (KraalzibarClient.domainFilterToProto
            request.filter)).matches t).take
        (handedLimit (KraalzibarClient.optionalLimit request.limit)) := by
  have hreturns := Fallible.Returns.bind ServiceState.stable_coherent
    (@readRelationships_returns config true s.stores ⟨some tenantId, request.toProto⟩)
    fun response _ => @Fallible.Returns.pure _ _ _ _ _ _ _ _
      (response.relationships.filterMap KraalzibarClient.relationshipOfProto)
      ServiceState.stable_coherent
  obtain ⟨hresult, -⟩ := hreturns s s' _ hs hrun
  obtain ⟨response, hresponse, hreceived⟩ := bind_eq_ok.mp hresult.symm
  obtain ⟨tenant, htenant, hresponse⟩ := bind_eq_ok.mp hresponse
  obtain rfl : tenantId = tenant := Except.ok.inj htenant
  obtain ⟨consistency, hconsistency, hresponse⟩ := bind_eq_ok.mp hresponse
  obtain rfl := consistency_of_proto hconsistency
  obtain ⟨output, houtput, hresponse⟩ := bind_eq_ok.mp hresponse
  obtain rfl := Except.ok.inj hresponse
  rw [mapError_eq_ok, readLimit_eq] at houtput
  have htuples : received = output.tuples := by
    rw [← Except.ok.inj hreceived, List.filterMap_map]
    exact (List.filterMap_congr fun t _ => relationshipOfProto_domainTupleToProto t).trans
      (List.filterMap_some)
  rw [htuples, readRelationships_result_ok houtput]
  rfl

/-- The input the server makes of the caller's request. -/
def KraalzibarClient.LookupResourcesRequest.input
    (request : KraalzibarClient.LookupResourcesRequest) : LookupResourcesInput :=
  PermissionService.lookupInput request.toProto (domainSubjectToProto request.subject)
    request.consistency

/-- **A lookup receives** the first of the stored ids whose check allows. -/
theorem lookupResources_received {request : KraalzibarClient.LookupResourcesRequest}
    {received : List String} (hs : s.Coherent config s.stores)
    (hrun : Client.Exec ServiceState.Evicts (ServiceState.handle true) s
      (KraalzibarClient.lookupResources config tenantId request).run s' (.ok received)) :
    ∃ schema token, (s.stores tenantId).loadSchema = .ok schema ∧
      InMemoryStore.resolve (s.stores tenantId)
        (request.consistency.snapshot (s.stores tenantId)) = .ok token ∧
      received = (((s.stores tenantId).objectIds request.resourceType token).filter fun id =>
        allows (Fallible.eval (StoreTupleReader.over (InMemoryStore.store.query
          (s.stores tenantId))) (CheckEngine.check ⟨schema, config.engineConfig⟩
            (request.input.request (request.consistency.snapshot (s.stores tenantId)) id)))).take
        (handedLimit (KraalzibarClient.optionalLimit request.limit)) := by
  have hreturns := Fallible.Returns.bind ServiceState.stable_coherent
    (@lookupResources_returns config true s.stores ⟨some tenantId, request.toProto⟩)
    fun responses _ => @Fallible.Returns.pure _ _ _ _ _ _ _ _
      (responses.map (·.resourceId)) ServiceState.stable_coherent
  obtain ⟨hresult, -⟩ := hreturns s s' _ hs hrun
  obtain ⟨responses, hresponse, hreceived⟩ := bind_eq_ok.mp hresult.symm
  obtain ⟨tenant, htenant, hresponse⟩ := bind_eq_ok.mp hresponse
  obtain rfl : tenantId = tenant := Except.ok.inj htenant
  obtain ⟨subject, hsubject, hresponse⟩ := bind_eq_ok.mp hresponse
  obtain rfl : domainSubjectToProto request.subject = subject := Except.ok.inj hsubject
  obtain ⟨consistency, hconsistency, hresponse⟩ := bind_eq_ok.mp hresponse
  obtain rfl := consistency_of_proto hconsistency
  obtain ⟨output, houtput, hresponse⟩ := bind_eq_ok.mp hresponse
  obtain rfl := Except.ok.inj hresponse
  rw [mapError_eq_ok] at houtput
  obtain ⟨snapshot, hsnapshot, houtput⟩ := bind_eq_ok.mp houtput
  obtain rfl := Except.ok.inj ((answers_resolveSnapshot ..).symm.trans hsnapshot)
  obtain ⟨objectIds, hids, houtput⟩ := bind_eq_ok.mp houtput
  obtain ⟨schema, hschema, houtput⟩ := bind_eq_ok.mp houtput
  obtain ⟨resourceIds, hloop, houtput⟩ := bind_eq_ok.mp houtput
  obtain rfl := Except.ok.inj houtput
  have hreceived : received = resourceIds := by
    rw [← Except.ok.inj hreceived, List.map_map]
    exact List.map_id _
  cases hresolve : InMemoryStore.resolve (s.stores tenantId)
      (request.consistency.snapshot (s.stores tenantId)) with
  | error e =>
      have hlist : Except.error (ApiError.storage e) = Except.ok objectIds := by
        rw [← hids, InnerState.answers, eval_storeListObjectIds]
        show _ = (InMemoryStore.listObjectIds _ _ (Consistency.snapshot _ _) _).mapError _
        rw [InMemoryStore.listObjectIds_eq]
        show _ = ((InMemoryStore.resolve _ (request.consistency.snapshot _)).map _).mapError _
        rw [hresolve]
        rfl
      cases hlist
  | ok token =>
      refine ⟨schema, token, hschema, rfl, ?_⟩
      have hlist := Except.ok.inj ((eval_listObjectIds hresolve _).symm.trans hids)
      have hcollected := lookupLoop_ok hloop
      rw [hreceived, hcollected, ← hlist, List.nil_append, List.length_nil, Nat.sub_zero,
        ← lookupLimit_eq]
      rfl

/-- A kept limit is the number that is handed over, clamped. -/
theorem delivers_take {α : Type} {limit : Option UInt64} (hkept : Kept limit) {results : List α}
    {exist : Nat → Prop} (hexist : ∀ n, exist n → n ≤ results.length) :
    Delivers limit (results.take (handedLimit (KraalzibarClient.optionalLimit limit))) exist := by
  rintro n rfl
  rw [(handedLimit_eq_iff _).mpr hkept, requestedLimit, List.length_take]
  refine ⟨by omega, ?_⟩
  intro hsmall hmany
  have hlength := hexist _ hmany
  omega

theorem read_delivers {request : KraalzibarClient.ReadRelationshipsRequest}
    {received : List Tuple} (hkept : Kept request.limit) (hs : s.Coherent config s.stores)
    (hrun : Client.Exec ServiceState.Evicts (ServiceState.handle true) s
      (KraalzibarClient.readRelationships tenantId request).run s' (.ok received)) :
    Delivers request.limit received
      fun n => n ≤ (request.existing (s.stores tenantId)).length := by
  rw [readRelationships_received hs hrun]
  refine delivers_take hkept fun n hmany => hmany.trans ?_
  rw [KraalzibarClient.ReadRelationshipsRequest.existing, ← List.countP_eq_length_filter,
    ← List.countP_eq_length_filter]
  exact List.countP_mono_left fun t _ => matches_of_proto

theorem lookup_delivers {request : KraalzibarClient.LookupResourcesRequest}
    {received : List String} (hkept : Kept request.limit) (hs : s.Coherent config s.stores)
    (hrun : Client.Exec ServiceState.Evicts (ServiceState.handle true) s
      (KraalzibarClient.lookupResources config tenantId request).run s' (.ok received)) :
    Delivers request.limit received fun n => ∃ ids : List String, ids.Nodup ∧
      n ≤ ids.length ∧ ∀ id ∈ ids, request.Grants config (s.stores tenantId) id := by
  obtain ⟨schema, token, hschema, hresolve, rfl⟩ := lookupResources_received hs hrun
  refine delivers_take hkept ?_
  rintro n ⟨ids, hnodup, hmany, hgrants⟩
  refine hmany.trans (List.Subperm.length_le (List.subperm_of_subset hnodup ?_))
  intro id hid
  obtain ⟨schema', hschema', hcheck⟩ := hgrants id hid
  obtain rfl := Except.ok.inj (hschema.symm.trans hschema')
  obtain ⟨text, hparse⟩ : ∃ text, parseSchema text = .ok schema := by
    unfold InnerState.loadSchema CachedService.parseText at hschema
    split at hschema
    · cases hschema
    · exact ⟨_, mapError_eq_ok.mp hschema⟩
  rw [List.mem_filter, allows_iff]
  exact ⟨@mem_objectIds_of_allowed schema config.engineConfig _ request.input _ _ _
    (parseSchema_populated hparse) hresolve hcheck, hcheck⟩

end

/-- **Which limits survive**: no limit, and a limit whose low 32 bits are not all zero
and either are the whole of it or are at least 10000. -/
theorem limitSurvives_iff (limit : Option UInt64) : LimitSurvives limit ↔ Kept limit := by
  constructor
  · intro h
    have hstore := h.store
    rw [readLimit_eq, Option.some_inj] at hstore
    exact (handedLimit_eq_iff limit).mp hstore
  · intro hkept
    have hhanded := (handedLimit_eq_iff limit).mpr hkept
    refine ⟨?_, ?_, ?_, ?_⟩
    · rw [readLimit_eq, hhanded]
    · rw [lookupLimit_eq, hhanded]
    · rintro config s s' tenantId request received hs rfl hrun
      exact read_delivers hkept hs hrun
    · rintro config s s' tenantId request received hs rfl hrun
      exact lookup_delivers hkept hs hrun

/-! ### Limits that are lost -/

/-- All viewers, up to a limit. -/
def viewers (limit : Option UInt64) : KraalzibarClient.ReadRelationshipsRequest :=
  { filter := { relation := some "viewer" }, consistency := .fullConsistency, limit }

/-- What a client receives from a service with one stored viewer. -/
def viewersReceived (limit : Option UInt64) :
    Except Tonic.Status (List Tuple) × ServiceState :=
  Client.exec (ServiceState.handle true)
    (KraalzibarClient.readRelationships acme (viewers limit)).run
    (runSession {} true .new (shareReadme acme)).2

/-- **Lost limits.**  Zero becomes the default, so a caller asking for nothing receives
the stored viewer; 2^32 + 5 becomes 5, for a read and for a lookup. -/
theorem limit_lost :
    RelationshipService.readLimit (KraalzibarClient.optionalLimit (some 0)) = some 1000 ∧
    (viewersReceived (some 0)).1 =
      .ok [⟨⟨"document", "readme"⟩, "viewer", .direct "user" "alice"⟩] ∧
    RelationshipService.readLimit (KraalzibarClient.optionalLimit (some 4294967301)) =
      some 5 ∧
    (PermissionService.lookupLimit
      (KraalzibarClient.optionalLimit (some 4294967301))).getD 1000 = 5 ∧
    requestedLimit (some 4294967301) = 10000 ∧
    ¬ LimitSurvives (some 0) ∧ ¬ LimitSurvives (some 4294967301) := by
  refine ⟨by decide, by decide +kernel, by decide, by decide, by decide, ?_, ?_⟩
  · intro h
    exact absurd h.store (by decide)
  · intro h
    exact absurd h.store (by decide)

end Kraalzibar
