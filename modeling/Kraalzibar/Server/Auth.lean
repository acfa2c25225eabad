import Kraalzibar.Foundations.Splitn
import Kraalzibar.Server.Grpc

/-!
# API keys and authentication

A request brings its key in the `authorization` header.  The key names its row of
`api_keys`, the row holds the hash its secret is checked against, and the tenant.  Both
front ends ask the same questions in the same order.

* `parseApiKey`, `generateApiKey` — the text of a key;
* `authenticate` — the check of a key against its row;
* `restAuthMiddleware`, `grpcAuthInterceptor` — what stands before the handlers;
* `parseApiKey_eq_ok`, `parseApiKey_generateApiKey` — which texts are keys;
* `authenticates_iff` — which requests reach a handler, and for which tenant.

The crate `argon2` is a parameter.
-/

namespace Kraalzibar

open Foundations

inductive AuthError where
  | missingHeader
  | invalidKeyFormat
  | unknownKey
  | revokedKey
  | internal (message : String)
deriving DecidableEq

structure ApiKeyRecord where
  keyId : String
  keyHash : String
  tenantId : TenantId
  revoked : Bool
deriving DecidableEq

structure TenantContext where
  tenantId : TenantId
  keyId : String

def parseApiKey (rawKey : String) : Except AuthError (String × String) :=
  match splitn 3 '_' rawKey.toList with
  | [first, keyId, secret] =>
      if String.ofList first ≠ "kraalzibar" then .error .invalidKeyFormat
      else if keyId.isEmpty || secret.isEmpty then .error .invalidKeyFormat
      else .ok (String.ofList keyId, String.ofList secret)
  | _ => .error .invalidKeyFormat

/-- The crate `argon2`, with the salt that `SaltString::generate` draws. -/
structure Argon2 where
  Salt : Type
  hashPassword : Salt → String → Except String String
  verifyPassword : String → String → Except String Bool

/-- A secret verifies against its own hash. -/
def Argon2.Verifies (argon2 : Argon2) : Prop :=
  ∀ salt secret hash, argon2.hashPassword salt secret = .ok hash →
    argon2.verifyPassword secret hash = .ok true

def hashSecret (argon2 : Argon2) (salt : argon2.Salt) (secret : String) :
    Except AuthError String :=
  (argon2.hashPassword salt secret).mapError .internal

def verifySecret (argon2 : Argon2) (secret hash : String) : Except AuthError Bool :=
  (argon2.verifyPassword secret hash).mapError .internal

/-- What `gen_range(0..36)` drew for the two parts of a key. -/
structure KeyDraws where
  keyId : Fin 16 → Fin 36
  secret : Fin 32 → Fin 36

def alphanumeric (idx : Fin 36) : Char :=
  if idx < 10 then Char.ofNat ('0'.toNat + idx) else Char.ofNat ('a'.toNat + idx - 10)

/-- `(0..n).map(|_| ..).collect()` -/
def drawn {n : Nat} (draws : Fin n → Fin 36) : String :=
  String.ofList ((List.ofFn draws).map alphanumeric)

/-- The key and its secret. -/
def generateApiKey (draws : KeyDraws) : String × String :=
  let keyId := drawn draws.keyId
  let secret := drawn draws.secret
  ("kraalzibar" ++ "_" ++ keyId ++ "_" ++ secret, secret)

def authenticate (argon2 : Argon2) (rawKey : String)
    (lookup : String → Option ApiKeyRecord) : Except AuthError TenantContext := do
  let (keyId, secret) ← parseApiKey rawKey
  match lookup keyId with
  | none => throw .unknownKey
  | some record =>
      if record.revoked then throw .revokedKey
      let valid ← verifySecret argon2 secret record.keyHash
      if !valid then throw .unknownKey
      return { tenantId := record.tenantId, keyId := record.keyId }

/-! ## Before the handlers -/

namespace Middleware

inductive StatusCode where
  | unauthorized
  | internalServerError
deriving DecidableEq

/-- `error_json(status, msg)` -/
structure ErrorJson where
  status : StatusCode
  error : String
deriving DecidableEq

section

variable {Call : Type} {Reply : Call → Type} {ε : Type}

/-- `repository` is how a key is looked up, `none` in dev mode. -/
structure AuthState (Call : Type) (Reply : Call → Type) where
  repository : Option (String → Client Call Reply (Except String (Option ApiKeyRecord)))
  devTenant : TenantId

def AuthState.devMode : AuthState Call Reply :=
  { repository := none, devTenant := ⟨0⟩ }

def AuthState.withRepository
    (lookupByKeyId : String → Client Call Reply (Except String (Option ApiKeyRecord))) :
    AuthState Call Reply :=
  { repository := some lookupByKeyId, devTenant := ⟨0⟩ }

def skipAuth (path : String) : Bool :=
  path = "/healthz" || path = "/metrics"

/-- `str::strip_prefix` -/
def stripPrefix (start text : String) : Option String :=
  if start.toList.isPrefixOf text.toList then
    some (String.ofList (text.toList.drop start.toList.length))
  else none

/-- The key in the header, with its id, or why there is none. -/
def bearerKey (authorization : Option String) : Except String (String × String) :=
  match authorization with
  | none => .error "missing authorization header"
  | some header =>
      match stripPrefix "Bearer " header with
      | none => .error "invalid authorization format"
      | some rawKey =>
          match parseApiKey rawKey with
          | .error _ => .error "invalid api key format"
          | .ok (keyId, _) => .ok (rawKey, keyId)

/-- `match auth::authenticate(raw_key, |_| lookup_result)` -/
def judgeKey (argon2 : Argon2) (rawKey : String) (found : Option ApiKeyRecord) :
    Except String TenantId :=
  match authenticate argon2 rawKey (fun _ => found) with
  | .ok ctx => .ok ctx.tenantId
  | .error .revokedKey => .error "api key has been revoked"
  | .error _ => .error "invalid api key"

/-- The answer once the key has been looked up. -/
def afterLookup (argon2 : Argon2) (unauthorized internal : String → ε) (rawKey : String)
    (lookupResult : Except String (Option ApiKeyRecord)) : Except ε TenantId :=
  match lookupResult with
  | .error _ => .error (internal "internal server error")
  | .ok found => (judgeKey argon2 rawKey found).mapError unauthorized

/-- What both front ends do with the header, up to how they answer. -/
def authenticateRequest (argon2 : Argon2) (unauthorized internal : String → ε)
    (lookupByKeyId : String → Client Call Reply (Except String (Option ApiKeyRecord)))
    (authorization : Option String) : Fallible ε Call Reply TenantId :=
  ExceptT.mk (match bearerKey authorization with
    | .error msg => pure (.error (unauthorized msg))
    | .ok (rawKey, keyId) => lookupByKeyId keyId >>= fun lookupResult =>
        pure (afterLookup argon2 unauthorized internal rawKey lookupResult))

/-- The tenant put into the extensions of a REST request, if one is. -/
def restAuthMiddleware (argon2 : Argon2) (authState : AuthState Call Reply) (path : String)
    (authorization : Option String) : Fallible ErrorJson Call Reply (Option TenantId) :=
  if skipAuth path then pure none
  else
    match authState.repository with
    | none => pure (some authState.devTenant)
    | some repo => some <$> authenticateRequest argon2
        (fun msg => { status := .unauthorized, error := msg })
        (fun msg => { status := .internalServerError, error := msg }) repo authorization

/-- The tenant put into the extensions of a gRPC request. -/
def grpcAuthInterceptor (argon2 : Argon2) (authState : AuthState Call Reply)
    (authorization : Option String) : Fallible Tonic.Status Call Reply TenantId :=
  match authState.repository with
  | none => pure authState.devTenant
  | some repo => authenticateRequest argon2
      (fun msg => { code := .unauthenticated, message := .text msg })
      (fun msg => { code := .internal, message := .text msg }) repo authorization

end

end Middleware

/-! ## The text of a key -/

/-- Of three parts, the first must be the prefix and the others not empty. -/
theorem parseApiKey_of_split {rawKey : String} {first keyId secret : List Char}
    (h : splitn 3 '_' rawKey.toList = [first, keyId, secret]) (result : String × String) :
    parseApiKey rawKey = .ok result ↔
      String.ofList first = "kraalzibar" ∧ keyId ≠ [] ∧ secret ≠ [] ∧
        result = (String.ofList keyId, String.ofList secret) := by
  simp only [parseApiKey, h]
  by_cases hfirst : String.ofList first = "kraalzibar"
  · by_cases hempty : keyId = [] ∨ secret = []
    · have hparts : (keyId.isEmpty || secret.isEmpty) = true := by
        rwa [Bool.or_eq_true, List.isEmpty_iff, List.isEmpty_iff]
      rw [if_neg (not_not.mpr hfirst), if_pos hparts]
      refine ⟨nofun, ?_⟩
      rintro ⟨-, hkeyId, hsecret, -⟩
      exact (hempty.elim hkeyId hsecret).elim
    · have hparts : ¬ (keyId.isEmpty || secret.isEmpty) = true := by
        rwa [Bool.or_eq_true, List.isEmpty_iff, List.isEmpty_iff]
      rw [if_neg (not_not.mpr hfirst), if_neg hparts]
      rw [not_or] at hempty
      refine ⟨fun heq => ⟨hfirst, hempty.1, hempty.2, (Except.ok.inj heq).symm⟩, ?_⟩
      rintro ⟨-, -, -, rfl⟩
      rfl
  · rw [if_pos hfirst]
    exact ⟨nofun, fun h => (hfirst h.1).elim⟩

/-- A text put together from three parts. -/
theorem toList_key (first keyId secret : String) :
    (first ++ "_" ++ keyId ++ "_" ++ secret).toList =
      first.toList ++ '_' :: (keyId.toList ++ '_' :: secret.toList) := by
  simp

/-- A key is the prefix, an id without an underscore and a secret, both not empty. -/
theorem parseApiKey_eq_ok {rawKey keyId secret : String} :
    parseApiKey rawKey = .ok (keyId, secret) ↔
      rawKey = "kraalzibar" ++ "_" ++ keyId ++ "_" ++ secret ∧ '_' ∉ keyId.toList ∧
        keyId ≠ "" ∧ secret ≠ "" := by
  constructor
  · intro h
    obtain ⟨-, hone⟩ | ⟨first, rest, -, htext, hfirst⟩ :=
      splitn_cases 1 '_' rawKey.toList
    · simp only [parseApiKey, hone] at h
      cases h
    · obtain ⟨-, htwo⟩ | ⟨keyChars, secretChars, hid, rfl, hthree⟩ :=
        splitn_cases 0 '_' rest
      · simp only [parseApiKey, hfirst, htwo] at h
        cases h
      · rw [hthree, splitn_one] at hfirst
        obtain ⟨hkz, hkeyId, hsecret, hparts⟩ := (parseApiKey_of_split hfirst _).mp h
        obtain ⟨rfl, rfl⟩ := Prod.mk.inj hparts
        rw [← hkz, ← String.toList_inj, toList_key, String.toList_ofList,
          String.toList_ofList, String.toList_ofList, ne_eq, ne_eq,
          ← String.toList_eq_nil_iff, ← String.toList_eq_nil_iff, String.toList_ofList,
          String.toList_ofList]
        exact ⟨htext, hid, hkeyId, hsecret⟩
  · rintro ⟨rfl, hid, hkeyId, hsecret⟩
    have hprefix : '_' ∉ "kraalzibar".toList := by simp
    have hsplit : splitn 3 '_' ("kraalzibar" ++ "_" ++ keyId ++ "_" ++ secret).toList =
        ["kraalzibar".toList, keyId.toList, secret.toList] := by
      rw [toList_key]
      exact (splitn_append 1 _ hprefix).trans
        (congrArg _ (splitn_append 0 secret.toList hid))
    rw [parseApiKey_of_split hsplit, String.ofList_toList, String.ofList_toList,
      String.ofList_toList]
    exact ⟨rfl, mt String.toList_eq_nil_iff.mp hkeyId, mt String.toList_eq_nil_iff.mp hsecret,
      rfl⟩

theorem alphanumeric_ne_underscore (idx : Fin 36) : alphanumeric idx ≠ '_' := by
  revert idx
  decide

theorem underscore_notMem_drawn {n : Nat} (draws : Fin n → Fin 36) :
    '_' ∉ (drawn draws).toList := by
  rw [drawn, String.toList_ofList, List.mem_map]
  rintro ⟨idx, -, hidx⟩
  exact alphanumeric_ne_underscore idx hidx

theorem drawn_ne_empty {n : Nat} (draws : Fin (n + 1) → Fin 36) : drawn draws ≠ "" := by
  rw [ne_eq, ← String.toList_eq_nil_iff, drawn, String.toList_ofList, List.map_eq_nil_iff,
    List.ofFn_eq_nil_iff]
  exact Nat.succ_ne_zero n

/-- **A generated key** parses to the id and the secret it was made of. -/
theorem parseApiKey_generateApiKey (draws : KeyDraws) :
    parseApiKey (generateApiKey draws).1 =
      .ok (drawn draws.keyId, (generateApiKey draws).2) :=
  parseApiKey_eq_ok.mpr ⟨rfl, underscore_notMem_drawn draws.keyId,
    drawn_ne_empty draws.keyId, drawn_ne_empty draws.secret⟩

/-! ## Who gets through -/

section

variable {argon2 : Argon2} {rawKey keyId secret : String}

/-- A key is checked against its row: the row is not revoked and the secret verifies. -/
theorem authenticate_eq_ok {lookup : String → Option ApiKeyRecord}
    (hparse : parseApiKey rawKey = .ok (keyId, secret)) {ctx : TenantContext} :
    authenticate argon2 rawKey lookup = .ok ctx ↔
      ∃ record, lookup keyId = some record ∧ record.revoked = false ∧
        argon2.verifyPassword secret record.keyHash = .ok true ∧
        ctx = { tenantId := record.tenantId, keyId := record.keyId } := by
  unfold authenticate verifySecret
  rw [hparse]
  cases hfound : lookup keyId with
  | none =>
      refine ⟨?_, ?_⟩
      · intro h
        simp only [bind, Except.bind, hfound] at h
        cases h
      · rintro ⟨record, hrecord, -⟩
        cases hrecord
  | some record =>
      obtain ⟨id, hash, tenantId, revoked⟩ := record
      simp only [bind, Except.bind, hfound, Option.some.injEq, exists_eq_left']
      cases revoked with
      | true => exact ⟨nofun, nofun⟩
      | false =>
          cases argon2.verifyPassword secret hash with
          | error e => exact ⟨nofun, nofun⟩
          | ok valid =>
              cases valid with
              | false => exact ⟨nofun, nofun⟩
              | true =>
                  refine ⟨fun h => ⟨rfl, rfl, (Except.ok.inj h).symm⟩, ?_⟩
                  rintro ⟨-, -, rfl⟩
                  rfl

/-- A revoked key is refused as such, whatever the secret. -/
theorem authenticate_revoked {lookup : String → Option ApiKeyRecord}
    (hparse : parseApiKey rawKey = .ok (keyId, secret)) {record : ApiKeyRecord}
    (hfound : lookup keyId = some record) (hrevoked : record.revoked = true) :
    authenticate argon2 rawKey lookup = .error .revokedKey := by
  unfold authenticate
  simp only [hparse, bind, Except.bind, hfound, hrevoked]
  rfl

end

namespace Middleware

theorem stripPrefix_eq_some {start text rest : String} :
    stripPrefix start text = some rest ↔ text = start ++ rest := by
  unfold stripPrefix
  rw [← String.toList_inj, String.toList_append]
  constructor
  · intro h
    split at h
    · next hstart =>
        obtain ⟨chars, hchars⟩ := List.isPrefixOf_iff_prefix.mp hstart
        rw [← Option.some.inj h, ← hchars, String.toList_ofList, List.drop_left]
    · cases h
  · intro h
    rw [h, if_pos (List.isPrefixOf_iff_prefix.mpr (List.prefix_append _ _)), List.drop_left,
      String.ofList_toList]

theorem bearerKey_eq_ok {authorization : Option String} {rawKey keyId : String} :
    bearerKey authorization = .ok (rawKey, keyId) ↔
      authorization = some ("Bearer " ++ rawKey) ∧
        ∃ secret, parseApiKey rawKey = .ok (keyId, secret) := by
  constructor
  · intro h
    unfold bearerKey at h
    split at h
    · cases h
    · next header =>
        split at h
        · cases h
        · next key hstrip =>
            split at h
            · cases h
            · next secret hparse =>
                cases h
                exact ⟨congrArg some (stripPrefix_eq_some.mp hstrip), secret, hparse⟩
  · rintro ⟨rfl, secret, hparse⟩
    simp only [bearerKey, stripPrefix_eq_some.mpr rfl, hparse]

variable {argon2 : Argon2}

theorem judgeKey_eq_ok {rawKey : String} {found : Option ApiKeyRecord} {tenantId : TenantId} :
    judgeKey argon2 rawKey found = .ok tenantId ↔
      ∃ ctx, authenticate argon2 rawKey (fun _ => found) = .ok ctx ∧
        ctx.tenantId = tenantId := by
  unfold judgeKey
  cases authenticate argon2 rawKey fun _ => found with
  | ok ctx => simp
  | error e => cases e <;> simp

section

variable {ε : Type} {unauthorized internal : String → ε} {rawKey keyId secret : String}
variable {lookupResult : Except String (Option ApiKeyRecord)} {tenantId : TenantId}

theorem afterLookup_eq_ok (hparse : parseApiKey rawKey = .ok (keyId, secret)) :
    afterLookup argon2 unauthorized internal rawKey lookupResult = .ok tenantId ↔
      ∃ record, lookupResult = .ok (some record) ∧ record.revoked = false ∧
        argon2.verifyPassword secret record.keyHash = .ok true ∧
        record.tenantId = tenantId := by
  unfold afterLookup
  cases lookupResult with
  | error e => simp
  | ok found =>
      rw [mapError_eq_ok, judgeKey_eq_ok]
      constructor
      · rintro ⟨ctx, hctx, rfl⟩
        obtain ⟨record, rfl, hrevoked, hverify, rfl⟩ := (authenticate_eq_ok hparse).mp hctx
        exact ⟨record, rfl, hrevoked, hverify, rfl⟩
      · rintro ⟨record, hrecord, hrevoked, hverify, rfl⟩
        cases hrecord
        exact ⟨_, (authenticate_eq_ok hparse).mpr ⟨record, rfl, hrevoked, hverify, rfl⟩, rfl⟩

theorem afterLookup_revoked (hparse : parseApiKey rawKey = .ok (keyId, secret))
    {record : ApiKeyRecord} (hrevoked : record.revoked = true) :
    afterLookup argon2 unauthorized internal rawKey (.ok (some record)) =
      .error (unauthorized "api key has been revoked") := by
  have hauth : authenticate argon2 rawKey (fun _ => some record) = .error .revokedKey :=
    authenticate_revoked hparse rfl hrevoked
  simp only [afterLookup, judgeKey, hauth]
  rfl

section

variable {Call : Type} {Reply : Call → Type} {authorization : Option String}

/-- A request without a key is refused at once. -/
theorem authenticateRequest_error {msg : String}
    (lookupByKeyId : String → Client Call Reply (Except String (Option ApiKeyRecord)))
    (h : bearerKey authorization = .error msg) :
    (authenticateRequest argon2 unauthorized internal lookupByKeyId authorization).run =
      .done (.error (unauthorized msg)) := by
  unfold authenticateRequest
  rw [h]
  rfl

/-- A request with a key makes one lookup. -/
theorem authenticateRequest_ok
    (lookupByKeyId : String → Client Call Reply (Except String (Option ApiKeyRecord)))
    (h : bearerKey authorization = .ok (rawKey, keyId)) :
    (authenticateRequest argon2 unauthorized internal lookupByKeyId authorization).run =
      lookupByKeyId keyId >>= fun lookupResult =>
        pure (afterLookup argon2 unauthorized internal rawKey lookupResult) := by
  unfold authenticateRequest
  rw [h]
  rfl

end

theorem afterLookup_mapError {ε' : Type} (f : ε → ε') :
    afterLookup argon2 (f ∘ unauthorized) (f ∘ internal) rawKey lookupResult =
      (afterLookup argon2 unauthorized internal rawKey lookupResult).mapError f := by
  cases lookupResult with
  | error e => rfl
  | ok found =>
      show (judgeKey argon2 rawKey found).mapError (f ∘ unauthorized) =
        ((judgeKey argon2 rawKey found).mapError unauthorized).mapError f
      cases judgeKey argon2 rawKey found <;> rfl

variable (argon2 unauthorized internal) in
/-- How the other front end would have answered. -/
theorem authenticateRequest_mapError {ε' Call : Type} {Reply : Call → Type} (f : ε → ε')
    (lookupByKeyId : String → Client Call Reply (Except String (Option ApiKeyRecord)))
    (authorization : Option String) :
    (authenticateRequest argon2 (f ∘ unauthorized) (f ∘ internal) lookupByKeyId
        authorization).run =
      (authenticateRequest argon2 unauthorized internal lookupByKeyId
        authorization).run >>= fun result => pure (result.mapError f) := by
  unfold authenticateRequest
  cases bearerKey authorization with
  | error msg => rfl
  | ok parts =>
      refine Eq.trans ?_ (bind_assoc (m := Client Call Reply) _ _ _).symm
      refine congrArg (lookupByKeyId parts.2 >>= ·) (funext fun lookupResult => ?_)
      rw [pure_bind]
      exact congrArg pure (afterLookup_mapError f)

end

/-- The status a gRPC client gets where a REST client gets the error. -/
def ErrorJson.toStatus (e : ErrorJson) : Tonic.Status :=
  { code := match e.status with
      | .unauthorized => .unauthenticated
      | .internalServerError => .internal
    message := .text e.error }

section

variable {Call : Type} {Reply : Call → Type}

/-- **Both front ends ask alike**: up to the form of the error they are one program. -/
theorem grpcAuthInterceptor_eq (authState : AuthState Call Reply) {path : String}
    (hpath : skipAuth path = false) (authorization : Option String) :
    ((grpcAuthInterceptor argon2 authState authorization).run >>= fun result =>
        pure (result.map some)) =
      (restAuthMiddleware argon2 authState path authorization).run >>= fun result =>
        pure (result.mapError ErrorJson.toStatus) := by
  have hskip : ¬ skipAuth path = true := by
    rw [hpath]
    exact Bool.false_ne_true
  obtain ⟨repository, devTenant⟩ := authState
  unfold grpcAuthInterceptor restAuthMiddleware
  rw [if_neg hskip]
  cases repository with
  | none => rfl
  | some repo =>
      rw [ExceptT.run_map, map_eq_pure_bind]
      have hmap := authenticateRequest_mapError argon2
        (fun msg => { status := .unauthorized, error := msg })
        (fun msg => { status := .internalServerError, error := msg })
        ErrorJson.toStatus repo authorization
      refine (congrArg (fun x => x >>= fun result => pure (result.map some)) hmap).trans ?_
      rw [bind_assoc, bind_assoc]
      refine congrArg (_ >>= ·) (funext fun result => ?_)
      rw [pure_bind, pure_bind]
      cases result <;> rfl

/-- The request is for this tenant: it brings a key whose row is the tenant's and not
revoked, and the secret of the key verifies against the hash in the row. -/
def Authorizes (argon2 : Argon2) (lookup : String → Except String (Option ApiKeyRecord))
    (authorization : Option String) (tenantId : TenantId) : Prop :=
  ∃ keyId secret record,
    authorization = some ("Bearer " ++ ("kraalzibar" ++ "_" ++ keyId ++ "_" ++ secret)) ∧
      '_' ∉ keyId.toList ∧ keyId ≠ "" ∧ secret ≠ "" ∧ lookup keyId = .ok (some record) ∧
      record.revoked = false ∧ argon2.verifyPassword secret record.keyHash = .ok true ∧
      record.tenantId = tenantId

theorem authenticateRequest_eq_ok {ε : Type} {unauthorized internal : String → ε}
    {lookupByKeyId : String → Client Call Reply (Except String (Option ApiKeyRecord))}
    {answer : ∀ c, Reply c} {authorization : Option String} {tenantId : TenantId} :
    (authenticateRequest argon2 unauthorized internal lookupByKeyId
        authorization).run.runWith answer = .ok tenantId ↔
      Authorizes argon2 (fun keyId => (lookupByKeyId keyId).runWith answer) authorization
        tenantId := by
  constructor
  · intro h
    cases hkey : bearerKey authorization with
    | error msg =>
        rw [authenticateRequest_error lookupByKeyId hkey] at h
        cases h
    | ok parts =>
        obtain ⟨rawKey, keyId⟩ := parts
        rw [authenticateRequest_ok lookupByKeyId hkey, Client.runWith_bind] at h
        obtain ⟨hheader, secret, hparse⟩ := bearerKey_eq_ok.mp hkey
        obtain ⟨record, hlookup, hrow⟩ := (afterLookup_eq_ok hparse).mp h
        obtain ⟨rfl, hid, hkeyId, hsecret⟩ := parseApiKey_eq_ok.mp hparse
        exact ⟨keyId, secret, record, hheader, hid, hkeyId, hsecret, hlookup, hrow⟩
  · rintro ⟨keyId, secret, record, hheader, hid, hkeyId, hsecret, hlookup, hrow⟩
    have hparse := parseApiKey_eq_ok.mpr ⟨rfl, hid, hkeyId, hsecret⟩
    have hkey := bearerKey_eq_ok.mpr ⟨hheader, secret, hparse⟩
    rw [authenticateRequest_ok lookupByKeyId hkey, Client.runWith_bind]
    exact (afterLookup_eq_ok hparse).mpr ⟨record, hlookup, hrow⟩

/-- **Who gets through.**  Outside the open paths a request reaches its handler over
either front end exactly when it is authorized, and then for the tenant of its key. -/
theorem authenticates_iff (argon2 : Argon2)
    (lookupByKeyId : String → Client Call Reply (Except String (Option ApiKeyRecord)))
    (answer : ∀ c, Reply c) {path : String} (hpath : skipAuth path = false)
    (authorization : Option String) (tenantId : TenantId) :
    ((restAuthMiddleware argon2 (.withRepository lookupByKeyId) path
          authorization).run.runWith answer = .ok (some tenantId) ↔
        Authorizes argon2 (fun keyId => (lookupByKeyId keyId).runWith answer) authorization
          tenantId) ∧
      ((grpcAuthInterceptor argon2 (.withRepository lookupByKeyId)
          authorization).run.runWith answer = .ok tenantId ↔
        Authorizes argon2 (fun keyId => (lookupByKeyId keyId).runWith answer) authorization
          tenantId) := by
  have hskip : ¬ skipAuth path = true := by
    rw [hpath]
    exact Bool.false_ne_true
  refine ⟨?_, authenticateRequest_eq_ok⟩
  have hrest : restAuthMiddleware argon2 (.withRepository lookupByKeyId) path
      authorization = some <$> authenticateRequest argon2
        (fun msg => { status := .unauthorized, error := msg })
        (fun msg => { status := .internalServerError, error := msg }) lookupByKeyId
        authorization := if_neg hskip
  rw [hrest, ExceptT.run_map, map_eq_pure_bind, Client.runWith_bind]
  have hsome : ∀ r : Except ErrorJson TenantId,
      r.map some = .ok (some tenantId) ↔ r = .ok tenantId := by
    intro r
    cases r <;> simp [Except.map]
  exact (hsome _).trans authenticateRequest_eq_ok

/-- A hasher that keeps the secret: it verifies exactly its own hashes. -/
def plainArgon2 : Argon2 where
  Salt := Unit
  hashPassword := fun _ secret => .ok secret
  verifyPassword := fun secret hash => .ok (decide (secret = hash))

theorem plainArgon2_verifies : plainArgon2.Verifies := by
  intro salt secret hash h
  cases h
  exact congrArg Except.ok (decide_eq_true rfl)

def acmeRecord : ApiKeyRecord :=
  { keyId := "k1", keyHash := "s3cret", tenantId := ⟨1⟩, revoked := false }

theorem authenticates_iff_acme :
    ((restAuthMiddleware plainArgon2 (.withRepository Client.request) "/v1/permissions/check"
          (some "Bearer kraalzibar_k1_s3cret")).run.runWith (fun _ => .ok (some acmeRecord)) =
            .ok (some ⟨1⟩) ↔
        Authorizes plainArgon2 (fun _ => .ok (some acmeRecord))
          (some "Bearer kraalzibar_k1_s3cret") ⟨1⟩) ∧
      ((grpcAuthInterceptor plainArgon2 (.withRepository Client.request)
          (some "Bearer kraalzibar_k1_s3cret")).run.runWith
            (fun _ => .ok (some acmeRecord)) = .ok ⟨1⟩ ↔
        Authorizes plainArgon2 (fun _ => .ok (some acmeRecord))
          (some "Bearer kraalzibar_k1_s3cret") ⟨1⟩) :=
  authenticates_iff plainArgon2 Client.request (fun _ => .ok (some acmeRecord)) (by decide)
    _ _

end

end Middleware

end Kraalzibar
