import Kraalzibar.Foundations.Growth
import Kraalzibar.Server.Auth
import Kraalzibar.Storage.BackendAgreement
import Kraalzibar.Storage.Postgres.Statements

/-!
# Tenants on one database

A deployment keeps its tenants and their keys in two shared tables, and the data of each
tenant in a schema of its own.  Administrators provision tenants, create keys and purge;
meanwhile requests authenticate and work on the schema of their tenant.

* `Deployment` — the tables, with their constraints, and the schemas;
* `Deployment.handle` — one statement, as an atomic step;
* `provisionTenant`, `runCreateApiKey`, `runPurgeRelationships` — the commands;
* `restRequest`, `grpcRequest` — a request, from its header to its handler;
* `deployment` — commands and requests, interleaved; keys are revoked from outside, and
  the database may be out of reach for a while.

A handler is any program of calls on the store of one tenant.
-/

namespace Kraalzibar

open Foundations Middleware Postgres

/-! ## The database -/

/-- A row of `tenants`. -/
structure TenantRow where
  id : TenantId
  name : String
  pgSchema : String
deriving DecidableEq

/-- A row of `api_keys`; `revoked` is `revoked_at IS NOT NULL`. -/
structure ApiKeyRow where
  tenantId : TenantId
  keyId : String
  keyHash : String
  revoked : Bool
deriving DecidableEq

def ApiKeyRow.record (row : ApiKeyRow) : ApiKeyRecord :=
  { keyId := row.keyId, keyHash := row.keyHash, tenantId := row.tenantId,
    revoked := row.revoked }

/-- What `create_tenant_schema` creates.  The last of the definitions is the latest. -/
structure SchemaTables where
  database : Database
  definitions : List String

/-- The rows, with the constraints of their tables. -/
structure Deployment where
  tenants : List TenantRow
  apiKeys : List ApiKeyRow
  schemas : String → Option SchemaTables
  available : Bool
  ids : (tenants.map (·.id)).Nodup
  names : (tenants.map (·.name)).Nodup
  pgSchemas : (tenants.map (·.pgSchema)).Nodup
  keyIds : (apiKeys.map (·.keyId)).Nodup

/-- After the shared migrations. -/
def Deployment.new : Deployment :=
  { tenants := [], apiKeys := [], schemas := fun _ => none, available := true,
    ids := List.nodup_nil, names := List.nodup_nil, pgSchemas := List.nodup_nil,
    keyIds := List.nodup_nil }

/-- What a handler may ask the store of its tenant. -/
inductive TableCall where
  | store (call : StoreCall)
  | writeSchema (definition : String)
  | readSchema

abbrev TableCall.Reply : TableCall → Type
  | .store call => call.Reply
  | .writeSchema _ => Except StorageError Unit
  | .readSchema => Except StorageError (Option String)

inductive SchemaCall where
  | table (call : TableCall)
  | countActiveRelationships
  | deleteRelationTuples
  | restartSequence

abbrev SchemaCall.Reply : SchemaCall → Type
  | .table call => call.Reply
  | .countActiveRelationships => Except StorageError Nat
  | .deleteRelationTuples => Except StorageError Nat
  | .restartSequence => Except StorageError Unit

inductive DeploymentCall where
  | insertTenant (row : TenantRow)
  | createSchema (schemaName : String)
  | selectTenantId (name : String)
  | selectTenantSchema (name : String)
  | insertApiKey (tenantId : TenantId) (keyId keyHash : String)
  | lookupByKeyId (keyId : String)
  | inSchema (schemaName : String) (call : SchemaCall)

/-- A statement that fails gives the text of its error. -/
abbrev DeploymentCall.Reply : DeploymentCall → Type
  | .insertTenant _ => Except String Unit
  | .createSchema _ => Except String Unit
  | .selectTenantId _ => Except String (Option TenantId)
  | .selectTenantSchema _ => Except String (Option String)
  | .insertApiKey .. => Except String Unit
  | .lookupByKeyId _ => Except String (Option ApiKeyRecord)
  | .inSchema _ call => call.Reply

/-- The reply of a statement that fails. -/
def SchemaCall.failed (message : String) : ∀ call : SchemaCall, call.Reply
  | .table (.store (.write _)) => .error (.internal message)
  | .table (.store (.query _)) => .error (.internal message)
  | .table (.writeSchema _) => .error (.internal message)
  | .table .readSchema => .error (.internal message)
  | .countActiveRelationships => .error (.internal message)
  | .deleteRelationTuples => .error (.internal message)
  | .restartSequence => .error (.internal message)

def DeploymentCall.failed (message : String) : ∀ call : DeploymentCall, call.Reply
  | .insertTenant _ => .error message
  | .createSchema _ => .error message
  | .selectTenantId _ => .error message
  | .selectTenantSchema _ => .error message
  | .insertApiKey .. => .error message
  | .lookupByKeyId _ => .error message
  | .inSchema _ call => call.failed message

/-- One statement on the tables of a tenant. -/
def SchemaTables.perform (server : Server) (tables : SchemaTables) :
    ∀ call : SchemaCall, call.Reply × SchemaTables
  | .table (.store call) =>
      let result := (PostgresStore.store server).perform tables.database call
      (result.1, { tables with database := result.2 })
  | .table (.writeSchema definition) =>
      (.ok (), { tables with definitions := tables.definitions ++ [definition] })
  | .table .readSchema => (.ok tables.definitions.getLast?, tables)
  | .countActiveRelationships =>
      (.ok (tables.database.rows.countP (·.deletedTxId = ACTIVE_TX_ID)), tables)
  | .deleteRelationTuples =>
      (.ok tables.database.rows.length,
        { tables with database := { tables.database with rows := [] } })
  | .restartSequence =>
      (.ok (), { tables with database := { tables.database with seq := {} } })

theorem nodup_map_concat {α β : Type} {f : α → β} {l : List α} {a : α}
    (h : (l.map f).Nodup) (ha : f a ∉ l.map f) : ((l ++ [a]).map f).Nodup := by
  rw [List.map_append]
  exact List.nodup_append.mpr ⟨h, List.nodup_singleton _, by simpa using ha⟩

namespace Deployment

/-- `INSERT INTO tenants .. ON CONFLICT DO NOTHING` -/
def insertTenant (s : Deployment) (row : TenantRow) : Deployment :=
  if h : row.id ∉ s.tenants.map (·.id) ∧ row.name ∉ s.tenants.map (·.name) ∧
      row.pgSchema ∉ s.tenants.map (·.pgSchema) then
    { s with
      tenants := s.tenants ++ [row],
      ids := nodup_map_concat s.ids h.1,
      names := nodup_map_concat s.names h.2.1,
      pgSchemas := nodup_map_concat s.pgSchemas h.2.2 }
  else s

/-- `INSERT INTO api_keys ..`, against the constraints of the table. -/
def insertApiKey (s : Deployment) (tenantId : TenantId) (keyId keyHash : String) :
    Except String Unit × Deployment :=
  if h : keyId ∈ s.apiKeys.map (·.keyId) then
    (.error "duplicate key value violates unique constraint \"api_keys_key_id_key\"", s)
  else if tenantId ∈ s.tenants.map (·.id) then
    let row : ApiKeyRow := { tenantId, keyId, keyHash, revoked := false }
    (.ok (), { s with apiKeys := s.apiKeys ++ [row], keyIds := nodup_map_concat s.keyIds h })
  else
    (.error "insert or update on table \"api_keys\" violates foreign key constraint", s)

/-- The statements of `create_tenant_schema`, each with `IF NOT EXISTS`. -/
def createSchema (s : Deployment) (schemaName : String) : Deployment :=
  match s.schemas schemaName with
  | some _ => s
  | none =>
      let tables : SchemaTables := { database := PostgresStore.new, definitions := [] }
      { s with schemas := Function.update s.schemas schemaName (some tables) }

def inSchema (server : Server) (s : Deployment) (schemaName : String)
    (call : SchemaCall) : call.Reply × Deployment :=
  match s.schemas schemaName with
  | none => (call.failed ("schema \"" ++ schemaName ++ "\" does not exist"), s)
  | some tables =>
      let result := tables.perform server call
      (result.1, { s with schemas := Function.update s.schemas schemaName (some result.2) })

def perform (server : Server) (s : Deployment) :
    ∀ call : DeploymentCall, call.Reply × Deployment
  | .insertTenant row => (.ok (), s.insertTenant row)
  | .createSchema schemaName => (.ok (), s.createSchema schemaName)
  | .selectTenantId name => (.ok ((s.tenants.find? (·.name = name)).map (·.id)), s)
  | .selectTenantSchema name =>
      (.ok ((s.tenants.find? (·.name = name)).map (·.pgSchema)), s)
  | .insertApiKey tenantId keyId keyHash => s.insertApiKey tenantId keyId keyHash
  | .lookupByKeyId keyId => (.ok ((s.apiKeys.find? (·.keyId = keyId)).map (·.record)), s)
  | .inSchema schemaName call => s.inSchema server schemaName call

/-- A statement on the database, which may be out of reach. -/
def handle (server : Server) (s : Deployment) (call : DeploymentCall) :
    call.Reply × Deployment :=
  if s.available then s.perform server call
  else (call.failed "connection refused", s)

/-- What happens between statements: keys are revoked, the connection comes and goes. -/
structure Moves (s t : Deployment) : Prop where
  tenants : t.tenants = s.tenants
  schemas : t.schemas = s.schemas
  apiKeys : List.Forall₂ (fun row row' => row' = row ∨ row' = { row with revoked := true })
    s.apiKeys t.apiKeys

end Deployment

/-! ## Commands -/

section

/-- The programs of a deployment. -/
abbrev DeploymentProgram (ε α : Type) := Fallible ε DeploymentCall DeploymentCall.Reply α

def execute (call : DeploymentCall) {ε α : Type} (f : call.Reply → Except ε α) :
    DeploymentProgram ε α :=
  ExceptT.mk (Client.request call >>= fun reply => pure (f reply))

def createTenantSchema (schemaName : String) : DeploymentProgram StorageError Unit := do
  ExceptT.mk (pure (validateSchemaName schemaName))
  execute (.createSchema schemaName) (·.mapError .internal)

/-- `PostgresStoreFactory::provision_tenant` -/
def provisionTenant (tenantId : TenantId) (name : String) :
    DeploymentProgram StorageError Unit := do
  let schemaName := schemaNameForTenant tenantId
  execute (.insertTenant { id := tenantId, name, pgSchema := schemaName }) (·.mapError .internal)
  createTenantSchema schemaName

/-- The id it prints; `uuid` is what `Uuid::new_v4` drew. -/
def runProvisionTenant (uuid : TenantId) (name : String) :
    DeploymentProgram String TenantId := do
  ExceptT.mk ((provisionTenant uuid name).run >>= fun result =>
    pure (result.mapError StorageError.message))
  return uuid

def AuthError.message : AuthError → String
  | .missingHeader => "missing authorization header"
  | .invalidKeyFormat => "invalid api key format"
  | .unknownKey => "unknown api key"
  | .revokedKey => "api key has been revoked"
  | .internal message => "internal authentication error: " ++ message

/-- The key it prints. -/
def runCreateApiKey (argon2 : Argon2) (tenantName : String) (draws : KeyDraws)
    (salt : argon2.Salt) : DeploymentProgram String String := do
  let row ← execute (.selectTenantId tenantName) id
  match row with
  | none => throw ("Error: tenant '" ++ tenantName ++ "' not found")
  | some tenantUuid =>
      let (fullKey, secret) := generateApiKey draws
      match parseApiKey fullKey with
      | .error _ => throw "generated key should parse"
      | .ok (keyId, _) =>
          let keyHash ← ExceptT.mk (pure ((hashSecret argon2 salt secret).mapError
            AuthError.message))
          execute (.insertApiKey tenantUuid keyId keyHash) id
          return fullKey

/-- Once the schema of the tenant is known: how many relationships it deleted. -/
def purgeSchema (tenantName pgSchema : String) (yes : Bool) : DeploymentProgram String Nat := do
  ExceptT.mk (pure ((validateSchemaName pgSchema).mapError StorageError.message))
  let count ← execute (.inSchema pgSchema .countActiveRelationships)
    (·.mapError StorageError.message)
  if !yes then
    throw ("WARNING: This will permanently delete all " ++ toString count ++
      " relationship(s) for tenant '" ++ tenantName ++ "'.")
  let deleted ← execute (.inSchema pgSchema .deleteRelationTuples)
    (·.mapError StorageError.message)
  execute (.inSchema pgSchema .restartSequence) (·.mapError StorageError.message)
  return deleted

def runPurgeRelationships (tenantName : String) (yes : Bool) :
    DeploymentProgram String Nat := do
  let row ← execute (.selectTenantSchema tenantName) id
  match row with
  | none => throw ("Error: tenant '" ++ tenantName ++ "' not found")
  | some pgSchema => purgeSchema tenantName pgSchema yes

end

/-! ## Requests -/

/-- The map of a factory: the schemas of the tenants it has provisioned itself. -/
abbrev PostgresStoreFactory := TenantId → Option String

/-- `PostgresStoreFactory::for_tenant`: the schema of the store. -/
def PostgresStoreFactory.forTenant (schemas : PostgresStoreFactory) (tenantId : TenantId) :
    String :=
  (schemas tenantId).getD (schemaNameForTenant tenantId)

/-- A serving process provisions nobody. -/
def PostgresStoreFactory.new : PostgresStoreFactory := fun _ => none

/-- A handler of the tenant: its calls go to the tenant's store. -/
def handler (tenantId : TenantId) (body : Client TableCall TableCall.Reply Unit) :
    Client DeploymentCall DeploymentCall.Reply Unit :=
  body.translate fun call =>
    Client.request (.inSchema (PostgresStoreFactory.new.forTenant tenantId) (.table call))

/-- `ApiKeyRepository::lookup_by_key_id` -/
def lookupByKeyId (keyId : String) :
    Client DeploymentCall DeploymentCall.Reply (Except String (Option ApiKeyRecord)) :=
  Client.request (DeploymentCall.lookupByKeyId keyId)

/-- A REST request.  The open paths have no tenant, and their handlers no store. -/
def restRequest (argon2 : Argon2) (path : String) (authorization : Option String)
    (body : Client TableCall TableCall.Reply Unit) :
    DeploymentProgram ErrorJson (Option TenantId) := do
  let extension ← restAuthMiddleware argon2 (.withRepository lookupByKeyId) path authorization
  match extension with
  | some tenantId => ExceptT.lift (handler tenantId body)
  | none => pure ()
  return extension

def grpcRequest (argon2 : Argon2) (authorization : Option String)
    (body : Client TableCall TableCall.Reply Unit) :
    DeploymentProgram Tonic.Status TenantId := do
  let tenantId ← grpcAuthInterceptor argon2 (.withRepository lookupByKeyId) authorization
  ExceptT.lift (handler tenantId body)
  return tenantId

/-! ## All together -/

inductive DeploymentOp (argon2 : Argon2) where
  | provisionTenant (uuid : TenantId) (name : String)
  | createApiKey (tenantName : String) (draws : KeyDraws) (salt : argon2.Salt)
  | purgeRelationships (tenantName : String) (yes : Bool)
  | rest (path : String) (authorization : Option String)
      (body : Client TableCall TableCall.Reply Unit)
  | grpc (authorization : Option String) (body : Client TableCall TableCall.Reply Unit)

namespace DeploymentOp

variable {argon2 : Argon2}

abbrev Result : DeploymentOp argon2 → Type
  | .provisionTenant .. => Except String TenantId
  | .createApiKey .. => Except String String
  | .purgeRelationships .. => Except String Nat
  | .rest .. => Except ErrorJson (Option TenantId)
  | .grpc .. => Except Tonic.Status TenantId

def program : ∀ op : DeploymentOp argon2,
    Client DeploymentCall DeploymentCall.Reply op.Result
  | .provisionTenant uuid name => (runProvisionTenant uuid name).run
  | .createApiKey tenantName draws salt => (runCreateApiKey argon2 tenantName draws salt).run
  | .purgeRelationships tenantName yes => (runPurgeRelationships tenantName yes).run
  | .rest path authorization body => (restRequest argon2 path authorization body).run
  | .grpc authorization body => (grpcRequest argon2 authorization body).run

/-- The header a request brings. -/
def authorization : DeploymentOp argon2 → Option String
  | .rest _ authorization _ => authorization
  | .grpc authorization _ => authorization
  | _ => none

end DeploymentOp

abbrev DeploymentPool (argon2 : Argon2) :=
  Pool Deployment (DeploymentOp argon2) DeploymentCall DeploymentCall.Reply
    DeploymentOp.Result

/-- All interleavings of commands and requests. -/
def deployment (argon2 : Argon2) (server : Server) :
    System Deployment (DeploymentOp argon2) DeploymentCall DeploymentCall.Reply
      DeploymentOp.Result :=
  { handle := Deployment.handle server
    env := Deployment.Moves
    program := DeploymentOp.program }

/-! ## Growth -/

/-- The row as it is now, or since revoked. -/
structure ApiKeyRow.Later (row row' : ApiKeyRow) : Prop where
  tenantId : row'.tenantId = row.tenantId
  keyId : row'.keyId = row.keyId
  keyHash : row'.keyHash = row.keyHash
  revoked : row.revoked = true → row'.revoked = true

theorem ApiKeyRow.Later.refl (row : ApiKeyRow) : row.Later row :=
  ⟨rfl, rfl, rfl, id⟩

theorem ApiKeyRow.Later.trans {row row' row'' : ApiKeyRow} (h : row.Later row')
    (h' : row'.Later row'') : row.Later row'' :=
  ⟨h'.tenantId.trans h.tenantId, h'.keyId.trans h.keyId, h'.keyHash.trans h.keyHash,
    fun hrevoked => h'.revoked (h.revoked hrevoked)⟩

namespace Deployment

/-- Nothing is lost from the shared tables, and no revocation is undone. -/
structure Extends (s t : Deployment) : Prop where
  tenants : ∀ row ∈ s.tenants, row ∈ t.tenants
  apiKeys : ∀ row ∈ s.apiKeys, ∃ row' ∈ t.apiKeys, row.Later row'

instance : Preorder Deployment where
  le := Extends
  le_refl s := ⟨fun _ h => h, fun row h => ⟨row, h, .refl row⟩⟩
  le_trans s t u hst htu := by
    refine ⟨fun row h => htu.tenants row (hst.tenants row h), ?_⟩
    intro row h
    obtain ⟨row', h', hlater⟩ := hst.apiKeys row h
    obtain ⟨row'', h'', hlater'⟩ := htu.apiKeys row' h'
    exact ⟨row'', h'', hlater.trans hlater'⟩

/-- The shared tables decide what is there. -/
theorem le_of_eq_rows {s t : Deployment} (htenants : t.tenants = s.tenants)
    (hkeys : t.apiKeys = s.apiKeys) : s ≤ t := by
  refine ⟨?_, ?_⟩
  · rw [htenants]
    exact fun _ h => h
  · rw [hkeys]
    exact fun row h => ⟨row, h, .refl row⟩

theorem le_insertTenant (s : Deployment) (row : TenantRow) : s ≤ s.insertTenant row := by
  unfold insertTenant
  split
  · exact ⟨fun _ h => List.mem_append_left _ h, fun row h => ⟨row, h, .refl row⟩⟩
  · exact le_refl s

theorem le_insertApiKey (s : Deployment) (tenantId : TenantId) (keyId keyHash : String) :
    s ≤ (s.insertApiKey tenantId keyId keyHash).2 := by
  unfold insertApiKey
  split
  · exact le_refl s
  · split
    · exact ⟨fun _ h => h, fun row h => ⟨row, List.mem_append_left _ h, .refl row⟩⟩
    · exact le_refl s

theorem le_inSchema (server : Server) (s : Deployment) (schemaName : String)
    (call : SchemaCall) : s ≤ (s.inSchema server schemaName call).2 := by
  unfold inSchema
  split
  · exact le_refl s
  · exact le_of_eq_rows rfl rfl

theorem le_createSchema (s : Deployment) (schemaName : String) :
    s ≤ s.createSchema schemaName := by
  unfold createSchema
  split
  · exact le_refl s
  · exact le_of_eq_rows rfl rfl

theorem le_handle (server : Server) (s : Deployment) (call : DeploymentCall) :
    s ≤ (s.handle server call).2 := by
  unfold handle
  split
  · cases call with
    | insertTenant row => exact s.le_insertTenant row
    | createSchema schemaName => exact s.le_createSchema schemaName
    | selectTenantId name => exact le_refl s
    | selectTenantSchema name => exact le_refl s
    | insertApiKey tenantId keyId keyHash => exact s.le_insertApiKey tenantId keyId keyHash
    | lookupByKeyId keyId => exact le_refl s
    | inSchema schemaName call => exact s.le_inSchema server schemaName call
  · exact le_refl s

theorem Moves.le {s t : Deployment} (h : s.Moves t) : s ≤ t := by
  refine ⟨?_, ?_⟩
  · rw [h.tenants]
    exact fun _ h => h
  · intro row hrow
    obtain ⟨i, hi, rfl⟩ := List.getElem_of_mem hrow
    have hlength := h.apiKeys.length_eq
    have hi' : i < t.apiKeys.length := hlength ▸ hi
    refine ⟨t.apiKeys[i], List.getElem_mem hi', ?_⟩
    obtain heq | heq := List.Forall₂.get h.apiKeys hi hi'
    · rw [List.get_eq_getElem, List.get_eq_getElem] at heq
      rw [heq]
      exact .refl _
    · rw [List.get_eq_getElem, List.get_eq_getElem] at heq
      rw [heq]
      exact ⟨rfl, rfl, rfl, fun _ => rfl⟩

theorem deployment_grows (argon2 : Argon2) (server : Server) :
    (deployment argon2 server).Grows where
  handle := le_handle server
  env := fun _ _ h => h.le

end Deployment

end Kraalzibar
