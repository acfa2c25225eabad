import Kraalzibar.Client.Calls
import Kraalzibar.Client.ResultLimit
import Kraalzibar.Core.Cycles
import Kraalzibar.Core.RoundTrip
import Kraalzibar.Core.RowOrder
import Kraalzibar.Core.Shadowing
import Kraalzibar.Core.Termination
import Kraalzibar.Core.WellShaped
import Kraalzibar.Server.Batches
import Kraalzibar.Server.CheckRaces
import Kraalzibar.Server.Collection
import Kraalzibar.Server.Deletes
import Kraalzibar.Server.FrontEnds
import Kraalzibar.Server.GrpcCheck
import Kraalzibar.Server.Isolation
import Kraalzibar.Server.LoadRaces
import Kraalzibar.Server.LookupComplete
import Kraalzibar.Server.LookupDistinct
import Kraalzibar.Server.LookupResources
import Kraalzibar.Server.Lookups
import Kraalzibar.Server.Sharing
import Kraalzibar.Server.StoredSchemas
import Kraalzibar.Server.Tenants
import Kraalzibar.Storage.BackendAgreement
import Kraalzibar.Storage.Postgres.Purge
import Kraalzibar.Storage.Postgres.Statements
import Kraalzibar.Storage.Postgres.TokenOrder
