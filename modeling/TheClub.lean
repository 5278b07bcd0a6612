import TheClub.ReadCommitted.Table
import TheClub.ReadCommitted.Moves
import TheClub.ReadCommitted.Possible
import TheClub.ReadCommitted.Totals
import TheClub.ReadCommitted.Program
import TheClub.ReadCommitted.Machine
import TheClub.ReadCommitted.Alone
import TheClub.ReadCommitted.Resumed
import TheClub.ReadCommitted.Served
import TheClub.ReadCommitted.Observed
import TheClub.ReadCommitted.Journal
import TheClub.Text.Rendering
import TheClub.Queues.DropOldest
import TheClub.Queues.Retry
import TheClub.Domain.Money
import TheClub.Domain.Fairness
import TheClub.Domain.Messages
import TheClub.Domain.Uniform
import TheClub.Domain.Roulette.Table
import TheClub.Domain.Roulette.Bets
import TheClub.Domain.Roulette.Engine
import TheClub.Infra.Platform
import TheClub.Infra.Security
import TheClub.Ws.Broadcaster
import TheClub.Ws.Connections
import TheClub.Ws.RateLimit
import TheClub.Models
import TheClub.Infra.Queries.Statement
import TheClub.Infra.Queries.Accounts
import TheClub.Infra.Queries.Wallets
import TheClub.Infra.Queries.Game
import TheClub.Infra.Queries.Delivery
import TheClub.Infra.Database
import TheClub.Infra.Db
import TheClub.Repositories
import TheClub.Events.Schemas
import TheClub.Events.Outbox
import TheClub.Events.Contracts
import TheClub.Services.Wallet
import TheClub.Services.Fairness
import TheClub.Services.Roulette
import TheClub.Services.Auth
import TheClub.Services.Idempotency
import TheClub.Requests
import TheClub.SecretRotation
import TheClub.HouseEdge
import TheClub.Selections
import TheClub.Footprints
import TheClub.Infra.Rows
import TheClub.Locks
import TheClub.Lone
import TheClub.Suspensions
import TheClub.Conduct
import TheClub.Ledger
import TheClub.Game
import TheClub.Books
import TheClub.Provenance
import TheClub.Audit
import TheClub.Nonces
import TheClub.SeedLifecycle
import TheClub.RevealedSeeds
import TheClub.Api.Deps
import TheClub.Api.Pagination
import TheClub.Api.Errors
import TheClub.Api.Asgi
import TheClub.Api.Middleware
import TheClub.Responses
import TheClub.Exceptions
import TheClub.Pool
import TheClub.Sessions
import TheClub.Rotations
import TheClub.Families
import TheClub.SessionEffects
import TheClub.Dispatch
import TheClub.Handling
import TheClub.Delivery
import TheClub.Relays
import TheClub.RetrySchedule
import TheClub.Household
import TheClub.Registered
import TheClub.Keyset
import TheClub.Histories
import TheClub.Reservations
import TheClub.KeyRows
import TheClub.Reclaims
import TheClub.Api.RequestBodies
import TheClub.Endpoints
import TheClub.PublishedEvents
import TheClub.ReadCommitted.Ordered
import TheClub.ReadCommitted.Waiting
import TheClub.HistoryOrder
import TheClub.SpinOrder
import TheClub.Executions
import TheClub.Promptness
import TheClub.ReplayAgreement
import TheClub.LockOrder
import TheClub.Deadlocks
