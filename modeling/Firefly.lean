import Firefly.Shared.Layering
import Firefly.Shared.Text
import Firefly.Shared.Runs
import Firefly.Shared.Json
import Firefly.Shared.Decimal
import Firefly.Orchestration.Model
import Firefly.Orchestration.StepInvoker
import Firefly.Orchestration.Saga
import Firefly.Orchestration.SagaOrder
import Firefly.Orchestration.SagaRollback
import Firefly.Orchestration.SagaContract
import Firefly.Orchestration.Tcc
import Firefly.Orchestration.TccContract
import Firefly.Orchestration.Workflow
import Firefly.Orchestration.WorkflowRuns
import Firefly.Orchestration.WorkflowContract
import Firefly.Orchestration.SagaComposition
import Firefly.Orchestration.GraphAgreement
import Firefly.Orchestration.WorkflowProgress
import Firefly.Orchestration.SagaLayers
import Firefly.Orchestration.SagaCompositionContract
import Firefly.Orchestration.Persistence
import Firefly.Orchestration.Recovery
import Firefly.Orchestration.RecoveryContract
import Firefly.Resilience.CircuitBreaker
import Firefly.Resilience.CircuitBreakerPhases
import Firefly.Eventsourcing.Aggregate
import Firefly.Eventsourcing.Repository
import Firefly.Eventsourcing.RepositoryRuns
import Firefly.Eventsourcing.RepositoryContract
import Firefly.Eventsourcing.SnapshotLoads
import Firefly.Eventsourcing.Tenants
import Firefly.Eventsourcing.Outbox
import Firefly.Shared.Sql
import Firefly.Eventsourcing.SqlStore
import Firefly.Eventsourcing.StoreAgreement
import Firefly.Eventsourcing.SqlStreams
import Firefly.Shared.Calendar
import Firefly.Scheduling.Cron
import Firefly.Scheduling.CronFields
import Firefly.Scheduling.CronSearch
import Firefly.Scheduling.CronHorizon
import Firefly.Shared.Formula
import Firefly.Shared.SqlLexing
import Firefly.Shared.SqlParsing
import Firefly.Data.Filter
import Firefly.Data.Specification
import Firefly.Data.Rendering
import Firefly.Shared.Recency
import Firefly.Cache.Memory
import Firefly.Cache.Failover
import Firefly.Cache.MemoryContract
import Firefly.Shared.Double
import Firefly.RuleEngine.Core
import Firefly.RuleEngine.Actions
import Firefly.RuleEngine.LintSoundness
import Firefly.Transactional.Manager
import Firefly.Transactional.Events
import Firefly.DataSqlx.Tx
import Firefly.DataSqlx.TxFrames
import Firefly.DataSqlx.TxRuns
import Firefly.DataSqlx.CommitReports
import Firefly.DataSqlx.Documented
import Firefly.DataSqlx.PropagationMeaning
import Firefly.DataSqlx.StackDiscipline
import Firefly.Security.Acl
import Firefly.Security.AclDenials
import Firefly.Shared.Worklist
import Firefly.Security.RoleHierarchy
import Firefly.Security.FilterChain
import Firefly.Security.RoleSpelling
import Firefly.Cache.Winners
import Firefly.Session.Concurrency
import Firefly.Session.ConcurrencyCap
import Firefly.Session.Layer
import Firefly.Session.RetiredIds
import Firefly.Web.Idempotency
import Firefly.Web.IdempotencyOnce
import Firefly.Shared.BoolGrammar
import Firefly.Config.Profile
import Firefly.Config.ProfileParsing
import Firefly.Config.ProfileMeaning
import Firefly.Container.Condition
import Firefly.Eda.Broker
import Firefly.Eda.Delivery
import Firefly.Eda.Listener
import Firefly.Eda.DeadLetters
import Firefly.Cqrs.Bus
import Firefly.Cqrs.CacheTransparency
import Firefly.Config.Placeholder
import Firefly.Config.Reload
import Firefly.Shared.Expansion
import Firefly.Config.LiveConfiguration
import Firefly.Transactional.EventScopes
import Firefly.Transactional.EventLedger
import Firefly.Transactional.EventPhases
import Firefly.DataSqlx.EventOutcomes
import Firefly.Orchestration.Signal
import Firefly.Web.IdempotencyOrigins
import Firefly.Webhooks.Pipeline
import Firefly.Shared.Encoding
import Firefly.Shared.Tables
import Firefly.Webhooks.Validators
import Firefly.Webhooks.SignedBodies
import Firefly.Callbacks.Allowlist
import Firefly.Security.Login
import Firefly.Security.LoginBound
import Firefly.Security.AuthorizationServer
import Firefly.Security.RefreshRotation
import Firefly.Security.RememberMe
import Firefly.Security.SessionBridge
import Firefly.Plugins.Resolve
import Firefly.Plugins.Manager
import Firefly.Plugins.Lifecycle
import Firefly.Container.Beans
import Firefly.Container.BeanIdentity
import Firefly.Orchestration.SagaDepths
import Firefly.Orchestration.Dlq
import Firefly.Orchestration.DlqRetries
import Firefly.Data.CustomQuery
import Firefly.Data.NamedParameters
import Firefly.Data.Substitution
import Firefly.Orchestration.Condition
import Firefly.Orchestration.ConditionGrammar
import Firefly.Orchestration.DataFlows
import Firefly.Orchestration.SagaLifecycle
import Firefly.Orchestration.WorkflowTasks
import Firefly.Orchestration.WorkflowCancellation
import Firefly.Shared.Lexemes
import Firefly.Data.TranspileSteps
import Firefly.Data.TranspileCalls
import Firefly.Data.TranspileQuery
import Firefly.Data.TranspileMeaning
import Firefly.Data.TranspileLosses
import Firefly.Resilience.CircuitBreakerOpening
import Firefly.Resilience.CircuitBreakerTrips
import Firefly.Scheduling.CronNeighbours
import Firefly.Shared.Usize
import Firefly.Data.Pageable
import Firefly.Data.JsonOrder
import Firefly.Data.ReactiveMemory
import Firefly.Scheduling.CronGrammar
import Firefly.Scheduling.CronDisplay
import Firefly.Scheduling.Zones
import Firefly.Scheduling.RunTask
import Firefly.Shared.Words
import Firefly.Data.QueryParser
import Firefly.Data.QueryNames
import Firefly.Data.DerivedQueries
import Firefly.Shared.TokenBucket
import Firefly.Resilience.RateLimiter
import Firefly.Shared.Duration
import Firefly.Resilience.Retry
import Firefly.Shared.StableSort
import Firefly.RuleEngine.RuleOrder
import Firefly.RuleEngine.FactPaths
import Firefly.RuleEngine.ActionRuns
import Firefly.RuleEngine.Increments
import Firefly.Transactional.WithTx
import Firefly.Eventsourcing.OutboxDelivery
import Firefly.Eventsourcing.Projections
import Firefly.Cache.LockOrder
import Firefly.Cqrs.Invalidation
import Firefly.Orchestration.Timestamps
import Firefly.Orchestration.PersistenceAgreement
import Firefly.Shared.Patterns
import Firefly.Data.RowSelection
import Firefly.Data.DocumentSelection
import Firefly.Shared.RoundRobin
import Firefly.Config.MergeOrder
import Firefly.Config.EnvironmentLayer
import Firefly.Config.YamlRoundTrip
import Firefly.Validators.Identifiers
import Firefly.Validators.Acceptance
import Firefly.Validators.IbanPairs
import Firefly.Validators.Alphabets
import Firefly.Validators.Luhn
import Firefly.Validators.SingleErrors
import Firefly.Validators.Email
import Firefly.Security.HierarchyRules
import Firefly.Session.SlidingExpiry
import Firefly.Plugins.Registry
import Firefly.Lifecycle.RunProtocol
import Firefly.Container.Cycles
import Firefly.Container.Refresh
import Firefly.Migrations.Recorded
import Firefly.Webhooks.StripeFreshness
import Firefly.Reactive.Sink
import Firefly.Security.LdapFilters
import Firefly.Scheduling.Leases
import Firefly.Eda.PostgresBroker
import Firefly.Cache.PostgresAgreement
