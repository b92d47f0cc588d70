import AtlasMcp.TokenBucketWindows
import AtlasMcp.AgentWire
import AtlasMcp.SelectGuard
import AtlasMcp.BreakerPeriods
import AtlasMcp.FailureWindow
import AtlasMcp.BreakerRecovery
import AtlasMcp.CacheStaleness
import AtlasMcp.ApprovalGate
import AtlasMcp.RateLimiter
import AtlasMcp.TenantIsolation
import AtlasMcp.LatencyTracker
import AtlasMcp.UncountedTimeouts
import AtlasMcp.AuditTrail
import AtlasMcp.CachedResults
import AtlasMcp.ApprovalUse
import AtlasMcp.HttpFetch
import AtlasMcp.CacheInvalidation
import AtlasMcp.SingleFlight
import AtlasMcp.RedisBuckets
import AtlasMcp.InvalidationScopes
import AtlasMcp.ReadAfterWrite
import AtlasMcp.TenantPaths
import AtlasMcp.ShippedPolicy
import AtlasMcp.HttpIdentity
import AtlasMcp.PostgresClient
import AtlasMcp.TenantFilters
import AtlasMcp.ObservedCalls
import AtlasMcp.CacheMetrics
import AtlasMcp.CleanValues
import AtlasMcp.PolicyGlobs
import AtlasMcp.PolicyVerdicts
import AtlasMcp.VisibleTools
import AtlasMcp.HybridFusion
import AtlasMcp.CacheHistories
import AtlasMcp.ControlCharacters
import AtlasMcp.CustomerWords
import AtlasMcp.InputModels
import AtlasMcp.PublishedSchemas
import AtlasMcp.RetryAfter
import AtlasMcp.RetryLoop
import AtlasMcp.BudgetedTurns
import AtlasMcp.LruCache
import AtlasMcp.FailedWrites
import AtlasMcp.TierAgreement
import AtlasMcp.StoredContent
import AtlasMcp.RowCap
import AtlasMcp.FencedJson
import AtlasMcp.UntrustedDecisions
import AtlasMcp.LatencyPercentile
import AtlasMcp.TokenClaims
import AtlasMcp.ShortTermMemory
import AtlasMcp.ServedBreakers
import AtlasMcp.ServedQuotas
import AtlasMcp.DispatchEndings
import AtlasMcp.HttpCalls
import AtlasMcp.WarmCache
import AtlasMcp.Replicas
import AtlasMcp.AuditFile
import AtlasMcp.IdleSessions
import AtlasMcp.Accountability
import AtlasMcp.ReliabilityCounters
import AtlasMcp.Conversations
import AtlasMcp.TenantCalls
import AtlasMcp.SemanticResults
