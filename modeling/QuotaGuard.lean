import QuotaGuard.Lib.Rounding
import QuotaGuard.Lib.Run
import QuotaGuard.Redis.Command
import QuotaGuard.Service.Checker
import QuotaGuard.Proof.Soft
import QuotaGuard.Proof.Effect
import QuotaGuard.Proof.Trace
import QuotaGuard.Lib.TokenBucket
import QuotaGuard.Proof.Refill
import QuotaGuard.Proof.Bucket
import QuotaGuard.Proof.Eager
import QuotaGuard.Proof.Window
import QuotaGuard.Proof.Denied
import QuotaGuard.Proof.Isolation
import QuotaGuard.Proof.Expiry
import QuotaGuard.Lib.Budget
import QuotaGuard.Proof.Admission
import QuotaGuard.Service.KeyCache
import QuotaGuard.Proof.KeyCache
import QuotaGuard.Proof.Stored
import QuotaGuard.Proof.Range
import QuotaGuard.Proof.RetryAfter
import QuotaGuard.Lib.Transaction
import QuotaGuard.Service.Plans
import QuotaGuard.Service.Admin
import QuotaGuard.Proof.Admin
import QuotaGuard.Proof.Plans
import QuotaGuard.Proof.Keys
import QuotaGuard.Lib.Logged
import QuotaGuard.Lua.Numbers
import QuotaGuard.Proof.Numbers
import QuotaGuard.Service.History
import QuotaGuard.Service.Webhooks
import QuotaGuard.Proof.Webhooks
import QuotaGuard.Proof.Upsert
import QuotaGuard.Proof.Rollup
import QuotaGuard.Service.System
import QuotaGuard.Proof.Reconcile
import QuotaGuard.Proof.Overcount
import QuotaGuard.Proof.Monotone
import QuotaGuard.Lib.Gregorian
import QuotaGuard.Proof.Calendar
import QuotaGuard.Lib.Double
import QuotaGuard.Service.Headers
import QuotaGuard.Proof.Months
import QuotaGuard.Proof.RetryMinimal
import QuotaGuard.Lib.Latest
import QuotaGuard.Service.Usage
import QuotaGuard.Proof.Usage
import QuotaGuard.Service.Delivery
import QuotaGuard.Proof.Delivery
import QuotaGuard.Proof.Starvation
import QuotaGuard.Proof.Failures
import QuotaGuard.Proof.Lock
import QuotaGuard.Proof.Headers
import QuotaGuard.Proof.Names
import QuotaGuard.Proof.Staleness
import QuotaGuard.Proof.Limits
import QuotaGuard.Proof.Deadlines
import QuotaGuard.Proof.Restored
import QuotaGuard.Service.Registry
import QuotaGuard.Proof.Registry
import QuotaGuard.Proof.Reload
import QuotaGuard.Proof.Concurrent
import QuotaGuard.Service.Endpoint
import QuotaGuard.Proof.Endpoint
import QuotaGuard.Proof.Revocation
import QuotaGuard.Service.Passes
import QuotaGuard.Proof.Passes
import QuotaGuard.Proof.Tenants
import QuotaGuard.Lib.Json
import QuotaGuard.Proof.Texts
import QuotaGuard.Proof.Inserts
import QuotaGuard.Lib.Base64
import QuotaGuard.Service.Secrets
import QuotaGuard.Proof.Issue
