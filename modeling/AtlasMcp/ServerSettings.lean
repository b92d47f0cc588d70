import Mathlib.Data.Int.Notation
import Mathlib.Data.Nat.Notation

/-!
# Settings

The part of the central configuration that the modelled components read, with its
defaults.
-/

/-- The settings of the server, as far as the model uses them, with their
defaults. -/
structure ServerSettings where
  circuitBreakerFailureThreshold : ℤ := 5
  circuitBreakerRecoverySeconds : ℤ := 30
  retryMaxAttempts : ℤ := 3
  atbaTotalBudgetMs : ℤ := 30000
  rateLimitDefaultRpm : ℤ := 60
  rateLimitBurst : ℤ := 20
  rateLimitEnabled : Bool := true
  cacheEnabled : Bool := true
  cacheL1MaxItems : ℕ := 10000
  cacheL1TtlSeconds : ℤ := 60
  cacheL2TtlSeconds : ℤ := 600
  destructiveToolRequiresApproval : Bool := true
  auditEnabled : Bool := true
