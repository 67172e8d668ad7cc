/-!
# Settings of a worker pool

A pool has a number of workers, a queue of bounded length and a number of
retries.  The delay before a retry doubles from a base up to a cap.  Durations
are bounded, and the doubling stops at a factor of 2^32 - 1, so a product that
is no duration any more stands for the cap.
-/

namespace BulkTransfer

/-- The most nanoseconds that a duration can have: 2^64 seconds less one nanosecond. -/
def longestDuration : Nat := UInt64.size * 1000000000 - 1

/-- A span of time. -/
structure Duration where
  nanoseconds : Nat
  bounded : nanoseconds ≤ longestDuration
deriving DecidableEq, Repr

namespace Duration

/-- A number of nanoseconds, if it is a duration. -/
def ofNanoseconds? (n : Nat) : Option Duration :=
  if h : n ≤ longestDuration then some ⟨n, h⟩ else none

theorem milliseconds_le (n : UInt64) : n.toNat * 1000000 ≤ longestDuration := by
  have h := n.toNat_lt
  simp only [longestDuration, UInt64.size]
  omega

def ofMilliseconds (n : UInt64) : Duration :=
  ⟨n.toNat * 1000000, milliseconds_le n⟩

/-- The whole milliseconds of a duration. -/
def milliseconds (d : Duration) : Nat :=
  d.nanoseconds / 1000000

/-- A multiple, if it is a duration. -/
def times? (d : Duration) (factor : UInt32) : Option Duration :=
  ofNanoseconds? (d.nanoseconds * factor.toNat)

/-- The shorter one of two durations. -/
def shorter (d e : Duration) : Duration :=
  if d.nanoseconds ≤ e.nanoseconds then d else e

instance : Inhabited Duration := ⟨ofMilliseconds 0⟩

end Duration

/-- Why settings are refused. -/
inductive ConfigError
  | zeroWorkersRequested
  | negativeRetries (requested : Int)
  | tooManyRetries (requested : Int)
  | noWorkers
  | noCapacity
  | baseAboveCap (base cap : Nat)
deriving DecidableEq, Repr

namespace ConfigError

def cause : ConfigError → String
  | zeroWorkersRequested => "numworkers cannot be zero"
  | negativeRetries requested => "retry count cannot be negative: " ++ toString requested
  | tooManyRetries requested => "retry count too large: " ++ toString requested
  | noWorkers => "worker count must be positive"
  | noCapacity => "queue capacity must be positive"
  | baseAboveCap base cap =>
      "retry base " ++ toString base ++ "ms exceeds retry cap " ++ toString cap ++ "ms"

def message (error : ConfigError) : String :=
  "invalid configuration: " ++ error.cause

end ConfigError

/-- The settings of a pool. -/
structure PoolConfig where
  workers : Nat := 256
  /-- further attempts after a failure that may pass -/
  retries : UInt32 := 10
  queueCapacity : Nat := 1024
  retryBase : Duration := .ofMilliseconds 100
  retryCap : Duration := .ofMilliseconds 10000
deriving DecidableEq, Repr, Inhabited

namespace PoolConfig

/-- Refuse settings that no pool can run with. -/
def validate (config : PoolConfig) : Except ConfigError Unit :=
  if config.workers = 0 then .error .noWorkers
  else if config.queueCapacity = 0 then .error .noCapacity
  else if config.retryCap.nanoseconds < config.retryBase.nanoseconds then
    .error (.baseAboveCap config.retryBase.milliseconds config.retryCap.milliseconds)
  else .ok ()

/-- How often the base delay goes into the delay before a retry. -/
def backoffFactor (attempt : UInt32) : UInt32 :=
  let doublings := attempt.toNat - 1
  if doublings < 32 then 1 <<< UInt32.ofNat doublings else UInt32.ofNat (UInt32.size - 1)

/-- The delay before a retry, numbered from one. -/
def backoff (config : PoolConfig) (attempt : UInt32) : Duration :=
  match config.retryBase.times? (backoffFactor attempt) with
  | some delay => delay.shorter config.retryCap
  | none => config.retryCap

/-- The fewest workers that a number of workers per processor stands for. -/
def fewestPerProcessor : Nat := 2

/-- The largest number of workers. -/
def mostWorkers : Nat := UInt64.size - 1

/-- The number of workers that a user asks for; a negative one is per processor. -/
def resolveWorkers (requested : Int) (processors : Nat) : Except ConfigError Nat :=
  if requested = 0 then .error .zeroWorkersRequested
  else if 0 < requested then .ok requested.toNat
  else .ok (max (min (processors * requested.natAbs) mostWorkers) fewestPerProcessor)

/-- The number of retries that a user asks for. -/
def resolveRetries (requested : Int) : Except ConfigError UInt32 :=
  if requested < 0 then .error (.negativeRetries requested)
  else if UInt32.size ≤ requested.toNat then .error (.tooManyRetries requested)
  else .ok (UInt32.ofNat requested.toNat)

end PoolConfig
end BulkTransfer
