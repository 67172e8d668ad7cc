import BulkTransfer.Pool.Config
import BulkTransfer.Text.Blank
import BulkTransfer.Text.Numeral

/-!
# Settings from the environment

A few settings come from environment variables.  A variable that is missing or
cannot be read leaves the default.
-/

namespace BulkTransfer

/-- The values of environment variables. -/
abbrev Environment := String → Option String

namespace Environment

/-- A number of milliseconds. -/
def milliseconds? (env : Environment) (name : String) : Option UInt64 :=
  (env name).bind fun text =>
    (Text.unsignedUpTo? (UInt64.size - 1) text.toList).map UInt64.ofNat

/-- The directory that holds the buckets. -/
def storageRoot (env : Environment) : String :=
  match env "XF_STORAGE_ROOT" with
  | some root => if root.isEmpty then "." else root
  | none => "."

/-- The requested number of workers. -/
def workers? (env : Environment) : Option Int :=
  (env "XF_NUMWORKERS").bind fun text =>
    Text.signed64? (Text.trim text.toList)

def retryBase (env : Environment) : Duration :=
  .ofMilliseconds ((env.milliseconds? "XF_RETRY_BASE_MS").getD 100)

def retryCap (env : Environment) : Duration :=
  .ofMilliseconds ((env.milliseconds? "XF_RETRY_MAX_MS").getD 10000)

/-- How long a program of a shell job may run. -/
def shellTimeout (env : Environment) : Duration :=
  .ofMilliseconds ((env.milliseconds? "XF_SHELL_TIMEOUT_MS").getD 600000)

end Environment

namespace PoolConfig

/-- Settings from what a user asks for and from the environment. -/
def ofRequest (env : Environment) (processors : Nat) (workers retries : Int) :
    Except ConfigError PoolConfig := do
  let workers ← resolveWorkers workers processors
  let retries ← resolveRetries retries
  return { workers := workers, retries := retries, retryBase := env.retryBase,
           retryCap := env.retryCap }

end PoolConfig
end BulkTransfer
