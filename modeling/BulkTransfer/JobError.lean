import BulkTransfer.FileSystem.IoError

/-!
# Why a job fails

Errors of single jobs and of batch listings.  Only transient failures and
timeouts are worth another attempt; cancellation is final.
-/

namespace BulkTransfer

/-- Why a single job fails. -/
inductive JobError
  | noSuchBucket (name : String)
  | noSuchObject (name : String)
  | permissionDenied (name : String)
  | invalidArguments (text : String)
  | io (text : String)
  | transient (text : String)
  | timeout (milliseconds : Nat)
  | commandFailed (text : String)
  | partialFailure (failed total : Nat)
  | cancelled
deriving DecidableEq, Repr, Inhabited

namespace JobError

def message : JobError → String
  | noSuchBucket name => "no such bucket: " ++ name
  | noSuchObject name => "no such object: " ++ name
  | permissionDenied name => "permission denied: " ++ name
  | invalidArguments text => "invalid arguments: " ++ text
  | io text => text
  | transient text => "transient failure: " ++ text
  | timeout milliseconds => "timed out after " ++ toString milliseconds ++ "ms"
  | commandFailed text => "command failed: " ++ text
  | partialFailure failed total =>
      toString failed ++ " of " ++ toString total ++ " objects failed"
  | cancelled => "cancelled"

/-- Whether another attempt may succeed. -/
def isRetryable : JobError → Bool
  | transient _ | timeout _ => true
  | _ => false

/-- Whether the job was cancelled. -/
def isCancelled : JobError → Bool
  | cancelled => true
  | _ => false

/-- The failure of an operation on a path or object. -/
def ofIo (name : String) (error : IoError) : JobError :=
  if error.cause = .notFound then noSuchObject name
  else if error.cause = .permissionDenied then permissionDenied name
  else if error.cause.isTransient then transient (name ++ ": " ++ error.message)
  else io (name ++ ": " ++ error.message)

end JobError

/-- Why the matches of a batch cannot be listed, or one of them not be used. -/
inductive ExpansionError
  /-- the listing failed, and with it the batch -/
  | listing (text : String)
  /-- one entry could not be turned into a job -/
  | entry (path text : String)
  | pattern (text : String)
  | invalidSource (text : String)
  | cancelled
deriving DecidableEq, Repr, Inhabited

namespace ExpansionError

def message : ExpansionError → String
  | listing text => "listing failed: " ++ text
  | entry path text => path ++ ": " ++ text
  | pattern text => "invalid pattern: " ++ text
  | invalidSource text => "invalid batch source: " ++ text
  | cancelled => "cancelled"

end ExpansionError
end BulkTransfer
