import BulkTransfer.Job

/-!
# Results of jobs

A result says how one job ended.  A warning counts as a success.  The result of
a batch carries how many of its sub-jobs succeeded and failed.
-/

namespace BulkTransfer

/-- How a job ended. -/
inductive Status
  | succeeded
  /-- succeeded without doing its work -/
  | warning
  | failed
  | cancelled
deriving DecidableEq, Repr, Inhabited

namespace Status

def all : List Status :=
  [succeeded, warning, failed, cancelled]

def name : Status → String
  | succeeded => "succeeded"
  | warning => "warning"
  | failed => "failed"
  | cancelled => "cancelled"

def ofName? (name : String) : Option Status :=
  all.find? fun status => status.name == name

def isSuccess : Status → Bool
  | succeeded | warning => true
  | failed | cancelled => false

end Status

/-- Successes and failures of sub-jobs, counted modulo 2^32. -/
structure Tally where
  succeeded : UInt32 := 0
  failed : UInt32 := 0
deriving DecidableEq, Repr, Inhabited

namespace Tally

/-- Count one more outcome. -/
def record (tally : Tally) (success : Bool) : Tally :=
  if success then { tally with succeeded := tally.succeeded + 1 }
  else { tally with failed := tally.failed + 1 }

end Tally

/-- What happened to one job. -/
structure JobResult where
  source : String
  /-- the canonical text of the job -/
  job : String
  operation : Operation
  status : Status
  error : Option String := none
  messages : List String := []
  /-- only for a batch -/
  subJobs : Option Tally := none
  isSubJob : Bool := false
  attempts : UInt32 := 0
deriving DecidableEq, Repr, Inhabited

namespace JobResult

/-- A result of a task with nothing but its status. -/
def ofTask (task : Task) (status : Status) : JobResult :=
  { source := task.source, job := task.text, operation := task.operation, status := status }

def isSuccess (result : JobResult) : Bool :=
  result.status.isSuccess

end JobResult
end BulkTransfer
