import BulkTransfer.Execute
import BulkTransfer.Expand
import BulkTransfer.Pool.Schedule
import BulkTransfer.Report.Lines
import BulkTransfer.Text.Blank

/-!
# Sessions

A session reads lines, submits the jobs among them to a pool and reports what
comes of them.  A line that is no job is reported at once and counts against the
session; blank lines and comments are passed over.
-/

namespace BulkTransfer

namespace Pool

namespace State

/-- Which of the lines that were read are jobs. -/
def jobLines (state : State) : List Bool :=
  state.log.filterMap fun entry =>
    match entry with
    | .read _ reading => some (reading matches .ok (some _))
    | _ => none

/-- What the lines print that cannot be read. -/
def printedRejections (state : State) (style : Report.Style) : List String :=
  state.log.filterMap fun entry =>
    match entry with
    | .read line (.error error) =>
        some (Report.parseErrorLine style (String.ofList (Text.trim line.toList)) error)
    | _ => none

/-- What a run prints: the lines that cannot be read, and then the results in the
order in which they were sent. -/
def printed (state : State) (style : Report.Style) : List String :=
  state.printedRejections style ++ state.results.flatMap (Report.lines style)

/-- The status that a run exits with: the code of an exit job, or else whether the
run was interrupted, or else whether anything failed for good. -/
def exitStatus (state : State) (interrupted : Bool) : Nat :=
  match state.exitCode with
  | some code => code
  | none =>
      if interrupted then 130
      else if state.unhandled + state.stats.parseFailures.toNat = 0 then 0
      else 127

end State
end Pool

namespace Session

/-- The surroundings of jobs that are carried out on a disk.  A line is read when its
turn comes, an attempt takes a moment, and what has begun is not cut short. -/
def surroundings (executor : Executor) (stopsReading : Bool) : Pool.Surroundings Disk where
  attemptTime := 1
  execute := fun task disk => executor.execute task none disk
  expand := fun task disk => expand executor.store disk.tree task
  read := fun line disk => Parse.line disk.tree .standard line
  interruptible := false
  stopsReading := stopsReading

/-- Run the jobs among some lines on a disk. -/
def run (executor : Executor) (config : PoolConfig) (stopsReading : Bool)
    (lines : List String) (disk : Disk) : Pool.Course Disk :=
  Pool.Course.run (surroundings executor stopsReading)
    (Pool.Course.initial config (lines.map .line) disk false none)

end Session
end BulkTransfer
