import BulkTransfer.Execute
import BulkTransfer.Job.ExitCode
import BulkTransfer.Job.Parse
import BulkTransfer.Pool.Group
import BulkTransfer.Statistics
import Std.Data.HashMap

/-!
# The state of a worker pool

Workers take jobs from one bounded queue.  A worker that comes to a batch starts
it and goes on; the batch then lists its tasks into a bounded channel, and from
there they are queued as sub-jobs.  A continuation is queued on its own, so that
no worker waits for its own queue.  What a worker or batch still has to do behind
its current job is a list of actions.
-/

namespace BulkTransfer
namespace Pool

/-!
## Jobs under way
-/

/-- What a job is to the run. -/
inductive Role
  /-- submitted, or a continuation -/
  | top
  /-- a sub-job of a batch, with its position among the items of the batch -/
  | member (batch position : Nat)
  /-- an entry of a batch that never became a sub-job -/
  | entry (batch position : Nat)
deriving DecidableEq, Repr, Inhabited

/-- A job in the queue or behind it.  Sub-jobs share the identity of their batch. -/
structure Queued where
  job : Job
  id : JobId
  role : Role := .top
  /-- whether it runs because an earlier job failed -/
  recovers : Bool := false
deriving Inhabited

namespace Queued

def task (item : Queued) : Task :=
  item.job.task

def operation (item : Queued) : Operation :=
  item.task.operation

end Queued

/-- What is left to do behind a job. -/
inductive Action
  /-- count a result for its job and send it -/
  | report (item : Queued) (result : JobResult)
  /-- decide what follows a job by itself -/
  | settle (item : Queued) (status : Status)
  /-- count a sub-job for its batch -/
  | tally (batch : Nat) (status : Status)
  /-- report a complete batch -/
  | close (batch : Nat)
  /-- one unit of outstanding work is done -/
  | release
deriving Inhabited

/-- What a worker is at. -/
inductive Phase
  | idle
  /-- it has taken a job and not looked for cancellation yet -/
  | holding (item : Queued)
  | accepted (item : Queued)
  /-- an exit job has recorded its code and not cancelled the run yet -/
  | exiting (item : Queued)
  /-- an attempt is running; attempts are counted from one -/
  | attempting (item : Queued) (attempt : Nat)
  /-- it waits for its next attempt -/
  | waiting (item : Queued) (attempt : Nat)
  /-- the wait is over and the next attempt has not begun -/
  | rested (item : Queued) (attempt : Nat)
  | finishing (actions : List Action)
deriving Inhabited

/-- What the listing of a batch is at. -/
inductive Listing
  | ready
  | sending (items : List (Except ExpansionError SubTask)) (fault : Option ExpansionError)
      (checksEnd : Bool)
  | ended (fault : Option ExpansionError)
deriving Inhabited

/-- What the task behind the listing is at. -/
inductive Feeding
  | receiving
  /-- a sub-job is counted and waits for room in the queue -/
  | queueing (item : Queued)
  | acting (actions : List Action)
  /-- the listing is done, and so is this task but for some actions -/
  | leaving (actions : List Action)
deriving Inhabited

/-- A batch that has been started. -/
structure Batch where
  parent : Queued
  group : Group := {}
  listing : Listing := .ready
  channel : List (Except ExpansionError SubTask) := []
  /-- how many items have come out of the channel -/
  received : Nat := 0
  feeding : Feeding := .receiving
deriving Inhabited

/-!
## The log
-/

/-- What a run shows, in the order it happens. -/
inductive Entry
  /-- the executor is called -/
  | called (item : Queued)
  /-- the listing of a batch is called -/
  | expanded (item : Queued)
  /-- a result is sent -/
  | reported (id : JobId) (role : Role) (result : JobResult)
  /-- a line is read; it is a job, or nothing, or cannot be read -/
  | read (line : String) (reading : Except ParseError (Option Job))
deriving Inhabited

/-!
## The state
-/

/-- What is submitted: a job, or a line that has not been read yet. -/
inductive Submission
  | job (job : Job)
  | line (line : String)
deriving Inhabited

structure State where
  config : PoolConfig
  /-- what has not been submitted yet, and how many jobs have been -/
  submissions : List Submission
  submitted : Nat := 0
  /-- a submitted job that waits for room in the queue -/
  offered : Option Queued := none
  queue : List Queued := []
  workers : List Phase
  batches : List Batch := []
  /-- continuations that wait for room in the queue -/
  continuations : List Queued := []
  outstanding : Nat := 0
  cancelled : Bool := false
  exitCode : Option Nat := none
  unhandled : Nat := 0
  stats : Statistics := {}
  /-- the counts of the jobs that have any -/
  tallies : Std.HashMap JobId Tally := {}
  /-- what has happened, the latest first -/
  past : List Entry := []
deriving Inhabited

namespace State

/-- A pool with idle workers and nothing submitted. -/
def initial (config : PoolConfig) (submissions : List Submission) : State :=
  { config := config, submissions := submissions,
    workers := List.replicate config.workers .idle }

/-- Whether the queue takes another job. -/
def hasRoom (state : State) : Bool :=
  state.queue.length < state.config.queueCapacity

/-- Whether everything has been submitted and nothing is left to do. -/
def isQuiescent (state : State) : Bool :=
  state.submissions.isEmpty && state.offered.isNone && state.outstanding == 0

/-- The number of workers that wait for a job. -/
def idleWorkers (state : State) : Nat :=
  (state.workers.filter fun phase => phase matches .idle).length

/-- Write down what happens. -/
def write (state : State) (entry : Entry) : State :=
  { state with past := entry :: state.past }

/-- What has happened, in order. -/
def log (state : State) : List Entry :=
  state.past.reverse

@[simp] theorem log_write (state : State) (entry : Entry) :
    (state.write entry).log = state.log ++ [entry] := by
  simp [write, log]

/-- The counts of a job. -/
def tallyOf (state : State) (id : JobId) : Tally :=
  state.tallies.getD id {}

/-- The results so far, in the order they were sent. -/
def results (state : State) : List JobResult :=
  state.log.filterMap fun entry =>
    match entry with
    | .reported _ _ result => some result
    | _ => none

end State
end Pool
end BulkTransfer
