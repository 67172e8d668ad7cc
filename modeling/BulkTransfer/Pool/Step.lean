import BulkTransfer.Pool.State

/-!
# The steps of a worker pool

Every step is one event at one place: the submitter, a worker, a listing, the
task behind a listing or a continuation.  An event that cannot happen in a state
has no step.  Any order of events is a run, so whatever holds for all runs holds
for every schedule.
-/

namespace BulkTransfer
namespace Pool

/-!
## Results
-/

/-- The result of a task that is cancelled. -/
def cancelledResult (item : Queued) (attempts : Nat) : JobResult :=
  { JobResult.ofTask item.task .cancelled with
    error := some "cancelled", attempts := UInt32.ofNat attempts }

/-- The result of a task whose last attempt has an answer. -/
def answeredResult (item : Queued) (attempts : Nat) : Except JobError Outcome → JobResult
  | .ok outcome =>
      { JobResult.ofTask item.task (if outcome.warning.isSome then .warning else .succeeded) with
        error := outcome.warning
        messages := outcome.messages
        attempts := UInt32.ofNat attempts }
  | .error .cancelled => cancelledResult item attempts
  | .error error =>
      { JobResult.ofTask item.task .failed with
        error := some error.message, attempts := UInt32.ofNat attempts }

/-- The result of an exit task. -/
def exitResult (item : Queued) : JobResult :=
  { JobResult.ofTask item.task .succeeded with attempts := 1 }

/-- The result of an entry that is no task. -/
def entryResult (parent : Queued) (error : ExpansionError) : JobResult :=
  { JobResult.ofTask parent.task .failed with error := some error.message, isSubJob := true }

/-- The result of a complete batch. -/
def batchResult (batch : Batch) (cancelled : Bool) : JobResult :=
  { JobResult.ofTask batch.parent.task (batch.group.status cancelled) with
    error := batch.group.listingFault.map ExpansionError.message
    subJobs := some batch.group.tally }

/-- Whether an answer leads to another attempt. -/
def triesAgain (retries : UInt32) (attempt : Nat) : Except JobError Outcome → Bool
  | .ok _ => false
  | .error error => error.isRetryable && attempt ≤ retries.toNat

/-- What is left to do behind a task with a result. -/
def finishing (item : Queued) (result : JobResult) : List Action :=
  let report := Action.report item { result with isSubJob := item.role != .top }
  match item.role with
  | .member batch _ => [report, .tally batch result.status, .release]
  | _ => [report, .settle item result.status, .release]

/-- Count the end of a task in the statistics. -/
def countEnd (stats : Statistics) (operation : Operation) : Status → Statistics
  | .succeeded | .warning => stats.success operation
  | .failed => stats.failure operation
  | .cancelled => stats

/-!
## Actions
-/

namespace State

/-- Count a result for its job, unless it was cancelled, and send it. -/
def report (state : State) (item : Queued) (result : JobResult) : State :=
  let tallies :=
    if result.status = .cancelled then state.tallies
    else
      state.tallies.insert item.id ((state.tallyOf item.id).record result.status.isSuccess)
  let state := { state with tallies := tallies }
  state.write (.reported item.id item.role result)

/-- Queue the continuation for an outcome, unless there is none or the run is
cancelled, and say whether it was queued. -/
def schedule (state : State) (item : Queued) (succeeded : Bool) : State × Bool :=
  match item.job.continuation succeeded with
  | none => (state, false)
  | some next =>
      if state.cancelled then (state, false)
      else
        let queued : Queued :=
          { job := next, id := item.id.next succeeded, recovers := !succeeded }
        ({ state with
            continuations := state.continuations ++ [queued]
            outstanding := state.outstanding + 1 }, true)

/-- Decide what follows a job by itself, and count a failure that nothing recovers
from. -/
def settle (state : State) (item : Queued) (status : Status) : State :=
  match status with
  | .cancelled =>
      if item.recovers then { state with unhandled := state.unhandled + 1 } else state
  | .failed =>
      let (state, queued) := state.schedule item false
      if queued then state else { state with unhandled := state.unhandled + 1 }
  | _ => (state.schedule item true).1

/-- Change one batch. -/
def updateBatch (state : State) (batch : Nat) (f : Batch → Batch) : State :=
  { state with batches := state.batches.modify batch f }

/-- Count a sub-job for its batch; a batch that is complete has to be closed. -/
def tally (state : State) (batch : Nat) (status : Status) : State × List Action :=
  match state.batches[batch]? with
  | none => (state, [])
  | some found =>
      let (group, complete) := found.group.subJobDone status
      (state.updateBatch batch fun found => { found with group := group },
        if complete then [.close batch] else [])

/-- Report a complete batch; then what follows it is decided. -/
def close (state : State) (batch : Nat) : State × List Action :=
  match state.batches[batch]? with
  | none => (state, [])
  | some found =>
      let parent := found.parent
      let result := batchResult found state.cancelled
      let state := { state with stats := countEnd state.stats parent.operation result.status }
      (state.write (.reported parent.id parent.role result),
        [.settle parent result.status, .release])

/-- Do one action; it may bring further ones. -/
def perform (state : State) : Action → State × List Action
  | .report item result => (state.report item result, [])
  | .settle item status => (state.settle item status, [])
  | .tally batch status => state.tally batch status
  | .close batch => state.close batch
  | .release => ({ state with outstanding := state.outstanding - 1 }, [])

/-!
## Workers
-/

/-- Change the phase of one worker. -/
def setWorker (state : State) (worker : Nat) (phase : Phase) : State :=
  { state with workers := state.workers.set worker phase }

/-- A worker turns to the actions that are left. -/
def finish (state : State) (worker : Nat) (actions : List Action) : State :=
  state.setWorker worker (if actions.isEmpty then .idle else .finishing actions)

/-- An idle worker takes the first job of the queue. -/
def take (state : State) (worker : Nat) : Option State :=
  match state.workers[worker]?, state.queue with
  | some .idle, item :: queue =>
      let state := { state with queue := queue }
      some (state.setWorker worker (.holding item))
  | _, _ => none

/-- A worker looks for cancellation before it starts a job. -/
def accept (state : State) (worker : Nat) : Option State :=
  match state.workers[worker]? with
  | some (.holding item) =>
      if state.cancelled then some (state.finish worker (finishing item (cancelledResult item 0)))
      else some (state.setWorker worker (.accepted item))
  | _ => none

/-- A worker starts the job that it has accepted. -/
def start (state : State) (worker : Nat) : Option State :=
  match state.workers[worker]? with
  | some (.accepted item) =>
      let state := { state with stats := state.stats.start item.operation }
      if item.operation = .abort then
        let state :=
          { state with
            exitCode := state.exitCode.or item.task.exitCode?
            stats := state.stats.success item.operation }
        some (state.setWorker worker (.exiting item))
      else if item.operation.isBatch then
        let batch : Batch := { parent := item }
        let state := { state with batches := state.batches ++ [batch] }
        some (state.setWorker worker .idle)
      else
        let state := state.write (.called item)
        some (state.setWorker worker (.attempting item 1))
  | _ => none

/-- An exit job cancels the run. -/
def exit (state : State) (worker : Nat) : Option State :=
  match state.workers[worker]? with
  | some (.exiting item) =>
      let state := { state with cancelled := true }
      some (state.finish worker (finishing item (exitResult item)))
  | _ => none

/-- An attempt has an answer. -/
def answer (state : State) (worker : Nat) (answer : Except JobError Outcome) : Option State :=
  match state.workers[worker]? with
  | some (.attempting item attempt) =>
      if triesAgain state.config.retries attempt answer then
        let state := { state with stats := state.stats.retry }
        some (state.setWorker worker (.waiting item attempt))
      else
        let result := answeredResult item attempt answer
        let state := { state with stats := countEnd state.stats item.operation result.status }
        some (state.finish worker (finishing item result))
  | _ => none

/-- The delay before an attempt ends while the run goes on. -/
def rest (state : State) (worker : Nat) : Option State :=
  match state.workers[worker]? with
  | some (.waiting item attempt) =>
      if state.cancelled then none else some (state.setWorker worker (.rested item attempt))
  | _ => none

/-- The next attempt begins. -/
def retry (state : State) (worker : Nat) : Option State :=
  match state.workers[worker]? with
  | some (.rested item attempt) =>
      let state := state.write (.called item)
      some (state.setWorker worker (.attempting item (attempt + 1)))
  | _ => none

/-- A worker that has no attempt under way finds itself cancelled. -/
def giveUp (state : State) (worker : Nat) : Option State :=
  match state.workers[worker]? with
  | some (.waiting item attempt) | some (.rested item attempt) =>
      if state.cancelled then
        some (state.finish worker (finishing item (cancelledResult item attempt)))
      else none
  | _ => none

/-- A worker does its next action. -/
def act (state : State) (worker : Nat) : Option State :=
  match state.workers[worker]? with
  | some (.finishing (action :: actions)) =>
      let (state, further) := state.perform action
      some (state.finish worker (further ++ actions))
  | _ => none

/-!
## Submitting
-/

/-- The next line is read.  A job takes its place; a line that cannot be read is
counted. -/
def read (state : State) (reading : Except ParseError (Option Job)) : Option State :=
  match state.offered, state.submissions with
  | none, .line line :: submissions =>
      let state := { state with submissions := submissions }
      let state :=
        match reading with
        | .ok (some job) => { state with submissions := .job job :: submissions }
        | .ok none => state
        | .error _ => { state with stats := state.stats.parseFailure }
      some (state.write (.read line reading))
  | _, _ => none

/-- The next job is offered to the queue. -/
def offer (state : State) : Option State :=
  match state.offered, state.submissions with
  | none, .job job :: submissions =>
      let item : Queued := { job := job, id := { submission := state.submitted } }
      some { state with
        submissions := submissions, submitted := state.submitted + 1, offered := some item,
        outstanding := state.outstanding + 1 }
  | _, _ => none

/-- The offered job is queued. -/
def submit (state : State) : Option State :=
  match state.offered with
  | some item =>
      if state.hasRoom then
        some { state with queue := state.queue ++ [item], offered := none }
      else none
  | none => none

/-- Nothing more is submitted to a run that is cancelled. -/
def stopReading (state : State) : Option State :=
  if state.cancelled && state.offered.isNone && !state.submissions.isEmpty then
    some { state with submissions := [] }
  else none

/-- A continuation is queued. -/
def proceed (state : State) (index : Nat) : Option State :=
  match state.continuations[index]? with
  | some item =>
      if state.hasRoom then
        some { state with
          queue := state.queue ++ [item], continuations := state.continuations.eraseIdx index }
      else none
  | none => none

/-!
## Batches
-/

/-- The listing of a batch is called. -/
def list (state : State) (batch : Nat) (expansion : Expansion) : Option State :=
  match state.batches[batch]? with
  | some found =>
      match found.listing with
      | .ready =>
          some ((state.updateBatch batch fun found =>
            { found with
              listing := .sending expansion.items expansion.fault expansion.checksEnd }).write
            (.expanded found.parent))
      | _ => none
  | none => none

/-- A listing sends its next item, or ends behind the last one. -/
def send (state : State) (batch : Nat) : Option State :=
  match state.batches[batch]? with
  | some found =>
      match found.listing with
      | .sending (item :: items) fault checksEnd =>
          if found.channel.length < state.config.queueCapacity then
            some (state.updateBatch batch fun found =>
              { found with
                listing := .sending items fault checksEnd
                channel := found.channel ++ [item] })
          else none
      | .sending [] fault _ =>
          some (state.updateBatch batch fun found => { found with listing := .ended fault })
      | _ => none
  | none => none

/-- A listing finds itself cancelled. -/
def abandon (state : State) (batch : Nat) : Option State :=
  match state.batches[batch]? with
  | some found =>
      match found.listing with
      | .sending _ _ _ =>
          if state.cancelled then
            some (state.updateBatch batch fun found =>
              { found with listing := .ended (some .cancelled) })
          else none
      | _ => none
  | none => none

/-- The sub-job for an item of a batch. -/
def subJob (batch : Nat) (found : Batch) (item : SubTask) : Queued :=
  { job := .ofTask (found.parent.task.derive item.operation item.arguments),
    id := found.parent.id, role := .member batch found.received }

/-- The next item of a batch is received, and counted before anything is done with
it. -/
def receive (state : State) (batch : Nat) : Option State :=
  match state.batches[batch]? with
  | some found =>
      match found.feeding, found.channel with
      | .receiving, .ok item :: channel =>
          let state := { state with outstanding := state.outstanding + 1 }
          some (state.updateBatch batch fun found =>
            { found with
              channel := channel, received := found.received + 1,
              group := found.group.addSubJob
              feeding := .queueing (subJob batch found item) })
      | .receiving, .error error :: channel =>
          let entry : Queued := { found.parent with role := .entry batch found.received }
          some (state.updateBatch batch fun found =>
            { found with
              channel := channel, received := found.received + 1,
              group := found.group.entryFailed
              feeding := .acting [.report entry (entryResult found.parent error)] })
      | _, _ => none
  | none => none

/-- A sub-job is queued. -/
def enqueue (state : State) (batch : Nat) : Option State :=
  match state.batches[batch]? with
  | some found =>
      match found.feeding with
      | .queueing item =>
          if state.hasRoom then
            let state := { state with queue := state.queue ++ [item] }
            some (state.updateBatch batch fun found =>
              { found with feeding := .receiving })
          else none
      | _ => none
  | none => none

/-- All items have been received and the listing has ended. -/
def join (state : State) (batch : Nat) : Option State :=
  match state.batches[batch]? with
  | some found =>
      match found.feeding, found.channel, found.listing with
      | .receiving, [], .ended fault =>
          let (group, complete) := found.group.listingDone fault
          some (state.updateBatch batch fun found =>
            { found with
              group := group
              feeding := .leaving (if complete then [.close batch] else []) })
      | _, _, _ => none
  | none => none

/-- The task behind a listing does its next action. -/
def feed (state : State) (batch : Nat) : Option State :=
  match state.batches[batch]? with
  | some found =>
      match found.feeding with
      | .acting (action :: actions) =>
          let (state, further) := state.perform action
          let left := further ++ actions
          some (state.updateBatch batch fun found =>
            { found with feeding := if left.isEmpty then .receiving else .acting left })
      | .leaving (action :: actions) =>
          let (state, further) := state.perform action
          some (state.updateBatch batch fun found =>
            { found with feeding := .leaving (further ++ actions) })
      | _ => none
  | none => none

end State

/-!
## Events
-/

/-- What can happen next. -/
inductive Event
  /-- the run is cancelled from outside -/
  | cancel
  | read (reading : Except ParseError (Option Job))
  | offer
  | submit
  | stopReading
  | take (worker : Nat)
  | accept (worker : Nat)
  | start (worker : Nat)
  | exit (worker : Nat)
  | answer (worker : Nat) (answer : Except JobError Outcome)
  | rest (worker : Nat)
  | retry (worker : Nat)
  | giveUp (worker : Nat)
  | act (worker : Nat)
  | proceed (index : Nat)
  | list (batch : Nat) (expansion : Expansion)
  | send (batch : Nat)
  | abandon (batch : Nat)
  | receive (batch : Nat)
  | enqueue (batch : Nat)
  | join (batch : Nat)
  | feed (batch : Nat)

namespace State

/-- The state behind an event, if it can happen. -/
def step (state : State) : Event → Option State
  | .cancel => some { state with cancelled := true }
  | .read reading => state.read reading
  | .offer => state.offer
  | .submit => state.submit
  | .stopReading => state.stopReading
  | .take worker => state.take worker
  | .accept worker => state.accept worker
  | .start worker => state.start worker
  | .exit worker => state.exit worker
  | .answer worker answer => state.answer worker answer
  | .rest worker => state.rest worker
  | .retry worker => state.retry worker
  | .giveUp worker => state.giveUp worker
  | .act worker => state.act worker
  | .proceed index => state.proceed index
  | .list batch expansion => state.list batch expansion
  | .send batch => state.send batch
  | .abandon batch => state.abandon batch
  | .receive batch => state.receive batch
  | .enqueue batch => state.enqueue batch
  | .join batch => state.join batch
  | .feed batch => state.feed batch

/-- The state behind a sequence of events. -/
def run (state : State) : List Event → Option State
  | [] => some state
  | event :: events => (state.step event).bind fun next => next.run events

@[simp] theorem run_nil (state : State) : state.run [] = some state := rfl

theorem run_cons (state : State) (event : Event) (events : List Event) :
    state.run (event :: events) = (state.step event).bind fun next => next.run events := rfl

theorem run_append (state : State) (events events' : List Event) :
    state.run (events ++ events') = (state.run events).bind fun next => next.run events' := by
  induction events generalizing state with
  | nil => rfl
  | cons event events ih =>
      rw [List.cons_append, run_cons, run_cons, Option.bind_assoc]
      cases state.step event with
      | none => rfl
      | some next => exact ih next

end State
end Pool
end BulkTransfer
