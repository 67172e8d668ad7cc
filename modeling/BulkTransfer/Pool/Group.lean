import BulkTransfer.Expansion
import BulkTransfer.JobResult

/-!
# Completion of a batch

A group counts what a batch still waits for: its sub-jobs under way, and its
listing while that runs.  The batch is complete when the count reaches zero, and
whoever brings it there is told so.
-/

namespace BulkTransfer
namespace Pool

/-- The tallies of a batch and what it still waits for. -/
structure Group where
  pending : Nat := 1
  tally : Tally := {}
  cancelled : UInt32 := 0
  listingFault : Option ExpansionError := none
deriving DecidableEq, Repr, Inhabited

namespace Group

/-- One more sub-job is under way. -/
def addSubJob (group : Group) : Group :=
  { group with pending := group.pending + 1 }

/-- Count how a sub-job ended. -/
def count (group : Group) : Status → Group
  | .succeeded | .warning => { group with tally := group.tally.record true }
  | .failed => { group with tally := group.tally.record false }
  | .cancelled => { group with cancelled := group.cancelled + 1 }

/-- One thing less to wait for, and whether nothing is left. -/
def finishOne (group : Group) : Group × Bool :=
  let group := { group with pending := group.pending - 1 }
  (group, group.pending == 0)

/-- A sub-job has ended. -/
def subJobDone (group : Group) (status : Status) : Group × Bool :=
  (group.count status).finishOne

/-- An entry never became a sub-job. -/
def entryFailed (group : Group) : Group :=
  { group with tally := group.tally.record false }

/-- The listing has ended. -/
def listingDone (group : Group) (fault : Option ExpansionError) : Group × Bool :=
  { group with listingFault := fault }.finishOne

/-- How a complete batch ends. -/
def status (group : Group) (cancelled : Bool) : Status :=
  match group.listingFault with
  | some .cancelled => .cancelled
  | some _ => .failed
  | none =>
      if group.tally.failed != 0 then .failed
      else if cancelled && group.cancelled != 0 then .cancelled
      else .succeeded

end Group
end Pool
end BulkTransfer
