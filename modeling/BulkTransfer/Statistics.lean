import BulkTransfer.Operation

/-!
# Run statistics

Every operation has three counters: jobs started, succeeded and failed.  Retries
and lines that did not parse are counted for the whole run.  All counters count
modulo 2^64.
-/

namespace BulkTransfer

/-- The counters of one operation. -/
structure OperationCounts where
  total : UInt64 := 0
  success : UInt64 := 0
  error : UInt64 := 0
deriving DecidableEq, Repr, Inhabited

/-- The counters of a run. -/
structure Statistics where
  counts : Operation → OperationCounts := fun _ => {}
  retries : UInt64 := 0
  parseFailures : UInt64 := 0
deriving Inhabited

namespace Statistics

def empty : Statistics := {}

/-- Change the counters of one operation. -/
def update (stats : Statistics) (operation : Operation)
    (f : OperationCounts → OperationCounts) : Statistics :=
  let before := stats.counts
  let changed := f (before operation)
  { stats with counts := fun other => if other = operation then changed else before other }

/-- A job started its first attempt. -/
def start (stats : Statistics) (operation : Operation) : Statistics :=
  stats.update operation fun counts => { counts with total := counts.total + 1 }

def success (stats : Statistics) (operation : Operation) : Statistics :=
  stats.update operation fun counts => { counts with success := counts.success + 1 }

def failure (stats : Statistics) (operation : Operation) : Statistics :=
  stats.update operation fun counts => { counts with error := counts.error + 1 }

def retry (stats : Statistics) : Statistics :=
  { stats with retries := stats.retries + 1 }

def parseFailure (stats : Statistics) : Statistics :=
  { stats with parseFailures := stats.parseFailures + 1 }

end Statistics

/-- The counters of one operation in a snapshot. -/
structure SnapshotEntry where
  operation : Operation
  counts : OperationCounts
deriving DecidableEq, Repr, Inhabited

namespace SnapshotEntry

/-- Finished jobs per second, as a double-precision number. -/
def perSecond (entry : SnapshotEntry) (milliseconds : UInt64) : Float :=
  if milliseconds == 0 then 0
  else (entry.counts.success + entry.counts.error).toFloat * 1000 / milliseconds.toFloat

end SnapshotEntry

/-- The statistics at a moment. -/
structure Snapshot where
  entries : List SnapshotEntry
  retries : UInt64
  parseFailures : UInt64
  milliseconds : UInt64
deriving DecidableEq, Repr, Inhabited

namespace Statistics

/-- The counters of all operations in their order. -/
def snapshot (stats : Statistics) (milliseconds : UInt64) : Snapshot :=
  { entries := Operation.all.map fun operation =>
      { operation := operation, counts := stats.counts operation },
    retries := stats.retries, parseFailures := stats.parseFailures,
    milliseconds := milliseconds }

end Statistics

namespace Snapshot

/-- The entry of an operation. -/
def get? (snapshot : Snapshot) (operation : Operation) : Option SnapshotEntry :=
  snapshot.entries.find? fun entry => entry.operation == operation

/-- The operations that ran at least once. -/
def active (snapshot : Snapshot) : List SnapshotEntry :=
  snapshot.entries.filter fun entry => entry.counts.total != 0

def totalSuccess (snapshot : Snapshot) : UInt64 :=
  snapshot.entries.foldl (fun total entry => total + entry.counts.success) 0

/-- Failed jobs and lines that did not parse. -/
def totalFailures (snapshot : Snapshot) : UInt64 :=
  snapshot.entries.foldl (fun total entry => total + entry.counts.error) 0 +
    snapshot.parseFailures

end Snapshot

namespace Statistics

theorem counts_update (stats : Statistics) (operation other : Operation)
    (f : OperationCounts → OperationCounts) :
    (stats.update operation f).counts other =
      if other = operation then f (stats.counts other) else stats.counts other := by
  simp only [update]
  split <;> simp_all

@[simp] theorem counts_start (stats : Statistics) (operation other : Operation) :
    (stats.start operation).counts other =
      if other = operation then { stats.counts other with total := (stats.counts other).total + 1 }
      else stats.counts other :=
  counts_update ..

@[simp] theorem counts_success (stats : Statistics) (operation other : Operation) :
    (stats.success operation).counts other =
      if other = operation then
        { stats.counts other with success := (stats.counts other).success + 1 }
      else stats.counts other :=
  counts_update ..

@[simp] theorem counts_failure (stats : Statistics) (operation other : Operation) :
    (stats.failure operation).counts other =
      if other = operation then { stats.counts other with error := (stats.counts other).error + 1 }
      else stats.counts other :=
  counts_update ..

end Statistics
end BulkTransfer
