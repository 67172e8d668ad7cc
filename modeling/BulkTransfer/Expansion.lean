import BulkTransfer.JobError
import BulkTransfer.Job

/-!
# Expansions

A batch stands for a list of tasks.  Its expansion gives them one after the
other, with an error in the place of an entry that cannot become a task, and then
ends, by itself or with an error.
-/

namespace BulkTransfer

/-- One task that a batch stands for. -/
structure SubTask where
  operation : Operation
  arguments : List Argument
deriving DecidableEq, Repr, Inhabited

/-- What an expansion gives. -/
structure Expansion where
  items : List (Except ExpansionError SubTask) := []
  /-- the error that it ends with -/
  fault : Option ExpansionError := none
  /-- whether it looks for cancellation once more before it ends -/
  checksEnd : Bool := false
deriving Inhabited

namespace Expansion

/-- An expansion that fails before its first item. -/
def failed (error : ExpansionError) : Expansion :=
  { fault := some error }

/-- What is left of an expansion that is cancelled from the start. -/
def cancelled (expansion : Expansion) : Expansion :=
  if expansion.items.isEmpty && !expansion.checksEnd then expansion
  else failed .cancelled

end Expansion
end BulkTransfer
