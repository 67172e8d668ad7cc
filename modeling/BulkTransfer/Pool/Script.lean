import BulkTransfer.Pool.Schedule

/-!
# Runs after a script

A script says beforehand what comes of each job, which it knows by its canonical
text.  The answers for a job are used up one after the other; behind the last one
a lasting error holds, or else the job succeeds without having done anything.
-/

namespace BulkTransfer
namespace Pool

/-- What is to come of the jobs of a run. -/
structure Script where
  answers : List (String × Except JobError Outcome) := []
  lasting : List (String × JobError) := []
  expansions : List (String × Expansion) := []

namespace Script

/-- The next answer for a job, and what is left of the script. -/
def answer (script : Script) (job : String) : Except JobError Outcome × Script :=
  match script.answers.find? fun entry => entry.1 == job with
  | some (_, answer) =>
      (answer, { script with answers := script.answers.eraseP fun entry => entry.1 == job })
  | none =>
      match script.lasting.lookup job with
      | some error => (.error error, script)
      | none => (.ok {}, script)

/-- The expansion of a batch; one without a script is empty. -/
def expansion (script : Script) (job : String) : Expansion :=
  (script.expansions.lookup job).getD {}

/-- Surroundings that do what the script says. -/
def surroundings (attemptTime : Nat) : Surroundings Script where
  attemptTime := attemptTime
  execute := fun task script => script.answer task.text
  expand := fun task script => script.expansion task.text

end Script
end Pool
end BulkTransfer
