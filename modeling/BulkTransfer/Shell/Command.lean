import BulkTransfer.FileSystem.Tree
import BulkTransfer.JobError
import BulkTransfer.Pool.Config
import BulkTransfer.Text.Blank
import BulkTransfer.Text.Lines
import BulkTransfer.Text.Lossy

/-!
# Running a program

A shell job runs one program with its arguments.  Its output lines become the
messages of the job.  A program that ends with an error, by a signal or not in
time fails the job; what it wrote to its error stream is part of the message.
-/

namespace BulkTransfer

/-- How a program ends. -/
inductive Ending
  | exit (code : Nat)
  | signal
deriving DecidableEq, Repr, Inhabited

/-- What a program does when it is run to its end. -/
structure ProgramRun where
  output : ByteArray
  errors : ByteArray
  ending : Ending
  /-- how long it takes -/
  milliseconds : Nat := 0
  /-- the tree that it leaves, if it changes anything -/
  after : Option FileTree := none
deriving Inhabited

/-- Starting a program by its name and arguments. -/
abbrev Programs := String → List String → Except IoError ProgramRun

namespace Shell

/-- The text behind a program's name in the message of its failure. -/
def failureText (run : ProgramRun) (status : String) : String :=
  let detail := String.ofList (Text.trim (Text.ofBytes run.errors).toList)
  if detail.isEmpty then status else status ++ ": " ++ detail

/-- The output lines of a finished program, or its failure. -/
def outcome (program : String) (run : ProgramRun) : Except JobError (List String) :=
  match run.ending with
  | .exit code =>
      if code = 0 then .ok (Text.lines (Text.ofBytes run.output))
      else
        .error (.commandFailed
          (program ++ ": " ++ failureText run ("exit status " ++ toString code)))
  | .signal =>
      .error (.commandFailed (program ++ ": " ++ failureText run "terminated by signal"))

/-- The output lines of a program that has been given a time, or its failure. -/
def outcomeWithin (timeout : Duration) (program : String) :
    Except IoError ProgramRun → Except JobError (List String)
  | .error error => .error (.commandFailed (program ++ ": " ++ error.message))
  | .ok run =>
      if timeout.nanoseconds ≤ run.milliseconds * 1000000 then
        .error (.timeout timeout.milliseconds)
      else outcome program run

/-- Run a program for at most a given time. -/
def run (programs : Programs) (timeout : Duration) (program : String)
    (arguments : List String) : Except JobError (List String) :=
  outcomeWithin timeout program (programs program arguments)

/-- The tree behind a run, if the run changes anything. -/
def treeBehind : Except IoError ProgramRun → Option FileTree
  | .ok run => run.after
  | .error _ => none

end Shell
end BulkTransfer
