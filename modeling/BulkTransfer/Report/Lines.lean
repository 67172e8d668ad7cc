import BulkTransfer.Job.Parse
import BulkTransfer.Quantity
import BulkTransfer.Record
import BulkTransfer.Report.Message

/-!
# Output lines

Results are reported as text lines for users or as one JSON object per job.  In
text, messages and sub-jobs are indented, a batch shows its counts, and a
cancelled job appears only on request.
-/

namespace BulkTransfer
namespace Report

/-- The form of reports. -/
inductive Format
  | text
  | json
deriving DecidableEq, Repr, Inhabited

namespace Format

def ofName? (name : String) : Option Format :=
  if name = "text" then some text else if name = "json" then some json else none

end Format

/-- How results are shown. -/
structure Style where
  format : Format := .text
  /-- show cancelled jobs in text -/
  verbose : Bool := false
deriving DecidableEq, Repr, Inhabited

/-- What lines start with that belong to a job. -/
def indent : String :=
  String.ofList (List.replicate 19 ' ')

/-- The counts of a batch in parentheses, nothing if there are none. -/
def countsText (tally : Tally) : String :=
  if tally.succeeded = 0 ∧ tally.failed = 0 then ""
  else if tally.failed = 0 then " (" ++ toString tally.succeeded.toNat ++ ")"
  else if tally.succeeded = 0 then " (" ++ toString tally.failed.toNat ++ " failed)"
  else
    " (" ++ toString tally.succeeded.toNat ++ ", " ++ toString tally.failed.toNat ++ " failed)"

/-- A text between quotes, as it is. -/
def quoted (text : String) : String :=
  "\"" ++ text ++ "\""

/-- The line of a sub-job that was not cancelled. -/
def subJobLine? (result : JobResult) (error : String) : Option String :=
  match result.status with
  | .succeeded =>
      if result.operation.isInternal then none
      else some (indent ++ " + " ++ quoted result.job)
  | .warning => some (indent ++ " ? " ++ quoted result.job ++ ": " ++ error)
  | _ => some (indent ++ " - " ++ quoted result.job ++ ": " ++ error)

/-- The line of a job of its own that was not cancelled. -/
def jobLine? (result : JobResult) (error : String) : Option String :=
  match result.status, result.subJobs, result.error with
  | .warning, _, _ => some ("+OK? " ++ quoted result.job ++ ": " ++ error)
  | .succeeded, tally, noError =>
      if result.operation.isInternal then none
      else
        match tally, noError with
        | some tally, none => some ("+OK " ++ quoted result.job ++ countsText tally)
        | _, _ => some ("+OK " ++ quoted result.job)
  | _, some tally, none => some ("+OK " ++ quoted result.job ++ countsText tally)
  | _, _, _ => some ("-ERR " ++ quoted result.job ++ ": " ++ error)

/-- The line that says how a job ended, if one is shown. -/
def statusLine? (verbose : Bool) (result : JobResult) : Option String :=
  let error := (result.error.map oneLine).getD ""
  match result.status with
  | .cancelled =>
      if verbose then some ("-ERR " ++ quoted result.job ++ ": cancelled") else none
  | _ => if result.isSubJob then subJobLine? result error else jobLine? result error

/-- The text lines of a result. -/
def textLines (verbose : Bool) (result : JobResult) : List String :=
  result.messages.map (fun message => indent ++ " + " ++ message) ++
    (statusLine? verbose result).toList

/-- The lines of a result. -/
def lines (style : Style) (result : JobResult) : List String :=
  match style.format with
  | .text => textLines style.verbose result
  | .json => [(Record.ofResult result).print]

/-- The line for an input line that is no job. -/
def parseErrorLine (style : Style) (line : String) (error : ParseError) : String :=
  match style.format with
  | .text => "-ERR " ++ quoted line ++ ": " ++ oneLine error.message
  | .json =>
      (Json.record [("error", .text error.message), ("parse_error", .bool true),
        ("source_description", .text line), ("status", Record.ofStatus .failed)]).print

/-!
## Statistics
-/

/-- How many there were per second, to the nearest integer. -/
def rate (count milliseconds : UInt64) : Nat :=
  let seconds := if milliseconds == 0 then 1 else milliseconds.toFloat / 1000
  (count.toFloat / seconds).round.toUInt64.toNat

/-- One line of statistics. -/
def statisticsLine (milliseconds : UInt64) (name : String) (count : UInt64)
    (behind : String) : String :=
  "# Stats: " ++ Text.padRight 7 ' ' name ++ " " ++
    Text.padLeft 10 ' ' (toString count.toNat) ++ " " ++
    Text.padLeft 4 ' ' (toString (rate count milliseconds)) ++ " ops/sec" ++ behind

/-- The lines of a snapshot; counters at zero are left out. -/
def statisticsLines (snapshot : Snapshot) : List String :=
  let line := statisticsLine snapshot.milliseconds
  let failures := snapshot.totalFailures
  let total := snapshot.totalSuccess + failures
  let succeeded := snapshot.active.filter fun entry => entry.counts.success != 0
  succeeded.map (fun entry => line entry.operation.shownName entry.counts.success "") ++
    (if snapshot.retries = 0 then [] else [line "Retried" snapshot.retries ""]) ++
    (if failures = 0 then [] else [line "Failed" failures ""]) ++
    (if total = 0 then []
      else [line "Total" total (" " ++ elapsedText snapshot.milliseconds.toNat)])

end Report
end BulkTransfer
