import BulkTransfer.JobResult
import BulkTransfer.Json.Reader
import BulkTransfer.Statistics

/-!
# Domain values as records

A value with named fields is written as an object with its fields in a fixed
order; fields without content are left out where the table of the value says so.
A reader accepts the fields in any order and skips unknown ones, refuses a field
that comes twice, and also accepts an array with the fields in their fixed order.
-/

namespace BulkTransfer
namespace Record

/-!
## Fields
-/

/-- The value of the only member with a name, nothing if there is none; refused if
there are several. -/
def member? (members : List (String × Json)) (name : String) : Option (Option Json) :=
  match members.filter fun member => member.1 == name with
  | [] => some none
  | [member] => some (some member.2)
  | _ => none

/-- The members of an object whose names are all texts. -/
def named? : List (Option String × Json) → Option (List (String × Json))
  | [] => some []
  | (some name, value) :: members => (named? members).map ((name, value) :: ·)
  | (none, _) :: _ => none

/-- The fields of a value in their fixed order, each with its value if present. -/
def fields? (names : List String) : Json → Option (List (Option Json))
  | .object members => (named? members).bind fun members => names.mapM (member? members)
  | .array items =>
      if items.length ≤ names.length then
        some (items.map some ++ List.replicate (names.length - items.length) none)
      else none
  | _ => none

/-- A field that must be there. -/
def required {α : Type} (decode : Json → Option α) (field : Option Json) : Option α :=
  field.bind decode

/-- A field with a value in case it is missing. -/
def defaulted {α : Type} (default : α) (decode : Json → Option α) :
    Option Json → Option α
  | some value => decode value
  | none => some default

/-- A value or null. -/
def nullable {α : Type} (decode : Json → Option α) : Json → Option (Option α)
  | .null => some none
  | value => (decode value).map some

/-- A field that may be missing or null. -/
def optional {α : Type} (decode : Json → Option α) (field : Option Json) :
    Option (Option α) :=
  defaulted none (nullable decode) field

/-!
## Simple values
-/

def text? : Json → Option String
  | .text value => some value
  | _ => none

def bool? : Json → Option Bool
  | .bool value => some value
  | _ => none

/-- A natural number up to a bound. -/
def natural? (most : Nat) : Json → Option Nat
  | .natural value => if value ≤ most then some value else none
  | _ => none

def byte? (value : Json) : Option UInt8 :=
  (natural? (UInt8.size - 1) value).map UInt8.ofNat

def count32? (value : Json) : Option UInt32 :=
  (natural? (UInt32.size - 1) value).map UInt32.ofNat

def count64? (value : Json) : Option UInt64 :=
  (natural? (UInt64.size - 1) value).map UInt64.ofNat

/-- An array of values. -/
def list? {α : Type} (decode : Json → Option α) : Json → Option (List α)
  | .array items => items.mapM decode
  | _ => none

/-- One of a set of names, also written as an object with that name and null. -/
def name? {α : Type} (ofName? : String → Option α) : Json → Option α
  | .text name => ofName? name
  | .object [(some name, .null)] => ofName? name
  | _ => none

/-!
## Small domain values
-/

def ofOperation (operation : Operation) : Json :=
  .text operation.name

def operation? : Json → Option Operation :=
  name? Operation.ofName?

def ofFlag (flag : Flag) : Json :=
  .text flag.name

def flag? : Json → Option Flag :=
  name? fun name => Flag.all.find? fun flag => flag.name == name

def ofStatus (status : Status) : Json :=
  .text status.name

def status? : Json → Option Status :=
  name? Status.ofName?

def ofOptions (options : Options) : Json :=
  .natural options.bits.toNat

def options? (value : Json) : Option Options :=
  (byte? value).map Options.mk

/-!
## Locations and arguments
-/

def ofLocation (location : Location) : Json :=
  .record [("bucket", .text location.bucket), ("key", .text location.key)]

def location? (value : Json) : Option Location :=
  match fields? ["bucket", "key"] value with
  | some [bucket, key] => do
      return { bucket := ← required text? bucket, key := ← required text? key }
  | _ => none

def ofArgument (argument : Argument) : Json :=
  .record (("text", .text argument.text) ::
    (argument.location.map fun location => ("location", ofLocation location)).toList)

def argument? (value : Json) : Option Argument :=
  match fields? ["text", "location"] value with
  | some [text, location] => do
      return { text := ← required text? text, location := ← optional location? location }
  | _ => none

/-!
## Results
-/

def ofTally (tally : Tally) : Json :=
  .record [("succeeded", .natural tally.succeeded.toNat),
    ("failed", .natural tally.failed.toNat)]

def tally? (value : Json) : Option Tally :=
  match fields? ["succeeded", "failed"] value with
  | some [succeeded, failed] => do
      return { succeeded := ← required count32? succeeded,
               failed := ← required count32? failed }
  | _ => none

/-- The fields of a result, in order. -/
def resultFields : List String :=
  ["source_description", "job", "operation", "status", "error", "messages", "sub_jobs",
    "is_sub_job", "attempts"]

/-- A result without its empty fields; the number of attempts is always written. -/
def ofResult (result : JobResult) : Json :=
  .record ([("source_description", .text result.source), ("job", .text result.job),
      ("operation", ofOperation result.operation), ("status", ofStatus result.status)] ++
    (result.error.map fun error => ("error", Json.text error)).toList ++
    (if result.messages.isEmpty then []
      else [("messages", .array (result.messages.map Json.text))]) ++
    (result.subJobs.map fun tally => ("sub_jobs", ofTally tally)).toList ++
    (if result.isSubJob then [("is_sub_job", .bool true)] else []) ++
    [("attempts", .natural result.attempts.toNat)])

def result? (value : Json) : Option JobResult :=
  match fields? resultFields value with
  | some [source, job, operation, status, error, messages, subJobs, isSubJob, attempts] => do
      return {
        source := ← required text? source
        job := ← required text? job
        operation := ← required operation? operation
        status := ← required status? status
        error := ← optional text? error
        messages := ← defaulted [] (list? text?) messages
        subJobs := ← optional tally? subJobs
        isSubJob := ← defaulted false bool? isSubJob
        attempts := ← defaulted 0 count32? attempts }
  | _ => none

/-!
## Snapshots
-/

def ofEntry (entry : SnapshotEntry) : Json :=
  .record [("operation", ofOperation entry.operation),
    ("total", .natural entry.counts.total.toNat),
    ("success", .natural entry.counts.success.toNat),
    ("error", .natural entry.counts.error.toNat)]

def entry? (value : Json) : Option SnapshotEntry :=
  match fields? ["operation", "total", "success", "error"] value with
  | some [operation, total, success, error] => do
      let counts : OperationCounts :=
        { total := ← required count64? total, success := ← required count64? success,
          error := ← required count64? error }
      return { operation := ← required operation? operation, counts := counts }
  | _ => none

def ofSnapshot (snapshot : Snapshot) : Json :=
  .record [("operations", .array (snapshot.entries.map ofEntry)),
    ("retries", .natural snapshot.retries.toNat),
    ("parse_failures", .natural snapshot.parseFailures.toNat),
    ("elapsed_ms", .natural snapshot.milliseconds.toNat)]

def snapshot? (value : Json) : Option Snapshot :=
  match fields? ["operations", "retries", "parse_failures", "elapsed_ms"] value with
  | some [entries, retries, parseFailures, milliseconds] => do
      return {
        entries := ← required (list? entry?) entries
        retries := ← required count64? retries
        parseFailures := ← required count64? parseFailures
        milliseconds := ← required count64? milliseconds }
  | _ => none

end Record
end BulkTransfer
