import BulkTransfer.Calendar
import BulkTransfer.Job
import BulkTransfer.Location.Wildcard
import BulkTransfer.Quantity
import BulkTransfer.Shell.Script
import BulkTransfer.Store.Listing

/-!
# Executing a task

Every operation that is no batch is carried out on the store, on local files or
by a program.  A transfer with `-n` leaves its destination alone if there is one
and says so; a move deletes its source once the data has been transferred.
-/

namespace BulkTransfer

/-- What a task that did not fail has to say. -/
structure Outcome where
  /-- bytes transferred -/
  bytes : Nat := 0
  messages : List String := []
  /-- why the work was not done -/
  warning : Option String := none
deriving DecidableEq, Repr, Inhabited

/-- What tasks are executed with. -/
structure Executor where
  store : Store
  programs : FileTree → Programs := Shell.programs
  shellTimeout : Duration := .ofMilliseconds 600000

namespace Executor

/-!
## Arguments
-/

/-- The location of an argument. -/
def needLocation (task : Task) (index : Nat) : DiskM JobError Location :=
  match task.location? index with
  | some location => pure location
  | none =>
      DiskM.fail (.invalidArguments
        ("argument " ++ toString (index + 1) ++ " is not a storage location"))

/-- The local path in an argument. -/
def needPath (task : Task) (index : Nat) : DiskM JobError String :=
  match task.arguments[index]? with
  | some argument => pure argument.text
  | none => DiskM.fail (.invalidArguments ("missing argument " ++ toString (index + 1)))

/-!
## Transfers
-/

/-- What a transfer says that leaves its destination alone. -/
def skipped : Outcome :=
  { warning := some "object already exists" }

def download (exec : Executor) (task : Task) (cancel : CancelAfter) :
    DiskM JobError Outcome := do
  let source ← needLocation task 0
  let target ← needPath task 1
  let skip ← if task.options.has .ifNotExists then FileCopy.pathExists target else pure false
  if skip then
    return skipped
  else
    let bytes ← exec.store.get source target cancel
    if task.options.has .deleteSource then
      exec.store.delete source
    return { bytes := bytes }

def upload (exec : Executor) (task : Task) (cancel : CancelAfter) :
    DiskM JobError Outcome := do
  let source ← needPath task 0
  let target ← needLocation task 1
  let present ←
    if task.options.has .ifNotExists then exec.store.head target else pure none
  if present.isSome then
    return skipped
  else
    let storage := StorageClass.ofOptions task.options
    let bytes ← exec.store.put source target storage cancel
    if task.options.has .deleteSource then
      FileCopy.delete source
    return { bytes := bytes }

def copy (exec : Executor) (task : Task) (cancel : CancelAfter) :
    DiskM JobError Outcome := do
  let source ← needLocation task 0
  let target ← needLocation task 1
  let present ←
    if task.options.has .ifNotExists then exec.store.head target else pure none
  if present.isSome then
    return skipped
  else
    let storage := StorageClass.ofOptions task.options
    let bytes ← exec.store.copy source target storage cancel
    if task.options.has .deleteSource then
      exec.store.delete source
    return { bytes := bytes }

def localCopy (task : Task) (cancel : CancelAfter) : DiskM JobError Outcome := do
  let source ← needPath task 0
  let target ← needPath task 1
  let skip ← if task.options.has .ifNotExists then FileCopy.pathExists target else pure false
  if skip then
    return skipped
  else
    let bytes ← FileCopy.transfer source target (task.options.has .deleteSource) cancel
    return { bytes := bytes }

/-!
## Deleting many objects
-/

/-- The keys of the arguments from an index on, which must all be in one bucket. -/
def keysInBucket (bucket : String) (index : Nat) :
    List Argument → Except JobError (List String)
  | [] => .ok []
  | argument :: arguments =>
      match argument.location with
      | none =>
          .error (.invalidArguments
            ("argument " ++ toString (index + 1) ++ " is not a storage location"))
      | some location =>
          if location.bucket ≠ bucket then
            .error (.invalidArguments
              ("batch delete spans buckets " ++ bucket ++ " and " ++ location.bucket))
          else (keysInBucket bucket (index + 1) arguments).map (location.key :: ·)

/-- What a deletion of many keys says, or how many of them failed. -/
def deletionOutcome (bucket : String) (outcomes : List (String × Option JobError)) :
    Except JobError Outcome :=
  let failed := (outcomes.filter fun outcome => outcome.2.isSome).length
  if failed = 0 then
    .ok { messages := outcomes.map fun outcome =>
            "Batch-delete s3://" ++ bucket ++ "/" ++ outcome.1 }
  else .error (.partialFailure failed outcomes.length)

def deleteKeys (exec : Executor) (task : Task) : DiskM JobError Outcome := do
  let first ← needLocation task 0
  let keys ← DiskM.ofExcept (keysInBucket first.bucket 0 task.arguments)
  let outcomes ← exec.store.deleteMany first.bucket keys
  DiskM.ofExcept (deletionOutcome first.bucket outcomes)

/-!
## Listings
-/

/-- One line of a listing. -/
def listingLine (date code size shown : String) : String :=
  Text.padLeft 19 ' ' date ++ " " ++ Text.padLeft 1 ' ' code ++ "  " ++
    Text.padLeft 12 ' ' size ++ "  " ++ shown

/-- A number of bytes, for human readers on request. -/
def bytesText (human : Bool) (bytes : Nat) : String :=
  if human then sizeText bytes else toString bytes

/-- A key as a listing shows it: without a directory part in front. -/
def shownKey (directory key : String) : String :=
  String.ofList (Text.dropFront directory.toList key.toList)

def objectLine (human : Bool) (shown : String) (object : ObjectInfo) : String :=
  listingLine (Calendar.dateText object.modified) object.storage.code
    (bytesText human object.size) shown

def directoryLine (shown : String) : String :=
  listingLine "" "" "DIR" shown

/-- The objects that a location stands for, in the order of their keys. -/
def matching (exec : Executor) (location : Location) : DiskM JobError (List ObjectInfo) := do
  DiskM.ofExcept (location.checkSize.mapError fun error => .invalidArguments error.message)
  let listing ← exec.store.list location.bucket location.literalKey false
  return listing.objects.filter fun object => location.accepts object.key

/-- The lines for all objects that a wildcard location stands for. -/
def wildcardLines (exec : Executor) (human : Bool) (location : Location) :
    DiskM JobError (List String) := do
  let objects ← exec.matching location
  let directory := Store.directoryPart location.literalKey
  return objects.map fun object => objectLine human (shownKey directory object.key) object

/-- The lines for a directory, or for the object and the directory of one name. -/
def plainLines (exec : Executor) (human : Bool) (location : Location) :
    DiskM JobError (List String) := do
  let directory := Store.directoryPart location.key
  let name := location.basename
  let listing ← exec.store.list location.bucket location.key true
  let objects := listing.objects.filter fun object =>
    name.isEmpty || shownKey directory object.key == name
  return listing.prefixes.map (fun folded => directoryLine (shownKey directory folded)) ++
    objects.map fun object => objectLine human (shownKey directory object.key) object

def list (exec : Executor) (task : Task) : DiskM JobError Outcome := do
  let location ← needLocation task 0
  let human := task.options.has .humanReadable
  let lines ←
    if location.isWildcard then exec.wildcardLines human location
    else exec.plainLines human location
  return { messages := lines }

def listBuckets (exec : Executor) : DiskM JobError Outcome := do
  let buckets ← exec.store.buckets
  return { messages := buckets.map fun bucket =>
    Calendar.dateText bucket.created ++ "  s3://" ++ bucket.name }

def size (exec : Executor) (task : Task) : DiskM JobError Outcome := do
  let location ← needLocation task 0
  let objects ← exec.matching location
  let total := objects.foldl (fun total object => total + object.size) 0
  let text :=
    bytesText (task.options.has .humanReadable) total ++ " bytes in " ++
      toString objects.length ++ " objects: " ++ location.text
  return { messages := [text] }

/-!
## All operations
-/

/-- Run a program with arguments. -/
def runProgram (exec : Executor) (task : Task) : DiskM JobError Outcome :=
  match task.arguments with
  | [] => DiskM.fail (.invalidArguments "no command given")
  | program :: arguments => do
      let programs ← DiskM.view exec.programs
      let started := programs program.text (arguments.map Argument.text)
      DiskM.goOn (Shell.treeBehind started)
      let lines ← DiskM.ofExcept (Shell.outcomeWithin exec.shellTimeout program.text started)
      return { messages := lines }

/-- Carry out the operation of a task. -/
def perform (exec : Executor) (task : Task) (cancel : CancelAfter) :
    DiskM JobError Outcome :=
  match task.operation with
  | .download => exec.download task cancel
  | .upload => exec.upload task cancel
  | .copy => exec.copy task cancel
  | .delete => do
      exec.store.delete (← needLocation task 0)
      return {}
  | .batchDeleteActual => exec.deleteKeys task
  | .list => exec.list task
  | .listBuckets => exec.listBuckets
  | .size => exec.size task
  | .localCopy => localCopy task cancel
  | .localDelete => do
      FileCopy.delete (← needPath task 0)
      return {}
  | .shellExec => exec.runProgram task
  | .abort => DiskM.fail (.invalidArguments "exit is handled by the scheduler")
  | operation =>
      DiskM.fail (.invalidArguments
        (operation.shownName ++ " must be expanded before execution"))

/-- Execute a task unless it is already cancelled. -/
def execute (exec : Executor) (task : Task) (cancel : CancelAfter) :
    DiskM JobError Outcome :=
  if cancel = some 0 then DiskM.fail .cancelled else exec.perform task cancel

end Executor
end BulkTransfer
