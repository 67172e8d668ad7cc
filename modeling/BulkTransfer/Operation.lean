/-!
# Operations and option flags

An operation says what a job does once it runs.  A batch operation fans out
into jobs with one of the other operations.  Options are a set of flags kept as
bits; all but the first flag can be written in front of a command's arguments.
-/

namespace BulkTransfer

/-- What a job does. -/
inductive Operation
  | abort
  | download
  | batchDownload
  | upload
  | batchUpload
  | copy
  | batchCopy
  | delete
  | batchDelete
  | batchDeleteActual
  | list
  | listBuckets
  | size
  | localCopy
  | batchLocalCopy
  | localDelete
  | shellExec
deriving DecidableEq, Repr, Inhabited

/-- A single option of a job. -/
inductive Flag
  | deleteSource
  | ifNotExists
  | parents
  | reducedRedundancy
  | infrequentAccess
  | humanReadable
deriving DecidableEq, Repr, Inhabited

/-!
## Flags
-/

namespace Flag

/-- Every flag, in order of its bit. -/
def all : List Flag :=
  [deleteSource, ifNotExists, parents, reducedRedundancy, infrequentAccess, humanReadable]

/-- The position of a flag's bit. -/
def index : Flag → Nat
  | deleteSource => 0
  | ifNotExists => 1
  | parents => 2
  | reducedRedundancy => 3
  | infrequentAccess => 4
  | humanReadable => 5

def name : Flag → String
  | deleteSource => "delete-source"
  | ifNotExists => "if-not-exists"
  | parents => "parents"
  | reducedRedundancy => "reduced-redundancy"
  | infrequentAccess => "infrequent-access"
  | humanReadable => "human-readable"

/-- How a flag is written in a command, if it can be. -/
def spelling : Flag → Option String
  | deleteSource => none
  | ifNotExists => some "-n"
  | parents => some "--parents"
  | reducedRedundancy => some "-rr"
  | infrequentAccess => some "-ia"
  | humanReadable => some "-H"

/-- The bit of a flag. -/
def bit (flag : Flag) : UInt8 :=
  1 <<< flag.index.toUInt8

end Flag

/-- A set of flags. -/
structure Options where
  bits : UInt8
deriving DecidableEq, Repr, Inhabited

namespace Options

def none : Options := ⟨0⟩

/-- Add a flag. -/
def insert (options : Options) (flag : Flag) : Options :=
  ⟨options.bits ||| flag.bit⟩

/-- Whether a flag is set. -/
def has (options : Options) (flag : Flag) : Bool :=
  options.bits &&& flag.bit != 0

def isEmpty (options : Options) : Bool :=
  options.bits == 0

def ofList (flags : List Flag) : Options :=
  flags.foldl insert none

def toList (options : Options) : List Flag :=
  Flag.all.filter options.has

/-- The flags that are written, as they are written. -/
def spellings (options : Options) : List String :=
  options.toList.filterMap Flag.spelling

end Options

/-!
## Operations
-/

namespace Operation

/-- Every operation, in the order of its index. -/
def all : List Operation :=
  [abort, download, batchDownload, upload, batchUpload, copy, batchCopy, delete,
    batchDelete, batchDeleteActual, list, listBuckets, size, localCopy, batchLocalCopy,
    localDelete, shellExec]

def index : Operation → Nat
  | abort => 0
  | download => 1
  | batchDownload => 2
  | upload => 3
  | batchUpload => 4
  | copy => 5
  | batchCopy => 6
  | delete => 7
  | batchDelete => 8
  | batchDeleteActual => 9
  | list => 10
  | listBuckets => 11
  | size => 12
  | localCopy => 13
  | batchLocalCopy => 14
  | localDelete => 15
  | shellExec => 16

/-- The name in records. -/
def name : Operation → String
  | abort => "abort"
  | download => "download"
  | batchDownload => "batch-download"
  | upload => "upload"
  | batchUpload => "batch-upload"
  | copy => "copy"
  | batchCopy => "batch-copy"
  | delete => "delete"
  | batchDelete => "batch-delete"
  | batchDeleteActual => "batch-delete-actual"
  | list => "list"
  | listBuckets => "list-buckets"
  | size => "size"
  | localCopy => "local-copy"
  | batchLocalCopy => "batch-local-copy"
  | localDelete => "local-delete"
  | shellExec => "shell-exec"

/-- The name shown to users; listings go by their command. -/
def shownName : Operation → String
  | list => "ls"
  | listBuckets => "ls-buckets"
  | size => "du"
  | operation => operation.name

def ofName? (name : String) : Option Operation :=
  all.find? fun operation => operation.name == name

/-- Whether the operation fans out into other jobs. -/
def isBatch : Operation → Bool
  | batchDownload | batchUpload | batchCopy | batchDelete | batchLocalCopy => true
  | _ => false

/-- Whether a success is kept out of text reports. -/
def isInternal (operation : Operation) : Bool :=
  operation == batchDeleteActual

/-- The flags that may be written in front of the arguments. -/
def acceptedFlags : Operation → List Flag
  | download | localCopy => [.ifNotExists]
  | upload | copy => [.ifNotExists, .reducedRedundancy, .infrequentAccess]
  | batchDownload | batchLocalCopy => [.ifNotExists, .parents]
  | batchUpload | batchCopy =>
      [.ifNotExists, .parents, .reducedRedundancy, .infrequentAccess]
  | list | size => [.humanReadable]
  | _ => []

/-- A heading for users; a transfer that removes its source has its own. -/
def describe (operation : Operation) (options : Options) : String :=
  let moves := options.has .deleteSource
  match operation with
  | abort => "Exit program"
  | download =>
      if moves then "Download from storage and delete source objects"
      else "Download from storage"
  | batchDownload =>
      if moves then "Batch download from storage and delete source objects"
      else "Batch download from storage"
  | upload =>
      if moves then "Upload to storage and delete source files" else "Upload to storage"
  | batchUpload =>
      if moves then "Batch upload to storage and delete source files"
      else "Batch upload to storage"
  | copy => if moves then "Move storage object" else "Copy storage object"
  | batchCopy =>
      if moves then "Batch move storage objects" else "Batch copy storage objects"
  | delete => "Delete from storage"
  | batchDelete | batchDeleteActual => "Batch delete from storage"
  | list => "List objects"
  | listBuckets => "List buckets"
  | size => "Count objects and size"
  | localCopy => if moves then "Move local files" else "Copy local files"
  | batchLocalCopy =>
      if moves then "Batch move local files" else "Batch copy local files"
  | localDelete => "Delete local files"
  | shellExec => "Arbitrary shell-execute"

theorem all_complete (operation : Operation) : operation ∈ all := by
  cases operation <;> decide

theorem getElem?_all_index (operation : Operation) :
    all[operation.index]? = some operation := by
  cases operation <;> rfl

end Operation
end BulkTransfer
