import BulkTransfer.Argument
import BulkTransfer.Command.Kind
import BulkTransfer.FileSystem.Access
import BulkTransfer.Glob.Pattern

/-!
# Checking one argument

A word is checked against the kind of its place and rewritten: a location gets
its canonical text, an existing directory a slash at its end, and a destination
that is a directory takes over the basename of the reference, which is the first
object or file among the arguments in front of it.
-/

namespace BulkTransfer

/-- Why a word was refused. -/
inductive ValidationError
  | notAStorageUrl
  | missingBucket
  | wildcardInBucket
  | wildcardForbidden
  | wildcardRequired
  | emptyKey
  | trailingSlashForbidden
  | mustEndInSlash
  | resemblesStorageUrl
  | containsGlobCharacters
  | isADirectory
  | notADirectory
  | statFailed (path : String) (error : IoError)
  | notAGlob
  | invalidGlobPattern (error : Glob.PatternError)
deriving DecidableEq, Repr

namespace ValidationError

def message : ValidationError → String
  | notAStorageUrl => "storage url should start with s3://"
  | missingBucket => "storage url should have a bucket"
  | wildcardInBucket => "bucket name cannot contain wildcards"
  | wildcardForbidden => "storage key cannot contain wildcards"
  | wildcardRequired => "storage key should contain wildcards"
  | emptyKey => "storage key should not be empty"
  | trailingSlashForbidden => "storage key should not end with /"
  | mustEndInSlash => "storage dir should end with /"
  | resemblesStorageUrl => "file param resembles storage url"
  | containsGlobCharacters => "param should not contain glob characters"
  | isADirectory => "file param should not be a directory"
  | notADirectory => "dir param can not be a file"
  | statFailed path error => "could not stat " ++ path ++ ": " ++ error.message
  | notAGlob => "param does not look like a glob"
  | invalidGlobPattern error => "invalid glob pattern: " ++ error.message

/-- A stable code for the cause. -/
def reason : ValidationError → String
  | notAStorageUrl => "not-a-storage-url"
  | missingBucket => "missing-bucket"
  | wildcardInBucket => "wildcard-in-bucket"
  | wildcardForbidden => "wildcard-forbidden"
  | wildcardRequired => "wildcard-required"
  | emptyKey => "empty-key"
  | trailingSlashForbidden => "trailing-slash-forbidden"
  | mustEndInSlash => "must-end-in-slash"
  | resemblesStorageUrl => "resembles-storage-url"
  | containsGlobCharacters => "contains-glob-characters"
  | isADirectory => "is-a-directory"
  | notADirectory => "not-a-directory"
  | statFailed _ _ => "stat-failed"
  | notAGlob => "not-a-glob"
  | invalidGlobPattern _ => "invalid-glob-pattern"

def ofLocationError : LocationError → ValidationError
  | .notStorageUrl => notAStorageUrl
  | .missingBucket => missingBucket
  | .wildcardInBucket _ => wildcardInBucket

end ValidationError

namespace Validate

/-- The basename that a directory may take over from the reference. -/
def referenceBasename (reference : Option Argument) : Option String :=
  match reference with
  | none => none
  | some argument =>
      let base :=
        match argument.location with
        | some location => location.basename
        | none => (Path.fileName argument.text).getD ""
      if base.isEmpty then none else some base

/-!
## Storage kinds
-/

/-- The rule of a storage kind that a location breaks, if any. -/
def storageFault (kind : ArgumentKind) (location : Location) : Option ValidationError :=
  let key := location.key
  let wildcard := location.isWildcard
  match kind with
  | .storageObject =>
      if wildcard then some .wildcardForbidden
      else if Path.endsInSlash key then some .trailingSlashForbidden
      else none
  | .storageSimpleObject =>
      if wildcard then some .wildcardForbidden
      else if key.isEmpty then some .emptyKey
      else if Path.endsInSlash key then some .trailingSlashForbidden
      else none
  | .storageObjectOrDir => if wildcard then some .wildcardForbidden else none
  | .storageWildcardObject => if wildcard then none else some .wildcardRequired
  | .storageDir =>
      if key.isEmpty || Path.endsInSlash key then none else some .mustEndInSlash
  | _ => none

/-- A directory with the basename behind it; everything else as it is. -/
def completeLocation (kind : ArgumentKind) (basename : Option String)
    (location : Location) : Location :=
  match kind, basename with
  | .storageObjectOrDir, some base =>
      if location.isDirectory then location.withKey (location.key ++ base) else location
  | _, _ => location

/-- Check a word against a storage kind. -/
def storage (kind : ArgumentKind) (basename : Option String) (word : String) :
    Except ValidationError Argument :=
  match Location.parse word with
  | .error error => .error (.ofLocationError error)
  | .ok location =>
      match storageFault kind location with
      | some fault => .error fault
      | none => .ok (.storage (completeLocation kind basename location))

/-!
## Local kinds
-/

/-- Whether a word is a well-formed location. -/
def isLocation (word : String) : Bool :=
  match Location.parse word with
  | .ok _ => true
  | .error _ => false

/-- The entry that a path leads to; a missing one is no error. -/
def entry (tree : FileTree) (path : String) : Except ValidationError (Option Node) :=
  match tree.stat path with
  | .ok (_, node) => .ok (some node)
  | .error error => if error.isNotFound then .ok none else .error (.statFailed path error)

/-- A path that is no directory. -/
def fileObject (tree : FileTree) (path : String) : Except ValidationError String :=
  if Path.endsInSlash path then .error .trailingSlashForbidden
  else if tree.isDirectory path then .error .isADirectory
  else .ok path

/-- A file or directory; a directory ends in a slash or in the basename. -/
def fileOrDir (tree : FileTree) (basename : Option String) (path : String) :
    Except ValidationError String :=
  if Path.endsInSlash path then .ok (path ++ basename.getD "")
  else
    match entry tree path with
    | .error error => .error error
    | .ok (some node) => .ok (if node.isDirectory then path ++ "/" else path)
    | .ok none => .ok path

/-- A directory, which ends in a slash. -/
def directory (tree : FileTree) (path : String) : Except ValidationError String :=
  if Path.endsInSlash path then .ok path
  else
    match entry tree path with
    | .error error => .error error
    | .ok (some node) => if node.isDirectory then .ok (path ++ "/") else .error .notADirectory
    | .ok none => .ok (path ++ "/")

/-- Check a path, already free of glob characters, against a local kind. -/
def localPath (tree : FileTree) (kind : ArgumentKind) (basename : Option String)
    (path : String) : Except ValidationError String :=
  match kind with
  | .localFileObject => fileObject tree path
  | .localFileOrDir | .optionalLocalFileOrDir => fileOrDir tree basename path
  | .localDir | .optionalLocalDir => directory tree path
  | _ => .ok path

/-- Check a word against a local kind. -/
def localWord (tree : FileTree) (kind : ArgumentKind) (basename : Option String)
    (word : String) : Except ValidationError Argument :=
  let word := if word.isEmpty && kind.isOptional then "." else word
  if isLocation word then .error .resemblesStorageUrl
  else
    let path := if word = "." then "./" else word
    if hasGlobChar path then .error .containsGlobCharacters
    else (localPath tree kind basename path).map Argument.plain

/-- Check a word against the glob kind. -/
def glob (word : String) : Except ValidationError Argument :=
  if isLocation word then .error .resemblesStorageUrl
  else if !hasGlobChar word then .error .notAGlob
  else
    match Glob.parse word with
    | .error error => .error (.invalidGlobPattern error)
    | .ok _ => .ok (.plain word)

end Validate

/-- Check one word against a kind, given the reference among the arguments in
front of it. -/
def validate (tree : FileTree) (kind : ArgumentKind) (reference : Option Argument)
    (word : String) : Except ValidationError Argument :=
  let basename :=
    if kind.infersBasename then Validate.referenceBasename reference else none
  if kind.isUnchecked then .ok (.plain word)
  else if kind = .glob then Validate.glob word
  else if kind.isStorage then Validate.storage kind basename word
  else Validate.localWord tree kind basename word

end BulkTransfer
