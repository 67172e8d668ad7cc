/-!
# Kinds of command arguments

A command declares one kind for each of its arguments.  The kind decides how a
word is checked and rewritten: storage kinds read a location, local kinds look
at the file system, and the one-or-more kind, only sensible in the last place,
takes every further word.
-/

namespace BulkTransfer

/-- How one word of a command is checked. -/
inductive ArgumentKind
  /-- any single word -/
  | unchecked
  /-- one or more further words -/
  | uncheckedOneOrMore
  /-- bucket or object, no wildcard, no slash at the end -/
  | storageObject
  /-- object with a key, no wildcard, no slash at the end -/
  | storageSimpleObject
  /-- object or directory; a directory takes over the reference basename -/
  | storageObjectOrDir
  /-- object key with a wildcard -/
  | storageWildcardObject
  /-- bucket, or key that ends in a slash -/
  | storageDir
  /-- local path that is no directory -/
  | localFileObject
  /-- local file or directory; a directory takes over the reference basename -/
  | localFileOrDir
  /-- local directory -/
  | localDir
  /-- local file or directory, by default the working directory -/
  | optionalLocalFileOrDir
  /-- local directory, by default the working directory -/
  | optionalLocalDir
  /-- local glob pattern -/
  | glob
deriving DecidableEq, Repr, Inhabited

namespace ArgumentKind

/-- The placeholder in usage lines. -/
def placeholder : ArgumentKind → String
  | unchecked => "param"
  | uncheckedOneOrMore => "param..."
  | storageObject => "s3://bucket[/object]"
  | storageSimpleObject => "s3://bucket/object"
  | storageObjectOrDir => "s3://bucket[/object[/]]"
  | storageWildcardObject => "s3://bucket/wild/*/obj*"
  | storageDir => "s3://bucket[/prefix/]"
  | localFileObject => "filename"
  | localFileOrDir => "file-or-directory"
  | localDir => "directory"
  | optionalLocalFileOrDir => "[file-or-directory]"
  | optionalLocalDir => "[directory]"
  | glob => "glob-pattern*"

def isUnchecked : ArgumentKind → Bool
  | unchecked | uncheckedOneOrMore => true
  | _ => false

def isStorage : ArgumentKind → Bool
  | storageObject | storageSimpleObject | storageObjectOrDir | storageWildcardObject
  | storageDir => true
  | _ => false

def isLocal : ArgumentKind → Bool
  | localFileObject | localFileOrDir | localDir | optionalLocalFileOrDir
  | optionalLocalDir => true
  | _ => false

/-- Whether the last argument may be left out. -/
def isOptional : ArgumentKind → Bool
  | optionalLocalFileOrDir | optionalLocalDir => true
  | _ => false

/-- Whether later directories of the same command may take over the basename. -/
def isReference : ArgumentKind → Bool
  | storageObject | storageSimpleObject | localFileObject => true
  | _ => false

/-- Whether a directory takes over the reference basename. -/
def infersBasename : ArgumentKind → Bool
  | storageObjectOrDir | localFileOrDir | optionalLocalFileOrDir => true
  | _ => false

end ArgumentKind
end BulkTransfer
