import BulkTransfer.Expansion
import BulkTransfer.FileSystem.Walk
import BulkTransfer.Glob.Walk
import BulkTransfer.Location.Wildcard
import BulkTransfer.Store.Listing

/-!
# Expanding a batch

A batch with a wildcard location stands for the matching objects of its bucket.
A batch with a local directory stands for the files below it, and one with a glob
pattern for the files among its paths.  The name of each file or key behind the
directory part that they share, or just its last segment, is put behind the
destination.
-/

namespace BulkTransfer
namespace Expand

/-!
## Storage batches
-/

/-- The name of an object below its destination. -/
def objectName (source : Location) (parents : Bool) (key : String) : String :=
  if parents then source.relativeKey key else String.ofList (Text.afterLast '/' key.toList)

/-- Cut a list into pieces of a given size; a last piece that is shorter is kept on
request.  `current` is the piece that has been started. -/
def pieces {α : Type} (size : Nat) (keepLast : Bool) (current : List α) :
    List α → List (List α)
  | [] => if keepLast && !current.isEmpty then [current] else []
  | a :: rest =>
      if current.length + 1 < size then pieces size keepLast (current ++ [a]) rest
      else (current ++ [a]) :: pieces size keepLast [] rest

/-- The most keys of one multi-key deletion. -/
def keysPerDeletion : Nat := 1000

/-- An object as a storage argument. -/
def objectArgument (source : Location) (object : ObjectInfo) : Argument :=
  .storage (source.withKey object.key)

/-- The deletions of objects; with a fault the last keys are dropped. -/
def deletions (source : Location) (objects : List ObjectInfo) (complete : Bool) :
    List (Except ExpansionError SubTask) :=
  (pieces keysPerDeletion complete [] (objects.map (objectArgument source))).map
    fun arguments => .ok { operation := .batchDeleteActual, arguments := arguments }

/-- The download of an object, which the Glacier class forbids. -/
def downloadItem (task : Task) (source : Location) (object : ObjectInfo) :
    Except ExpansionError SubTask :=
  if object.storage = .glacier then
    .error (.entry (source.withKey object.key).text "cannot download glacier object")
  else
    let directory := (task.arguments[1]?.map Argument.text).getD "./"
    let name := objectName source (task.options.has .parents) object.key
    .ok { operation := .download,
          arguments := [objectArgument source object, .plain (directory ++ name)] }

/-- The copy of an object to a location. -/
def copyItem (task : Task) (source target : Location) (object : ObjectInfo) :
    Except ExpansionError SubTask :=
  let name := objectName source (task.options.has .parents) object.key
  .ok { operation := .copy,
        arguments := [objectArgument source object,
          .storage (target.withKey (target.key ++ name))] }

/-- What a batch makes of the objects that its source stands for. -/
def ofObjects (task : Task) (source : Location) (objects : List ObjectInfo)
    (fault : Option ExpansionError) : Expansion :=
  match task.operation with
  | .batchDelete =>
      { items := deletions source objects fault.isNone, fault := fault, checksEnd := true }
  | .batchDownload =>
      { items := objects.map (downloadItem task source), fault := fault, checksEnd := true }
  | _ =>
      match task.location? 1, objects with
      | some target, _ =>
          { items := objects.map (copyItem task source target), fault := fault,
            checksEnd := true }
      | none, [] => { fault := fault, checksEnd := true }
      | none, _ :: _ => { fault := some (.invalidSource task.text), checksEnd := true }

/-- Expand a batch whose source is a location. -/
def storage (store : Store) (tree : FileTree) (task : Task) : Expansion :=
  match task.location? 0 with
  | none => .failed (.invalidSource task.text)
  | some source =>
      match source.checkSize with
      | .error error => .failed (.pattern error.message)
      | .ok () =>
          match (store.stream source.bucket source.literalKey { tree := tree }).1 with
          | .error error => .failed (.listing error.message)
          | .ok (objects, fault) =>
              ofObjects task source (objects.filter fun object => source.accepts object.key)
                (fault.map fun error => .listing error.message)

/-!
## Local batches
-/

/-- Where the files of a local batch go. -/
inductive Target
  | storage (location : Location)
  | directory (path : String)
deriving DecidableEq, Repr

namespace Target

/-- The transfer of a file to a name below the target. -/
def subTask (path name : String) : Target → SubTask
  | storage location =>
      { operation := .upload,
        arguments := [.plain path, .storage (location.withKey (location.key ++ name))] }
  | directory target =>
      { operation := .localCopy, arguments := [.plain path, .plain (target ++ name)] }

end Target

/-- The names of a path behind a base, joined with slashes. -/
def relativeName (base path : String) : Option String :=
  match Path.below (Path.withoutHere (Path.parts base)) (Path.withoutHere (Path.parts path)) with
  | some (part :: parts) => some (Path.joinParts (part :: parts))
  | _ => none

/-- The item for an event of a walk below a directory; nothing for a file whose path does not
go on behind that of the directory. -/
def walkItem (source : String) (target : Target) :
    WalkEvent → Option (Except ExpansionError SubTask)
  | .file names _ =>
      let path := FileTree.pathBelow source names
      (relativeName source path).map fun name => .ok (target.subTask path name)
  | .fault names error =>
      let path := FileTree.pathBelow source names
      some (.error (.entry path (FileTree.faultText path error)))

/-- The files below a directory. -/
def ofDirectory (tree : FileTree) (source : String) (target : Target) : Expansion :=
  if tree.isDirectory source then
    { items := (tree.walk source).filterMap (walkItem source target) }
  else .failed (.invalidSource (source ++ " is not a directory"))

/-- The item for a match of a pattern; nothing for one that is no file. -/
def matchItem (tree : FileTree) (pattern : String) (parents : Bool) (target : Target) :
    Glob.Match → Option (Except ExpansionError SubTask)
  | .fault path error => some (.error (.entry path error.message))
  | .path path =>
      if tree.isFile path then
        let name :=
          if parents then relativeName (Glob.literalDirectory pattern) path
          else Path.fileName path
        name.map fun name => .ok (target.subTask path name)
      else none

/-- The files among the paths of a pattern. -/
def ofPattern (tree : FileTree) (pattern : String) (parents : Bool) (target : Target) :
    Expansion :=
  match Glob.walk tree pattern with
  | .error error => .failed (.pattern error.message)
  | .ok found => { items := found.filterMap (matchItem tree pattern parents target) }

/-- The target of a local batch. -/
def target? (task : Task) : Option Target :=
  match task.operation with
  | .batchUpload => (task.location? 1).map Target.storage
  | _ => task.arguments[1]?.map fun argument => Target.directory argument.text

/-- Expand a batch whose source is a local path. -/
def localBatch (tree : FileTree) (task : Task) : Expansion :=
  match task.arguments.head?, target? task with
  | some source, some target =>
      if hasGlobChar source.text then
        ofPattern tree source.text (task.options.has .parents) target
      else ofDirectory tree source.text target
  | _, _ => .failed (.invalidSource task.text)

end Expand

/-- The expansion of a batch in a store and a file tree. -/
def expand (store : Store) (tree : FileTree) (task : Task) : Expansion :=
  match task.operation with
  | .batchDownload | .batchCopy | .batchDelete => Expand.storage store tree task
  | .batchUpload | .batchLocalCopy => Expand.localBatch tree task
  | operation =>
      .failed (.invalidSource (operation.shownName ++ " is not a batch operation"))

end BulkTransfer
