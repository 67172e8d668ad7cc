import BulkTransfer.FileSystem.Walk
import BulkTransfer.Store.Basic
import Std.Data.TreeSet

/-!
# Listings

A listing walks the directory part of a prefix and keeps the files whose keys
start with the prefix.  The walk visits a directory before the entries behind it
and the entries by name, and it follows no links.  A delimited listing folds the
keys that go on behind a slash into common prefixes.
-/

namespace BulkTransfer

/-- Objects by key and, if delimited, the prefixes of the others. -/
structure Listing where
  objects : List ObjectInfo
  prefixes : List String
deriving DecidableEq, Repr, Inhabited

/-- A bucket and the time it shows. -/
structure BucketInfo where
  name : String
  created : Int
deriving DecidableEq, Repr, Inhabited

namespace Store

/-!
## Walking a bucket
-/

/-- The directory part of a key: everything through the last slash. -/
def directoryPart (key : String) : String :=
  String.ofList (Text.throughLast '/' key.toList)

/-- A file of a bucket by its key, or the fault that ends the walk. -/
inductive Found
  | object (key : String) (node : Node)
  | fault (error : JobError)

/-- The key of a file below a start, as seen from a base; none if it is not below it. -/
def keyFrom? (base start : String) (names : List String) : Option String :=
  (Path.below (Path.parts base) (Path.parts start ++ names.map PathPart.name)).map
    Path.joinParts

/-- What an event of a walk means for a listing of the keys with a prefix. -/
def foundOf (bucketDir start keyPrefix : String) : WalkEvent → Option Found
  | .file names node =>
      match keyFrom? bucketDir start names with
      | some key =>
          if keyPrefix.toList.isPrefixOf key.toList then some (.object key node) else none
      | none => none
  | .fault names error =>
      some (.fault (.io (FileTree.faultText (FileTree.pathBelow start names) error)))

/-- The keys of a bucket directory that start with a prefix, in walk order. -/
def walk (tree : FileTree) (bucketDir keyPrefix : String) : List Found :=
  let start := Path.join bucketDir (directoryPart keyPrefix)
  (tree.walk start).filterMap (foundOf bucketDir start keyPrefix)

/-- What is known about an object found by a walk. -/
def walkInfo (store : Store) (tree : FileTree) (bucket key : String) (node : Node) :
    ObjectInfo :=
  { key := key, size := node.size, modified := node.modified,
    storage := classAt (store.sidecarPath { bucket := bucket, key := key }) tree }

/-- The objects in front of the first fault, and that fault. -/
def untilFault (info : String → Node → ObjectInfo) :
    List Found → List ObjectInfo × Option JobError
  | [] => ([], none)
  | .object key node :: rest =>
      let (objects, fault) := untilFault info rest
      (info key node :: objects, fault)
  | .fault error :: _ => ([], some error)

/-- The objects whose keys start with a prefix, in walk order, and the fault that ended
the walk early. -/
def walkObjects (store : Store) (bucket bucketDir keyPrefix : String) (tree : FileTree) :
    List ObjectInfo × Option JobError :=
  untilFault (store.walkInfo tree bucket) (walk tree bucketDir keyPrefix)

/-!
## Listings
-/

/-- The prefix that a key folds into: through the first slash behind the given one. -/
def foldedPrefix? (keyPrefix key : String) : Option String :=
  match List.isPrefixOf? keyPrefix.toList key.toList with
  | some rest =>
      if rest.contains '/' then
        some (keyPrefix ++ String.ofList (rest.takeWhile (· ≠ '/')) ++ "/")
      else none
  | none => none

/-- What a walk gathers: files by their keys, and the prefixes that the other keys fold into. -/
structure Gathered where
  objects : List (String × Node) := []
  prefixes : Std.TreeSet String := ∅

/-- The prefix that a listing shows in place of a key; none for a key that it shows itself. -/
def shownPrefix? (delimited : Bool) (keyPrefix key : String) : Option String :=
  if delimited then foldedPrefix? keyPrefix key else none

/-- Gather a file or the prefix that is shown in its place. -/
def Gathered.add (delimited : Bool) (keyPrefix key : String) (node : Node)
    (gathered : Gathered) : Gathered :=
  match shownPrefix? delimited keyPrefix key with
  | some folded => { gathered with prefixes := gathered.prefixes.insert folded }
  | none => { gathered with objects := (key, node) :: gathered.objects }

/-- Gather what a walk finds; nothing if it meets a fault. -/
def gather (delimited : Bool) (keyPrefix : String) : List Found → Except JobError Gathered
  | [] => .ok {}
  | .object key node :: rest =>
      (gather delimited keyPrefix rest).map (·.add delimited keyPrefix key node)
  | .fault error :: _ => .error error

/-- Files by increasing key. -/
def sortFiles (files : List (String × Node)) : List (String × Node) :=
  files.mergeSort fun a b => !decide (b.1 < a.1)

/-- The objects whose keys start with a prefix, as the walk finds them, and the fault
that ended it early. -/
def stream (store : Store) (bucket keyPrefix : String) :
    DiskM JobError (List ObjectInfo × Option JobError) := do
  let bucketDir ← store.existingBucket bucket
  DiskM.view (store.walkObjects bucket bucketDir keyPrefix)

/-- What is known about files of a bucket, each with the class that is read for its key. -/
def describe (store : Store) (bucket : String) :
    List (String × Node) → DiskM JobError (List ObjectInfo)
  | [] => return []
  | (key, node) :: rest => do
      let storage ← store.readClass { bucket := bucket, key := key }
      let others ← store.describe bucket rest
      return { key := key, size := node.size, modified := node.modified,
               storage := storage } :: others

/-- List the objects whose keys start with a prefix; a delimited listing folds those that
go on behind a slash. -/
def list (store : Store) (bucket keyPrefix : String) (delimited : Bool) :
    DiskM JobError Listing := do
  let bucketDir ← store.existingBucket bucket
  let outcome ← DiskM.view fun tree =>
    gather delimited keyPrefix (walk tree bucketDir keyPrefix)
  let gathered ← DiskM.ofExcept outcome
  let objects ← store.describe bucket (sortFiles gathered.objects)
  return { objects := objects, prefixes := gathered.prefixes.toList }

/-- The buckets by name.  Directories have no time of their own here, so a bucket
shows the time of the tree. -/
def buckets (store : Store) : DiskM JobError (List BucketInfo) := do
  let entries ← (Disk.readDirectory store.root).mapError (.ofIo store.root)
  let now ← DiskM.view FileTree.now
  return (entries.filter fun entry => entry.2.isDirectory && entry.1.toList.head? != some '.').map
    fun entry => { name := entry.1, created := now }

end Store
end BulkTransfer
