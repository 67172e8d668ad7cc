import BulkTransfer.FileCopy
import BulkTransfer.Location
import BulkTransfer.Store.StorageClass

/-!
# Objects in a directory

A store keeps its buckets as the directories directly below its root.  Every
file below a bucket is an object, and its key is the path from the bucket.  The
class of an object is written to a sidecar file in a hidden directory of the
root; without one the object has the standard class.
-/

namespace BulkTransfer

/-- A store below a root directory. -/
structure Store where
  root : String
deriving DecidableEq, Repr, Inhabited

/-- What is known about an object. -/
structure ObjectInfo where
  key : String
  size : Nat
  modified : Int
  storage : StorageClass
deriving DecidableEq, Repr, Inhabited

namespace Store

/-!
## Paths
-/

/-- The directory below the root that holds the sidecar files. -/
def sidecarDirectory : String := ".xf-meta"

/-- Whether a name can be a bucket: hidden directories and paths cannot. -/
def isBucketName (bucket : String) : Bool :=
  !bucket.isEmpty && bucket.toList.head? != some '.' &&
    bucket.toList.all fun c => c != '/' && c != '\\'

/-- The directory of a bucket. -/
def bucketPath (store : Store) (bucket : String) : String :=
  Path.join store.root bucket

/-- Whether every segment of a key is a name, so that the key stays in its bucket. -/
def isObjectKey (key : String) : Bool :=
  (Path.pieces key).all fun segment => segment ≠ "" && segment ≠ "." && segment ≠ ".."

/-- Where the class of an object is kept. -/
def sidecarPath (store : Store) (location : Location) : String :=
  Path.join (Path.join (Path.join store.root sidecarDirectory) location.bucket) location.key

/-- The directory of a bucket that exists. -/
def existingBucket (store : Store) (bucket : String) : DiskM JobError String := do
  if !isBucketName bucket then
    DiskM.fail (.noSuchBucket bucket)
  else
    let path := store.bucketPath bucket
    match ← (Disk.stat path).attempt with
    | .ok (_, node) =>
        if node.isDirectory then pure path else DiskM.fail (.noSuchBucket bucket)
    | .error error =>
        if error.isNotFound then DiskM.fail (.noSuchBucket bucket)
        else DiskM.fail (.ofIo path error)

/-- The file of an object, there or not. -/
def objectPath (store : Store) (location : Location) : DiskM JobError String := do
  if !isObjectKey location.key then
    DiskM.fail (.invalidArguments (location.text ++ " does not name an object"))
  else
    let bucket ← store.existingBucket location.bucket
    return Path.join bucket location.key

/-!
## Classes
-/

/-- The class that the content of a sidecar file stands for. -/
def classOfContent (content : ByteArray) : StorageClass :=
  ((String.fromUTF8? content).bind StorageClass.parse).getD .standard

/-- The class that a sidecar file gives, the standard class if it cannot be read. -/
def classAt (path : String) (tree : FileTree) : StorageClass :=
  match tree.readFile path with
  | .ok content => classOfContent content
  | .error _ => .standard

/-- Read the class of an object. -/
def readClass (store : Store) (location : Location) : DiskM JobError StorageClass := do
  match ← (Disk.readFile (store.sidecarPath location)).attempt with
  | .ok content => return classOfContent content
  | .error _ => return .standard

/-- Keep the class of an object; the standard class leaves no sidecar file. -/
def writeClass (store : Store) (location : Location) (storage : StorageClass) :
    DiskM JobError Unit := do
  let path := store.sidecarPath location
  if storage = .standard then
    let _ ← (Disk.remove path).attempt
    return ()
  else
    FileCopy.makeParent path
    (Disk.write path storage.name.toUTF8).mapError (.ofIo path)

/-!
## Single objects
-/

/-- What is known about the object in a file. -/
def infoAt (store : Store) (location : Location) (path : String) :
    DiskM JobError (Option ObjectInfo) := do
  match ← (Disk.stat path).attempt with
  | .ok (_, .file content modified) =>
      let storage ← store.readClass location
      return some { key := location.key, size := content.size, modified := modified,
                    storage := storage }
  | .ok _ => return none
  | .error error =>
      if error.isNotFound then return none else DiskM.fail (.ofIo location.text error)

/-- What is known about an object, if it is there. -/
def head (store : Store) (location : Location) : DiskM JobError (Option ObjectInfo) := do
  store.infoAt location (← store.objectPath location)

/-- The file of an object that is there. -/
def requireObject (store : Store) (location : Location) : DiskM JobError String := do
  let path ← store.objectPath location
  match ← store.infoAt location path with
  | some _ => return path
  | none => DiskM.fail (.noSuchObject location.text)

/-- Fetch an object into a file. -/
def get (store : Store) (location : Location) (target : String) (cancel : CancelAfter) :
    DiskM JobError Nat := do
  FileCopy.copy (← store.requireObject location) target cancel

/-- Store a file as an object. -/
def put (store : Store) (source : String) (location : Location) (storage : StorageClass)
    (cancel : CancelAfter) : DiskM JobError Nat := do
  let path ← store.objectPath location
  let bytes ← FileCopy.copy source path cancel
  store.writeClass location storage
  return bytes

/-- Copy an object to another location. -/
def copy (store : Store) (source target : Location) (storage : StorageClass)
    (cancel : CancelAfter) : DiskM JobError Nat := do
  if source = target then
    DiskM.fail (.invalidArguments (source.text ++ " cannot be copied onto itself"))
  else
    let sourcePath ← store.requireObject source
    let targetPath ← store.objectPath target
    let bytes ← FileCopy.copy sourcePath targetPath cancel
    store.writeClass target storage
    return bytes

/-- Delete an object and the record of its class. -/
def delete (store : Store) (location : Location) : DiskM JobError Unit := do
  let path ← store.objectPath location
  match ← (Disk.remove path).attempt with
  | .ok () =>
      let _ ← (Disk.remove (store.sidecarPath location)).attempt
      return ()
  | .error error =>
      if error.isNotFound then DiskM.fail (.noSuchObject location.text)
      else DiskM.fail (.ofIo location.text error)

/-!
## Many objects
-/

/-- Delete keys one after the other, each with its error if it has one. -/
def deleteEach (store : Store) (bucket : String) :
    List String → DiskM JobError (List (String × Option JobError))
  | [] => return []
  | key :: keys => do
      let outcome ← (store.delete { bucket := bucket, key := key }).attempt
      let error :=
        match outcome with
        | .ok () => none
        | .error error => some error
      let others ← store.deleteEach bucket keys
      return (key, error) :: others

/-- Delete keys of one bucket, which must exist. -/
def deleteMany (store : Store) (bucket : String) (keys : List String) :
    DiskM JobError (List (String × Option JobError)) := do
  let _ ← store.existingBucket bucket
  store.deleteEach bucket keys

end Store
end BulkTransfer
