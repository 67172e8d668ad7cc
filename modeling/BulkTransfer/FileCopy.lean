import BulkTransfer.FileSystem.Disk
import BulkTransfer.JobError

/-!
# Copying files

A copy goes through chunks of one mebibyte.  A file is never copied onto itself,
as far as both paths lead to one entry before anything is changed.  A copy that
fails or is cancelled removes what it has created.

Cancellation is looked at in front of every chunk.  It is given as the number of
chunks after which it comes, or as none if it never comes.
-/

namespace BulkTransfer

/-- After how many chunks a copy finds itself cancelled, if ever. -/
abbrev CancelAfter := Option Nat

namespace FileCopy

/-- The number of bytes that are read and written at a time. -/
def chunkSize : Nat := 1048576

/-- Whether two paths lead to one entry. -/
def sameEntry (source target : String) : DiskM JobError Bool := do
  let first ← (Disk.stat source).attempt
  let second ← (Disk.stat target).attempt
  match first, second with
  | .ok (place, _), .ok (place', _) => return place == place'
  | _, _ => return false

/-- Make the directories above a path, if there are any. -/
def makeParent (path : String) : DiskM JobError Unit :=
  match Path.parent path with
  | none => pure ()
  | some above =>
      if above.isEmpty then pure ()
      else
        (Disk.makeDirectories ((Path.parts above).length + 1) above).mapError (.ofIo above)

/-- Move chunks from one open file to another; `name` is the path in errors, `steps`
bounds the number of chunks and `done` counts the bytes so far. -/
def moveChunks (source target : Place) (name : String) :
    Nat → CancelAfter → Nat → DiskM JobError Nat
  | 0, _, done => pure done
  | steps + 1, cancel, done => do
      if cancel = some 0 then
        DiskM.fail .cancelled
      else
        let chunk ← (Disk.readAt source done chunkSize).mapError (.ofIo name)
        if chunk.size = 0 then
          pure done
        else
          (Disk.append target chunk).mapError (.ofIo name)
          moveChunks source target name steps (cancel.map (· - 1)) (done + chunk.size)

/-- The number of steps that empty a file of a given size. -/
def stepsFor (size : Nat) : Nat :=
  size / chunkSize + 2

/-- The size of the file at a place. -/
def sizeAt (place : Place) (tree : FileTree) : Nat :=
  match tree.node? place with
  | some node => node.size
  | none => 0

/-- Fill a created file from an open one; on failure remove it again. -/
def fill (source target : Place) (path : String) (cancel : CancelAfter) :
    DiskM JobError Nat := do
  let size ← DiskM.view (sizeAt source)
  let outcome ← (moveChunks source target path (stepsFor size) cancel 0).attempt
  match outcome with
  | .ok bytes => pure bytes
  | .error error =>
      let _ ← (Disk.remove path).attempt
      DiskM.fail error

/-- Copy a file to a path, creating the directories above it; gives the number of
bytes. -/
def copy (source target : String) (cancel : CancelAfter) : DiskM JobError Nat := do
  if ← sameEntry source target then
    DiskM.fail (.invalidArguments (source ++ " and " ++ target ++ " are the same file"))
  else
    let from? ← (Disk.openFile source).mapError (.ofIo source)
    makeParent target
    let place ← (Disk.create target).mapError (.ofIo target)
    fill from? place target cancel

/-- Delete a file or link. -/
def delete (path : String) : DiskM JobError Unit :=
  (Disk.remove path).mapError (.ofIo path)

/-- Copy a file and delete it, if asked, once the copy is complete. -/
def transfer (source target : String) (removeSource : Bool) (cancel : CancelAfter) :
    DiskM JobError Nat := do
  let bytes ← copy source target cancel
  if removeSource then
    delete source
  return bytes

/-- Whether a path leads to an entry; one that cannot be looked at counts as missing. -/
def pathExists (path : String) : DiskM JobError Bool := do
  match ← (Disk.stat path).attempt with
  | .ok _ => return true
  | .error _ => return false

end FileCopy
end BulkTransfer
