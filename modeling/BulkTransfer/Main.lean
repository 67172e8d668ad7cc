import BulkTransfer.CommandLine
import BulkTransfer.FileSystem.Difference
import Std.Time.DateTime.Timestamp

/-!
# The executable

The files below the working directory and below the storage root are read into a
tree, the program answers on that tree, and what it has changed is written back.
Nothing is decided here.
-/

namespace BulkTransfer
namespace Executable

/-- The path of a place. -/
def pathOf (place : Place) : String :=
  "/" ++ "/".intercalate place

/-- The place of a path without dots and links. -/
def placeOf (path : String) : Place :=
  Path.pieces path |>.filter fun piece => !piece.isEmpty

/-- No path has more names than this. -/
def deepest : Nat := 2048

/-- Read what lies below a directory. -/
def load (place : Place) : Nat → FileTree → IO FileTree
  | 0, tree => pure tree
  | depth + 1, tree => do
      let directory ← IO.FS.realPath (pathOf place)
      let mut tree := tree.put place .directory
      match ← directory.readDir.toBaseIO with
      | .error _ => return tree.put place .closed
      | .ok entries =>
          for entry in entries do
            let below := place ++ [entry.fileName]
            let found ← entry.path.symlinkMetadata
            match found.type with
            | .dir => tree ← load below depth tree
            | .symlink =>
                if let .ok target ← (IO.FS.realPath entry.path).toBaseIO then
                  tree := tree.put below (.link target.toString)
            | _ =>
                if let .ok content ← (IO.FS.readBinFile entry.path).toBaseIO then
                  tree := tree.put below (.file content found.modified.sec)
          return tree

/-- Read what lies below a directory, and the directories above it. -/
def loadFrom (path : String) (tree : FileTree) : IO FileTree := do
  match ← (IO.FS.realPath path).toBaseIO with
  | .error _ => return tree
  | .ok found =>
      let place := placeOf found.toString
      let above := (List.range place.length).map fun length => place.take (length + 1)
      let tree := above.foldl (fun tree place => tree.put place .directory) tree
      load place deepest tree

/-- Write one change to the disk. -/
def save : TreeChange → IO Unit
  | .removed place => IO.FS.removeFile (pathOf place)
  | .directory place => IO.FS.createDirAll (pathOf place)
  | .file place content => IO.FS.writeBinFile (pathOf place) content

/-- The settings that the program takes from the environment. -/
def environment : IO Environment := do
  let names := ["XF_STORAGE_ROOT", "XF_NUMWORKERS", "XF_RETRY_BASE_MS", "XF_RETRY_MAX_MS",
    "XF_SHELL_TIMEOUT_MS"]
  let values ← names.mapM fun name => do return (name, ← IO.getEnv name)
  return fun name => (values.lookup name).bind id

/-- The number of processors, one if it cannot be found out. -/
def processors : IO Nat := do
  match ← (IO.FS.lines "/proc/cpuinfo").toBaseIO with
  | .error _ => return 1
  | .ok lines => return max 1 (lines.filter fun line => line.startsWith "processor").size

/-- All bytes of the input. -/
def readInput : IO ByteArray := do
  return (← (← IO.getStdin).readToEnd).toUTF8

end Executable
end BulkTransfer

open BulkTransfer in
/-- Answer a command line. -/
def main (words : List String) : IO UInt32 := do
  let env ← Executable.environment
  let here ← IO.currentDir
  let now := (← Std.Time.Timestamp.now).toSecondsSinceUnixEpoch.val
  let empty : FileTree :=
    { nodes := ∅, workingDirectory := Executable.placeOf here.toString, now := now }
  let before ← Executable.loadFrom (CommandLine.storageRoot env words)
    (← Executable.loadFrom here.toString empty)
  let input ← if CommandLine.readsInput words then Executable.readInput else pure .empty
  let (reply, disk) :=
    CommandLine.run env (← Executable.processors) words input { tree := before }
  (before.changesTo disk.tree).forM Executable.save
  reply.printed.forM fun line => IO.println line
  reply.notes.forM fun line => IO.eprintln line
  return UInt32.ofNat reply.status
