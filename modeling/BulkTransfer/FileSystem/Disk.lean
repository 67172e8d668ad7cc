import BulkTransfer.FileSystem.Access

/-!
# A disk whose operations may fail

A disk is a file tree together with the faults to come.  Every primitive
operation first takes the next fault, if one is left: a fault stops the
operation before it changes anything.  A disk without faults does what the
operations on the tree say.
-/

namespace BulkTransfer

/-- A file tree and, for each of the next operations, the error that stops it. -/
structure Disk where
  tree : FileTree
  faults : List (Option IoError) := []
deriving Inhabited

/-- A computation on a disk that may stop with an error; the disk remains. -/
def DiskM (ε α : Type) : Type :=
  Disk → Except ε α × Disk

namespace DiskM

@[inline] def pure {ε α : Type} (value : α) : DiskM ε α :=
  fun disk => (.ok value, disk)

@[inline] def bind {ε α β : Type} (action : DiskM ε α) (next : α → DiskM ε β) :
    DiskM ε β :=
  fun disk =>
    match action disk with
    | (.ok value, disk) => next value disk
    | (.error error, disk) => (.error error, disk)

instance {ε : Type} : Monad (DiskM ε) where
  pure := pure
  bind := bind

/-- Stop with an error. -/
@[inline] def fail {ε α : Type} (error : ε) : DiskM ε α :=
  fun disk => (.error error, disk)

/-- Give the outcome as a value. -/
@[inline] def attempt {ε δ α : Type} (action : DiskM ε α) : DiskM δ (Except ε α) :=
  fun disk =>
    let (outcome, disk) := action disk
    (.ok outcome, disk)

/-- Change the error. -/
@[inline] def mapError {ε δ α : Type} (f : ε → δ) (action : DiskM ε α) : DiskM δ α :=
  fun disk =>
    let (outcome, disk) := action disk
    (outcome.mapError f, disk)

/-- Use the outcome of a pure computation. -/
@[inline] def ofExcept {ε α : Type} (outcome : Except ε α) : DiskM ε α :=
  fun disk => (outcome, disk)

/-- Look at the tree without an operation that could fail. -/
@[inline] def view {ε α : Type} (f : FileTree → α) : DiskM ε α :=
  fun disk => (.ok (f disk.tree), disk)

/-- Go on with another tree, if there is one. -/
@[inline] def goOn {ε : Type} (tree : Option FileTree) : DiskM ε Unit :=
  fun disk => (.ok (), { disk with tree := tree.getD disk.tree })

/-- Perform one primitive operation unless a fault stops it. -/
def perform {α : Type} (operation : FileTree → Except IoError α × FileTree) :
    DiskM IoError α :=
  fun disk =>
    match disk.faults with
    | [] =>
        let (outcome, tree) := operation disk.tree
        (outcome, { tree := tree, faults := [] })
    | none :: faults =>
        let (outcome, tree) := operation disk.tree
        (outcome, { tree := tree, faults := faults })
    | some fault :: faults => (.error fault, { disk with faults := faults })

/-- Perform an operation that only looks. -/
def look {α : Type} (operation : FileTree → Except IoError α) : DiskM IoError α :=
  perform fun tree => (operation tree, tree)

/-- Perform an operation that changes the tree if it succeeds. -/
def change {α : Type} (operation : FileTree → Except IoError (α × FileTree)) :
    DiskM IoError α :=
  perform fun tree =>
    match operation tree with
    | .ok (value, changed) => (.ok value, changed)
    | .error error => (.error error, tree)

end DiskM

/-!
## The primitive operations
-/

namespace Disk

def stat (path : String) : DiskM IoError (Place × Node) :=
  DiskM.look fun tree => tree.stat path

def readDirectory (path : String) : DiskM IoError (List (String × Node)) :=
  DiskM.look fun tree => tree.readDirectory path

def readFile (path : String) : DiskM IoError ByteArray :=
  DiskM.look fun tree => tree.readFile path

/-- Open a path for reading. -/
def openFile (path : String) : DiskM IoError Place :=
  DiskM.look fun tree => tree.openAt path

/-- The bytes of an open file from a position on, at most a given number. -/
def readAt (place : Place) (position most : Nat) : DiskM IoError ByteArray :=
  DiskM.look fun tree =>
    (tree.contentAt place).map fun content => content.extract position (position + most)

def create (path : String) : DiskM IoError Place :=
  DiskM.change fun tree => tree.create path

def append (place : Place) (bytes : ByteArray) : DiskM IoError Unit :=
  DiskM.change fun tree => .ok ((), tree.append place bytes)

def makeDirectory (path : String) : DiskM IoError Unit :=
  DiskM.change fun tree => (tree.makeDirectory path).map fun changed => ((), changed)

def remove (path : String) : DiskM IoError Unit :=
  DiskM.change fun tree => (tree.remove path).map fun changed => ((), changed)

/-- Give a file new content. -/
def write (path : String) (content : ByteArray) : DiskM IoError Unit := do
  let place ← create path
  append place content

/-- Make a directory unless it is there: the paths above it first, as far as they
are missing. -/
def makeDirectories : Nat → String → DiskM IoError Unit
  | 0, _ => DiskM.fail (.plain .other)
  | depth + 1, path => fun disk =>
      match makeDirectory path disk with
      | (.ok (), disk) => (.ok (), disk)
      | (.error error, disk) =>
          if !error.isNotFound then
            if disk.tree.isDirectory path then (.ok (), disk) else (.error error, disk)
          else
            match Path.parent path with
            | none => (.error error, disk)
            | some above =>
                if above.isEmpty then (.error error, disk)
                else
                  match makeDirectories depth above disk with
                  | (.error error, disk) => (.error error, disk)
                  | (.ok (), disk) =>
                      match makeDirectory path disk with
                      | (.ok (), disk) => (.ok (), disk)
                      | (.error error, disk) =>
                          if disk.tree.isDirectory path then (.ok (), disk)
                          else (.error error, disk)

end Disk
end BulkTransfer
