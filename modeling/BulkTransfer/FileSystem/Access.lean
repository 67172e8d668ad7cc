import BulkTransfer.FileSystem.Resolve

/-!
# Operations on a file tree

The primitive operations that a transfer is made of, each a single change of
the tree or none.  A slash at the end of a path asks for a directory.  Reading
and writing go through a place, found when the file was opened or created, and
not through its path.
-/

namespace BulkTransfer
namespace FileTree

/-!
## Looking
-/

/-- The entry that a path leads to, through links. -/
def stat (tree : FileTree) (path : String) : Except IoError (Place × Node) :=
  match tree.resolve true path with
  | .error error => .error error
  | .ok (.vacant _ _) => .error (.system .noEntry)
  | .ok (.entry place node) =>
      if Path.endsInSlash path && !node.isDirectory then .error (.system .notDirectory)
      else .ok (place, node)

/-- Whether a path leads to a directory. -/
def isDirectory (tree : FileTree) (path : String) : Bool :=
  match tree.stat path with
  | .ok (_, node) => node.isDirectory
  | .error _ => false

/-- Whether a path leads to a file. -/
def isFile (tree : FileTree) (path : String) : Bool :=
  match tree.stat path with
  | .ok (_, node) => node.isFile
  | .error _ => false

/-- Whether a path leads anywhere. -/
def leadsSomewhere (tree : FileTree) (path : String) : Bool :=
  match tree.stat path with
  | .ok _ => true
  | .error _ => false

/-- Whether a path names an entry, be it a link that leads nowhere. -/
def namesEntry (tree : FileTree) (path : String) : Bool :=
  match tree.resolve (Path.endsInSlash path) path with
  | .ok (.entry _ _) => true
  | _ => false

/-- The entries of a directory by increasing name. -/
def readDirectory (tree : FileTree) (path : String) :
    Except IoError (List (String × Node)) :=
  match tree.stat path with
  | .error error => .error error
  | .ok (place, .directory) => .ok (tree.entriesOf place)
  | .ok (_, .closed) => .error (.system .accessDenied)
  | .ok _ => .error (.system .notDirectory)

/-- The place that a path leads to, for reading; a directory can be opened, but a
closed one cannot. -/
def openAt (tree : FileTree) (path : String) : Except IoError Place :=
  match tree.stat path with
  | .error error => .error error
  | .ok (_, .closed) => .error (.system .accessDenied)
  | .ok (place, _) => .ok place

/-- The content at a place. -/
def contentAt (tree : FileTree) (place : Place) : Except IoError ByteArray :=
  match tree.node? place with
  | some (.file content _) => .ok content
  | some .directory | some .closed => .error (.system .isDirectory)
  | _ => .error (.system .noEntry)

/-- The content of the file that a path leads to. -/
def readFile (tree : FileTree) (path : String) : Except IoError ByteArray :=
  match tree.openAt path with
  | .error error => .error error
  | .ok place => tree.contentAt place

/-!
## Changing
-/

/-- Make a file empty, creating it if only its directory exists. -/
def create (tree : FileTree) (path : String) : Except IoError (Place × FileTree) :=
  match tree.resolve true path with
  | .error error => .error error
  | .ok resolved =>
      if Path.endsInSlash path then .error (.system .isDirectory)
      else
        match resolved with
        | .vacant directory name =>
            let place := directory ++ [name]
            .ok (place, tree.put place (.file .empty tree.now))
        | .entry _ .directory | .entry _ .closed => .error (.system .isDirectory)
        | .entry place _ => .ok (place, tree.put place (.file .empty tree.now))

/-- Add bytes at the end of the file at a place. -/
def append (tree : FileTree) (place : Place) (bytes : ByteArray) : FileTree :=
  match tree.node? place with
  | some (.file content _) => tree.put place (.file (content ++ bytes) tree.now)
  | _ => tree

/-- Make a directory at a vacant name. -/
def makeDirectory (tree : FileTree) (path : String) : Except IoError FileTree :=
  match tree.resolve false path with
  | .error error => .error error
  | .ok (.vacant directory name) => .ok (tree.put (directory ++ [name]) .directory)
  | .ok (.entry _ _) => .error (.system .alreadyExists)

/-- Remove a file or a link. -/
def remove (tree : FileTree) (path : String) : Except IoError FileTree :=
  match tree.resolve false path with
  | .error error => .error error
  | .ok (.vacant _ _) => .error (.system .noEntry)
  | .ok (.entry _ .directory) | .ok (.entry _ .closed) => .error (.system .isDirectory)
  | .ok (.entry place _) =>
      if Path.endsInSlash path then .error (.system .notDirectory)
      else .ok (tree.drop place)

end FileTree
end BulkTransfer
