import BulkTransfer.FileSystem.Access

/-!
# Walking a directory

A walk visits everything below a directory: a directory before its entries, and
the entries by name.  It follows no links.  Files are found; a directory that may
not be read is a fault at its place in the walk.
-/

namespace BulkTransfer

/-- What a walk comes to, with the names from its start. -/
inductive WalkEvent
  | file (names : List String) (node : Node)
  | fault (names : List String) (error : IoError)

namespace FileTree

/-- The event of an entry, if it has one. -/
def eventOf (entry : List String × Node) : Option WalkEvent :=
  match entry.2 with
  | .file _ _ => some (.file entry.1 entry.2)
  | .closed => some (.fault entry.1 (.system .accessDenied))
  | _ => none

/-- The events of a walk that starts at a path; nothing for a path that is no
directory. -/
def walk (tree : FileTree) (start : String) : List WalkEvent :=
  match tree.stat start with
  | .ok (place, .directory) => (tree.walkBelow place).filterMap eventOf
  | .ok (_, .closed) => [.fault [] (.system .accessDenied)]
  | _ => []

/-- The path of names below a start. -/
def pathBelow (start : String) (names : List String) : String :=
  if names.isEmpty then start else Path.join start ("/".intercalate names)

/-- The text of a fault of a walk. -/
def faultText (path : String) (error : IoError) : String :=
  "IO error for operation on " ++ path ++ ": " ++ error.message

end FileTree
end BulkTransfer
