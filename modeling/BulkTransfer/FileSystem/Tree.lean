import BulkTransfer.FileSystem.IoError
import BulkTransfer.FileSystem.Path
import Std.Data.TreeMap

/-!
# The file tree

A file tree maps places to files, directories and symbolic links.  A place is
the list of names from the root, so it holds neither dots nor links, and two
different places never hold the same file.  Places are kept in lexicographic
order, which is the order of a walk that visits a directory before its entries
and the entries by name.
-/

namespace BulkTransfer

/-- The names from the root to an entry. -/
abbrev Place := List String

/-- What a place holds. -/
inductive Node
  | file (content : ByteArray) (modified : Int)
  | directory
  /-- a directory that may not be read or searched -/
  | closed
  | link (target : String)
deriving Inhabited

namespace Node

def isDirectory : Node → Bool
  | directory | closed => true
  | _ => false

def isFile : Node → Bool
  | file _ _ => true
  | _ => false

/-- The number of bytes of a file; other entries have none. -/
def size : Node → Nat
  | file content _ => content.size
  | _ => 0

/-- The time of a file's last change; other entries show the epoch. -/
def modified : Node → Int
  | file _ modified => modified
  | _ => 0

end Node

/-- All entries, the working directory and the time that new content gets. -/
structure FileTree where
  nodes : Std.TreeMap Place Node
  workingDirectory : Place
  now : Int
deriving Inhabited

namespace FileTree

/-- What a place holds; the root is a directory. -/
def node? (tree : FileTree) (place : Place) : Option Node :=
  if place.isEmpty then some .directory else tree.nodes[place]?

def put (tree : FileTree) (place : Place) (node : Node) : FileTree :=
  { tree with nodes := tree.nodes.insert place node }

def drop (tree : FileTree) (place : Place) : FileTree :=
  { tree with nodes := tree.nodes.erase place }

/-- The entries below a place, each with its names from there, in walk order. -/
def walkBelow (tree : FileTree) (start : Place) : List (List String × Node) :=
  tree.nodes.toList.filterMap fun entry =>
    match List.isPrefixOf? start entry.1 with
    | some (name :: names) => some (name :: names, entry.2)
    | _ => none

/-- The names directly in a place, in increasing order. -/
def entriesOf (tree : FileTree) (start : Place) : List (String × Node) :=
  (tree.walkBelow start).filterMap fun entry =>
    match entry.1 with
    | [name] => some (name, entry.2)
    | _ => none

/-!
## Small laws
-/

@[simp] theorem node?_nil (tree : FileTree) : tree.node? [] = some .directory := rfl

theorem node?_of_ne_nil (tree : FileTree) {place : Place} (h : place ≠ []) :
    tree.node? place = tree.nodes[place]? := by
  simp [node?, h]

theorem node?_put (tree : FileTree) {place : Place} (node : Node) (other : Place)
    (h : place ≠ []) :
    (tree.put place node).node? other =
      if place = other then some node else tree.node? other := by
  by_cases ho : other = []
  · subst ho
    simp [h]
  · simp [node?_of_ne_nil _ ho, put, Std.TreeMap.getElem?_insert]

theorem node?_drop (tree : FileTree) {place : Place} (other : Place) (h : place ≠ []) :
    (tree.drop place).node? other =
      if place = other then none else tree.node? other := by
  by_cases ho : other = []
  · subst ho
    simp [h]
  · simp [node?_of_ne_nil _ ho, drop, Std.TreeMap.getElem?_erase]

end FileTree
end BulkTransfer
