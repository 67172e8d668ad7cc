import BulkTransfer.FileSystem.Tree

/-!
# Differences between file trees

The changes from one tree to another are the entries that are gone and the entries
that are new or have another content.  New entries come in the order of their
places, so a directory comes before what is in it.
-/

namespace BulkTransfer

/-- One change of a file tree. -/
inductive TreeChange
  | removed (place : Place)
  | directory (place : Place)
  | file (place : Place) (content : ByteArray)
deriving Inhabited

namespace TreeChange

/-- The change that brings a node to a place where another one may have been. -/
def ofNode? (place : Place) (before : Option Node) : Node → Option TreeChange
  | .file content _ =>
      match before with
      | some (.file old _) => if old == content then none else some (file place content)
      | _ => some (file place content)
  | .directory => if before.isSome then none else some (directory place)
  | _ => none

end TreeChange

namespace FileTree

/-- The changes that lead from one tree to another. -/
def changesTo (before after : FileTree) : List TreeChange :=
  let removed := before.nodes.toList.reverse.filterMap fun (place, _) =>
    if after.nodes.contains place then none else some (.removed place)
  let written := after.nodes.toList.filterMap fun (place, node) =>
    TreeChange.ofNode? place before.nodes[place]? node
  removed ++ written

end FileTree
end BulkTransfer
