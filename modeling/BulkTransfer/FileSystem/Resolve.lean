import BulkTransfer.FileSystem.Tree

/-!
# From written paths to places

A written path is followed name by name.  A dot stays, a double dot goes up, a
file in the middle is an error, and a symbolic link continues at its target.
At most forty links are followed.  The last name may be missing: then the path
resolves to a vacant name in an existing directory.
-/

namespace BulkTransfer

/-- Where a path leads. -/
inductive Resolved
  | entry (place : Place) (node : Node)
  | vacant (directory : Place) (name : String)
deriving Inhabited

/-- How far the names of a path lead without following another link. -/
inductive Progress
  | arrived (resolved : Resolved)
  | redirected (directory : Place) (target : String) (rest : List String)
  | blocked (errno : Errno)
deriving Inhabited

namespace FileTree

/-- The names of a path, without the empty ones between slashes. -/
def namesOf (path : String) : List String :=
  (Path.pieces path).filter fun piece => !piece.isEmpty

/-- The names that a link stands for; a slash at its end asks for a directory. -/
def namesOfTarget (target : String) : List String :=
  namesOf target ++ if Path.endsInSlash target then ["."] else []

/-- The longest name that a directory can hold, in bytes. -/
def longestName : Nat := 255

/-- The first length in bytes that is too long for a path. -/
def pathLimit : Nat := 4096

/-- How many links one path may lead through. -/
def linkLimit : Nat := 40

/-- Follow names from a directory up to the next link. -/
def follow (tree : FileTree) (followLast : Bool) (directory : Place) :
    List String → Progress
  | [] => .arrived (.entry directory .directory)
  | name :: rest =>
      if name = "." then follow tree followLast directory rest
      else if name = ".." then follow tree followLast directory.dropLast rest
      else if longestName < name.utf8ByteSize then .blocked .nameTooLong
      else
        match tree.node? (directory ++ [name]) with
        | none =>
            if rest.isEmpty then .arrived (.vacant directory name) else .blocked .noEntry
        | some .directory => follow tree followLast (directory ++ [name]) rest
        | some .closed =>
            if rest.isEmpty then .arrived (.entry (directory ++ [name]) .closed)
            else .blocked .accessDenied
        | some (.file content modified) =>
            if rest.isEmpty then
              .arrived (.entry (directory ++ [name]) (.file content modified))
            else .blocked .notDirectory
        | some (.link target) =>
            if rest.isEmpty && !followLast then
              .arrived (.entry (directory ++ [name]) (.link target))
            else .redirected directory target rest

/-- Where names start: at the root for an absolute path. -/
def startOf (path : String) (directory : Place) : Place :=
  if Path.isAbsolute path then [] else directory

/-- Follow names from a directory through a bounded number of links. -/
def followLinks (tree : FileTree) (followLast : Bool) :
    Nat → Place → List String → Except Errno Resolved
  | links, directory, names =>
      match tree.follow followLast directory names with
      | .arrived resolved => .ok resolved
      | .blocked errno => .error errno
      | .redirected directory target rest =>
          match links with
          | 0 => .error .tooManyLinks
          | links + 1 =>
              followLinks tree followLast links (startOf target directory)
                (namesOfTarget target ++ rest)

/-- Where a written path leads. -/
def resolve (tree : FileTree) (followLast : Bool) (path : String) :
    Except IoError Resolved :=
  if path.toList.contains '\x00' then .error .nulInPath
  else if path.isEmpty then .error (.system .noEntry)
  else if pathLimit ≤ path.utf8ByteSize then .error (.system .nameTooLong)
  else
    (tree.followLinks followLast linkLimit (startOf path tree.workingDirectory)
      (namesOf path)).mapError .system

end FileTree
end BulkTransfer
