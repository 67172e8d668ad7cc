import BulkTransfer.FileSystem.Access
import BulkTransfer.Glob.Pattern
import BulkTransfer.Location

/-!
# The paths that a glob pattern stands for

A pattern is cut at its slashes and each component is matched against one name.
A component without special characters is looked up, any other is matched
against all names of a directory in increasing order, links being followed.  Two
stars stand for any number of directories.  The names `.` and `..` are matched
only by a component that starts with a dot.

Every path that a walk looks at is longer than the one it came from, and a path
that is too long leads nowhere, so the length of a path bounds the walk.
-/

namespace BulkTransfer
namespace Glob

/-- One component of a pattern. -/
abbrev Component := List Token

/-- A path that a pattern stands for, or a directory that could not be read. -/
inductive Match
  | path (path : String)
  | fault (path : String) (error : IoError)
deriving DecidableEq, Repr

namespace Component

/-- Whether a component stands for any directories. -/
def isRecursive (component : Component) : Bool :=
  component.contains .anyDirectories

/-- Whether a component starts with a dot. -/
def startsWithDot (component : Component) : Bool :=
  component.head? == some (.literal '.')

end Component

/-!
## Walking
-/

/-- The path of a name in a directory; names of the working directory stand alone. -/
def child (path name : String) : String :=
  if Path.parts path = [.here] then name else Path.join path name

/-- A path that all components have accepted. -/
def accepted (tree : FileTree) (directoriesOnly : Bool) (path : String) : List Match :=
  if !directoriesOnly || tree.isDirectory path then [.path path] else []

/-- Whether a looked-up name is there; `.` and `..` are in every directory. -/
def isThere (tree : FileTree) (directory name path : String) : Bool :=
  if name = "." ∨ name = ".." then tree.isDirectory directory
  else tree.leadsSomewhere path || tree.namesEntry path

/-- The special names that a component accepts, in the order they are walked. -/
def specialNames (component : Component) : List String :=
  if component.startsWithDot then ["..", "."].filter (isMatch component) else []

mutual

/-- The matches of components in a directory. -/
def inDirectory (tree : FileTree) (directoriesOnly : Bool) :
    Nat → List Component → String → List Match
  | 0, _, _ => []
  | _ + 1, [], _ => []
  | depth + 1, component :: components, path =>
      let goOn (next : String) : List Match :=
        if components.isEmpty then accepted tree directoriesOnly next
        else inDirectory tree directoriesOnly depth components next
      match literalName? component with
      | some letters =>
          let name := String.ofList letters
          let next := child path name
          if isThere tree path name next then goOn next else []
      | none =>
          if !tree.isDirectory path then []
          else
            match tree.readDirectory path with
            | .error error => [.fault path error]
            | .ok entries =>
                (specialNames component).flatMap (fun name => goOn (Path.join path name)) ++
                  entries.flatMap fun entry =>
                    ofEntry tree directoriesOnly depth (component :: components)
                      (child path entry.1) entry.1

/-- The matches of components that start with a name in a directory. -/
def ofEntry (tree : FileTree) (directoriesOnly : Bool) :
    Nat → List Component → String → String → List Match
  | 0, _, _, _ => []
  | _ + 1, [], _, _ => []
  | depth + 1, component :: components, path, name =>
      let matchName (patterns : List Component) : List Match :=
        match patterns with
        | [] => []
        | [last] => if isMatch last name then accepted tree directoriesOnly path else []
        | first :: others =>
            if isMatch first name then inDirectory tree directoriesOnly depth others path else []
      if component.isRecursive then
        let others := components.dropWhile Component.isRecursive
        if tree.isDirectory path then
          (if others.isEmpty then [.path path] else matchName others) ++
            inDirectory tree directoriesOnly depth (component :: others) path
        else matchName others
      else matchName (component :: components)

end

/-!
## Whole patterns
-/

/-- The components of a pattern behind the slash of an absolute one. -/
def componentWords (pattern : String) : List String :=
  let behind := if Path.isAbsolute pattern then pattern.toList.tail else pattern.toList
  let words := (Text.splitOn '/' behind).map String.ofList
  if words.getLast? = some "" then words.dropLast else words

/-- Where the walk of a pattern starts. -/
def startOf (pattern : String) : String :=
  if Path.isAbsolute pattern then "/" else "."

/-- How many steps a walk with given components can take from one path to the next. -/
def depthFor (components : List Component) : Nat :=
  3 * (FileTree.pathLimit + components.length + 1)

/-- The matches of a pattern, in the order of the walk. -/
def walk (tree : FileTree) (pattern : String) : Except PatternError (List Match) := do
  let _ ← parse pattern
  let components ← (componentWords pattern).mapM parse
  return inDirectory tree (Path.endsInSlash pattern) (depthFor components) components
    (startOf pattern)

/-- The literal directory in front of a pattern's first special character. -/
def literalDirectory (pattern : String) : String :=
  String.ofList (Text.throughLast '/' (pattern.toList.takeWhile fun c => !isGlobChar c))

end Glob
end BulkTransfer
