import BulkTransfer.Text.Segment

/-!
# Paths as they are written

A written path is cut at slashes into parts.  Empty parts disappear, and so do
single dots except at the very beginning of a relative path; double dots stay,
since only the file system knows where they lead.  Two spellings with equal
parts are the same path.
-/

namespace BulkTransfer

/-- One part of a written path. -/
inductive PathPart
  | root
  | here
  | up
  | name (word : String)
deriving DecidableEq, Repr, Inhabited

namespace PathPart

def text : PathPart → String
  | root => "/"
  | here => "."
  | up => ".."
  | name word => word

end PathPart

namespace Path

/-- Whether a path starts at the root. -/
def isAbsolute (path : String) : Bool :=
  path.toList.head? == some '/'

/-- Whether a path ends in a slash. -/
def endsInSlash (path : String) : Bool :=
  path.toList.getLast? == some '/'

/-- The pieces between slashes. -/
def pieces (path : String) : List String :=
  (Text.splitOn '/' path.toList).map String.ofList

/-- The part that a piece behind the first stands for, if any. -/
def partOfPiece (piece : String) : Option PathPart :=
  if piece = "" ∨ piece = "." then none
  else if piece = ".." then some .up
  else some (.name piece)

/-- The parts of a path. -/
def parts (path : String) : List PathPart :=
  let pieces := pieces path
  let front :=
    if isAbsolute path then [PathPart.root]
    else if pieces.head? == some "." then [PathPart.here]
    else []
  front ++ pieces.filterMap partOfPiece

/-- The last part, if it is a name. -/
def fileName (path : String) : Option String :=
  match (parts path).getLast? with
  | some (.name word) => some word
  | _ => none

/-- A path behind another; an absolute one replaces it. -/
def join (base path : String) : String :=
  if isAbsolute path then path
  else if base.isEmpty || endsInSlash base then base ++ path
  else base ++ "/" ++ path

/-- Drop slashes and single-dot pieces at the end of a reversed path. -/
def dropTrailing : List Char → List Char
  | '/' :: rest => dropTrailing rest
  | '.' :: '/' :: rest => dropTrailing rest
  | rest => rest

/-- Drop slashes at the end of a reversed path. -/
def dropSlashes (reversed : List Char) : List Char :=
  reversed.dropWhile (· = '/')

/-- The path without its last part; the root and the empty path have none. -/
def parent (path : String) : Option String :=
  match (parts path).getLast? with
  | none | some .root => none
  | some _ =>
      let shortened := dropTrailing path.toList.reverse
      let rest := dropTrailing (shortened.dropWhile (· ≠ '/'))
      if rest.isEmpty && isAbsolute path then some "/"
      else some (String.ofList rest.reverse)

/-- The names below a base path, if the path lies there. -/
def below (base path : List PathPart) : Option (List PathPart) :=
  List.isPrefixOf? base path

/-- Parts joined with slashes. -/
def joinParts (parts : List PathPart) : String :=
  "/".intercalate (parts.map PathPart.text)

/-- The parts without a dot in front. -/
def withoutHere (parts : List PathPart) : List PathPart :=
  parts.dropWhile (· == .here)

end Path
end BulkTransfer
