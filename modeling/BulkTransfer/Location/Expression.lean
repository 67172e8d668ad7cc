import BulkTransfer.Location.Wildcard

/-!
# Expressions for keys

The pattern of a location is handed on as a regular expression: it is anchored at both ends,
`?` becomes a dot, `*` a dot that is repeated, and every other character is escaped where it
would mean something.  Of the language of expressions only as much is read here as such
texts use.
-/

namespace BulkTransfer
namespace Expression

/-- Whether a character means something in an expression. -/
def isMeta (c : Char) : Bool :=
  c = '\\' || c = '.' || c = '+' || c = '*' || c = '?' || c = '(' || c = ')' || c = '|' ||
    c = '[' || c = ']' || c = '{' || c = '}' || c = '^' || c = '$' || c = '#' || c = '&' ||
    c = '-' || c = '~'

/-- The expression for a text itself. -/
def escape (s : List Char) : List Char :=
  s.flatMap fun c => if isMeta c then ['\\', c] else [c]

/-- The expression for a character of a pattern. -/
def ofPatternChar (c : Char) : List Char :=
  if c = '?' then ['.']
  else if c = '*' then ['.', '*']
  else escape [c]

/-!
## What an expression means
-/

inductive Piece
  /-- the beginning of the text -/
  | start
  /-- the end of the text -/
  | stop
  | one (c : Char)
  /-- a character other than a line break -/
  | any
  /-- a run of characters other than line breaks -/
  | run
deriving DecidableEq, Repr

/-- The pieces of an expression, if it has no others. -/
def read : List Char → Option (List Piece)
  | [] => some []
  | c :: rest =>
      if c = '^' then (read rest).map (.start :: ·)
      else if c = '$' then (read rest).map (.stop :: ·)
      else if c = '.' then
        match rest with
        | [] => some [.any]
        | d :: behind =>
            if d = '*' then (read behind).map (.run :: ·) else (read (d :: behind)).map (.any :: ·)
      else if c = '\\' then
        match rest with
        | [] => none
        | d :: behind => if isMeta d then (read behind).map (.one d :: ·) else none
      else if isMeta c then none
      else (read rest).map (.one c :: ·)

/-- Whether pieces take up a text, between what is in front of it and what is behind it. -/
inductive Spans : List Piece → List Char → List Char → List Char → Prop
  | nil (front behind : List Char) : Spans [] front [] behind
  | start (pieces : List Piece) (s behind : List Char) :
      Spans pieces [] s behind → Spans (.start :: pieces) [] s behind
  | stop (pieces : List Piece) (front : List Char) :
      Spans pieces front [] [] → Spans (.stop :: pieces) front [] []
  | one (c : Char) (pieces : List Piece) (front s behind : List Char) :
      Spans pieces (front ++ [c]) s behind → Spans (.one c :: pieces) front (c :: s) behind
  | any (c : Char) (pieces : List Piece) (front s behind : List Char) :
      c ≠ '\n' → Spans pieces (front ++ [c]) s behind →
        Spans (.any :: pieces) front (c :: s) behind
  | run (run : List Char) (pieces : List Piece) (front s behind : List Char) :
      '\n' ∉ run → Spans pieces (front ++ run) s behind →
        Spans (.run :: pieces) front (run ++ s) behind

/-- Whether an expression finds something in a text. -/
def Finds (expression s : List Char) : Prop :=
  ∃ pieces front found behind, read expression = some pieces ∧ s = front ++ found ++ behind ∧
    Spans pieces front found behind

end Expression

namespace Location

/-- The expression for the keys that a location stands for. -/
def expression (location : Location) : String :=
  let wild := location.key.toList.dropWhile fun c => !isWildcardChar c
  String.ofList ('^' :: Expression.escape location.literalKey.toList ++
    (if wild.isEmpty then ['.', '*'] else wild.flatMap Expression.ofPatternChar) ++ ['$'])

end Location
end BulkTransfer
