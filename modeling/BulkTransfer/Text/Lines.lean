import BulkTransfer.Text.Segment

/-!
# Lines

A line ends at a line break, and a carriage return in front of the break belongs
to it.  A text that does not end in a break has one more line.
-/

namespace BulkTransfer
namespace Text

/-- A line without a carriage return at its end. -/
def dropReturn (line : List Char) : List Char :=
  if line.getLast? = some '\r' then line.dropLast else line

/-- The lines of the pieces between breaks; the last piece has no break behind it. -/
def linesOfPieces : List (List Char) → List (List Char)
  | [] => []
  | [last] => if last.isEmpty then [] else [last]
  | piece :: next :: pieces => dropReturn piece :: linesOfPieces (next :: pieces)

/-- The lines of a text. -/
def lines (s : String) : List String :=
  (linesOfPieces (splitOn '\n' s.toList)).map String.ofList

end Text
end BulkTransfer
