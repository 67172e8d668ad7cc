/-!
# Cutting text at characters and words

Everything here works on lists of characters.  A text is cut at every
occurrence of a separator, at the first occurrence, or at the last one; the
pieces always concatenate back to the text.
-/

namespace BulkTransfer
namespace Text

/-!
## Every occurrence
-/

/-- Add one character to the pieces of the text behind it. -/
def consPiece (sep c : Char) : List (List Char) → List (List Char)
  | [] => if c = sep then [[], []] else [[c]]
  | piece :: pieces => if c = sep then [] :: piece :: pieces else (c :: piece) :: pieces

/-- The pieces between separators; a text without separator is one piece. -/
def splitOn (sep : Char) (s : List Char) : List (List Char) :=
  s.foldr (consPiece sep) [[]]

/-- The pieces with one separator between neighbours. -/
def joinWith (sep : Char) : List (List Char) → List Char
  | [] => []
  | [piece] => piece
  | piece :: next :: pieces => piece ++ sep :: joinWith sep (next :: pieces)

@[simp] theorem splitOn_nil (sep : Char) : splitOn sep [] = [[]] := rfl

theorem splitOn_cons (sep c : Char) (s : List Char) :
    splitOn sep (c :: s) = consPiece sep c (splitOn sep s) := rfl

theorem splitOn_ne_nil (sep : Char) (s : List Char) : splitOn sep s ≠ [] := by
  cases s with
  | nil => simp
  | cons c s =>
      rw [splitOn_cons]
      cases splitOn sep s with
      | nil => by_cases h : c = sep <;> simp [consPiece, h]
      | cons piece pieces => by_cases h : c = sep <;> simp [consPiece, h]

theorem joinWith_splitOn (sep : Char) (s : List Char) :
    joinWith sep (splitOn sep s) = s := by
  induction s with
  | nil => rfl
  | cons c s ih =>
      rw [splitOn_cons]
      cases hs : splitOn sep s with
      | nil => exact absurd hs (splitOn_ne_nil sep s)
      | cons piece pieces =>
          rw [hs] at ih
          by_cases h : c = sep
          · subst h
            simp [consPiece, joinWith, ih]
          · cases pieces with
            | nil =>
                simp [joinWith] at ih
                simp [consPiece, h, joinWith, ih]
            | cons next rest =>
                simp only [joinWith] at ih
                simp [consPiece, h, joinWith, ih]

/-!
## The first occurrence of a word
-/

/-- The text in front of the first occurrence of a word, all of it if there is none. -/
def before (word : List Char) : List Char → List Char
  | [] => []
  | c :: s => if word.isPrefixOf (c :: s) then [] else c :: before word s

/-- Whether a word occurs in a text. -/
def contains (word : List Char) : List Char → Bool
  | [] => word.isEmpty
  | c :: s => word.isPrefixOf (c :: s) || contains word s

/-- A text without a word in front, all of it if it does not start so. -/
def dropFront (word s : List Char) : List Char :=
  (List.isPrefixOf? word s).getD s

/-!
## The last occurrence of a character
-/

/-- The text up to and including the last separator. -/
def throughLast (sep : Char) (s : List Char) : List Char :=
  (s.reverse.dropWhile (· ≠ sep)).reverse

/-- The text behind the last separator. -/
def afterLast (sep : Char) (s : List Char) : List Char :=
  (s.reverse.takeWhile (· ≠ sep)).reverse

theorem throughLast_append_afterLast (sep : Char) (s : List Char) :
    throughLast sep s ++ afterLast sep s = s := by
  rw [throughLast, afterLast, ← List.reverse_append, List.takeWhile_append_dropWhile,
    List.reverse_reverse]

/-!
## Widths
-/

/-- Pad in front up to a width. -/
def padLeft (width : Nat) (fill : Char) (s : String) : String :=
  String.ofList (List.replicate (width - s.length) fill) ++ s

/-- Pad behind up to a width. -/
def padRight (width : Nat) (fill : Char) (s : String) : String :=
  s ++ String.ofList (List.replicate (width - s.length) fill)

end Text
end BulkTransfer
