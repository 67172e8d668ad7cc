import BulkTransfer.Text.Blank
import BulkTransfer.Text.Segment

/-!
# Preparing and cutting a command line

A line loses its comment, the blanks at its ends and all but one of neighbouring
spaces.  What remains is a chain: a first segment, behind `&&` a segment for its
success, and behind `||` a segment for its failure.  A chain is read against the
longest shape first.  Segments are as short as the rest of the shape allows,
blanks around an operator belong to it, and no segment crosses a line break.
-/

namespace BulkTransfer
namespace Chain

/-!
## Preparing
-/

/-- Words with exactly one space between neighbours. -/
def collapseSpaces (s : List Char) : List Char :=
  Text.joinWith ' ' ((Text.splitOn ' ' s).filter fun word => !word.isEmpty)

/-- A line without comment, outer blanks and repeated spaces. -/
def prepareChars (line : List Char) : List Char :=
  collapseSpaces (Text.trim (Text.before " #".toList line))

/-- A line without comment, outer blanks and repeated spaces. -/
def prepare (line : String) : String :=
  String.ofList (prepareChars line.toList)

/-!
## Shapes
-/

/-- One element of a shape. -/
inductive Piece
  /-- a run of blanks, as long as possible -/
  | blanks
  /-- a segment of at least one character, as short as possible -/
  | segment
  /-- the given characters -/
  | word (word : List Char)
deriving DecidableEq, Repr

/-- Continue behind the longest run of blanks for which that succeeds. -/
def behindBlanks {α : Type} (next : List Char → Option α) : List Char → Option α
  | [] => next []
  | c :: s =>
      if Text.isBlank c then (behindBlanks next s).or (next (c :: s)) else next (c :: s)

/-- Put a character in front of the first segment. -/
def lengthen (c : Char) : List (List Char) → List (List Char)
  | [] => []
  | segment :: rest => (c :: segment) :: rest

/-- Continue behind the shortest segment for which that succeeds. -/
def behindSegment (next : List Char → Option (List (List Char))) :
    List Char → Option (List (List Char))
  | [] => none
  | c :: s =>
      if c = '\n' then none
      else ((next s).map fun rest => [c] :: rest).or
        ((behindSegment next s).map (lengthen c))

/-- The segments of a text of a given shape. -/
def segments : List Piece → List Char → Option (List (List Char))
  | [], s => if s.isEmpty then some [] else none
  | .blanks :: shape, s => behindBlanks (segments shape) s
  | .segment :: shape, s => behindSegment (segments shape) s
  | .word word :: shape, s => (List.isPrefixOf? word s).bind (segments shape)

/-!
## All ends of a text at once

The segments of every end of a text are found from the right, one piece of the
shape after the other, so that a long run of blanks costs no more than its length.
-/

/-- The segments of every end of a text, the whole text first. -/
abbrev Findings := List (Option (List (List Char)))

/-- The findings for one more piece of blanks. -/
def blanksFindings : List Char → Findings → Findings
  | [], found => found
  | _ :: _, [] => []
  | c :: s, here :: found =>
      let shorter := blanksFindings s found
      (if Text.isBlank c then (shorter.headD none).or here else here) :: shorter

/-- The findings for one more segment. -/
def segmentFindings : List Char → Findings → Findings
  | [], _ => [none]
  | _ :: _, [] => []
  | c :: s, _ :: found =>
      let shorter := segmentFindings s found
      (if c = '\n' then none
        else ((found.headD none).map fun rest => [c] :: rest).or
          ((shorter.headD none).map (lengthen c))) :: shorter

/-- The findings for one more word. -/
def wordFindings (word : List Char) : List Char → Findings → Findings
  | [], found => [if word.isEmpty then found.headD none else none]
  | _ :: _, [] => []
  | c :: s, here :: found =>
      (if word.isPrefixOf (c :: s) then ((here :: found).drop word.length).headD none
        else none) :: wordFindings word s found

/-- The findings for a shape. -/
def findings : List Piece → List Char → Findings
  | [], s => s.map (fun _ => none) ++ [some []]
  | .blanks :: shape, s => blanksFindings s (findings shape s)
  | .segment :: shape, s => segmentFindings s (findings shape s)
  | .word word :: shape, s => wordFindings word s (findings shape s)

/-- All ends of a text, the whole text first. -/
def ends : List Char → List (List Char)
  | [] => [[]]
  | c :: s => (c :: s) :: ends s

theorem headD_map_ends (f : List Char → Option (List (List Char))) (s : List Char) :
    ((ends s).map f).headD none = f s := by
  cases s <;> rfl

theorem drop_map_ends (f : List Char → Option (List (List Char))) (n : Nat) (s : List Char)
    (h : n ≤ s.length) : ((ends s).map f).drop n = (ends (s.drop n)).map f := by
  induction n generalizing s with
  | zero => rfl
  | succ n ih =>
      cases s with
      | nil => cases h
      | cons c s => exact ih s (Nat.le_of_succ_le_succ h)

theorem blanksFindings_eq (next : List Char → Option (List (List Char))) (s : List Char) :
    blanksFindings s ((ends s).map next) = (ends s).map (behindBlanks next) := by
  induction s with
  | nil => rfl
  | cons c s ih =>
      simp only [ends, List.map_cons, blanksFindings, ih, headD_map_ends]
      rfl

theorem segmentFindings_eq (next : List Char → Option (List (List Char))) (s : List Char) :
    segmentFindings s ((ends s).map next) = (ends s).map (behindSegment next) := by
  induction s with
  | nil => rfl
  | cons c s ih =>
      simp only [ends, List.map_cons, segmentFindings, ih, headD_map_ends]
      rfl

theorem isPrefixOf?_eq (word s : List Char) :
    List.isPrefixOf? word s =
      if word.isPrefixOf s then some (s.drop word.length) else none := by
  induction word generalizing s with
  | nil => rfl
  | cons w word ih =>
      cases s with
      | nil => rfl
      | cons c s =>
          show (if (w == c) = true then List.isPrefixOf? word s else none) =
            if (w == c && word.isPrefixOf s) = true then some (s.drop word.length) else none
          cases w == c with
          | false => rfl
          | true => exact ih s

theorem length_le_of_isPrefixOf {word s : List Char} (h : word.isPrefixOf s = true) :
    word.length ≤ s.length :=
  (List.isPrefixOf_iff_prefix.mp h).length_le

theorem wordFindings_eq (word : List Char) (next : List Char → Option (List (List Char)))
    (s : List Char) :
    wordFindings word s ((ends s).map next) =
      (ends s).map fun s => (List.isPrefixOf? word s).bind next := by
  induction s with
  | nil => cases word <;> rfl
  | cons c s ih =>
      rw [ends, List.map_cons, wordFindings, ih, List.map_cons, isPrefixOf?_eq]
      by_cases h : word.isPrefixOf (c :: s) = true
      · have hdrop := drop_map_ends next word.length (c :: s) (length_le_of_isPrefixOf h)
        rw [ends, List.map_cons] at hdrop
        rw [if_pos h, if_pos h, hdrop, headD_map_ends]
        rfl
      · rw [if_neg h, if_neg h]
        rfl

/-- What is found from the right is what the shape means. -/
theorem findings_eq (shape : List Piece) (s : List Char) :
    findings shape s = (ends s).map (segments shape) := by
  induction shape with
  | nil =>
      induction s with
      | nil => rfl
      | cons c s ih =>
          rw [ends, List.map_cons, ← ih]
          rfl
  | cons piece shape ih =>
      cases piece with
      | blanks =>
          rw [findings, ih]
          exact blanksFindings_eq (segments shape) s
      | segment =>
          rw [findings, ih]
          exact segmentFindings_eq (segments shape) s
      | word word =>
          rw [findings, ih]
          exact wordFindings_eq word (segments shape) s

/-- Cut a text into the segments of a shape. -/
def cut (shape : List Piece) (s : List Char) : Option (List (List Char)) :=
  (findings shape s).headD none

theorem cut_eq_segments (shape : List Piece) (s : List Char) :
    cut shape s = segments shape s := by
  rw [cut, findings_eq, headD_map_ends]

/-!
## Chains
-/

def andWord : List Char := ['&', '&']
def orWord : List Char := ['|', '|']

/-- A first segment, a success segment and a failure segment. -/
def bothShape : List Piece :=
  [.blanks, .segment, .blanks, .word andWord, .blanks, .segment, .blanks, .word orWord,
    .blanks, .segment, .blanks]

/-- Two segments around an operator. -/
def pairShape (operator : List Char) : List Piece :=
  [.blanks, .segment, .blanks, .word operator, .blanks, .segment, .blanks]

end Chain

/-- The segments of a line. -/
structure Chain where
  first : List Char
  onSuccess : Option (List Char) := none
  onFailure : Option (List Char) := none
deriving DecidableEq, Repr

namespace Chain

/-- Cut a prepared line into its segments. -/
def split (s : List Char) : Chain :=
  match cut bothShape s with
  | some [first, next, fallback] =>
      { first := first, onSuccess := some next, onFailure := some fallback }
  | _ =>
      match cut (pairShape andWord) s with
      | some [first, next] => { first := first, onSuccess := some next }
      | _ =>
          match cut (pairShape orWord) s with
          | some [first, fallback] => { first := first, onFailure := some fallback }
          | _ => { first := s }

/-- Whether an operator occurs in a segment. -/
def hasOperator (s : List Char) : Bool :=
  Text.contains andWord s || Text.contains orWord s

end Chain
end BulkTransfer
