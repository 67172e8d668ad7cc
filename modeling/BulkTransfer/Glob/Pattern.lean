import BulkTransfer.Text.Segment

/-!
# Glob patterns

In a pattern `?` stands for any character, `*` for any run of characters, and
brackets for one character of a set or, with a leading exclamation mark, outside
it.  Two stars stand for any directories and must fill a whole path component.
A pattern that breaks these rules is refused with the position of the fault.
-/

namespace BulkTransfer
namespace Glob

/-- An element of a bracketed set. -/
inductive Member
  | single (c : Char)
  | range (first last : Char)
deriving DecidableEq, Repr

/-- One token of a pattern. -/
inductive Token
  | literal (c : Char)
  | anyChar
  | anyRun
  | anyDirectories
  | oneOf (members : List Member)
  | noneOf (members : List Member)
deriving DecidableEq, Repr

/-- Why a text is no pattern. -/
inductive Fault
  | tooManyStars
  | recursiveNotAlone
  | unclosedSet
deriving DecidableEq, Repr

/-- A fault and the number of characters in front of it. -/
structure PatternError where
  position : Nat
  fault : Fault
deriving DecidableEq, Repr

namespace PatternError

def message (error : PatternError) : String :=
  "Pattern syntax error near position " ++ toString error.position ++ ": " ++
    match error.fault with
    | .tooManyStars => "wildcards are either regular `*` or recursive `**`"
    | .recursiveNotAlone => "recursive wildcards must form a single path component"
    | .unclosedSet => "invalid range pattern"

end PatternError

/-!
## Reading
-/

/-- The elements between two brackets. -/
def members : List Char → List Member
  | first :: '-' :: last :: rest => .range first last :: members rest
  | c :: rest => .single c :: members rest
  | [] => []

/-- A set whose first element is always taken, closed by a later bracket. -/
def closedSet : List Char → Option (List Char × List Char)
  | [] => none
  | first :: rest =>
      let inner := rest.takeWhile (· ≠ ']')
      match rest.dropWhile (· ≠ ']') with
      | _ :: behind => some (first :: inner, behind)
      | [] => none

/-- Read a set behind its opening bracket. -/
def readSet : List Char → Option (Token × List Char)
  | '!' :: rest =>
      (closedSet rest).map fun cut => (.noneOf (members cut.1), cut.2)
  | rest => (closedSet rest).map fun cut => (.oneOf (members cut.1), cut.2)

theorem closedSet_length {s inner behind : List Char} (h : closedSet s = some (inner, behind)) :
    behind.length < s.length := by
  cases s with
  | nil => simp [closedSet] at h
  | cons first rest =>
      simp only [closedSet] at h
      have hle := (List.dropWhile_suffix (p := fun c : Char => decide (c ≠ ']')) (l := rest)).length_le
      cases hd : rest.dropWhile (fun c => decide (c ≠ ']')) with
      | nil => rw [hd] at h; simp at h
      | cons c tail =>
          rw [hd] at h hle
          simp only [Option.some.injEq, Prod.mk.injEq] at h
          obtain ⟨-, rfl⟩ := h
          simp only [List.length_cons] at hle ⊢
          omega

theorem readSet_length {s behind : List Char} {token : Token}
    (h : readSet s = some (token, behind)) : behind.length < s.length := by
  unfold readSet at h
  split at h
  · rename_i rest
    obtain ⟨⟨inner, rest'⟩, hc, he⟩ := Option.map_eq_some_iff.mp h
    have := closedSet_length hc
    simp only [Prod.mk.injEq] at he
    obtain ⟨-, rfl⟩ := he
    simp only [List.length_cons]
    omega
  · obtain ⟨⟨inner, rest'⟩, hc, he⟩ := Option.map_eq_some_iff.mp h
    have := closedSet_length hc
    simp only [Prod.mk.injEq] at he
    obtain ⟨-, rfl⟩ := he
    exact this

/-- Whether stars may stand here: at the start of the pattern or behind a slash. -/
def startsComponent (behind : Option Char) : Bool :=
  behind == none || behind == some '/'

/-- Read the tokens of a pattern from a position, given the character in front. -/
def read (position : Nat) (front : Option Char) (s : List Char) :
    Except PatternError (List Token) :=
  match s with
  | [] => .ok []
  | '?' :: rest => (read (position + 1) (some '?') rest).map (.anyChar :: ·)
  | '*' :: '*' :: '*' :: _ => .error { position := position + 2, fault := .tooManyStars }
  | ['*', '*'] =>
      if startsComponent front then .ok [.anyDirectories]
      else .error { position := position - 1, fault := .recursiveNotAlone }
  | '*' :: '*' :: c :: rest =>
      if !startsComponent front then
        .error { position := position - 1, fault := .recursiveNotAlone }
      else if c ≠ '/' then .error { position := position + 2, fault := .recursiveNotAlone }
      else (read (position + 3) (some '/') rest).map (.anyDirectories :: ·)
  | '*' :: rest => (read (position + 1) (some '*') rest).map (.anyRun :: ·)
  | '[' :: rest =>
      match h : readSet rest with
      | none => .error { position := position, fault := .unclosedSet }
      | some (token, behind) =>
          have := readSet_length h
          (read (position + 1 + (rest.length - behind.length)) (some ']') behind).map
            (token :: ·)
  | c :: rest => (read (position + 1) (some c) rest).map (.literal c :: ·)
termination_by s.length

/-- Read a whole pattern. -/
def parse (pattern : String) : Except PatternError (List Token) :=
  read 0 none pattern.toList

/-!
## Matching names
-/

namespace Member

def holds (c : Char) : Member → Bool
  | single d => c = d
  | range first last => first ≤ c && c ≤ last

end Member

namespace Token

/-- Whether a token stands for a single given character. -/
def accepts (c : Char) : Token → Bool
  | literal d => c = d
  | anyChar => true
  | oneOf members => members.any (Member.holds c)
  | noneOf members => !members.any (Member.holds c)
  | anyRun | anyDirectories => false

/-- Whether a token stands for a run of characters. -/
def isRun : Token → Bool
  | anyRun | anyDirectories => true
  | _ => false

end Token

/-- From the suffixes of a name that some tokens match to those that the tokens
behind one more token match; longest suffix first. -/
def extend (token : Token) : List Char → List Bool → List Bool
  | [], rest => if token.isRun then rest else [false]
  | _ :: _, [] => []
  | c :: s, b :: rest =>
      let shorter := extend token s rest
      let here :=
        if token.isRun then b || shorter.headD false
        else token.accepts c && rest.headD false
      here :: shorter

/-- For every suffix of a name, longest first, whether the tokens match it. -/
def suffixes : List Token → List Char → List Bool
  | [], s => s.map (fun _ => false) ++ [true]
  | token :: tokens, s => extend token s (suffixes tokens s)

/-- Whether the tokens of one path component match a name. -/
def isMatch (tokens : List Token) (name : String) : Bool :=
  (suffixes tokens name.toList).headD false

/-- The name that tokens spell out, if none of them is special. -/
def literalName? : List Token → Option (List Char)
  | [] => some []
  | .literal c :: tokens => (literalName? tokens).map (c :: ·)
  | _ => none

end Glob
end BulkTransfer
