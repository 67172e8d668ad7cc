import BulkTransfer.Location

/-!
# Matching keys against a location

In a wildcard key `?` stands for one character and `*` for any run of
characters, slashes included; neither stands for a line break, and every other
character stands for itself.  The relation `Derives` states this rule.  The
matcher computes it for all suffixes of a key at once, one pattern character
after the other from the right, so that many stars cost no more than few.

A location without wildcard matches the keys that continue its own key without
a line break.

Only a key whose automaton is small enough is matched at all.  The automaton reads
the bytes of a text from the last one to the first, and its size is a sum over the
characters of the key.
-/

namespace BulkTransfer
namespace Wildcard

/-- The texts that a pattern stands for. -/
inductive Derives : List Char → List Char → Prop
  | nil : Derives [] []
  | run (run : List Char) (pattern s : List Char) :
      '\n' ∉ run → Derives pattern s → Derives ('*' :: pattern) (run ++ s)
  | any (c : Char) (pattern s : List Char) :
      c ≠ '\n' → Derives pattern s → Derives ('?' :: pattern) (c :: s)
  | literal (c : Char) (pattern s : List Char) :
      isWildcardChar c = false → Derives pattern s → Derives (c :: pattern) (c :: s)

/-- Whether a suffix starts with a character that a pattern character other
than a star stands for. -/
def stepMatches (p c : Char) : Bool :=
  if p = '?' then c ≠ '\n' else p = c

/-- From the suffixes of a text that a pattern matches to those that the
pattern behind one more character matches; longest suffix first. -/
def extend (p : Char) : List Char → List Bool → List Bool
  | [], rest => if p = '*' then rest else [false]
  | _ :: _, [] => []
  | c :: s, b :: rest =>
      let shorter := extend p s rest
      let here :=
        if p = '*' then b || (c ≠ '\n' && shorter.headD false)
        else stepMatches p c && rest.headD false
      here :: shorter

/-- For every suffix of a text, longest first, whether the pattern matches it. -/
def suffixes : List Char → List Char → List Bool
  | [], s => s.map (fun _ => false) ++ [true]
  | p :: pattern, s => extend p s (suffixes pattern s)

/-- Whether a pattern matches a whole text. -/
def isMatch (pattern s : List Char) : Bool :=
  (suffixes pattern s).headD false

/-!
## The size of a pattern
-/

/-- The bytes that a state of an automaton takes. -/
def stateSize : Nat := 32

/-- The bytes that each way out of a branching state takes. -/
def branchSize : Nat := 4

/-- The size of the automaton for one character other than a line break: a branch
to ten classes of byte sequences, which have 28 bytes in all, and a common end. -/
def anySize : Nat := 30 * stateSize + 10 * branchSize

/-- The size of the automaton for a run of characters: one character, and a branch
that repeats it or goes on. -/
def runSize : Nat := anySize + stateSize + 2 * branchSize

/-- The size of the automaton for a character of a pattern. -/
def sizeOfChar (c : Char) : Nat :=
  if c = '?' then anySize
  else if c = '*' then runSize
  else c.utf8Size * stateSize

/-- The size of the automaton for a pattern: its characters, the two ends of the
text, a start and an acceptance. -/
def automatonSize (pattern : List Char) : Nat :=
  pattern.foldl (fun size c => size + sizeOfChar c) (4 * stateSize)

/-- The most bytes that an automaton may take: ten binary megabytes. -/
def largestAutomaton : Nat := 10 * 1024 * 1024

/-- A pattern whose automaton takes more bytes than it may. -/
structure Oversized where
  limit : Nat
deriving DecidableEq, Repr

namespace Oversized

def message (error : Oversized) : String :=
  "invalid wildcard pattern: Compiled regex exceeds size limit of " ++
    toString error.limit ++ " bytes."

end Oversized

end Wildcard

namespace Location

/-- The pattern for the keys that a location stands for. -/
def pattern (location : Location) : List Char :=
  if location.isWildcard then location.key.toList else location.key.toList ++ ['*']

/-- Refuse a location against which no key can be matched. -/
def checkSize (location : Location) : Except Wildcard.Oversized Unit :=
  if Wildcard.largestAutomaton < Wildcard.automatonSize location.pattern then
    .error { limit := Wildcard.largestAutomaton }
  else .ok ()

/-- Whether an object key is among those that a location stands for. -/
def accepts (location : Location) (key : String) : Bool :=
  if location.isWildcard then Wildcard.isMatch location.key.toList key.toList
  else
    match List.isPrefixOf? location.key.toList key.toList with
    | some rest => rest.all (· ≠ '\n')
    | none => false

/-- What a destination keeps of an accepted key: the part behind the last slash
in front of the first wildcard or, without wildcard, behind the location's own
key. -/
def relativeKey (location : Location) (key : String) : String :=
  match List.isPrefixOf? location.literalKey.toList key.toList with
  | none => key
  | some rest =>
      if location.isWildcard then
        String.ofList (Text.afterLast '/' location.literalKey.toList ++ rest)
      else String.ofList (rest.dropWhile (· = '/'))

end Location
end BulkTransfer
