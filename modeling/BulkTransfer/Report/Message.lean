import BulkTransfer.Text.Blank
import BulkTransfer.Text.Segment

/-!
# Messages on one line

An error message is shown on one line: line breaks and tabs become spaces, pairs
of spaces become one until there are none, and blanks at the ends disappear.
-/

namespace BulkTransfer
namespace Report

/-- Line breaks and tabs as spaces. -/
def spaced (c : Char) : Char :=
  if c = '\n' ∨ c = '\t' then ' ' else c

def twoSpaces : List Char := [' ', ' ']

/-- One space for every pair of spaces, pairs taken from the left. -/
def halveSpaces : List Char → List Char
  | ' ' :: ' ' :: s => ' ' :: halveSpaces s
  | c :: s => c :: halveSpaces s
  | [] => []

theorem length_halveSpaces_le (s : List Char) : (halveSpaces s).length ≤ s.length := by
  fun_induction halveSpaces s with
  | case1 s ih => exact Nat.le_succ_of_le (Nat.succ_le_succ ih)
  | case2 c s hpair ih => exact Nat.succ_le_succ ih
  | case3 => exact Nat.le_refl 0

theorem isPrefixOf_twoSpaces_eq_false {c : Char} {s : List Char}
    (h : ∀ t, c = ' ' → s = ' ' :: t → False) : twoSpaces.isPrefixOf (c :: s) = false := by
  cases s with
  | nil => rw [twoSpaces, List.isPrefixOf_cons_cons, List.isPrefixOf_cons_nil, Bool.and_false]
  | cons d s =>
      rw [twoSpaces, List.isPrefixOf_cons_cons, List.isPrefixOf_cons_cons, List.isPrefixOf_nil_left,
        Bool.and_true, Bool.and_eq_false_iff, beq_eq_false_iff_ne, beq_eq_false_iff_ne]
      by_cases hc : ' ' = c
      · exact Or.inr fun hd => h s hc.symm (by rw [← hd])
      · exact Or.inl hc

theorem length_halveSpaces_lt {s : List Char} (h : Text.contains twoSpaces s = true) :
    (halveSpaces s).length < s.length := by
  fun_induction halveSpaces s with
  | case1 s ih => exact Nat.succ_lt_succ (Nat.lt_succ_of_le (length_halveSpaces_le s))
  | case2 c s hpair ih =>
      rw [Text.contains, isPrefixOf_twoSpaces_eq_false hpair, Bool.false_or] at h
      exact Nat.succ_lt_succ (ih h)
  | case3 => cases h

/-- Halve the spaces until no two are neighbours. -/
def squeeze (s : List Char) : List Char :=
  if _h : Text.contains twoSpaces s = true then squeeze (halveSpaces s) else s
termination_by s.length
decreasing_by exact length_halveSpaces_lt _h

/-- The characters of a message on one line. -/
def flatten (s : List Char) : List Char :=
  Text.trim (squeeze (s.map spaced))

/-- A message on one line. -/
def oneLine (message : String) : String :=
  String.ofList (flatten message.toList)

end Report
end BulkTransfer
