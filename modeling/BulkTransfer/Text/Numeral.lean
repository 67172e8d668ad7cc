import BulkTransfer.Text.Segment

/-!
# Decimal numerals

Reading an integer with an optional sign, and rounding a quotient of natural
numbers to the nearest integer.  Sizes are written with one decimal digit of a
double-precision quotient, so the number of bytes is first rounded to 53
significant binary digits.
-/

namespace BulkTransfer
namespace Text

/-!
## Reading
-/

/-- The value of a non-empty run of decimal digits. -/
def natural? (digits : List Char) : Option Nat :=
  if digits.isEmpty || !digits.all Char.isDigit then none
  else some (digits.foldl (fun value d => value * 10 + (d.toNat - '0'.toNat)) 0)

/-- A natural number with an optional plus sign. -/
def unsigned? : List Char → Option Nat
  | '+' :: digits => natural? digits
  | digits => natural? digits

/-- An integer with an optional sign. -/
def signed? : List Char → Option Int
  | '-' :: digits => (natural? digits).map fun n => -(n : Int)
  | s => (unsigned? s).map Int.ofNat

/-- An integer between two bounds. -/
def signedWithin? (low high : Int) (s : List Char) : Option Int :=
  (signed? s).filter fun n => low ≤ n && n ≤ high

/-- An integer that fits into 64 bits with a sign. -/
def signed64? (s : List Char) : Option Int :=
  signedWithin? (-9223372036854775808) 9223372036854775807 s

/-- A natural number up to a bound. -/
def unsignedUpTo? (high : Nat) (s : List Char) : Option Nat :=
  (unsigned? s).filter fun n => n ≤ high

/-!
## Rounding
-/

/-- The nearest integer to a quotient; a tie goes to the even neighbour. -/
def roundQuotient (num den : Nat) : Nat :=
  let floor := num / den
  let twice := 2 * (num % den)
  if twice < den || (twice == den && floor % 2 == 0) then floor else floor + 1

/-- Keep 53 significant binary digits, rounding to nearest, ties to even. -/
def toDoublePrecision (n : Nat) : Nat :=
  let spare := n.log2 - 52
  roundQuotient n (1 <<< spare) * (1 <<< spare)

theorem roundQuotient_one (n : Nat) : roundQuotient n 1 = n := by
  simp [roundQuotient, Nat.mod_one]

theorem toDoublePrecision_of_log2_le {n : Nat} (h : n.log2 ≤ 52) :
    toDoublePrecision n = n := by
  have hspare : n.log2 - 52 = 0 := by omega
  simp [toDoublePrecision, hspare, roundQuotient_one]

end Text
end BulkTransfer
