import BulkTransfer.Text.Numeral

/-!
# Sizes and durations as text

A size up to 1024 bytes is written as a plain number; a larger one in the
largest unit strictly below it, with one decimal digit.  A duration is written
in seconds with three decimals.
-/

namespace BulkTransfer

/-- The units of a size, largest first, with the bytes in each. -/
def sizeUnits : List (String × Nat) :=
  [("T", 1099511627776), ("G", 1073741824), ("M", 1048576), ("K", 1024)]

/-- One decimal digit of a quotient by a unit, ties to the even digit. -/
def oneDecimalText (bytes unit : Nat) : String :=
  let tenths := Text.roundQuotient (Text.toDoublePrecision bytes * 10) unit
  toString (tenths / 10) ++ "." ++ toString (tenths % 10)

/-- A byte count for human readers: `512`, `1.5K`, `20.0M`. -/
def sizeText (bytes : Nat) : String :=
  match sizeUnits.find? fun unit => unit.2 < bytes with
  | some (letter, unit) => oneDecimalText bytes unit ++ letter
  | none => toString bytes

/-- Milliseconds as seconds with three decimals: `1.250s`. -/
def elapsedText (milliseconds : Nat) : String :=
  toString (milliseconds / 1000) ++ "." ++
    Text.padLeft 3 '0' (toString (milliseconds % 1000)) ++ "s"

end BulkTransfer
