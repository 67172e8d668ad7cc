import BulkTransfer.Text.Segment

/-!
# Quoted text

Text is written between quotes.  The quote, the backslash and the control
characters are escaped, everything else stands for itself.  A reader knows more
escapes than the writer uses: a slash, and a character by its code unit, where a
character beyond the first plane takes two units.  A literal that names half of
such a pair alone is well formed but stands for no text.
-/

namespace BulkTransfer
namespace Json

/-!
## Writing
-/

/-- One hexadecimal digit. -/
def hexDigit (n : Nat) : Char :=
  if n < 10 then Char.ofNat ('0'.toNat + n) else Char.ofNat ('a'.toNat + (n - 10))

/-- A character as it is written between quotes. -/
def escape (c : Char) : List Char :=
  if c = '"' then ['\\', '"']
  else if c = '\\' then ['\\', '\\']
  else if c = '\n' then ['\\', 'n']
  else if c = '\r' then ['\\', 'r']
  else if c = '\t' then ['\\', 't']
  else if c = '\x08' then ['\\', 'b']
  else if c = '\x0c' then ['\\', 'f']
  else if c.toNat < 0x20 then
    ['\\', 'u', '0', '0', hexDigit (c.toNat / 16), hexDigit (c.toNat % 16)]
  else [c]

/-- A text between quotes. -/
def quote (s : List Char) : List Char :=
  '"' :: s.flatMap escape ++ ['"']

/-!
## Reading
-/

/-- The value of a hexadecimal digit. -/
def hexValue? (c : Char) : Option Nat :=
  if c.isDigit then some (c.toNat - '0'.toNat)
  else if 'a' ≤ c && c ≤ 'f' then some (c.toNat - 'a'.toNat + 10)
  else if 'A' ≤ c && c ≤ 'F' then some (c.toNat - 'A'.toNat + 10)
  else none

/-- The character that a one-letter escape stands for. -/
def shortEscape? (c : Char) : Option Char :=
  if c = '"' then some '"'
  else if c = '\\' then some '\\'
  else if c = '/' then some '/'
  else if c = 'b' then some '\x08'
  else if c = 'f' then some '\x0c'
  else if c = 'n' then some '\n'
  else if c = 'r' then some '\r'
  else if c = 't' then some '\t'
  else none

/-- The code units up to the closing quote, and what follows it. -/
def readUnits : List Char → Option (List Nat × List Char)
  | [] => none
  | '"' :: rest => some ([], rest)
  | '\\' :: 'u' :: a :: b :: c :: d :: rest =>
      match hexValue? a, hexValue? b, hexValue? c, hexValue? d with
      | some a, some b, some c, some d =>
          (readUnits rest).map fun found =>
            ((((a * 16 + b) * 16 + c) * 16 + d) :: found.1, found.2)
      | _, _, _, _ => none
  | '\\' :: c :: rest =>
      match shortEscape? c with
      | some e => (readUnits rest).map fun found => (e.toNat :: found.1, found.2)
      | none => none
  | c :: rest =>
      if c.toNat < 0x20 || c = '\\' then none
      else (readUnits rest).map fun found => (c.toNat :: found.1, found.2)

/-- Whether a unit is the first half of a pair. -/
def isHighHalf (unit : Nat) : Bool :=
  0xD800 ≤ unit && unit < 0xDC00

/-- Whether a unit is the second half of a pair. -/
def isLowHalf (unit : Nat) : Bool :=
  0xDC00 ≤ unit && unit < 0xE000

/-- The characters that units stand for, unless one is half of a pair alone. -/
def charsOfUnits : List Nat → Option (List Char)
  | [] => some []
  | high :: low :: rest =>
      if isHighHalf high then
        if isLowHalf low then
          (charsOfUnits rest).map fun s =>
            Char.ofNat (0x10000 + (high - 0xD800) * 0x400 + (low - 0xDC00)) :: s
        else none
      else if isLowHalf high then none
      else (charsOfUnits (low :: rest)).map fun s => Char.ofNat high :: s
  | [unit] =>
      if isHighHalf unit || isLowHalf unit then none else some [Char.ofNat unit]

end Json
end BulkTransfer
