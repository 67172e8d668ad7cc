/-!
# Escapes

In a text with escapes a backslash and the characters behind it stand for a byte:
a letter for a control character, octal digits or hexadecimal ones for any byte.
An escaped `c` ends the text.  Which of the other escapes there are depends on the
program that reads the text.
-/

namespace BulkTransfer
namespace Shell

/-- The bytes of a text. -/
def bytesOf (s : String) : List UInt8 :=
  s.toUTF8.toList

/-- The escapes of a text besides the common ones. -/
structure EscapeRules where
  /-- whether a zero of its own may stand in front of an octal number -/
  leadingZero : Bool
  hexadecimal : Bool
  /-- whether a double quote may be escaped -/
  doubleQuote : Bool
deriving DecidableEq, Repr

namespace EscapeRules

/-- The bytes that letters and signs stand for. -/
def letters (rules : EscapeRules) : List (Char × UInt8) :=
  [('\\', 92), ('a', 7), ('b', 8), ('e', 27), ('f', 12), ('n', 10), ('r', 13), ('t', 9),
    ('v', 11)] ++ if rules.doubleQuote then [('"', 34)] else []

/-- The value of a hexadecimal digit. -/
def digitValue? (c : Char) : Option Nat :=
  "0123456789abcdef".toList.findIdx? (· = c.toLower)

/-- Whether a character is a digit to a base up to sixteen. -/
def isDigitTo (base : Nat) (c : Char) : Bool :=
  (digitValue? c).any (· < base)

/-- The byte with the given digits. -/
def byteOfDigits (base : Nat) (digits : List Char) : UInt8 :=
  UInt8.ofNat (digits.foldl (fun value c => value * base + (digitValue? c).getD 0) 0)

/-- The octal digits at the head of a text. -/
def octalDigits (rules : EscapeRules) : List Char → List Char
  | '0' :: s =>
      '0' :: (s.take (if rules.leadingZero then 3 else 2)).takeWhile (isDigitTo 8)
  | s => (s.take 3).takeWhile (isDigitTo 8)

/-- The byte of the escape at the head of a text behind a backslash, and how many
characters stand for it. -/
def head? (rules : EscapeRules) (s : List Char) : Option (UInt8 × Nat) :=
  let octal := rules.octalDigits s
  if !octal.isEmpty then some (byteOfDigits 8 octal, octal.length)
  else
    match s with
    | [] => none
    | c :: s =>
        let hexadecimal := (s.take 2).takeWhile (isDigitTo 16)
        if c = 'x' && rules.hexadecimal && !hexadecimal.isEmpty then
          some (byteOfDigits 16 hexadecimal, hexadecimal.length + 1)
        else (rules.letters.lookup c).map fun byte => (byte, 1)

/-- The bytes of a text with escapes.  `skip` counts characters that belong to an
escape already read. -/
def unescape (rules : EscapeRules) : Nat → List Char → List UInt8
  | _, [] => []
  | skip + 1, _ :: s => unescape rules skip s
  | 0, '\\' :: s =>
      if s.head? = some 'c' then []
      else
        match rules.head? s with
        | some (byte, length) => byte :: unescape rules length s
        | none => 92 :: unescape rules 0 s
  | 0, c :: s => bytesOf (String.singleton c) ++ unescape rules 0 s

/-- Whether a text is ended by an escape. -/
def endsEarly : List Char → Bool
  | '\\' :: 'c' :: _ => true
  | '\\' :: _ :: s => endsEarly s
  | _ :: s => endsEarly s
  | [] => false

/-- In a format. -/
def inFormat : EscapeRules :=
  { leadingZero := false, hexadecimal := true, doubleQuote := true }

/-- In words that are shown. -/
def inWords : EscapeRules :=
  { leadingZero := true, hexadecimal := true, doubleQuote := false }

/-- In words that a script shows. -/
def inScript : EscapeRules :=
  { leadingZero := true, hexadecimal := false, doubleQuote := false }

end EscapeRules
end Shell
end BulkTransfer
