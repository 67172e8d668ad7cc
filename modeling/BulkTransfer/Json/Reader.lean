import BulkTransfer.Json.Value
import BulkTransfer.Text.Numeral

/-!
# Reading records

Each reader takes the front of a text and leaves the rest.  Blanks may stand
around every value and every sign between values.  The nesting of a text is
bounded by its length, which is what the readers count down.
-/

namespace BulkTransfer
namespace Json

/-- Whether a character may stand between values. -/
def isSpace (c : Char) : Bool :=
  c = ' ' || c = '\n' || c = '\t' || c = '\r'

def skipSpace (s : List Char) : List Char :=
  s.dropWhile isSpace

/-!
## Numbers
-/

/-- A run of digits and the rest. -/
def readDigits (s : List Char) : List Char × List Char :=
  (s.takeWhile Char.isDigit, s.dropWhile Char.isDigit)

/-- The digits of an integer: a zero alone, or digits that start with another. -/
def readInteger : List Char → Option (List Char × List Char)
  | '0' :: rest => some (['0'], rest)
  | s =>
      let (digits, rest) := readDigits s
      if digits.isEmpty then none else some (digits, rest)

/-- A fraction behind an integer, possibly none. -/
def readFraction : List Char → Option (List Char × List Char)
  | '.' :: s =>
      let (digits, rest) := readDigits s
      if digits.isEmpty then none else some ('.' :: digits, rest)
  | s => some ([], s)

/-- The sign and digits of an exponent. -/
def readPower (mark : Char) (sign : List Char) (s : List Char) :
    Option (List Char × List Char) :=
  let (digits, rest) := readDigits s
  if digits.isEmpty then none else some (mark :: sign ++ digits, rest)

/-- An exponent behind a number, possibly none. -/
def readExponent : List Char → Option (List Char × List Char)
  | mark :: s =>
      if mark = 'e' || mark = 'E' then
        match s with
        | '+' :: s => readPower mark ['+'] s
        | '-' :: s => readPower mark ['-'] s
        | s => readPower mark [] s
      else some ([], mark :: s)
  | [] => some ([], [])

/-- A number in front of a text. -/
def readNumber (s : List Char) : Option (Json × List Char) :=
  let (sign, s) := match s with
    | '-' :: s => (['-'], s)
    | s => ([], s)
  (readInteger s).bind fun (digits, s) =>
    (readFraction s).bind fun (fraction, s) =>
      (readExponent s).map fun (exponent, s) =>
        if sign.isEmpty && fraction.isEmpty && exponent.isEmpty then
          (natural ((Text.natural? digits).getD 0), s)
        else (number (sign ++ digits ++ fraction ++ exponent), s)

/-!
## Values
-/

/-- A literal behind its opening quote. -/
def readLiteral (s : List Char) : Option (Option String × List Char) :=
  (readUnits s).map fun (units, rest) => ((charsOfUnits units).map String.ofList, rest)

/-- The value that a literal stands for. -/
def ofLiteral : Option String → Json
  | some s => text s
  | none => brokenText

/-- Take a sign, behind spaces. -/
def readSign (sign : Char) (s : List Char) : Option (List Char) :=
  match skipSpace s with
  | c :: rest => if c = sign then some rest else none
  | [] => none

mutual

/-- A value in front of a text. -/
def readValue : Nat → List Char → Option (Json × List Char)
  | 0, _ => none
  | depth + 1, s =>
      match skipSpace s with
      | 'n' :: 'u' :: 'l' :: 'l' :: rest => some (null, rest)
      | 't' :: 'r' :: 'u' :: 'e' :: rest => some (bool true, rest)
      | 'f' :: 'a' :: 'l' :: 's' :: 'e' :: rest => some (bool false, rest)
      | '"' :: rest => (readLiteral rest).map fun found => (ofLiteral found.1, found.2)
      | '[' :: rest =>
          match readSign ']' rest with
          | some rest => some (array [], rest)
          | none => (readItems depth rest).map fun found => (array found.1, found.2)
      | '{' :: rest =>
          match readSign '}' rest with
          | some rest => some (object [], rest)
          | none => (readMembers depth rest).map fun found => (object found.1, found.2)
      | rest => readNumber rest

/-- At least one item and the closing bracket. -/
def readItems : Nat → List Char → Option (List Json × List Char)
  | 0, _ => none
  | depth + 1, s =>
      match readValue depth s with
      | none => none
      | some (item, rest) =>
          match readSign ']' rest with
          | some rest => some ([item], rest)
          | none =>
              match readSign ',' rest with
              | some rest =>
                  (readItems depth rest).map fun found => (item :: found.1, found.2)
              | none => none

/-- At least one member and the closing brace. -/
def readMembers : Nat → List Char → Option (List (Option String × Json) × List Char)
  | 0, _ => none
  | depth + 1, s =>
      match (readSign '"' s).bind readLiteral with
      | none => none
      | some (name, rest) =>
          match (readSign ':' rest).bind (readValue depth) with
          | none => none
          | some (value, rest) =>
              match readSign '}' rest with
              | some rest => some ([(name, value)], rest)
              | none =>
                  match readSign ',' rest with
                  | some rest =>
                      (readMembers depth rest).map fun found =>
                        ((name, value) :: found.1, found.2)
                  | none => none

end

/-- Read a text that holds one value and nothing else. -/
def parse (s : String) : Option Json :=
  match readValue (2 * s.length + 2) s.toList with
  | some (value, rest) => if (skipSpace rest).isEmpty then some value else none
  | none => none

end Json
end BulkTransfer
