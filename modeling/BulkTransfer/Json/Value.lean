import BulkTransfer.Json.Text

/-!
# Values of records

Records are exchanged as JSON.  Counts are natural numbers; any other number is
kept as it is written, since no record holds one.  A literal that stands for no
text is kept as such.
-/

namespace BulkTransfer

/-- A JSON value. -/
inductive Json
  | null
  | bool (value : Bool)
  | natural (value : Nat)
  /-- a number with a sign, a fraction or an exponent, as it is written -/
  | number (written : List Char)
  | text (value : String)
  /-- a literal that stands for no text -/
  | brokenText
  | array (items : List Json)
  /-- named members in order; the name is missing if its literal is broken -/
  | object (members : List (Option String × Json))
deriving Inhabited

namespace Json

/-- A literal of a text or of half a pair. -/
def literal : Option String → List Char
  | some s => quote s.toList
  | none => "\"\\ud800\"".toList

mutual

/-- The compact writing of a value, on one line. -/
def write : Json → List Char
  | null => "null".toList
  | bool true => "true".toList
  | bool false => "false".toList
  | natural value => (toString value).toList
  | number written => written
  | text value => literal (some value)
  | brokenText => literal none
  | array items => '[' :: writeItems items
  | object members => '{' :: writeMembers members

/-- Items and the closing bracket. -/
def writeItems : List Json → List Char
  | [] => [']']
  | [item] => item.write ++ [']']
  | item :: next :: items => item.write ++ ',' :: writeItems (next :: items)

/-- Members and the closing brace. -/
def writeMembers : List (Option String × Json) → List Char
  | [] => ['}']
  | [(name, value)] => literal name ++ ':' :: (value.write ++ ['}'])
  | (name, value) :: next :: members =>
      literal name ++ ':' :: (value.write ++ ',' :: writeMembers (next :: members))

end

/-- The compact text of a value. -/
def print (value : Json) : String :=
  String.ofList value.write

/-- An object of named values. -/
def record (members : List (String × Json)) : Json :=
  object (members.map fun member => (some member.1, member.2))

end Json
end BulkTransfer
