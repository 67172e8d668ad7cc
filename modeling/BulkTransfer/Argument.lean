import BulkTransfer.Location

/-!
# Arguments

A checked argument of a job is its canonical text, together with the location
that the text stands for if it is a storage argument.
-/

namespace BulkTransfer

/-- One checked argument of a job. -/
structure Argument where
  text : String
  location : Option Location := none
deriving DecidableEq, Repr, Inhabited

namespace Argument

/-- A local path or a free word. -/
def plain (text : String) : Argument :=
  { text := text }

/-- A storage location in its canonical text. -/
def storage (location : Location) : Argument :=
  { text := location.text, location := some location }

def isStorage (argument : Argument) : Bool :=
  argument.location.isSome

end Argument
end BulkTransfer
