import BulkTransfer.Operation
import BulkTransfer.Text.Blank

/-!
# Storage classes

Every object is kept in one of four classes.  A job asks for a class by its
options; objects of the Glacier class cannot be fetched.
-/

namespace BulkTransfer

/-- How an object is kept. -/
inductive StorageClass
  | standard
  | reducedRedundancy
  | infrequentAccess
  | glacier
deriving DecidableEq, Repr, Inhabited

namespace StorageClass

def all : List StorageClass :=
  [standard, reducedRedundancy, infrequentAccess, glacier]

def name : StorageClass → String
  | standard => "STANDARD"
  | reducedRedundancy => "REDUCED_REDUNDANCY"
  | infrequentAccess => "STANDARD_IA"
  | glacier => "GLACIER"

/-- The letter in listings, empty for the standard class. -/
def code : StorageClass → String
  | standard => ""
  | reducedRedundancy => "R"
  | infrequentAccess => "I"
  | glacier => "G"

/-- Read a name between blanks. -/
def parse (text : String) : Option StorageClass :=
  all.find? fun storage => storage.name == String.ofList (Text.trim text.toList)

/-- The class that options ask for. -/
def ofOptions (options : Options) : StorageClass :=
  if options.has .reducedRedundancy then reducedRedundancy
  else if options.has .infrequentAccess then infrequentAccess
  else standard

end StorageClass
end BulkTransfer
