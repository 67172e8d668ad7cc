import BulkTransfer.Command.Kind
import BulkTransfer.Operation
import BulkTransfer.Text.Segment

/-!
# Command signatures and the command table

A signature ties a keyword to an operation and to the kinds of its arguments.
Several signatures may share a keyword; they are tried in the order of the
table.
-/

namespace BulkTransfer

/-- One accepted form of a command. -/
structure CommandSpec where
  keyword : String
  operation : Operation
  kinds : List ArgumentKind
  /-- options that the keyword implies -/
  impliedOptions : Options := Options.none
deriving DecidableEq, Repr, Inhabited

namespace CommandSpec

/-- Whether any number of further words is accepted. -/
def isVariadic (spec : CommandSpec) : Bool :=
  spec.kinds.getLast? == some .uncheckedOneOrMore

/-- The fewest words after the options. -/
def minArguments (spec : CommandSpec) : Nat :=
  match spec.kinds.getLast? with
  | some kind =>
      if kind == .uncheckedOneOrMore || kind.isOptional then spec.kinds.length - 1
      else spec.kinds.length
  | none => 0

/-- The most words after the options, if there is a bound. -/
def maxArguments (spec : CommandSpec) : Option Nat :=
  if spec.isVariadic then none else some spec.kinds.length

def acceptsArity (spec : CommandSpec) (n : Nat) : Bool :=
  spec.minArguments ≤ n &&
    match spec.maxArguments with
    | some most => n ≤ most
    | none => true

/-- The kinds with one word each. -/
def fixedKinds (spec : CommandSpec) : List ArgumentKind :=
  if spec.isVariadic then spec.kinds.dropLast else spec.kinds

/-- A usage line such as `cp [-n] filename file-or-directory`. -/
def usage (spec : CommandSpec) : String :=
  spec.keyword ++
    String.join ((spec.operation.acceptedFlags.filterMap Flag.spelling).map
      fun spelling => " [" ++ spelling ++ "]") ++
    String.join (spec.kinds.map fun kind => " " ++ kind.placeholder)

/-- The signature on one line: operation, keyword, kinds. -/
def text (spec : CommandSpec) : String :=
  spec.operation.shownName ++ " (" ++ spec.keyword ++ ")" ++
    String.join (spec.kinds.map fun kind => " [" ++ kind.placeholder ++ "]")

end CommandSpec

/-- The signatures of a command language, in the order they are tried. -/
structure CommandTable where
  specs : List CommandSpec
deriving Repr, Inhabited

namespace CommandTable

/-!
## The standard table
-/

/-- Leaving, and fetching objects. -/
def standardHead : List CommandSpec :=
  [{ keyword := "exit", operation := .abort, kinds := [] },
    { keyword := "exit", operation := .abort, kinds := [.unchecked] },
    { keyword := "get", operation := .download,
      kinds := [.storageSimpleObject, .optionalLocalFileOrDir] },
    { keyword := "get", operation := .batchDownload,
      kinds := [.storageWildcardObject, .optionalLocalDir] }]

/-- The transfers between two places, with what each side may be. -/
def transfers : List (Operation × List ArgumentKind) :=
  [(.localCopy, [.localFileObject, .localFileOrDir]),
    (.batchLocalCopy, [.glob, .localDir]),
    (.batchLocalCopy, [.localDir, .localDir]),
    (.copy, [.storageSimpleObject, .storageObjectOrDir]),
    (.batchCopy, [.storageWildcardObject, .storageDir]),
    (.upload, [.localFileObject, .storageObjectOrDir]),
    (.batchUpload, [.glob, .storageDir]),
    (.batchUpload, [.localDir, .storageDir]),
    (.download, [.storageSimpleObject, .localFileOrDir]),
    (.batchDownload, [.storageWildcardObject, .localDir])]

/-- The transfers under one keyword. -/
def transferSpecs (keyword : String) (implied : Options) : List CommandSpec :=
  transfers.map fun transfer =>
    { keyword := keyword, operation := transfer.1, kinds := transfer.2,
      impliedOptions := implied }

/-- Deleting, listing and running programs. -/
def standardTail : List CommandSpec :=
  [{ keyword := "rm", operation := .localDelete, kinds := [.localFileObject] },
    { keyword := "rm", operation := .delete, kinds := [.storageSimpleObject] },
    { keyword := "rm", operation := .batchDelete, kinds := [.storageWildcardObject] },
    { keyword := "batch-rm", operation := .batchDeleteActual,
      kinds := [.storageObject, .uncheckedOneOrMore] },
    { keyword := "ls", operation := .listBuckets, kinds := [] },
    { keyword := "ls", operation := .list, kinds := [.storageObjectOrDir] },
    { keyword := "ls", operation := .list, kinds := [.storageWildcardObject] },
    { keyword := "du", operation := .size, kinds := [.storageObjectOrDir] },
    { keyword := "du", operation := .size, kinds := [.storageWildcardObject] },
    { keyword := "!", operation := .shellExec, kinds := [.uncheckedOneOrMore] }]

/-- The commands of the program; `mv` is `cp` that removes its source. -/
def standard : CommandTable where
  specs :=
    standardHead ++ transferSpecs "cp" Options.none ++
      transferSpecs "mv" (Options.none.insert .deleteSource) ++ standardTail

/-!
## Looking up
-/

/-- The signatures of a keyword, in table order. -/
def candidates (table : CommandTable) (keyword : String) : List CommandSpec :=
  table.specs.filter fun spec => spec.keyword == keyword

def hasKeyword (table : CommandTable) (keyword : String) : Bool :=
  table.specs.any fun spec => spec.keyword == keyword

/-- The distinct keywords in increasing order. -/
def keywords (table : CommandTable) : List String :=
  ((table.specs.map fun spec => spec.keyword).mergeSort fun a b => !decide (b < a)).eraseReps

/-!
## Help
-/

/-- The usage line shown in help. -/
def helpUsage (spec : CommandSpec) : String :=
  match spec.operation with
  | .abort => "exit [exit code]"
  | .shellExec => "! command [parameters...]"
  | _ => spec.usage

/-- Headings in increasing order, each with its distinct usage lines in table order. -/
def helpGroups (table : CommandTable) (keyword? : Option String) :
    List (String × List String) :=
  let shown := table.specs.filter fun spec =>
    match keyword? with
    | some keyword => spec.keyword == keyword
    | none => true
  let lines := shown.map fun spec =>
    (spec.operation.describe spec.impliedOptions, helpUsage spec)
  let headings := ((lines.map Prod.fst).mergeSort fun a b => !decide (b < a)).eraseReps
  headings.map fun heading =>
    (heading, ((lines.filter fun line => line.1 == heading).map Prod.snd).eraseDups)

/-- Usage lines grouped under headings, for one keyword or for all. -/
def help (table : CommandTable) (keyword? : Option String) : String :=
  String.join ((table.helpGroups keyword?).map fun group =>
    "  " ++ group.1 ++ "\n" ++
      String.join (group.2.map fun line => "        " ++ line ++ "\n"))

end CommandTable
end BulkTransfer
