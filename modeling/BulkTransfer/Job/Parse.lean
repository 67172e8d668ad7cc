import BulkTransfer.Command.Spec
import BulkTransfer.Command.Validate
import BulkTransfer.Job
import BulkTransfer.Job.Chain

/-!
# From a command line to a job

A segment is cut at its spaces into a keyword and words.  The signatures of the
keyword are tried in table order; the first one whose arity fits and whose
arguments are all accepted wins.  The segments of a chain are read in the order
first, success, failure, and the first error is the line's error.
-/

namespace BulkTransfer

/-- Why a line is no job. -/
inductive ParseError
  | unknownCommand (keyword : String)
  /-- no signature fits; with the error of the last one whose arity did -/
  | invalidParameters (keyword : String) (lastError : Option ValidationError)
  | nestedCommand
  | emptyContinuation (segment : String)
deriving DecidableEq, Repr

namespace ParseError

def message : ParseError → String
  | unknownCommand keyword => "Unknown command \"" ++ keyword ++ "\""
  | invalidParameters keyword lastError =>
      "Invalid parameters to \"" ++ keyword ++ "\"" ++
        match lastError with
        | some error => ": " ++ error.message
        | none => ""
  | nestedCommand => "Nested commands are not supported"
  | emptyContinuation segment => "Empty continuation in \"" ++ segment ++ "\""

/-- The code of the refused argument, if that was the cause. -/
def reason : ParseError → Option String
  | invalidParameters _ (some error) => some error.reason
  | _ => none

end ParseError

namespace CommandSpec

/-- Take the leading words that are accepted flags. -/
def takeFlags (accepted : List Flag) (options : Options) :
    List String → Options × List String
  | [] => (options, [])
  | word :: words =>
      match accepted.find? fun flag => flag.spelling == some word with
      | some flag => takeFlags accepted (options.insert flag) words
      | none => (options, word :: words)

/-- The reference behind one more argument. -/
def nextReference (kind : ArgumentKind) (reference : Option Argument)
    (argument : Argument) : Option Argument :=
  if kind.isReference && reference.isNone then some argument else reference

/-- Check words against one kind each; a missing word counts as empty. -/
def bindFixed (tree : FileTree) :
    List ArgumentKind → Option Argument → List String →
      Except ValidationError (List Argument × Option Argument)
  | [], reference, _ => .ok ([], reference)
  | kind :: kinds, reference, words =>
      match validate tree kind reference (words.headD "") with
      | .error error => .error error
      | .ok argument =>
          match bindFixed tree kinds (nextReference kind reference argument) words.tail with
          | .error error => .error error
          | .ok (arguments, reference) => .ok (argument :: arguments, reference)

/-- Check all words against one kind. -/
def bindRest (tree : FileTree) (kind : ArgumentKind) (reference : Option Argument) :
    List String → Except ValidationError (List Argument)
  | [] => .ok []
  | word :: words =>
      match validate tree kind reference word with
      | .error error => .error error
      | .ok argument =>
          match bindRest tree kind reference words with
          | .error error => .error error
          | .ok arguments => .ok (argument :: arguments)

/-- Check the words of a command; further words of a variadic command are checked
against its last fixed kind. -/
def bindArguments (tree : FileTree) (spec : CommandSpec) (words : List String) :
    Except ValidationError (List Argument) :=
  let fixed := spec.fixedKinds
  match bindFixed tree fixed none words with
  | .error error => .error error
  | .ok (arguments, reference) =>
      if spec.isVariadic then
        match bindRest tree (fixed.getLast?.getD .uncheckedOneOrMore) reference
            (words.drop fixed.length) with
        | .error error => .error error
        | .ok rest => .ok (arguments ++ rest)
      else .ok arguments

/-- What a signature makes of the words behind its keyword: nothing if the arity
does not fit, else its options and arguments or the refusal. -/
def read (tree : FileTree) (spec : CommandSpec) (words : List String) :
    Option (Except ValidationError (Options × List Argument)) :=
  let (options, rest) := takeFlags spec.operation.acceptedFlags spec.impliedOptions words
  if spec.acceptsArity rest.length then
    some ((bindArguments tree spec rest).map fun arguments => (options, arguments))
  else none

/-- The first signature that accepts the words, or the last refusal. -/
def firstAccepted (tree : FileTree) (words : List String) :
    List CommandSpec → Option ValidationError →
      Except (Option ValidationError) (CommandSpec × Options × List Argument)
  | [], lastError => .error lastError
  | spec :: specs, lastError =>
      match spec.read tree words with
      | none => firstAccepted tree words specs lastError
      | some (.error error) => firstAccepted tree words specs (some error)
      | some (.ok (options, arguments)) => .ok (spec, options, arguments)

end CommandSpec

namespace Parse

/-- Read the keyword and words of one segment. -/
def ofWords (tree : FileTree) (table : CommandTable) (segment keyword : String)
    (words : List String) : Except ParseError Task :=
  match CommandSpec.firstAccepted tree words (table.candidates keyword) none with
  | .ok (spec, options, arguments) =>
      .ok { source := segment, keyword := keyword, operation := spec.operation,
            options := options, arguments := arguments }
  | .error lastError =>
      if table.hasKeyword keyword then .error (.invalidParameters keyword lastError)
      else .error (.unknownCommand keyword)

/-- Read one segment; an empty one or a comment is no task. -/
def segment (tree : FileTree) (table : CommandTable) (s : List Char) :
    Except ParseError (Option Task) :=
  if s.isEmpty || s.head? == some '#' then .ok none
  else if Chain.hasOperator s then .error .nestedCommand
  else
    match (Text.splitOn ' ' s).map String.ofList with
    | [] => .ok none
    | keyword :: words => (ofWords tree table (String.ofList s) keyword words).map some

/-- Read the segment of a continuation, which must be a task. -/
def continuation (tree : FileTree) (table : CommandTable) :
    Option (List Char) → Except ParseError (Option Job)
  | none => .ok none
  | some s =>
      match segment tree table s with
      | .error error => .error error
      | .ok none => .error (.emptyContinuation (String.ofList s))
      | .ok (some task) => .ok (some (.ofTask task))

/-- Read the segments of a chain. -/
def chain (tree : FileTree) (table : CommandTable) (chain : Chain) :
    Except ParseError (Option Job) :=
  match segment tree table chain.first with
  | .error error => .error error
  | .ok none => .ok none
  | .ok (some task) =>
      match continuation tree table chain.onSuccess with
      | .error error => .error error
      | .ok onSuccess =>
          match continuation tree table chain.onFailure with
          | .error error => .error error
          | .ok onFailure => .ok (some (.mk task onSuccess onFailure))

/-- Read one input line; a blank line or a comment is no job. -/
def line (tree : FileTree) (table : CommandTable) (text : String) :
    Except ParseError (Option Job) :=
  let prepared := Chain.prepareChars text.toList
  if prepared.isEmpty || prepared.head? == some '#' then .ok none
  else chain tree table (Chain.split prepared)

end Parse
end BulkTransfer
