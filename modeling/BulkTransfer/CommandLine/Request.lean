import BulkTransfer.Report.Lines
import BulkTransfer.Text.Numeral
import BulkTransfer.Text.Segment

/-!
# Requests on the command line

Settings stand in front of the command and end at its first word, so a command may
have words that look like settings.  A word is also taken for a command if it
looks like a setting but names none.  A setting is given at most once.
-/

namespace BulkTransfer
namespace CommandLine

/-!
## Settings
-/

/-- What can be set in front of a command. -/
inductive Setting
  | file
  | workers
  | retries
  | queueCapacity
  | storageRoot
  | output
  | statistics
  | verbose
  | help
  | version
deriving DecidableEq, Repr, Inhabited

namespace Setting

def ofLetter? : Char → Option Setting
  | 'f' => some file
  | 'r' => some retries
  | 'o' => some output
  | 'v' => some verbose
  | 'h' => some help
  | 'V' => some version
  | _ => none

def ofName? : String → Option Setting
  | "numworkers" => some workers
  | "retries" => some retries
  | "queue-capacity" => some queueCapacity
  | "storage-root" => some storageRoot
  | "output" => some output
  | "stats" => some statistics
  | "verbose" => some verbose
  | "help" => some help
  | "version" => some version
  | _ => none

def takesValue : Setting → Bool
  | file | workers | retries | queueCapacity | storageRoot | output => true
  | statistics | verbose | help | version => false

end Setting

/-- Why the words lead to no request. -/
inductive Ending
  | usage
  | help
  | version
deriving DecidableEq, Repr, Inhabited

/-- What the words ask for. -/
structure Request where
  file : Option String := none
  workers : Option Int := none
  retries : Option Int := none
  queueCapacity : Option Nat := none
  storageRoot : Option String := none
  output : Option Report.Format := none
  statistics : Bool := false
  verbose : Bool := false
  command : List String := []
deriving DecidableEq, Repr, Inhabited

/-!
## Giving values
-/

/-- A value that can be read, for a setting that has none yet. -/
def once {α : Type} (current value : Option α) : Except Ending (Option α) :=
  match current, value with
  | none, some value => .ok (some value)
  | _, _ => .error .usage

namespace Request

/-- Give a value to a setting that takes one. -/
def assign (request : Request) (setting : Setting) (value : String) : Except Ending Request :=
  match setting with
  | .file =>
      (once request.file (some value)).map fun file => { request with file := file }
  | .workers =>
      (once request.workers (Text.signed64? value.toList)).map fun workers =>
        { request with workers := workers }
  | .retries =>
      (once request.retries (Text.signed64? value.toList)).map fun retries =>
        { request with retries := retries }
  | .queueCapacity =>
      (once request.queueCapacity (Text.unsignedUpTo? (UInt64.size - 1) value.toList)).map
        fun capacity => { request with queueCapacity := capacity }
  | .storageRoot =>
      (once request.storageRoot (if value.isEmpty then none else some value)).map fun root =>
        { request with storageRoot := root }
  | .output =>
      (once request.output (Report.Format.ofName? value)).map fun format =>
        { request with output := format }
  | _ => .error .usage

/-- Turn on a setting that takes no value. -/
def switchOn (request : Request) (setting : Setting) : Except Ending Request :=
  match setting with
  | .statistics =>
      if request.statistics then .error .usage else .ok { request with statistics := true }
  | .verbose =>
      if request.verbose then .error .usage else .ok { request with verbose := true }
  | .help => .error .help
  | .version => .error .version
  | _ => .error .usage

/-!
## Reading words
-/

/-- Read the letters of a word: switches, and at most one setting with a value, which
is the rest of the word or else the next one. -/
def readLetters (request : Request) : List Char → Except Ending (Request × Option Setting)
  | [] => .ok (request, none)
  | letter :: rest =>
      match Setting.ofLetter? letter with
      | none => .error .usage
      | some setting =>
          if setting.takesValue then
            if rest.isEmpty then .ok (request, some setting)
            else (request.assign setting (String.ofList rest)).map fun request => (request, none)
          else (request.switchOn setting).bind fun request => request.readLetters rest

/-- Whether a word is made of letters that all are settings. -/
def isLetters : List Char → Bool
  | '-' :: letters =>
      !letters.isEmpty && letters.all fun letter => (Setting.ofLetter? letter).isSome
  | _ => false

/-- The setting that a word names, with the value behind an equals sign. -/
def named? : List Char → Option (Setting × Option String)
  | '-' :: '-' :: word =>
      let name := Text.before ['='] word
      let value := word.drop name.length
      (Setting.ofName? (String.ofList name)).map fun setting =>
        (setting, if value.isEmpty then none else some (String.ofList value.tail))
  | _ => none

/-- Read a named setting; if it takes a value that the word does not give, the setting
waits for the next word. -/
def readNamed (request : Request) (setting : Setting) (value : Option String) :
    Except Ending (Request × Option Setting) :=
  if setting.takesValue then
    match value with
    | some value => (request.assign setting value).map fun request => (request, none)
    | none => .ok (request, some setting)
  else if value.isSome then .error .usage
  else (request.switchOn setting).map fun request => (request, none)

/-- Read the words behind those that are in the request already; `waiting` is a setting
whose value is the next word. -/
def readWords (request : Request) (waiting : Option Setting) :
    List String → Except Ending Request
  | [] => if waiting.isSome then .error .usage else .ok request
  | word :: words =>
      if word = "--" then
        if waiting.isSome then .error .usage else .ok { request with command := words }
      else
        match named? word.toList with
        | some (setting, value) =>
            if waiting.isSome then .error .usage
            else
              (request.readNamed setting value).bind fun (request, waiting) =>
                request.readWords waiting words
        | none =>
            if isLetters word.toList then
              if waiting.isSome then .error .usage
              else
                (request.readLetters word.toList.tail).bind fun (request, waiting) =>
                  request.readWords waiting words
            else
              match waiting with
              | some setting =>
                  (request.assign setting word).bind fun request => request.readWords none words
              | none => .ok { request with command := word :: words }

/-- The request of a command line. -/
def ofWords (words : List String) : Except Ending Request :=
  readWords {} none words

/-- How results are shown. -/
def style (request : Request) : Report.Style :=
  { format := request.output.getD .text, verbose := request.verbose }

end Request
end CommandLine
end BulkTransfer
