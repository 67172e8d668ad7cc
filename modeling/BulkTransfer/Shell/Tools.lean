import BulkTransfer.Shell.Command
import BulkTransfer.Shell.Escape
import BulkTransfer.Text.Numeral

/-!
# Programs on words and numbers

The small programs that do nothing but write text, wait or count.  A program that
does not understand its arguments says so in its error stream, under the name by
which it was started.
-/

namespace BulkTransfer
namespace Shell

/-!
## Results
-/

/-- A program that writes bytes and ends with a code. -/
def finished (output errors : List UInt8) (code : Nat) : ProgramRun :=
  { output := ⟨output.toArray⟩, errors := ⟨errors.toArray⟩, ending := .exit code }

/-- A program that writes a text and succeeds. -/
def shown (text : String) : ProgramRun :=
  finished (bytesOf text) [] 0

/-- A word between quotes. -/
def quoted (word : String) : String :=
  "\x27" ++ word ++ "\x27"

/-- A program that fails for some reasons. -/
def refused (name : String) (reasons : List String) (code : Nat) : ProgramRun :=
  finished [] (bytesOf (String.join (reasons.map fun reason => name ++ ": " ++ reason ++ "\n")))
    code

/-- A program that fails because of its arguments, and says where there is help. -/
def misused (name : String) (reasons : List String) : ProgramRun :=
  let run := refused name reasons 1
  let help := "Try " ++ quoted (name ++ " --help") ++ " for more information.\n"
  { run with errors := run.errors ++ ⟨(bytesOf help).toArray⟩ }

/-!
## Writing words
-/

/-- Leading words that are options of `echo`. -/
def isEchoOption (word : String) : Bool :=
  match word.toList with
  | '-' :: letters => !letters.isEmpty && letters.all fun c => c = 'n' || c = 'e' || c = 'E'
  | _ => false

/-- Words with spaces between and a line break behind, unless an option or an escape
keeps it away. -/
def echo (arguments : List String) : ProgramRun :=
  let options := (arguments.takeWhile isEchoOption).flatMap String.toList
  let words := (" ".intercalate (arguments.dropWhile isEchoOption)).toList
  let escapes := (options.filter fun c => c = 'e' || c = 'E').getLast? == some 'e'
  let bytes :=
    if escapes then EscapeRules.inWords.unescape 0 words else bytesOf (String.ofList words)
  let stays := options.contains 'n' || escapes && EscapeRules.endsEarly words
  finished (bytes ++ if stays then [] else [10]) [] 0

/-- One pass of a format over arguments, and the arguments that are left. -/
def formatOnce : List Char → List String → List Char × List String
  | '%' :: '%' :: s, arguments =>
      let (text, rest) := formatOnce s arguments
      ('%' :: text, rest)
  | '%' :: 's' :: s, arguments =>
      let (text, rest) := formatOnce s arguments.tail
      ((arguments.headD "").toList.flatMap (fun c => if c = '\\' then ['\\', '\\'] else [c])
        ++ text, rest)
  | '%' :: 'd' :: s, arguments | '%' :: 'i' :: s, arguments =>
      let (text, rest) := formatOnce s arguments.tail
      ((toString ((Text.signed? (arguments.headD "").toList).getD 0)).toList ++ text, rest)
  | '\\' :: c :: s, arguments =>
      let (text, rest) := formatOnce s arguments
      ('\\' :: c :: text, rest)
  | c :: s, arguments =>
      let (text, rest) := formatOnce s arguments
      (c :: text, rest)
  | [], arguments => ([], arguments)

/-- A format, repeated while arguments are left and it uses some. -/
def formatAll (format : List Char) : Nat → List String → List Char
  | 0, _ => []
  | passes + 1, arguments =>
      let (text, rest) := formatOnce format arguments
      if rest.isEmpty || rest.length = arguments.length then text
      else text ++ formatAll format passes rest

/-- A format with its arguments. -/
def printf (name : String) : List String → ProgramRun
  | [] => misused name ["missing operand"]
  | format :: arguments =>
      let text := formatAll format.toList (arguments.length + 1) arguments
      finished (EscapeRules.inFormat.unescape 0 text) [] 0

/-!
## Names in paths
-/

/-- A path without the slashes at its end. -/
def withoutSlashes (path : List Char) : List Char :=
  (path.reverse.dropWhile (· = '/')).reverse

/-- The last name in a path, without an ending that is more than the rest. -/
def lastName (path ending : String) : String :=
  let path := path.toList
  let name := Text.afterLast '/' (withoutSlashes path)
  if name.isEmpty then String.ofList (path.take 1)
  else
    let shorter := name.take (name.length - ending.length)
    if !shorter.isEmpty && name.drop shorter.length = ending.toList then String.ofList shorter
    else String.ofList name

/-- A path without its last name. -/
def directoryName (path : String) : String :=
  let front := Text.throughLast '/' (withoutSlashes path.toList)
  let directory := withoutSlashes front
  if !directory.isEmpty then String.ofList directory
  else if path.toList.head? = some '/' then "/"
  else "."

def basename (name : String) : List String → ProgramRun
  | [] => misused name ["missing operand"]
  | [path] => shown (lastName path "" ++ "\n")
  | [path, ending] => shown (lastName path ending ++ "\n")
  | _ :: _ :: extra :: _ => misused name ["extra operand " ++ quoted extra]

def dirname (name : String) : List String → ProgramRun
  | [] => misused name ["missing operand"]
  | paths => shown (String.join (paths.map fun path => directoryName path ++ "\n"))

/-!
## Numbers and time
-/

/-- The numbers from a first one up to a last one, or down to it. -/
def sequence (first increment last : Int) : List Int :=
  let count :=
    if (0 < increment && first ≤ last) || (increment < 0 && last ≤ first) then
      ((last - first) / increment).toNat + 1
    else 0
  (List.range count).map fun (index : Nat) => first + index * increment

/-- Numbers, each on a line. -/
def seq (name : String) (arguments : List String) : ProgramRun :=
  let lines (first increment last : Int) : ProgramRun :=
    if increment = 0 then
      misused name ["invalid Zero increment value: " ++ quoted (arguments.getD 1 "")]
    else
      let numbers := sequence first increment last
      shown (String.join (numbers.map fun number => toString number ++ "\n"))
  match arguments.find? fun word => (Text.signed? word.toList).isNone with
  | some word => misused name ["invalid floating point argument: " ++ quoted word]
  | none =>
      match arguments.filterMap fun word => Text.signed? word.toList with
      | [] => misused name ["missing operand"]
      | [last] => lines 1 1 last
      | [first, last] => lines first 1 last
      | [first, increment, last] => lines first increment last
      | _ => misused name ["extra operand " ++ quoted (arguments.getD 3 "")]

/-- The milliseconds of a time unit. -/
def unitOf : List Char → Option Nat
  | [] | ['s'] => some 1000
  | ['m'] => some 60000
  | ['h'] => some 3600000
  | ['d'] => some 86400000
  | _ => none

/-- The milliseconds of a time: a decimal number and a unit, seconds if there is none. -/
def interval? (word : String) : Option Nat :=
  let s := word.toList
  let whole := s.takeWhile Char.isDigit
  let rest := s.dropWhile Char.isDigit
  let fraction := if rest.head? = some '.' then rest.tail.takeWhile Char.isDigit else []
  let rest := if rest.head? = some '.' then rest.tail.dropWhile Char.isDigit else rest
  match Text.natural? (whole ++ fraction), unitOf rest with
  | some digits, some unit => some (digits * unit / Nat.pow 10 fraction.length)
  | _, _ => none

/-- Waits for some times, one after the other. -/
def sleep (name : String) (arguments : List String) : ProgramRun :=
  if arguments.isEmpty then misused name ["missing operand"]
  else
    match arguments.filter fun word => (interval? word).isNone with
    | [] => { shown "" with milliseconds := (arguments.filterMap interval?).foldl (· + ·) 0 }
    | wrong => misused name (wrong.map fun word => "invalid time interval " ++ quoted word)

/-- A program on words and numbers by its own name and the name it was started by. -/
def wordTool? (own name : String) (arguments : List String) : Option ProgramRun :=
  match own with
  | "true" => some (shown "")
  | "false" => some (finished [] [] 1)
  | "echo" => some (echo arguments)
  | "printf" => some (printf name arguments)
  | "basename" => some (basename name arguments)
  | "dirname" => some (dirname name arguments)
  | "seq" => some (seq name arguments)
  | "sleep" => some (sleep name arguments)
  | _ => none

end Shell
end BulkTransfer
