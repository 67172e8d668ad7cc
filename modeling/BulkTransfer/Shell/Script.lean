import BulkTransfer.Shell.Condition
import BulkTransfer.Shell.Files

/-!
# Small scripts

A script is a sequence of simple commands.  Words may be quoted and may name the
arguments of the script, the streams of a command may go elsewhere, and `&&` and
`||` make a command depend on the status of the one before.  The commands are the
common programs and a few of the shell itself.
-/

namespace BulkTransfer
namespace Shell

/-!
## Tokens
-/

/-- A token of a script. -/
inductive Token
  | word (letters : List Char)
  | separator (newLine : Bool)
  | andIf
  | orIf
  /-- a stream, output or errors, goes to the file that is named next -/
  | toFile (errors append : Bool)
  /-- a stream goes where the output or the errors go -/
  | toStream (errors toErrors : Bool)
  /-- the text ends inside a word -/
  | unclosed
deriving DecidableEq, Repr

/-- Where the reader of tokens stands. -/
inductive Mode
  | plain
  | single
  | double
  | escaped (inDouble : Bool)
  | comment
  /-- one or more characters belong to what has been read -/
  | skip (more : Nat) (inDouble : Bool)
deriving DecidableEq, Repr

/-- The token of a word that has been started. -/
def wordToken (word : Option (List Char)) : List Token :=
  (word.map Token.word).toList

/-- A started word with more letters. -/
def extend (word : Option (List Char)) (letters : List Char) : Option (List Char) :=
  some (word.getD [] ++ letters)

/-- The redirection at the head of a text behind its arrow, and how many characters
stand for it. -/
def redirection (errors : Bool) : List Char → Token × Nat
  | '&' :: '1' :: _ => (.toStream errors false, 2)
  | '&' :: '2' :: _ => (.toStream errors true, 2)
  | '>' :: _ => (.toFile errors true, 1)
  | _ => (.toFile errors false, 0)

/-- Whether a character may be escaped between double quotes. -/
def isSpecial (c : Char) : Bool :=
  ['"', '\\', '$', '\x60'].contains c

/-- Read tokens; `word` is the started word, and `parameter?` gives the value of a
parameter. -/
def tokens (parameter? : Char → Option String) :
    Mode → Option (List Char) → List Char → List Token
  | .single, _, [] | .double, _, [] | .escaped true, _, [] => [.unclosed]
  | .escaped false, word, [] => wordToken (extend word ['\\'])
  | _, word, [] => wordToken word
  | .skip more inDouble, word, _ :: s =>
      let after := if inDouble then Mode.double else .plain
      tokens parameter? (if more = 0 then after else .skip (more - 1) inDouble) word s
  | .comment, word, c :: s =>
      if c = '\n' then .separator true :: tokens parameter? .plain word s
      else tokens parameter? .comment word s
  | .single, word, c :: s =>
      if c = '\x27' then tokens parameter? .plain word s
      else tokens parameter? .single (extend word [c]) s
  | .double, word, c :: s =>
      if c = '"' then tokens parameter? .plain word s
      else if c = '\\' then tokens parameter? (.escaped true) word s
      else
        match if c = '$' then s.head?.bind parameter? else none with
        | some value => tokens parameter? (.skip 0 true) (extend word value.toList) s
        | none => tokens parameter? .double (extend word [c]) s
  | .escaped inDouble, word, c :: s =>
      let kept := if inDouble && !isSpecial c then ['\\', c] else [c]
      let word := if c = '\n' then word else extend word kept
      tokens parameter? (if inDouble then .double else .plain) word s
  | .plain, word, c :: s =>
      if c = ' ' || c = '\t' then wordToken word ++ tokens parameter? .plain none s
      else if c = '\n' || c = ';' then
        wordToken word ++ .separator (c = '\n') :: tokens parameter? .plain none s
      else if c = '#' && word.isNone then tokens parameter? .comment none s
      else if c = '\x27' then tokens parameter? .single (extend word []) s
      else if c = '"' then tokens parameter? .double (extend word []) s
      else if c = '\\' then tokens parameter? (.escaped false) word s
      else if ['&'].isPrefixOf s && c = '&' then
        wordToken word ++ .andIf :: tokens parameter? (.skip 0 false) none s
      else if ['|'].isPrefixOf s && c = '|' then
        wordToken word ++ .orIf :: tokens parameter? (.skip 0 false) none s
      else if c = '>' then
        let (token, length) := redirection (word = some ['2']) s
        let mode := if length = 0 then Mode.plain else .skip (length - 1) false
        wordToken (if word = some ['1'] || word = some ['2'] then none else word) ++
          token :: tokens parameter? mode none s
      else
        match if c = '$' then s.head?.bind parameter? else none with
        | some value =>
            tokens parameter? (.skip 0 false)
              (if value.isEmpty then word else extend word value.toList) s
        | none => tokens parameter? .plain (extend word [c]) s

/-- The value of a parameter: the name of the script, an argument, their number or
all of them. -/
def parameterOf (name : String) (arguments : List String) (c : Char) : Option String :=
  if c = '0' then some name
  else if c.isDigit then some (arguments.getD (c.toNat - '1'.toNat) "")
  else if c = '#' then some (toString arguments.length)
  else if c = '@' || c = '*' then some (" ".intercalate arguments)
  else none

/-!
## Commands
-/

/-- When a command runs. -/
inductive Due
  | always
  | afterSuccess
  | afterFailure
deriving DecidableEq, Repr

/-- Where the bytes of a stream go. -/
inductive Sink
  | output
  | errors
  | file (path : String) (append : Bool)
deriving DecidableEq, Repr

/-- A simple command of a script. -/
structure ScriptCommand where
  line : Nat
  due : Due := .always
  words : List String := []
  output : Sink := .output
  errors : Sink := .errors
deriving DecidableEq, Repr

/-- A command with one of its streams going elsewhere. -/
def ScriptCommand.send (command : ScriptCommand) (errors : Bool) (sink : Sink) : ScriptCommand :=
  if errors then { command with errors := sink } else { command with output := sink }

/-- Cut tokens into commands; `current` has been started. -/
def commands (current : ScriptCommand) : List Token → List ScriptCommand
  | [] => [current]
  | .toFile errors append :: .word letters :: rest =>
      commands (current.send errors (.file (String.ofList letters) append)) rest
  | .toFile _ _ :: rest | .unclosed :: rest => commands current rest
  | .toStream errors toErrors :: rest =>
      commands (current.send errors (if toErrors then current.errors else current.output)) rest
  | .word letters :: rest =>
      commands { current with words := current.words ++ [String.ofList letters] } rest
  | .separator newLine :: rest =>
      current :: commands { line := if newLine then current.line + 1 else current.line } rest
  | .andIf :: rest =>
      current :: commands { line := current.line, due := .afterSuccess } rest
  | .orIf :: rest =>
      current :: commands { line := current.line, due := .afterFailure } rest

/-- The tokens in front of the last line. -/
def withoutLastLine (tokens : List Token) : List Token :=
  (tokens.reverse.dropWhile (· ≠ .separator true)).reverse

/-!
## Running
-/

/-- How far a script has come. -/
structure ScriptState where
  tree : FileTree
  run : ProgramRun := finished [] [] 0
  status : Nat := 0
  ended : Bool := false
deriving Inhabited

namespace ScriptState

/-- A script that ends. -/
def finish (state : ScriptState) (ending : Ending) : ScriptState :=
  { state with run := { state.run with ending := ending }, ended := true }

/-- Bytes go where a stream goes. -/
def write (state : ScriptState) (bytes : ByteArray) : Sink → ScriptState
  | .output => { state with run := { state.run with output := state.run.output ++ bytes } }
  | .errors => { state with run := { state.run with errors := state.run.errors ++ bytes } }
  | .file path _ =>
      match state.tree.openAt path with
      | .ok place => { state with tree := state.tree.append place bytes }
      | .error _ => state

/-- Something goes wrong in a line of a script with a given name. -/
def complain (state : ScriptState) (name : String) (line : Nat) (text : String) (sink : Sink) :
    ScriptState :=
  let message := name ++ ": " ++ toString line ++ ": " ++ text ++ "\n"
  state.write ⟨(bytesOf message).toArray⟩ sink

/-- A script that goes on behind a finished command. -/
def add (state : ScriptState) (command : ScriptCommand) (done : ProgramRun) : ScriptState :=
  let moved := { state with
    tree := done.after.getD state.tree
    run := { state.run with milliseconds := state.run.milliseconds + done.milliseconds }
    status :=
      match done.ending with
      | .exit code => code
      | .signal => 137 }
  (moved.write done.output command.output).write done.errors command.errors

/-- Open the file that a stream goes to. -/
def openSink (state : ScriptState) : Sink → Except IoError ScriptState
  | .file path append =>
      if path = "/dev/null" || append && state.tree.isFile path then .ok state
      else (state.tree.create path).map fun created => { state with tree := created.2 }
  | _ => .ok state

end ScriptState

/-- The shell's own `echo`, which always reads escapes. -/
def scriptEcho (arguments : List String) : ProgramRun :=
  let silent := arguments.head? == some "-n"
  let words := (" ".intercalate (if silent then arguments.tail else arguments)).toList
  finished (EscapeRules.inScript.unescape 0 words ++
    if silent || EscapeRules.endsEarly words then [] else [10]) [] 0

/-- A program by its own name and the name it was started by. -/
def tool? (tree : FileTree) (own name : String) (arguments : List String) : Option ProgramRun :=
  match own with
  | "test" => some (test tree name arguments)
  | "[" => some (bracket tree name arguments)
  | _ => (wordTool? own name arguments).or (fileTool? tree own name arguments)

/-- A command whose streams are open. -/
def runCommand (name : String) (state : ScriptState) (command : ScriptCommand) : ScriptState :=
  let complain (text : String) (sink : Sink) := state.complain name command.line text sink
  match command.words with
  | [] => state
  | word :: arguments =>
      match word, arguments with
      | "exit", [] => state.finish (.exit state.status)
      | "exit", code :: _ =>
          match Text.natural? code.toList with
          | some code => state.finish (.exit (code % 256))
          | none => (complain ("exit: Illegal number: " ++ code) command.errors).finish (.exit 2)
      | "kill", _ => state.finish .signal
      | ":", _ => state.add command (shown "")
      | "echo", _ => state.add command (scriptEcho arguments)
      | _, _ =>
          match tool? state.tree word word arguments with
          | some done => state.add command done
          | none =>
              if word.toList.contains '/' && state.tree.leadsSomewhere word then
                { complain (word ++ ": Permission denied") command.errors with status := 126 }
              else { complain (word ++ ": not found") command.errors with status := 127 }

/-- Run one command of a script with a given name. -/
def step (name : String) (state : ScriptState) (command : ScriptCommand) : ScriptState :=
  let opened := do (← state.openSink command.output).openSink command.errors
  match opened with
  | .ok state => runCommand name state command
  | .error error =>
      let path :=
        match command.output, command.errors with
        | .file path _, _ | _, .file path _ => path
        | _, _ => ""
      let cause :=
        if error = .system Errno.noEntry || error = .system Errno.notDirectory then
          "Directory nonexistent"
        else causeText error
      { state.complain name command.line ("cannot create " ++ path ++ ": " ++ cause) .errors with
        status := 2 }

/-- Whether a command runs in a state. -/
def isDue (state : ScriptState) (command : ScriptCommand) : Bool :=
  !state.ended &&
    match command.due with
    | .always => true
    | .afterSuccess => state.status == 0
    | .afterFailure => state.status != 0

/-- Run a script.  A line with a quote that is not closed does not run. -/
def runScript (tree : FileTree) (name text : String) (arguments : List String) : ProgramRun :=
  let all := tokens (parameterOf name arguments) .plain none text.toList
  let isClosed := !all.contains .unclosed
  let complete := if isClosed then all else withoutLastLine all
  let final := (commands { line := 1 } complete).foldl
    (fun state command => if isDue state command then step name state command else state)
    { tree := tree }
  let final :=
    if final.ended then final
    else if isClosed then final.finish (.exit final.status)
    else
      (final.complain name (text.toList.count '\n' + 1) "Syntax error: Unterminated quoted string"
        .errors).finish (.exit 2)
  { final.run with after := some final.tree }

/-- The shell: a script in a file or among the arguments, with its name and its own
arguments behind it. -/
def shell (tree : FileTree) (name : String) : List String → ProgramRun
  | [] => shown ""
  | ["-c"] => refused name ["0: -c requires an argument"] 2
  | ["-c", text] => runScript tree name text []
  | "-c" :: text :: own :: arguments => runScript tree own text arguments
  | path :: arguments =>
      match tree.readFile path with
      | .ok content => runScript tree path (Text.ofBytes content) arguments
      | .error error =>
          if error = .system Errno.isDirectory then shown ""
          else refused name ["0: cannot open " ++ path ++ ": No such file"] 2

/-!
## Finding a program
-/

/-- The directories that hold the programs. -/
def programDirectories : List String := ["/bin/", "/usr/bin/"]

/-- The own name of a program, given alone or in one of the directories. -/
def programName? (program : String) : Option String :=
  if !program.toList.contains '/' then some program
  else
    programDirectories.findSome? fun directory =>
      (List.isPrefixOf? directory.toList program.toList).map String.ofList

/-- The programs that can be started in a file tree; its own files cannot. -/
def programs (tree : FileTree) : Programs := fun program arguments =>
  if (program :: arguments).any fun word => word.toList.contains '\x00' then
    .error (.custom .invalidInput "nul byte found in provided data")
  else
    match (programName? program).bind fun own =>
      if own = "sh" then some (shell tree program arguments)
      else tool? tree own program arguments with
    | some run => .ok run
    | none =>
        if program.toList.contains '/' then
          match tree.stat program with
          | .ok _ => .error (.system .accessDenied)
          | .error error => .error error
        else .error (.system .noEntry)

end Shell
end BulkTransfer
