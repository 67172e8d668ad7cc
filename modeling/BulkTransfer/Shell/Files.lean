import BulkTransfer.FileSystem.Disk
import BulkTransfer.Shell.Tools
import BulkTransfer.Text.Lossy

/-!
# Programs on files

The programs that show the content of files and directories or change them.  A
path that cannot be used is told in the error stream, and the program goes on with
the next one.
-/

namespace BulkTransfer
namespace Shell

/-- What the system says about an error. -/
def causeText : IoError → String
  | .system errno => errno.description
  | other => other.message

/-- A line of the error stream. -/
def complaint (name text : String) : String :=
  name ++ ": " ++ text ++ "\n"

/-- Whether a word holds options. -/
def isOption (word : String) : Bool :=
  match word.toList with
  | '-' :: _ :: _ => true
  | _ => false

/-- The letters of the options among some words. -/
def optionLetters (arguments : List String) : List Char :=
  (arguments.filter isOption).flatMap fun word => word.toList.drop 1

/-- The words that are no options. -/
def operands (arguments : List String) : List String :=
  arguments.filter fun word => !isOption word

/-!
## Content
-/

/-- The contents of files as they are rendered, and what is said about the paths that
cannot be read. -/
def contents (tree : FileTree) (name : String) (failureCode : Nat)
    (complain : String → IoError → String)
    (render : String → ByteArray → List UInt8) (paths : List String) : ProgramRun :=
  let read := paths.map fun path => (path, tree.readFile path)
  let output := read.flatMap fun (path, content) =>
    match content with
    | .ok content => render path content
    | .error _ => []
  let errors := read.filterMap fun (path, content) =>
    match content with
    | .ok _ => none
    | .error error => some (complaint name (complain path error))
  finished output (bytesOf (String.join errors)) (if errors.isEmpty then 0 else failureCode)

/-- The contents of files, one after the other; a hyphen stands for the empty input. -/
def cat (tree : FileTree) (name : String) (arguments : List String) : ProgramRun :=
  contents tree name 1 (fun path error => path ++ ": " ++ causeText error)
    (fun _ content => content.toList) ((operands arguments).filter (· ≠ "-"))

/-- The lines of a content with their breaks. -/
def linesOf (content : List UInt8) : List (List UInt8) :=
  content.foldr
    (fun byte lines =>
      if byte = 10 then [byte] :: lines
      else
        match lines with
        | [] => [[byte]]
        | line :: lines => (byte :: line) :: lines)
    []

/-- How much of a file is shown. -/
inductive Amount
  | lines (count : Nat)
  | bytes (count : Nat)
deriving DecidableEq, Repr

/-- The bytes at the front. -/
def Amount.front (content : List UInt8) : Amount → List UInt8
  | lines count => ((linesOf content).take count).flatten
  | bytes count => content.take count

/-- The bytes at the end. -/
def Amount.back (content : List UInt8) : Amount → List UInt8
  | lines count =>
      let lines := linesOf content
      (lines.drop (lines.length - count)).flatten
  | bytes count => content.drop (content.length - count)

/-- The amount in a word behind the letter of its option. -/
def amount? (letter : Char) (count : List Char) : Option Amount :=
  (Text.natural? count).bind fun count =>
    if letter = 'n' then some (.lines count)
    else if letter = 'c' then some (.bytes count)
    else none

/-- The amount that options ask for, and the paths.  `letter` is an option whose number
comes next. -/
def amountAndPaths (amount : Amount) (letter : Option Char) :
    List String → Amount × List String
  | [] => (amount, [])
  | word :: arguments =>
      match letter, word.toList with
      | some letter, count =>
          amountAndPaths ((amount? letter count).getD amount) none arguments
      | none, ['-', 'n'] => amountAndPaths amount (some 'n') arguments
      | none, ['-', 'c'] => amountAndPaths amount (some 'c') arguments
      | none, '-' :: letter :: count =>
          amountAndPaths
            (((amount? letter count).or (amount? 'n' (letter :: count))).getD amount) none arguments
      | none, _ =>
          let (amount, paths) := amountAndPaths amount none arguments
          (amount, word :: paths)

/-- A part of every file, under its path if there are several files. -/
def part (tree : FileTree) (name : String) (cut : Amount → List UInt8 → List UInt8)
    (arguments : List String) : ProgramRun :=
  let (amount, paths) := amountAndPaths (.lines 10) none arguments
  let title (path : String) : List UInt8 :=
    if paths.length < 2 then []
    else
      bytesOf ((if paths.head? = some path then "" else "\n") ++ "==> " ++ path ++ " <==\n")
  contents tree name 1
    (fun path error =>
      if error = .system Errno.isDirectory then
        "error reading " ++ quoted path ++ ": " ++ causeText error
      else "cannot open " ++ quoted path ++ " for reading: " ++ causeText error)
    (fun path content => title path ++ cut amount content.toList) paths

def head (tree : FileTree) (name : String) (arguments : List String) : ProgramRun :=
  part tree name (fun amount content => amount.front content) arguments

def tail (tree : FileTree) (name : String) (arguments : List String) : ProgramRun :=
  part tree name (fun amount content => amount.back content) arguments

/-- The lines of all files in the order of their bytes. -/
def sort (tree : FileTree) (name : String) (arguments : List String) : ProgramRun :=
  let letters := optionLetters arguments
  let all := contents tree name 2
    (fun path error =>
      (if error = .system Errno.isDirectory then "read failed: " else "cannot read: ") ++ path ++
        ": " ++ causeText error)
    (fun _ content =>
      (linesOf content.toList).flatMap fun line =>
        if line.getLast? = some 10 then line else line ++ [10])
    (operands arguments)
  if all.ending ≠ .exit 0 then { all with output := .empty }
  else
    let sorted := (linesOf all.output.toList).mergeSort fun line other =>
      decide (line.dropLast ≤ other.dropLast)
    let kept := if letters.contains 'u' then sorted.eraseDups else sorted
    let ordered := if letters.contains 'r' then kept.reverse else kept
    finished ordered.flatten [] 0

/-!
## Counting
-/

/-- The number of words: runs of visible bytes. -/
def wordCount (content : List UInt8) : Nat :=
  (content.foldl
    (fun (state : Nat × Bool) byte =>
      let visible := 32 < byte
      (if visible && !state.2 then state.1 + 1 else state.1, visible))
    (0, false)).1

/-- The counts that the letters ask for: lines, words and bytes. -/
def countsOf (letters : List Char) (content : List UInt8) : List Nat :=
  (if letters.contains 'l' then [content.count 10] else []) ++
    (if letters.contains 'w' then [wordCount content] else []) ++
    if letters.contains 'c' then [content.length] else []

/-- Counts right-justified, with a name behind them. -/
def countLine (width : Nat) (counts : List Nat) (name : String) : String :=
  " ".intercalate (counts.map fun count => Text.padLeft width ' ' (toString count)) ++
    (if name.isEmpty then "" else " " ++ name) ++ "\n"

/-- Counts of every file, and of all together if there are several. -/
def wc (tree : FileTree) (name : String) (arguments : List String) : ProgramRun :=
  let asked := optionLetters arguments
  let letters := if asked.isEmpty then ['l', 'w', 'c'] else asked
  let paths := operands arguments
  let read := paths.map fun path => (path, tree.readFile path)
  let contents := read.filterMap fun (_, content) => content.toOption.map ByteArray.toList
  let isPlain := paths.all fun path => tree.isFile path
  let width :=
    if (countsOf letters []).length = 1 && paths.length ≤ 1 then 1
    else if paths.isEmpty || !isPlain && paths.any tree.isDirectory then 7
    else (toString contents.flatten.length).length
  let line (path : String) (content : Except IoError ByteArray) : Option String :=
    match content with
    | .ok content => some (countLine width (countsOf letters content.toList) path)
    | .error error =>
        if error = .system Errno.isDirectory then some (countLine width (countsOf letters []) path)
        else none
  let lines := read.filterMap fun (path, content) => line path content
  let sum := contents.foldl
    (fun sum content => List.zipWith (· + ·) sum (countsOf letters content)) (countsOf letters [])
  let total := if paths.length < 2 then [] else [countLine width sum "total"]
  let empty := if paths.isEmpty then [countLine width (countsOf letters []) ""] else []
  let errors := read.filterMap fun (path, content) =>
    match content with
    | .ok _ => none
    | .error error => some (complaint name (path ++ ": " ++ causeText error))
  finished (bytesOf (String.join (lines ++ total ++ empty))) (bytesOf (String.join errors))
    (if errors.isEmpty then 0 else 1)

/-!
## Directories
-/

/-- The names in a directory that are shown, in order. -/
def shownNames (tree : FileTree) (letters : List Char) (path : String) : List String :=
  let names := ((tree.readDirectory path).toOption.getD []).map (·.1)
  let all := if letters.contains 'a' then "." :: ".." :: names else names
  let shown := all.filter fun name =>
    letters.contains 'a' || letters.contains 'A' || name.toList.head? ≠ some '.'
  shown.mergeSort fun a b => decide (a ≤ b)

/-- Names, each on a line. -/
def nameLines (names : List String) : String :=
  String.join (names.map (· ++ "\n"))

/-- The files among the paths, and then what is in the directories. -/
def ls (tree : FileTree) (name : String) (arguments : List String) : ProgramRun :=
  let letters := optionLetters arguments
  let given := operands arguments
  let paths := (if given.isEmpty then ["."] else given).mergeSort fun a b => decide (a ≤ b)
  let missing := given.filter fun path => !tree.namesEntry path
  let files := paths.filter fun path => tree.namesEntry path && !tree.isDirectory path
  let directories := paths.filter tree.isDirectory
  let blocks :=
    (if files.isEmpty then [] else [nameLines files]) ++ directories.map fun path =>
      (if paths.length < 2 then "" else path ++ ":\n") ++ nameLines (shownNames tree letters path)
  let errors := missing.map fun path =>
    complaint name ("cannot access " ++ quoted path ++ ": " ++ causeText (.system Errno.noEntry))
  finished (bytesOf ("\n".intercalate blocks)) (bytesOf (String.join errors))
    (if errors.isEmpty then 0 else 2)

/-!
## Changes
-/

/-- A change for every path, one after the other. -/
def changeEach (tree : FileTree) (name : String)
    (change : FileTree → String → Except String FileTree) (paths : List String) : ProgramRun :=
  let (after, errors) := paths.foldl
    (fun (state : FileTree × String) path =>
      match change state.1 path with
      | .ok tree => (tree, state.2)
      | .error text => (state.1, state.2 ++ complaint name text))
    (tree, "")
  { finished [] (bytesOf errors) (if errors.isEmpty then 0 else 1) with after := some after }

/-- Create files that are missing. -/
def touch (tree : FileTree) (name : String) (arguments : List String) : ProgramRun :=
  let change (tree : FileTree) (path : String) : Except String FileTree :=
    match tree.stat path with
    | .ok (place, .file content _) => .ok (tree.put place (.file content tree.now))
    | .ok _ => .ok tree
    | .error _ =>
        match tree.create path with
        | .ok (_, changed) => .ok changed
        | .error error => .error ("cannot touch " ++ quoted path ++ ": " ++ causeText error)
  match operands arguments with
  | [] => misused name ["missing file operand"]
  | paths => changeEach tree name change paths

/-- Make directories; with an option those above them too. -/
def mkdir (tree : FileTree) (name : String) (arguments : List String) : ProgramRun :=
  let withParents := (optionLetters arguments).contains 'p'
  let change (tree : FileTree) (path : String) : Except String FileTree :=
    let outcome :=
      if withParents then
        let (outcome, disk) :=
          Disk.makeDirectories ((Path.parts path).length + 1) path { tree := tree }
        outcome.map fun _ => disk.tree
      else tree.makeDirectory path
    outcome.mapError fun error =>
      "cannot create directory " ++ quoted path ++ ": " ++ causeText error
  match operands arguments with
  | [] => misused name ["missing operand"]
  | paths => changeEach tree name change paths

/-- The tree without a place and what is below it. -/
def dropAll (tree : FileTree) (place : Place) : FileTree :=
  (tree.walkBelow place).foldl (fun tree entry => tree.drop (place ++ entry.1)) (tree.drop place)

/-- Remove files; with an option directories too. -/
def rm (tree : FileTree) (name : String) (arguments : List String) : ProgramRun :=
  let letters := optionLetters arguments
  let recursive := letters.contains 'r' || letters.contains 'R'
  let change (tree : FileTree) (path : String) : Except String FileTree :=
    match tree.resolve false path, tree.remove path with
    | _, .ok changed => .ok changed
    | .ok (.entry place .directory), .error error =>
        if recursive then .ok (dropAll tree place)
        else .error ("cannot remove " ++ quoted path ++ ": " ++ causeText error)
    | _, .error error =>
        if letters.contains 'f' && error.isNotFound then .ok tree
        else .error ("cannot remove " ++ quoted path ++ ": " ++ causeText error)
  match operands arguments with
  | [] => if letters.contains 'f' then shown "" else misused name ["missing operand"]
  | paths => changeEach tree name change paths

/-- Where a file goes that is put at a path: into it, if it is a directory. -/
def destination (tree : FileTree) (target source : String) : String :=
  if tree.isDirectory target then Path.join target (lastName source "") else target

/-- Put the content of a file at a path, and perhaps remove the file. -/
def transferFile (tree : FileTree) (move : Bool) (target source : String) :
    Except String FileTree :=
  let path := destination tree target source
  match tree.stat source with
  | .error error => .error ("cannot stat " ++ quoted source ++ ": " ++ causeText error)
  | .ok (place, .file content modified) =>
      if ((tree.stat path).toOption.map (·.1)) = some place then
        .error (quoted source ++ " and " ++ quoted path ++ " are the same file")
      else
        match tree.create path with
        | .error error =>
            .error ((if move then "cannot move " ++ quoted source ++ " to "
              else "cannot create regular file ") ++ quoted path ++ ": " ++ causeText error)
        | .ok (copied, tree) =>
            if move then .ok ((tree.put copied (.file content modified)).drop place)
            else .ok (tree.append copied content)
  | .ok (place, _) =>
      if !move then .error ("-r not specified; omitting directory " ++ quoted source)
      else
        match tree.makeDirectory path with
        | .error error =>
            .error ("cannot move " ++ quoted source ++ " to " ++ quoted path ++ ": " ++
              causeText error)
        | .ok made =>
            match made.stat path with
            | .error error => .error (causeText error)
            | .ok (moved, _) =>
                .ok ((tree.walkBelow place).foldl
                  (fun tree entry => tree.put (moved ++ entry.1) entry.2) (dropAll made place))

/-- Put files at a path, the last operand. -/
def transfer (tree : FileTree) (name : String) (move : Bool) (arguments : List String) :
    ProgramRun :=
  match operands arguments with
  | [] => misused name ["missing file operand"]
  | [path] => misused name ["missing destination file operand after " ++ quoted path]
  | first :: second :: rest =>
      let target := (second :: rest).getLastD ""
      let sources := (first :: second :: rest).dropLast
      if !rest.isEmpty && !tree.isDirectory target then
        refused name
          ["target " ++ quoted target ++ ": " ++ causeText (.system Errno.notDirectory)] 1
      else changeEach tree name (fun tree source => transferFile tree move target source) sources

/-- A program on files by its own name and the name it was started by. -/
def fileTool? (tree : FileTree) (own name : String) (arguments : List String) :
    Option ProgramRun :=
  match own with
  | "cat" => some (cat tree name arguments)
  | "head" => some (head tree name arguments)
  | "tail" => some (tail tree name arguments)
  | "sort" => some (sort tree name arguments)
  | "wc" => some (wc tree name arguments)
  | "ls" => some (ls tree name arguments)
  | "touch" => some (touch tree name arguments)
  | "mkdir" => some (mkdir tree name arguments)
  | "rm" => some (rm tree name arguments)
  | "cp" => some (transfer tree name false arguments)
  | "mv" => some (transfer tree name true arguments)
  | _ => none

end Shell
end BulkTransfer
