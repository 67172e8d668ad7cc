import BulkTransfer.CommandLine.Help
import BulkTransfer.CommandLine.Request
import BulkTransfer.Environment
import BulkTransfer.Session

/-!
# The program

A command line either asks for one job or for the jobs in a file.  The program
answers with lines on the output, notes beside them and a status: 2 if it cannot
start, and else the status of its session.
-/

namespace BulkTransfer
namespace CommandLine

/-- What the program answers. -/
structure Reply where
  status : Nat
  /-- the lines on the output -/
  printed : List String := []
  /-- the lines beside the output -/
  notes : List String := []
deriving DecidableEq, Repr, Inhabited

/-- The reply when the program cannot go on, behind some notes. -/
def refusal (notes : List String) (message : String) : Reply :=
  { status := 2, notes := notes ++ ["-ERR " ++ message] }

/-- A message with its cause, unless the message names it already. -/
def withCause (message cause : String) : String :=
  if Text.contains cause.toList message.toList then message else message ++ ": " ++ cause

/-- The longest queue that can be made. -/
def longestQueue : Nat := UInt64.size / 8 - 1

/-- The lines of a file or of the input. -/
def linesOfBytes (bytes : ByteArray) : Except String (List String) :=
  match String.fromUTF8? bytes with
  | some text => .ok (Text.lines text)
  | none =>
      .error (withCause "failed to read commands" "stream did not contain valid UTF-8")

/-- The directory that holds the buckets. -/
def Request.root (request : Request) (env : Environment) : String :=
  request.storageRoot.getD env.storageRoot

/-- The lines that a request submits. -/
def Request.lines (request : Request) (tree : FileTree) (input : ByteArray) :
    Except String (List String) :=
  match request.file with
  | none => .ok [" ".intercalate request.command]
  | some "-" => linesOfBytes input
  | some path =>
      match tree.openAt path with
      | .error error => .error (withCause ("failed to open " ++ path) error.message)
      | .ok place =>
          match tree.contentAt place with
          | .error error => .error (withCause "failed to read commands" error.message)
          | .ok bytes => linesOfBytes bytes

/-- The settings of the pool that a request asks for. -/
def Request.poolConfig (request : Request) (env : Environment) (processors : Nat) :
    Except ConfigError PoolConfig :=
  let defaults : PoolConfig := {}
  let workers := (request.workers.or env.workers?).getD defaults.workers
  let retries := request.retries.getD defaults.retries.toNat
  (PoolConfig.ofRequest env processors workers retries).map fun config =>
    { config with queueCapacity := request.queueCapacity.getD defaults.queueCapacity }

/-- What a session prints and notes down. -/
def Request.sessionReply (request : Request) (notes : List String)
    (course : Pool.Course Disk) : Reply :=
  let status := course.state.exitStatus false
  let snapshot := course.state.stats.snapshot (UInt64.ofNat (course.now / 1000000))
  { status := status
    printed := course.state.printed request.style
    notes := notes ++
      (if request.file.isSome then ["# Exiting with code " ++ toString status] else []) ++
      (if request.file.isSome || request.statistics then Report.statisticsLines snapshot
        else []) }

/-- Run the jobs of a request. -/
def Request.run (request : Request) (env : Environment) (config : PoolConfig)
    (input : ByteArray) (disk : Disk) : Reply × Disk :=
  let notes :=
    if request.file.isSome then ["# Using " ++ toString config.workers ++ " workers"] else []
  match config.validate with
  | .error error => (refusal notes error.message, disk)
  | .ok () =>
      match request.lines disk.tree input with
      | .error message => (refusal notes message, disk)
      | .ok lines =>
          let executor : Executor :=
            { store := { root := request.root env }
              shellTimeout := env.shellTimeout }
          let course := Session.run executor config request.file.isSome lines disk
          (request.sessionReply notes course, course.world)

/-- Answer a request; a queue that cannot be made ends the program with status 101. -/
def Request.answer (request : Request) (env : Environment) (processors : Nat)
    (input : ByteArray) (disk : Disk) : Reply × Disk :=
  if request.file.isNone && request.command.isEmpty then
    ({ status := 2, notes := helpLines }, disk)
  else if request.file.isSome && !request.command.isEmpty then
    (refusal [] "-f cannot be combined with a command", disk)
  else
    match request.poolConfig env processors with
    | .error error => (refusal [] error.message, disk)
    | .ok config =>
        if config.queueCapacity = 0 || longestQueue < config.queueCapacity then
          ({ status := 101 }, disk)
        else request.run env config input disk

/-- The directory that holds the buckets for a command line. -/
def storageRoot (env : Environment) (words : List String) : String :=
  match Request.ofWords words with
  | .ok request => request.root env
  | .error _ => env.storageRoot

/-- Whether a command line asks for the jobs in the input. -/
def readsInput (words : List String) : Bool :=
  match Request.ofWords words with
  | .ok request => request.file == some "-"
  | .error _ => false

/-- Answer the words of a command line. -/
def run (env : Environment) (processors : Nat) (words : List String) (input : ByteArray)
    (disk : Disk) : Reply × Disk :=
  match Request.ofWords words with
  | .error .usage => ({ status := 2 }, disk)
  | .error .help => ({ status := 0, printed := helpLines }, disk)
  | .error .version => ({ status := 0, printed := [versionLine] }, disk)
  | .ok request => request.answer env processors input disk

end CommandLine
end BulkTransfer
