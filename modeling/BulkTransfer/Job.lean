import BulkTransfer.Argument
import BulkTransfer.Operation

/-!
# Tasks and jobs

A task is one unit of work: an operation with its options and checked
arguments.  A job is a task with at most one continuation for either outcome.
Tasks that a batch fans out into are derived from the batch task; they keep its
keyword, options and source line.
-/

namespace BulkTransfer

/-- One unit of work. -/
structure Task where
  /-- the input that the task came from -/
  source : String
  keyword : String
  operation : Operation
  options : Options
  arguments : List Argument
deriving DecidableEq, Repr, Inhabited

namespace Task

/-- The keyword and the arguments, with single spaces between. -/
def rendering (keyword : String) (arguments : List Argument) : String :=
  " ".intercalate (keyword :: arguments.map Argument.text)

/-- The canonical text of a task. -/
def text (task : Task) : String :=
  rendering task.keyword task.arguments

/-- A task whose source is its own text. -/
def make (keyword : String) (operation : Operation) (options : Options)
    (arguments : List Argument) : Task :=
  { source := rendering keyword arguments, keyword := keyword, operation := operation,
    options := options, arguments := arguments }

/-- The location of an argument, if it is a storage argument. -/
def location? (task : Task) (index : Nat) : Option Location :=
  task.arguments[index]?.bind Argument.location

/-- A task that a batch fans out into. -/
def derive (task : Task) (operation : Operation) (arguments : List Argument) : Task :=
  { task with operation := operation, arguments := arguments }

end Task

/-- A task and what follows it. -/
inductive Job
  | mk (task : Task) (onSuccess onFailure : Option Job)
deriving Inhabited

namespace Job

def task : Job → Task
  | mk task _ _ => task

def onSuccess : Job → Option Job
  | mk _ next _ => next

def onFailure : Job → Option Job
  | mk _ _ next => next

/-- A job without continuations. -/
def ofTask (task : Task) : Job :=
  mk task none none

/-- What follows an outcome. -/
def continuation (job : Job) (succeeded : Bool) : Option Job :=
  if succeeded then job.onSuccess else job.onFailure

def hasContinuations (job : Job) : Bool :=
  job.onSuccess.isSome || job.onFailure.isSome

def text (job : Job) : String :=
  job.task.text

/-- The same job from another source line. -/
def withSource (job : Job) (source : String) : Job :=
  mk { job.task with source := source } job.onSuccess job.onFailure

mutual

/-- Whether two jobs agree in their tasks and in all continuations. -/
def agrees : Job → Job → Bool
  | mk task next fallback, mk task' next' fallback' =>
      task == task' && agreesOption next next' && agreesOption fallback fallback'

/-- Whether two continuations agree. -/
def agreesOption : Option Job → Option Job → Bool
  | none, none => true
  | some job, some job' => agrees job job'
  | _, _ => false

end

end Job

/-!
## Identity

The submitted jobs are numbered.  A continuation is identified by its job and
by the outcome that leads to it, so every job that can ever run has a name
before the run starts.
-/

/-- A submission and the outcomes that lead from it to a job. -/
structure JobId where
  submission : Nat
  route : List Bool := []
deriving DecidableEq, Hashable, Repr, Inhabited

namespace JobId

/-- The continuation for an outcome. -/
def next (id : JobId) (succeeded : Bool) : JobId :=
  { id with route := id.route ++ [succeeded] }

end JobId
end BulkTransfer
