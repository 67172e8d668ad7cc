import BulkTransfer.FileSystem.Access
import BulkTransfer.Shell.Tools

/-!
# Conditions

A condition on words, numbers and files, written in words.  How it is read depends
first on the number of words.
-/

namespace BulkTransfer
namespace Shell

/-- Why a condition cannot be read. -/
inductive ConditionError
  | missingArgument (front : String)
  | noUnaryOperator (word : String)
  | noBinaryOperator (word : String)
  | noInteger (word : String)
  | extraArgument (word : String)
  | missingBracket
deriving DecidableEq, Repr

/-- What is said about it. -/
def ConditionError.message : ConditionError → String
  | missingArgument front => "missing argument after " ++ quoted front
  | noUnaryOperator word => quoted word ++ ": unary operator expected"
  | noBinaryOperator word => quoted word ++ ": binary operator expected"
  | noInteger word => "invalid integer " ++ quoted word
  | extraArgument word => "extra argument " ++ quoted word
  | missingBracket => "missing " ++ quoted "]"

/-- The size of the file that a path leads to. -/
def sizeAt (tree : FileTree) (path : String) : Nat :=
  match tree.stat path with
  | .ok (_, node) => node.size
  | .error _ => 0

/-- Whether a path names a link. -/
def isLink (tree : FileTree) (path : String) : Bool :=
  match tree.resolve false path with
  | .ok (.entry _ (.link _)) => true
  | _ => false

/-- What an operator with one word says. -/
def unary? (tree : FileTree) (operator word : String) : Option Bool :=
  match operator with
  | "-e" => some (tree.leadsSomewhere word)
  | "-f" => some (tree.isFile word)
  | "-d" => some (tree.isDirectory word)
  | "-s" => some (0 < sizeAt tree word || tree.isDirectory word)
  | "-h" | "-L" => some (isLink tree word)
  | "-r" | "-w" => some (tree.leadsSomewhere word)
  | "-x" => some (tree.isDirectory word)
  | "-n" => some (!word.isEmpty)
  | "-z" => some word.isEmpty
  | _ => none

/-- The comparisons of numbers. -/
def comparison? : String → Option (Int → Int → Bool)
  | "-eq" => some fun x y => x == y
  | "-ne" => some fun x y => x != y
  | "-lt" => some fun x y => x < y
  | "-le" => some fun x y => x ≤ y
  | "-gt" => some fun x y => y < x
  | "-ge" => some fun x y => y ≤ x
  | _ => none

/-- The integer in a word. -/
def integer (word : String) : Except ConditionError Int :=
  match Text.signed? word.toList with
  | some number => .ok number
  | none => .error (.noInteger word)

/-- What an operator between two words says. -/
def binary? (left operator right : String) : Option (Except ConditionError Bool) :=
  match operator with
  | "=" | "==" => some (.ok (left = right))
  | "!=" => some (.ok (left ≠ right))
  | _ => (comparison? operator).map fun holds => return holds (← integer left) (← integer right)

/-- Whether a word has the form of an operator with one word. -/
def looksUnary (word : String) : Bool :=
  match word.toList with
  | ['-', _] => true
  | _ => false

/-- Whether a condition holds. -/
def condition (tree : FileTree) : List String → Except ConditionError Bool
  | [] => .ok false
  | [word] => .ok (!word.isEmpty)
  | ["!", word] => .ok word.isEmpty
  | [operator, word] =>
      match unary? tree operator word with
      | some holds => .ok holds
      | none =>
          if looksUnary operator then .error (.noUnaryOperator operator)
          else .error (.missingArgument word)
  | [left, operator, right] =>
      match binary? left operator right with
      | some outcome => outcome
      | none =>
          if left = "!" then (condition tree [operator, right]).map not
          else if left = "(" && right = ")" then .ok (!operator.isEmpty)
          else if operator = "-a" then .ok (!left.isEmpty && !right.isEmpty)
          else if operator = "-o" then .ok (!left.isEmpty || !right.isEmpty)
          else .error (.noBinaryOperator operator)
  | "!" :: rest => (condition tree rest).map not
  | left :: operator :: right :: extra :: _ =>
      .error (.extraArgument (if (binary? left operator right).isSome then extra else operator))

/-- Ends with success if a condition holds. -/
def test (tree : FileTree) (name : String) (arguments : List String) : ProgramRun :=
  match condition tree arguments with
  | .ok true => finished [] [] 0
  | .ok false => finished [] [] 1
  | .error error => refused name [error.message] 2

/-- A condition in front of a closing bracket. -/
def bracket (tree : FileTree) (name : String) (arguments : List String) : ProgramRun :=
  if arguments.getLast? = some "]" then test tree name arguments.dropLast
  else refused name [ConditionError.missingBracket.message] 2

end Shell
end BulkTransfer
