import BulkTransfer.Job
import BulkTransfer.Text.Numeral

/-!
# Exit codes

The argument of an exit task is a small integer.  A negative one asks for no
code, and a word that is no integer between -128 and 127 stands for 255.
-/

namespace BulkTransfer
namespace Task

/-- The code of an exit word that cannot be read. -/
def invalidExitCode : Nat := 255

/-- The exit code that a task asks for. -/
def exitCode? (task : Task) : Option Nat :=
  match task.arguments with
  | [] => none
  | argument :: _ =>
      match Text.signedWithin? (-128) 127 argument.text.toList with
      | some code => if 0 ≤ code then some code.toNat else none
      | none => some invalidExitCode

end Task
end BulkTransfer
