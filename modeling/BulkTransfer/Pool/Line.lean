/-!
# Waiting lines

Who waits in a line is served in the order of arrival.  The line is kept in two
parts, so that neither joining nor leaving it takes longer when it is long.
-/

namespace BulkTransfer
namespace Pool

/-- Those who wait, in the order of arrival. -/
structure Line (α : Type) where
  /-- those who arrived first -/
  front : List α := []
  /-- those behind them, the last one first -/
  back : List α := []
deriving Inhabited

namespace Line

variable {α : Type}

/-- Everybody in the line, the first one first. -/
def toList (line : Line α) : List α :=
  line.front ++ line.back.reverse

def ofList (waiting : List α) : Line α :=
  { front := waiting }

/-- The line with one more at its end. -/
def join (line : Line α) (last : α) : Line α :=
  match line.front with
  | [] => { front := (last :: line.back).reverse }
  | _ :: _ => { line with back := last :: line.back }

/-- Who is first in the line. -/
def first? (line : Line α) : Option α :=
  match line.front with
  | [] => line.back.getLast?
  | first :: _ => some first

/-- The line without the first one. -/
def leave (line : Line α) : Line α :=
  match line.front with
  | [] => { front := line.back.reverse.tail }
  | [_] => { front := line.back.reverse }
  | _ :: front => { line with front := front }

/-- Whether somebody is in the line. -/
def contains [BEq α] (line : Line α) (waiting : α) : Bool :=
  line.front.contains waiting || line.back.contains waiting

@[simp] theorem toList_ofList (waiting : List α) : (ofList waiting).toList = waiting := by
  simp [ofList, toList]

@[simp] theorem toList_join (line : Line α) (last : α) :
    (line.join last).toList = line.toList ++ [last] := by
  cases line with
  | mk front back => cases front <;> simp [join, toList]

theorem first?_eq_head? (line : Line α) : line.first? = line.toList.head? := by
  cases line with
  | mk front back => cases front <;> simp [first?, toList]

@[simp] theorem toList_leave (line : Line α) : line.leave.toList = line.toList.tail := by
  cases line with
  | mk front back =>
      cases front with
      | nil => simp [leave, toList]
      | cons first front => cases front <;> simp [leave, toList]

theorem contains_eq [BEq α] (line : Line α) (waiting : α) :
    line.contains waiting = line.toList.contains waiting := by
  simp [contains, toList]

end Line
end Pool
end BulkTransfer
