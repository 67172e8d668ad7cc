import BulkTransfer.FileCopy

/-!
# How computations on a disk fail

A computation fails only in certain ways if that holds of its parts.  The rules below
follow the way in which computations are put together; an outcome that is looked at as a
value is no failure.
-/

namespace BulkTransfer
namespace DiskM

/-- Every error of a computation, on any disk, satisfies a predicate. -/
def FailsOnly {ε α : Type} (P : ε → Prop) (action : DiskM ε α) : Prop :=
  ∀ disk error, (action disk).1 = .error error → P error

variable {ε δ α β : Type} {P : ε → Prop}

theorem bind_apply (action : DiskM ε α) (next : α → DiskM ε β) (disk : Disk) :
    (action >>= next) disk =
      match action disk with
      | (.ok value, disk) => next value disk
      | (.error error, disk) => (.error error, disk) := rfl

theorem failsOnly_pure (value : α) : FailsOnly P (Pure.pure value : DiskM ε α) := by
  intro disk error h
  cases h

theorem failsOnly_fail {error : ε} (h : P error) : FailsOnly P (fail error : DiskM ε α) := by
  intro disk error' herror
  cases herror
  exact h

/-- Every value of a computation, on any disk, satisfies a predicate. -/
def Gives (Q : α → Prop) (action : DiskM ε α) : Prop :=
  ∀ disk value, (action disk).1 = .ok value → Q value

theorem gives_view {Q : α → Prop} {f : FileTree → α} (h : ∀ tree, Q (f tree)) :
    Gives Q (view f : DiskM ε α) := by
  intro disk value hvalue
  cases hvalue
  exact h disk.tree

theorem FailsOnly.bind_gives {action : DiskM ε α} {next : α → DiskM ε β} {Q : α → Prop}
    (h : FailsOnly P action) (hvalue : Gives Q action)
    (hnext : ∀ value, Q value → FailsOnly P (next value)) : FailsOnly P (action >>= next) := by
  intro disk error herror
  rw [bind_apply] at herror
  rcases haction : action disk with ⟨outcome, disk'⟩
  rw [haction] at herror
  cases outcome with
  | ok value => exact hnext value (hvalue disk value (by rw [haction])) disk' error herror
  | error error' =>
      cases herror
      exact h disk error (by rw [haction])

theorem FailsOnly.bind {action : DiskM ε α} {next : α → DiskM ε β} (h : FailsOnly P action)
    (hnext : ∀ value, FailsOnly P (next value)) : FailsOnly P (action >>= next) :=
  h.bind_gives (Q := fun _ => True) (fun _ _ _ => trivial) fun value _ => hnext value

/-- One of two computations, and then another one. -/
theorem FailsOnly.either {c : Prop} [Decidable c] {action other : DiskM ε α}
    {next : α → DiskM ε β} (h : FailsOnly P action) (hother : FailsOnly P other)
    (hnext : ∀ value, FailsOnly P (next value)) :
    FailsOnly P (if c then action >>= next else other >>= next) := by
  split
  · exact h.bind hnext
  · exact hother.bind hnext

/-- A computation that may be left out, and then another one. -/
theorem FailsOnly.optional {c : Prop} [Decidable c] {action : DiskM ε Unit}
    {next : Unit → DiskM ε β} (h : FailsOnly P action)
    (hnext : ∀ value, FailsOnly P (next value)) :
    FailsOnly P (if c then action >>= next else next ()) := by
  split
  · exact h.bind hnext
  · exact hnext ()

theorem failsOnly_attempt (action : DiskM δ α) :
    FailsOnly P (attempt action : DiskM ε (Except δ α)) := by
  intro disk error h
  cases h

/-- An error that is looked at as a value and given back satisfies the predicate. -/
theorem FailsOnly.attempt_bind {action : DiskM δ α} {next : Except δ α → DiskM ε β}
    {Q : δ → Prop} (h : FailsOnly Q action) (hok : ∀ value, FailsOnly P (next (.ok value)))
    (herror : ∀ error, Q error → FailsOnly P (next (.error error))) :
    FailsOnly P (attempt action >>= next) := by
  intro disk error hfails
  rcases haction : action disk with ⟨outcome, disk'⟩
  rw [bind_apply, attempt, haction] at hfails
  cases outcome with
  | ok value => exact hok value disk' error hfails
  | error error' => exact herror error' (h disk error' (by rw [haction])) disk' error hfails

theorem failsOnly_mapError {f : δ → ε} {action : DiskM δ α} (h : ∀ error, P (f error)) :
    FailsOnly P (mapError f action) := by
  intro disk error herror
  rcases haction : action disk with ⟨outcome, disk'⟩
  have hmap : (mapError f action disk).1 = outcome.mapError f := by rw [mapError, haction]
  rw [hmap] at herror
  cases outcome with
  | ok value => cases herror
  | error error' =>
      cases herror
      exact h error'

theorem failsOnly_ofExcept {outcome : Except ε α} (h : ∀ error, outcome = .error error → P error) :
    FailsOnly P (ofExcept outcome) :=
  fun _ error herror => h error herror

theorem failsOnly_view (f : FileTree → α) : FailsOnly P (view f : DiskM ε α) := by
  intro disk error h
  cases h

theorem failsOnly_goOn (tree : Option FileTree) : FailsOnly P (goOn tree : DiskM ε Unit) := by
  intro disk error h
  cases h

end DiskM
end BulkTransfer
