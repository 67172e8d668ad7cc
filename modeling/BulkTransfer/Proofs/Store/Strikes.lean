import BulkTransfer.Proofs.FileSystem.Strikes
import BulkTransfer.Proofs.Store.Transfers

/-!
# Errors of a store that come from faults

A store reports the errors of the file operations it is made of, and its own errors are such
that another attempt would end in them again.  So it has been struck where another attempt may
be spared one of its errors.
-/

namespace BulkTransfer
namespace Store

open DiskM (FailsByFault OnlyLooks onlyLooks_pure onlyLooks_fail onlyLooks_look)
open JobError (isRetryable)

variable (store : Store)

theorem existingBucket_failsByFault (bucket : String) :
    FailsByFault isRetryable (store.existingBucket bucket) := by
  rw [existingBucket]
  split
  · exact .fail rfl
  · have hmissing : FailsByFault isRetryable
        (DiskM.fail (.noSuchBucket bucket) : DiskM JobError String) := .fail rfl
    refine (Disk.stat_failsByFault _).attempt_orReport (fun found => ?_) hmissing fun error => rfl
    rcases found with ⟨place, node⟩
    dsimp only
    split
    · exact .pure _
    · exact .fail rfl

theorem objectPath_failsByFault (location : Location) :
    FailsByFault isRetryable (store.objectPath location) := by
  rw [objectPath]
  split
  · exact .fail rfl
  · exact .bind (store.existingBucket_failsByFault _) fun _ => .pure _

theorem readClass_failsByFault (location : Location) :
    FailsByFault isRetryable (store.readClass location) := by
  refine .bind (Disk.readFile_failsByFault _).attempt fun outcome => ?_
  split <;> exact .pure _

theorem infoAt_failsByFault (location : Location) (path : String) :
    FailsByFault isRetryable (store.infoAt location path) := by
  refine (Disk.stat_failsByFault path).attempt_orReport (fun found => ?_) (.pure none) fun error => rfl
  rcases found with ⟨place, node⟩
  cases node with
  | file content modified => exact .bind (store.readClass_failsByFault location) fun _ => .pure _
  | directory | closed | link => exact .pure none

theorem head_failsByFault (location : Location) :
    FailsByFault isRetryable (store.head location) :=
  .bind (store.objectPath_failsByFault location) fun path => store.infoAt_failsByFault location path

theorem requireObject_failsByFault (location : Location) :
    FailsByFault isRetryable (store.requireObject location) := by
  refine .bind (store.objectPath_failsByFault location) fun path => ?_
  refine .bind (store.infoAt_failsByFault location path) fun info? => ?_
  split
  · exact .pure path
  · exact .fail rfl

theorem writeClass_failsByFault (location : Location) (storage : StorageClass) :
    FailsByFault isRetryable (store.writeClass location storage) := by
  rw [writeClass]
  split
  · exact .bind (Disk.remove_failsByFault _).attempt fun _ => .pure ()
  · exact .bind (FileCopy.makeParent_failsByFault _) fun _ => (Disk.write_failsByFault _ _).ofIo

theorem get_failsByFault (location : Location) (target : String) (cancel : CancelAfter) :
    FailsByFault isRetryable (store.get location target cancel) :=
  .bind (store.requireObject_failsByFault location) fun path =>
    FileCopy.copy_failsByFault path target cancel

theorem delete_failsByFault (location : Location) :
    FailsByFault isRetryable (store.delete location) := by
  have hmissing : FailsByFault isRetryable
      (DiskM.fail (.noSuchObject location.text) : DiskM JobError Unit) := .fail rfl
  refine .bind (store.objectPath_failsByFault location) fun path => ?_
  exact (Disk.remove_failsByFault path).attempt_orReport
    (fun _ => .bind (Disk.remove_failsByFault _).attempt fun _ => .pure ()) hmissing fun error => rfl

/-!
## Looking at buckets and objects
-/

theorem onlyLooks_existingBucket (bucket : String) : OnlyLooks (store.existingBucket bucket) := by
  rw [existingBucket]
  split
  · exact onlyLooks_fail _
  · refine (onlyLooks_look _).attempt.bind fun outcome => ?_
    rcases outcome with error | ⟨place, node⟩ <;> dsimp only <;> split
    · exact onlyLooks_fail _
    · exact onlyLooks_fail _
    · exact onlyLooks_pure _
    · exact onlyLooks_fail _

theorem onlyLooks_objectPath (location : Location) : OnlyLooks (store.objectPath location) := by
  rw [objectPath]
  split
  · exact onlyLooks_fail _
  · exact (store.onlyLooks_existingBucket _).bind fun _ => onlyLooks_pure _

theorem onlyLooks_readClass (location : Location) : OnlyLooks (store.readClass location) := by
  refine (onlyLooks_look _).attempt.bind fun outcome => ?_
  split <;> exact onlyLooks_pure _

theorem onlyLooks_infoAt (location : Location) (path : String) :
    OnlyLooks (store.infoAt location path) := by
  refine (onlyLooks_look _).attempt.bind fun outcome => ?_
  rcases outcome with error | ⟨place, node⟩
  · dsimp only
    split
    · exact onlyLooks_pure _
    · exact onlyLooks_fail _
  · cases node with
    | file content modified =>
        exact (store.onlyLooks_readClass location).bind fun _ => onlyLooks_pure _
    | directory | closed | link => exact onlyLooks_pure _

theorem onlyLooks_head (location : Location) : OnlyLooks (store.head location) :=
  (store.onlyLooks_objectPath location).bind fun path => store.onlyLooks_infoAt location path

theorem onlyLooks_requireObject (location : Location) : OnlyLooks (store.requireObject location) := by
  refine (store.onlyLooks_objectPath location).bind fun path => ?_
  refine (store.onlyLooks_infoAt location path).bind fun info? => ?_
  split
  · exact onlyLooks_pure _
  · exact onlyLooks_fail _

variable {store}

/-- The path of an object comes behind looks that may fail, and it is that of its file. -/
theorem objectPath_bind_cases {α : Type} {location : Location} {next : String → DiskM JobError α}
    {disk later : Disk} {outcome : Except JobError α}
    (h : (store.objectPath location >>= next) disk = (outcome, later)) :
    (∃ error, outcome = .error error ∧ later.tree = disk.tree) ∨
      ∃ found, found.tree = disk.tree ∧ found.strikes ≤ disk.strikes ∧ IsValid location ∧
        next (store.filePath location) found = (outcome, later) := by
  rcases (store.onlyLooks_objectPath location).bind_cases (store.objectPath_failsByFault location) h
    with herror | ⟨path, found, hfound, htree, hle, hnext⟩
  · exact Or.inl herror
  · rcases objectPath_eq_ok hfound with ⟨hvalid, -, rfl, -⟩
    exact Or.inr ⟨found, htree, hle, hvalid, hnext⟩

theorem requireObject_bind_cases {location : Location} {next : String → DiskM JobError Nat}
    {disk later : Disk} {outcome : Except JobError Nat} (hsound : disk.tree.Sound)
    (h : (store.requireObject location >>= next) disk = (outcome, later)) :
    (∃ error, outcome = .error error ∧ later.tree = disk.tree) ∨
      ∃ found, found.tree = disk.tree ∧ found.strikes ≤ disk.strikes ∧ IsValid location ∧
        next (store.filePath location) found = (outcome, later) := by
  rcases (store.onlyLooks_requireObject location).bind_cases
      (store.requireObject_failsByFault location) h with
    herror | ⟨path, found, hfound, htree, hle, hnext⟩
  · exact Or.inl herror
  · rcases requireObject_eq_ok hsound hfound with ⟨rfl, -, content, former, hobject⟩
    exact Or.inr ⟨found, htree, hle, (object?_eq_some_iff.mp hobject).1, hnext⟩

end Store
end BulkTransfer
