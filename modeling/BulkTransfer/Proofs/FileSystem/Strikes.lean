import BulkTransfer.Proofs.FileSystem.Copies
import BulkTransfer.Proofs.FileSystem.Leading

/-!
# Errors that come from faults

No operation on a tree fails with an error that another attempt could be spared: such errors
come from faults only.  So a computation that ends in one has been struck, and the number of
strikes that are still to come has become smaller.
-/

namespace BulkTransfer

/-- The number of operations that the faults to come are going to stop. -/
def Disk.strikes (disk : Disk) : Nat :=
  disk.faults.countP Option.isSome

/-- Where no strike has been spent no operation has been stopped. -/
theorem Disk.unstruck_of_strikes {disk later : Disk} (h : later.faults <:+ disk.faults)
    (hle : disk.strikes ≤ later.strikes) : disk.Unstruck later := by
  rcases h with ⟨passed, hpassed⟩
  refine ⟨passed, hpassed.symm, fun fault hfault => ?_⟩
  rw [strikes, strikes, ← hpassed, List.countP_append] at hle
  have hzero : passed.countP Option.isSome = 0 := by omega
  rw [← Option.isNone_iff_eq_none, ← Option.not_isSome]
  simpa using List.countP_eq_zero.mp hzero fault hfault

theorem Disk.Evolves.strikes_le {written removed : Place → Prop} {disk later : Disk}
    (h : disk.Evolves written removed later) : later.strikes ≤ disk.strikes :=
  h.faults.sublist.countP_le

/-!
## Operations on a tree
-/

namespace FileTree

variable {tree : FileTree} {path : String} {error : IoError}

theorem follow_blocked {followLast : Bool} {directory : Place} {names : List String}
    {errno : Errno} (h : tree.follow followLast directory names = .blocked errno) :
    errno.cause.isTransient = false := by
  rw [follow_eq_iff] at h
  generalize hprogress : Progress.blocked errno = progress at h
  induction h with
  | stay _ ih | up _ ih | enter _ _ _ ih => exact ih hprogress
  | long | lost | closed | file =>
      cases hprogress
      rfl
  | here | missing | found | link => cases hprogress

theorem followLinks_error {followLast : Bool} {links : Nat} {directory : Place}
    {names : List String} {errno : Errno}
    (h : tree.followLinks followLast links directory names = .error errno) :
    errno.cause.isTransient = false := by
  induction links generalizing directory names with
  | zero =>
      rw [followLinks_eq] at h
      split at h
      · cases h
      · rename_i hblocked
        cases h
        exact follow_blocked hblocked
      · cases h
        rfl
  | succ links ih =>
      rw [followLinks_eq] at h
      split at h
      · cases h
      · rename_i hblocked
        cases h
        exact follow_blocked hblocked
      · exact ih h

theorem resolve_error {followLast : Bool} (h : tree.resolve followLast path = .error error) :
    error.cause.isTransient = false := by
  rw [resolve] at h
  split at h
  · cases h
    rfl
  · split at h
    · cases h
      rfl
    · split at h
      · cases h
        rfl
      · cases hlinks : tree.followLinks followLast linkLimit
          (startOf path tree.workingDirectory) (namesOf path) with
        | error errno =>
            rw [hlinks] at h
            cases h
            exact followLinks_error hlinks
        | ok resolved =>
            rw [hlinks] at h
            cases h

theorem stat_error (h : tree.stat path = .error error) : error.cause.isTransient = false := by
  rw [stat] at h
  split at h
  · rename_i hresolve
    cases h
    exact resolve_error hresolve
  · cases h
    rfl
  · split at h <;> cases h
    rfl

theorem openAt_error (h : tree.openAt path = .error error) : error.cause.isTransient = false := by
  rw [openAt] at h
  split at h
  · rename_i hstat
    cases h
    exact stat_error hstat
  · cases h
    rfl
  · cases h

theorem contentAt_error {place : Place} (h : tree.contentAt place = .error error) :
    error.cause.isTransient = false := by
  rw [contentAt] at h
  split at h <;> cases h <;> rfl

theorem create_error (h : tree.create path = .error error) : error.cause.isTransient = false := by
  rw [create] at h
  split at h
  · rename_i hresolve
    cases h
    exact resolve_error hresolve
  · split at h
    · cases h
      rfl
    · split at h <;> cases h <;> rfl

theorem makeDirectory_error (h : tree.makeDirectory path = .error error) :
    error.cause.isTransient = false := by
  rw [makeDirectory] at h
  split at h
  · rename_i hresolve
    cases h
    exact resolve_error hresolve
  · cases h
  · cases h
    rfl

theorem remove_error (h : tree.remove path = .error error) : error.cause.isTransient = false := by
  rw [remove] at h
  split at h
  · rename_i hresolve
    cases h
    exact resolve_error hresolve
  · cases h
    rfl
  · cases h
    rfl
  · cases h
    rfl
  · split at h <;> cases h
    rfl

end FileTree

theorem JobError.ofIo_isRetryable {name : String} {error : IoError}
    (h : (JobError.ofIo name error).isRetryable = true) : error.cause.isTransient = true := by
  rw [ofIo] at h
  split at h
  · cases h
  · split at h
    · cases h
    · split at h
      · assumption
      · cases h

theorem JobError.ofIo_isRetryable_eq_false {name : String} {error : IoError}
    (h : error.cause.isTransient = false) : (JobError.ofIo name error).isRetryable = false := by
  rw [Bool.eq_false_iff]
  intro hretryable
  rw [ofIo_isRetryable hretryable] at h
  cases h

/-!
## Computations on a disk
-/

namespace DiskM

/-- A computation that fails with an error of a certain kind only where a fault strikes. -/
structure FailsByFault {ε α : Type} (kind : ε → Bool) (action : DiskM ε α) : Prop where
  strikes_le : ∀ disk, (action disk).2.strikes ≤ disk.strikes
  strikes_lt : ∀ disk error later, action disk = (.error error, later) → kind error = true →
    later.strikes < disk.strikes

variable {ε δ α β : Type} {kind : ε → Bool} {kind' : δ → Bool}

namespace FailsByFault

theorem pure (value : α) : FailsByFault kind (Pure.pure value : DiskM ε α) :=
  ⟨fun _ => Nat.le_refl _, fun _ _ _ h => nomatch h⟩

theorem fail {error : ε} (h : kind error = false) :
    FailsByFault kind (DiskM.fail error : DiskM ε α) := by
  refine ⟨fun _ => Nat.le_refl _, fun disk error' later hfails hkind => ?_⟩
  cases hfails
  rw [h] at hkind
  cases hkind

theorem view (f : FileTree → α) : FailsByFault kind (DiskM.view f : DiskM ε α) :=
  ⟨fun _ => Nat.le_refl _, fun _ _ _ h => nomatch h⟩

theorem bind {action : DiskM ε α} {next : α → DiskM ε β} (h : FailsByFault kind action)
    (hnext : ∀ value, FailsByFault kind (next value)) : FailsByFault kind (action >>= next) := by
  constructor
  · intro disk
    have hle := h.strikes_le disk
    rw [bind_apply]
    rcases haction : action disk with ⟨_ | value, between⟩ <;> rw [haction] at hle
    · exact hle
    · exact Nat.le_trans ((hnext value).strikes_le between) hle
  · intro disk error later hfails hkind
    rcases bind_cases hfails with ⟨_, haction, herror⟩ | ⟨value, between, haction, hfails⟩
    · cases herror
      exact h.strikes_lt disk error later haction hkind
    · have hle := h.strikes_le disk
      rw [haction] at hle
      exact Nat.lt_of_lt_of_le ((hnext value).strikes_lt between error later hfails hkind) hle

theorem attempt {action : DiskM δ α} (h : FailsByFault kind' action) :
    FailsByFault kind (DiskM.attempt action : DiskM ε (Except δ α)) :=
  ⟨h.strikes_le, fun _ _ _ hfails => nomatch hfails⟩

/-- An error that is looked at and given back has been paid for where it came from. -/
theorem attempt_bind {action : DiskM δ α} {next : Except δ α → DiskM ε β}
    (h : FailsByFault kind' action) (hok : ∀ value, FailsByFault kind (next (.ok value)))
    (hle : ∀ error disk, (next (.error error) disk).2.strikes ≤ disk.strikes)
    (herror : ∀ error, kind' error = false → FailsByFault kind (next (.error error))) :
    FailsByFault kind (DiskM.attempt action >>= next) := by
  constructor
  · intro disk
    have hfirst := h.strikes_le disk
    rw [bind_apply, attempt_apply]
    rcases haction : action disk with ⟨error | value, between⟩ <;> rw [haction] at hfirst
    · exact Nat.le_trans (hle error between) hfirst
    · exact Nat.le_trans ((hok value).strikes_le between) hfirst
  · intro disk error later hfails hkind
    have hfirst := h.strikes_le disk
    rw [bind_apply, attempt_apply] at hfails
    rcases haction : action disk with ⟨error' | value, between⟩
    · rw [haction] at hfails hfirst
      cases hkind' : kind' error' with
      | false =>
          exact Nat.lt_of_lt_of_le
            ((herror error' hkind').strikes_lt between error later hfails hkind) hfirst
      | true =>
          have hlater := hle error' between
          rw [show next (.error error') between = (.error error, later) from hfails] at hlater
          exact Nat.lt_of_le_of_lt hlater (h.strikes_lt disk error' between haction hkind')
    · rw [haction] at hfails hfirst
      exact Nat.lt_of_lt_of_le ((hok value).strikes_lt between error later hfails hkind) hfirst

theorem mapError {f : δ → ε} {action : DiskM δ α} (h : FailsByFault kind' action)
    (hkind : ∀ error, kind (f error) = true → kind' error = true) :
    FailsByFault kind (DiskM.mapError f action) := by
  refine ⟨h.strikes_le, fun disk error later hfails hretry => ?_⟩
  rw [DiskM.mapError] at hfails
  rcases haction : action disk with ⟨error' | value, between⟩
  · rw [haction] at hfails
    cases hfails
    exact h.strikes_lt disk error' later haction (hkind error' hretry)
  · rw [haction] at hfails
    cases hfails

theorem ofIo {name : String} {action : DiskM IoError α}
    (h : FailsByFault (fun error => error.cause.isTransient) action) :
    FailsByFault JobError.isRetryable (DiskM.mapError (.ofIo name) action) :=
  h.mapError fun _ => JobError.ofIo_isRetryable

/-- A failed operation is reported under a name, unless the named file is missing. -/
theorem attempt_orReport {action : DiskM IoError α} {next : Except IoError α → DiskM JobError β}
    {missing : DiskM JobError β} {name : String}
    (h : FailsByFault (fun error => error.cause.isTransient) action)
    (hok : ∀ value, FailsByFault JobError.isRetryable (next (.ok value)))
    (hmissing : FailsByFault JobError.isRetryable missing)
    (hnext : ∀ error, next (.error error) =
      if error.isNotFound then missing else DiskM.fail (.ofIo name error)) :
    FailsByFault JobError.isRetryable (DiskM.attempt action >>= next) := by
  refine h.attempt_bind hok (fun error disk => ?_) fun error herror => ?_
  · rw [hnext]
    split
    · exact hmissing.strikes_le disk
    · exact Nat.le_refl _
  · rw [hnext]
    split
    · exact hmissing
    · exact .fail (JobError.ofIo_isRetryable_eq_false herror)

theorem perform {operation : FileTree → Except IoError α × FileTree}
    (h : ∀ tree error, (operation tree).1 = .error error → error.cause.isTransient = false) :
    FailsByFault (fun error => error.cause.isTransient) (DiskM.perform operation) := by
  constructor
  · exact fun disk => (faults_perform operation disk).sublist.countP_le
  · intro disk error later hfails hkind
    rcases disk with ⟨tree, _ | ⟨_ | fault, faults⟩⟩
    · rw [h tree error (congrArg Prod.fst hfails)] at hkind
      cases hkind
    · rw [h tree error (congrArg Prod.fst hfails)] at hkind
      cases hkind
    · cases hfails
      exact Nat.lt_of_lt_of_eq (Nat.lt_succ_self _) (List.countP_cons_of_pos rfl).symm

/-- An operation that fails where the tree allows it has been struck. -/
theorem struck_of_perform {operation : FileTree → Except IoError α × FileTree} {disk later : Disk}
    {error : IoError} {value : α} (h : DiskM.perform operation disk = (.error error, later))
    (hok : (operation disk.tree).1 = .ok value) : later.strikes < disk.strikes := by
  rcases disk with ⟨tree, _ | ⟨_ | fault, faults⟩⟩
  · rw [show (operation tree).1 = .error error from congrArg Prod.fst h] at hok
    cases hok
  · rw [show (operation tree).1 = .error error from congrArg Prod.fst h] at hok
    cases hok
  · cases h
    exact Nat.lt_of_lt_of_eq (Nat.lt_succ_self _) (List.countP_cons_of_pos rfl).symm

theorem struck_of_look {operation : FileTree → Except IoError α} {disk later : Disk}
    {error : IoError} {value : α} (h : DiskM.look operation disk = (.error error, later))
    (hok : operation disk.tree = .ok value) : later.strikes < disk.strikes :=
  struck_of_perform h hok

theorem look {operation : FileTree → Except IoError α}
    (h : ∀ tree error, operation tree = .error error → error.cause.isTransient = false) :
    FailsByFault (fun error => error.cause.isTransient) (DiskM.look operation) :=
  perform h

theorem change {operation : FileTree → Except IoError (α × FileTree)}
    (h : ∀ tree error, operation tree = .error error → error.cause.isTransient = false) :
    FailsByFault (fun error => error.cause.isTransient) (DiskM.change operation) := by
  refine perform fun tree error herror => ?_
  cases hoperation : operation tree with
  | error error' =>
      rw [hoperation] at herror
      cases herror
      exact h tree error hoperation
  | ok found =>
      rw [hoperation] at herror
      cases herror

end FailsByFault

/-!
## Computations that only look
-/

/-- A computation that changes nothing on any disk. -/
def OnlyLooks {ε α : Type} (action : DiskM ε α) : Prop :=
  ∀ disk, (action disk).2.tree = disk.tree

theorem onlyLooks_pure (value : α) : OnlyLooks (Pure.pure value : DiskM ε α) :=
  fun _ => rfl

theorem onlyLooks_fail (error : ε) : OnlyLooks (fail error : DiskM ε α) :=
  fun _ => rfl

theorem onlyLooks_look (operation : FileTree → Except IoError α) : OnlyLooks (look operation) :=
  look_tree operation

theorem OnlyLooks.attempt {action : DiskM δ α} (h : OnlyLooks action) :
    OnlyLooks (DiskM.attempt action : DiskM ε (Except δ α)) := h

theorem OnlyLooks.bind {action : DiskM ε α} {next : α → DiskM ε β} (h : OnlyLooks action)
    (hnext : ∀ value, OnlyLooks (next value)) : OnlyLooks (action >>= next) := by
  intro disk
  have hfirst := h disk
  rw [bind_apply]
  rcases haction : action disk with ⟨error | value, between⟩ <;> rw [haction] at hfirst
  · exact hfirst
  · exact (hnext value between).trans hfirst

theorem OnlyLooks.tree_eq {action : DiskM ε α} (h : OnlyLooks action) {disk later : Disk}
    {outcome : Except ε α} (haction : action disk = (outcome, later)) : later.tree = disk.tree := by
  have htree := h disk
  rwa [haction] at htree

/-- What follows a look starts on the disk that was looked at. -/
theorem OnlyLooks.bind_cases {action : DiskM ε α} {next : α → DiskM ε β} {kind : ε → Bool}
    (h : OnlyLooks action) (hstrikes : FailsByFault kind action) {disk later : Disk}
    {outcome : Except ε β} (hall : (action >>= next) disk = (outcome, later)) :
    (∃ error, outcome = .error error ∧ later.tree = disk.tree) ∨
      ∃ value between, action disk = (.ok value, between) ∧ between.tree = disk.tree ∧
        between.strikes ≤ disk.strikes ∧ next value between = (outcome, later) := by
  rcases DiskM.bind_cases hall with ⟨error, haction, rfl⟩ | ⟨value, between, haction, hnext⟩
  · exact Or.inl ⟨error, rfl, h.tree_eq haction⟩
  · have hle := hstrikes.strikes_le disk
    rw [haction] at hle
    exact Or.inr ⟨value, between, haction, h.tree_eq haction, hle, hnext⟩

end DiskM

namespace Disk

open DiskM (FailsByFault)

/-- Whether another attempt may be spared an error of a file operation. -/
abbrev isTransient (error : IoError) : Bool :=
  error.cause.isTransient

theorem stat_failsByFault (path : String) : FailsByFault isTransient (stat path) :=
  .look fun _ _ => FileTree.stat_error

theorem openFile_failsByFault (path : String) : FailsByFault isTransient (openFile path) :=
  .look fun _ _ => FileTree.openAt_error

theorem readFile_failsByFault (path : String) : FailsByFault isTransient (readFile path) := by
  refine .look fun tree error h => ?_
  rw [FileTree.readFile] at h
  split at h
  · rename_i hopen
    cases h
    exact FileTree.openAt_error hopen
  · exact FileTree.contentAt_error h

theorem readAt_failsByFault (place : Place) (position most : Nat) :
    FailsByFault isTransient (readAt place position most) := by
  refine .look fun tree error h => ?_
  cases hcontent : tree.contentAt place with
  | error error' =>
      rw [hcontent] at h
      cases h
      exact FileTree.contentAt_error hcontent
  | ok content =>
      rw [hcontent] at h
      cases h

theorem create_failsByFault (path : String) : FailsByFault isTransient (create path) :=
  .change fun _ _ => FileTree.create_error

theorem append_failsByFault (place : Place) (bytes : ByteArray) :
    FailsByFault isTransient (append place bytes) :=
  .change fun _ _ h => nomatch h

theorem write_failsByFault (path : String) (content : ByteArray) :
    FailsByFault isTransient (write path content) :=
  (create_failsByFault path).bind fun place => append_failsByFault place content

theorem makeDirectory_failsByFault (path : String) :
    FailsByFault isTransient (makeDirectory path) := by
  refine .change fun tree error h => ?_
  cases hmake : tree.makeDirectory path with
  | error error' =>
      rw [hmake] at h
      cases h
      exact FileTree.makeDirectory_error hmake
  | ok later =>
      rw [hmake] at h
      cases h

theorem remove_failsByFault (path : String) : FailsByFault isTransient (remove path) := by
  refine .change fun tree error h => ?_
  cases hremove : tree.remove path with
  | error error' =>
      rw [hremove] at h
      cases h
      exact FileTree.remove_error hremove
  | ok later =>
      rw [hremove] at h
      cases h

/-- A removal that fails where the tree allows it has been struck. -/
theorem remove_struck {disk later : Disk} {path : String} {error : IoError} {tree : FileTree}
    (h : remove path disk = (.error error, later)) (hremove : disk.tree.remove path = .ok tree) :
    later.strikes < disk.strikes := by
  rw [remove, DiskM.change] at h
  refine FailsByFault.struck_of_perform h (?_ : _ = Except.ok ())
  rw [hremove]
  rfl

theorem makeDirectories_failsByFault (depth : Nat) (path : String) :
    FailsByFault isTransient (makeDirectories depth path) := by
  induction depth generalizing path with
  | zero => exact .fail rfl
  | succ depth ih =>
      have hmake := makeDirectory_failsByFault path
      constructor
      · intro disk
        have hle := hmake.strikes_le disk
        rcases hall : makeDirectories (depth + 1) path disk with ⟨outcome, later⟩
        rcases makeDirectories_cases hall with
          ⟨first, hfirst, -⟩ | ⟨cause, between, above, hfirst, -, -, hdeeper⟩ <;>
          rw [hfirst] at hle
        · exact hle
        · have hle' := (ih above).strikes_le between
          rcases hdeeper with ⟨error, -, hdeep⟩ | ⟨deeper, last, hdeep, hlast, -⟩ <;>
            rw [hdeep] at hle'
          · exact Nat.le_trans hle' hle
          · have hle'' := hmake.strikes_le deeper
            rw [hlast] at hle''
            exact Nat.le_trans hle'' (Nat.le_trans hle' hle)
      · intro disk error later hall hkind
        rcases makeDirectories_cases hall with
          ⟨first, hfirst, herror⟩ | ⟨cause, between, above, hfirst, -, -, hdeeper⟩
        · rw [herror error rfl] at hfirst
          exact hmake.strikes_lt disk error later hfirst hkind
        · have hle := hmake.strikes_le disk
          rw [hfirst] at hle
          rcases hdeeper with ⟨error', herror, hdeep⟩ | ⟨deeper, last, hdeep, hlast, herror⟩
          · cases herror
            exact Nat.lt_of_lt_of_le ((ih above).strikes_lt between error later hdeep hkind) hle
          · have hle' := (ih above).strikes_le between
            rw [hdeep] at hle'
            rw [herror error rfl] at hlast
            exact Nat.lt_of_lt_of_le (hmake.strikes_lt deeper error later hlast hkind)
              (Nat.le_trans hle' hle)

end Disk

/-!
## Copies
-/

namespace FileCopy

open DiskM (FailsByFault)
open JobError (isRetryable)

theorem sameEntry_failsByFault (source target : String) :
    FailsByFault isRetryable (sameEntry source target) := by
  refine .bind (Disk.stat_failsByFault source).attempt fun first => ?_
  refine .bind (Disk.stat_failsByFault target).attempt fun second => ?_
  split <;> exact .pure _

theorem makeParent_failsByFault (path : String) : FailsByFault isRetryable (makeParent path) := by
  rw [makeParent]
  split
  · exact .pure ()
  · split
    · exact .pure ()
    · exact (Disk.makeDirectories_failsByFault _ _).ofIo

theorem moveChunks_failsByFault (source target : Place) (name : String) (steps : Nat)
    (cancel : CancelAfter) (done : Nat) :
    FailsByFault isRetryable (moveChunks source target name steps cancel done) := by
  induction steps generalizing cancel done with
  | zero => exact .pure done
  | succ steps ih =>
      rw [moveChunks]
      split
      · exact .fail rfl
      · refine .bind (Disk.readAt_failsByFault _ _ _).ofIo fun chunk => ?_
        split
        · exact .pure done
        · exact .bind (Disk.append_failsByFault _ _).ofIo fun _ => ih _ _

theorem fill_failsByFault (source target : Place) (path : String) (cancel : CancelAfter) :
    FailsByFault isRetryable (fill source target path cancel) := by
  have hgone : ∀ (kind : JobError → Bool) error, kind error = false → FailsByFault kind
      ((Disk.remove path).attempt >>= fun _ => (DiskM.fail error : DiskM JobError Nat)) :=
    fun kind error herror => .bind (Disk.remove_failsByFault path).attempt fun _ => .fail herror
  refine .bind (.view _) fun size => ?_
  exact (moveChunks_failsByFault _ _ _ _ _ _).attempt_bind (fun bytes => .pure bytes)
    (fun error => (hgone (fun _ => false) error rfl).strikes_le) (hgone isRetryable)

theorem copy_failsByFault (source target : String) (cancel : CancelAfter) :
    FailsByFault isRetryable (copy source target cancel) := by
  refine .bind (sameEntry_failsByFault source target) fun same => ?_
  split
  · exact .fail rfl
  · refine .bind (Disk.openFile_failsByFault source).ofIo fun place => ?_
    refine .bind (makeParent_failsByFault target) fun _ => ?_
    exact .bind (Disk.create_failsByFault target).ofIo fun created =>
      fill_failsByFault place created target cancel

theorem delete_failsByFault (path : String) : FailsByFault isRetryable (delete path) :=
  (Disk.remove_failsByFault path).ofIo

theorem pathExists_failsByFault (path : String) : FailsByFault isRetryable (pathExists path) := by
  refine .bind (Disk.stat_failsByFault path).attempt fun outcome => ?_
  split <;> exact .pure _

end FileCopy

end BulkTransfer
