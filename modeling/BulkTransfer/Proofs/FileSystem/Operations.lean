import BulkTransfer.Proofs.FileSystem.Evolution

/-!
# Operations on a disk

What the primitive operations do to a disk, whatever faults are to come: the tree evolves,
and the faults become fewer.  An operation that succeeds did what the operation on the tree
says; on a quiet disk every operation does.
-/

namespace BulkTransfer

open FileTree (HoldsEntries)

/-- A later state of a disk. -/
structure Disk.Evolves (written removed : Place → Prop) (disk later : Disk) : Prop where
  tree : disk.tree.Evolves written removed later.tree
  faults : later.faults <:+ disk.faults

/-- A disk on which no fault is to come. -/
def Disk.Quiet (disk : Disk) : Prop :=
  ∀ fault ∈ disk.faults, fault = none

theorem Disk.Quiet.tail {disk : Disk} (h : disk.Quiet) (tree : FileTree) :
    Disk.Quiet { tree := tree, faults := disk.faults.tail } :=
  fun fault hfault => h fault (List.mem_of_mem_tail hfault)

/-- No fault has stopped an operation between two states of a disk. -/
def Disk.Unstruck (disk later : Disk) : Prop :=
  ∃ passed, disk.faults = passed ++ later.faults ∧ ∀ fault ∈ passed, fault = none

variable {written removed : Place → Prop} {disk between later : Disk} {ε α β : Type}

namespace Disk.Evolves

theorem refl (hsound : disk.tree.Sound) : disk.Evolves written removed disk :=
  ⟨.refl hsound, List.suffix_refl _⟩

theorem trans (h : disk.Evolves written removed between)
    (h' : between.Evolves written removed later) : disk.Evolves written removed later :=
  ⟨h.tree.trans h'.tree, h'.faults.trans h.faults⟩

theorem mono {written' removed' : Place → Prop} (h : disk.Evolves written removed later)
    (hwritten : ∀ place, written place → written' place)
    (hremoved : ∀ place, removed place → removed' place) : disk.Evolves written' removed' later :=
  ⟨h.tree.mono hwritten hremoved, h.faults⟩

theorem quiet (h : disk.Evolves written removed later) (hquiet : disk.Quiet) : later.Quiet :=
  fun fault hfault => hquiet fault (h.faults.subset hfault)

theorem unstruck_of_quiet (h : disk.Evolves written removed later) (hquiet : disk.Quiet) :
    disk.Unstruck later := by
  rcases h.faults with ⟨passed, hpassed⟩
  refine ⟨passed, hpassed.symm, fun fault hfault => hquiet fault ?_⟩
  rw [← hpassed]
  exact List.mem_append_left _ hfault

/-- Where no fault has struck, none has struck behind a state on the way. -/
theorem unstruck (h : disk.Evolves written removed between) (hlater : later.faults <:+ between.faults)
    (hunstruck : disk.Unstruck later) : between.Unstruck later := by
  rcases h.faults with ⟨front, hfront⟩
  rcases hlater with ⟨passed, hpassed⟩
  rcases hunstruck with ⟨all, hall, hnone⟩
  have hsplit : front ++ passed = all := by
    rw [← hfront, ← hpassed, ← List.append_assoc] at hall
    exact List.append_cancel_right hall
  refine ⟨passed, hpassed.symm, fun fault hfault => hnone fault ?_⟩
  rw [← hsplit]
  exact List.mem_append_right _ hfault

/-- A computation that removes at fewer places and then another one. -/
theorem bind_of_narrow {narrow : Place → Prop} (hnarrow : ∀ place, narrow place → removed place)
    {action : DiskM ε α} {next : α → DiskM ε β}
    (h : disk.Evolves written narrow (action disk).2)
    (hnext : ∀ value between, action disk = (.ok value, between) →
      disk.Evolves written narrow between →
      between.Evolves written removed (next value between).2) :
    disk.Evolves written removed ((action >>= next) disk).2 := by
  rw [DiskM.bind_apply]
  rcases haction : action disk with ⟨outcome, between⟩
  rw [haction] at h
  have hmono : disk.Evolves written removed between :=
    h.mono (fun _ hwritten => hwritten) hnarrow
  cases outcome with
  | error error => exact hmono
  | ok value => exact hmono.trans (hnext value between haction h)

/-- A computation and then another one. -/
theorem bind {action : DiskM ε α} {next : α → DiskM ε β}
    (h : disk.Evolves written removed (action disk).2)
    (hnext : ∀ value between, action disk = (.ok value, between) →
      disk.Evolves written removed between →
      between.Evolves written removed (next value between).2) :
    disk.Evolves written removed ((action >>= next) disk).2 :=
  bind_of_narrow (fun _ hremoved => hremoved) h hnext

/-- A computation that removes nothing and then another one. -/
theorem grow_bind {action : DiskM ε α} {next : α → DiskM ε β}
    (h : disk.Evolves written (fun _ => False) (action disk).2)
    (hnext : ∀ value between, action disk = (.ok value, between) →
      disk.Evolves written (fun _ => False) between →
      between.Evolves written removed (next value between).2) :
    disk.Evolves written removed ((action >>= next) disk).2 :=
  bind_of_narrow (fun _ => False.elim) h hnext

theorem mapError {δ : Type} {f : ε → δ} {action : DiskM ε α}
    (h : disk.Evolves written removed (action disk).2) :
    disk.Evolves written removed (DiskM.mapError f action disk).2 := h

theorem attempt {δ : Type} {action : DiskM ε α}
    (h : disk.Evolves written removed (action disk).2) :
    disk.Evolves written removed ((DiskM.attempt action : DiskM δ (Except ε α)) disk).2 := h

end Disk.Evolves

namespace DiskM

theorem bind_eq_ok_iff {action : DiskM ε α} {next : α → DiskM ε β} {value : β} :
    (action >>= next) disk = (.ok value, later) ↔
      ∃ first between, action disk = (.ok first, between) ∧
        next first between = (.ok value, later) := by
  rw [bind_apply]
  rcases haction : action disk with ⟨outcome, between⟩
  cases outcome with
  | error error =>
      constructor
      · intro h
        cases h
      · rintro ⟨first, other, h, -⟩
        cases h
  | ok first =>
      constructor
      · intro h
        exact ⟨first, between, rfl, h⟩
      · rintro ⟨other, other', h, hnext⟩
        cases h
        exact hnext

theorem bind_cases {action : DiskM ε α} {next : α → DiskM ε β} {outcome : Except ε β}
    (h : (action >>= next) disk = (outcome, later)) :
    (∃ error, action disk = (.error error, later) ∧ outcome = .error error) ∨
      ∃ value between, action disk = (.ok value, between) ∧
        next value between = (outcome, later) := by
  rw [bind_apply] at h
  rcases haction : action disk with ⟨_ | _, between⟩
  · rw [haction] at h
    cases h
    exact Or.inl ⟨_, rfl, rfl⟩
  · rw [haction] at h
    exact Or.inr ⟨_, _, rfl, h⟩

theorem mapError_eq_ok_iff {δ : Type} {f : ε → δ} {action : DiskM ε α} {value : α} :
    mapError f action disk = (.ok value, later) ↔ action disk = (.ok value, later) := by
  rw [mapError]
  rcases action disk with ⟨_ | _, between⟩
  · constructor <;> (intro h; cases h)
  · constructor <;> (intro h; cases h; rfl)

theorem mapError_eq_error {δ : Type} {f : ε → δ} {action : DiskM ε α} {error : δ}
    (h : mapError f action disk = (.error error, later)) :
    ∃ cause, action disk = (.error cause, later) := by
  rw [mapError] at h
  rcases haction : action disk with ⟨_ | _, between⟩
  · rw [haction] at h
    cases h
    exact ⟨_, rfl⟩
  · rw [haction] at h
    cases h

theorem attempt_apply {δ : Type} (action : DiskM ε α) (disk : Disk) :
    (attempt action : DiskM δ (Except ε α)) disk = (.ok (action disk).1, (action disk).2) := rfl

theorem attempt_eq_ok_iff {δ : Type} {action : DiskM ε α} {outcome : Except ε α} :
    (attempt action : DiskM δ (Except ε α)) disk = (.ok outcome, later) ↔
      action disk = (outcome, later) := by
  rw [attempt_apply, Prod.mk.injEq, Except.ok.injEq, Prod.ext_iff]

/-!
## Primitive operations
-/

theorem faults_perform (operation : FileTree → Except IoError α × FileTree) (disk : Disk) :
    (perform operation disk).2.faults <:+ disk.faults := by
  rcases disk with ⟨tree, faults⟩
  rcases faults with _ | ⟨_ | fault, faults⟩
  · exact List.suffix_refl _
  · exact List.suffix_cons none faults
  · exact List.suffix_cons (some fault) faults

theorem perform_eq_ok {operation : FileTree → Except IoError α × FileTree} {value : α}
    (h : perform operation disk = (.ok value, later)) :
    operation disk.tree = (.ok value, later.tree) := by
  rcases disk with ⟨tree, faults⟩
  rcases hoperation : operation tree with ⟨outcome, changed⟩
  rcases faults with _ | ⟨_ | fault, faults⟩
  · simp only [perform, hoperation] at h
    cases h
    rfl
  · simp only [perform, hoperation] at h
    cases h
    rfl
  · cases h

/-- An operation does what it does to the tree where no fault comes next. -/
theorem perform_of_next (operation : FileTree → Except IoError α × FileTree)
    (h : ∀ fault ∈ disk.faults.take 1, fault = none) :
    perform operation disk =
      ((operation disk.tree).1, { tree := (operation disk.tree).2, faults := disk.faults.tail }) := by
  rcases disk with ⟨tree, faults⟩
  rcases faults with _ | ⟨_ | fault, faults⟩
  · rfl
  · rfl
  · exact absurd (h (some fault) List.mem_cons_self) (Option.some_ne_none fault)

theorem perform_of_quiet (operation : FileTree → Except IoError α × FileTree)
    (hquiet : disk.Quiet) :
    perform operation disk =
      ((operation disk.tree).1, { tree := (operation disk.tree).2, faults := disk.faults.tail }) :=
  perform_of_next operation fun fault hfault => hquiet fault (List.mem_of_mem_take hfault)

/-- An operation that no fault has stopped did what it does to the tree. -/
theorem perform_of_unstruck {operation : FileTree → Except IoError α × FileTree}
    {outcome : Except IoError α} (h : perform operation disk = (outcome, later))
    (hunstruck : disk.Unstruck later) : operation disk.tree = (outcome, later.tree) := by
  rcases disk with ⟨tree, faults⟩
  rcases hoperation : operation tree with ⟨outcome', changed⟩
  rcases faults with _ | ⟨_ | fault, faults⟩
  · simp only [perform, hoperation] at h
    cases h
    rfl
  · simp only [perform, hoperation] at h
    cases h
    rfl
  · cases h
    rcases hunstruck with ⟨passed, hpassed, hnone⟩
    have hstruck : [some fault] = passed :=
      List.append_cancel_right (show [some fault] ++ faults = passed ++ faults from hpassed)
    have hfault := hnone (some fault) (by rw [← hstruck]; exact List.mem_cons_self)
    cases hfault

theorem look_tree (operation : FileTree → Except IoError α) (disk : Disk) :
    (look operation disk).2.tree = disk.tree := by
  rcases disk with ⟨tree, faults⟩
  rcases faults with _ | ⟨_ | fault, faults⟩ <;> rfl

theorem tree_of_look {operation : FileTree → Except IoError α} {outcome : Except IoError α}
    (h : look operation disk = (outcome, later)) : later.tree = disk.tree := by
  rw [← look_tree operation disk, h]

theorem look_eq_ok {operation : FileTree → Except IoError α} {value : α}
    (h : look operation disk = (.ok value, later)) :
    operation disk.tree = .ok value ∧ later.tree = disk.tree := by
  have hperform := perform_eq_ok h
  cases hoperation : operation disk.tree with
  | error error =>
      rw [hoperation] at hperform
      cases hperform
  | ok found =>
      rw [hoperation] at hperform
      rw [Prod.mk.injEq] at hperform
      exact ⟨hperform.1, hperform.2.symm⟩

theorem look_of_next (operation : FileTree → Except IoError α)
    (h : ∀ fault ∈ disk.faults.take 1, fault = none) :
    look operation disk = (operation disk.tree, { disk with faults := disk.faults.tail }) :=
  perform_of_next _ h

theorem look_of_quiet (operation : FileTree → Except IoError α) (hquiet : disk.Quiet) :
    look operation disk = (operation disk.tree, { disk with faults := disk.faults.tail }) :=
  perform_of_quiet _ hquiet

theorem look_of_unstruck {operation : FileTree → Except IoError α} {outcome : Except IoError α}
    (h : look operation disk = (outcome, later)) (hunstruck : disk.Unstruck later) :
    operation disk.tree = outcome :=
  congrArg Prod.fst (perform_of_unstruck h hunstruck)

theorem evolves_look (hsound : disk.tree.Sound) (operation : FileTree → Except IoError α) :
    disk.Evolves written removed (look operation disk).2 := by
  refine ⟨?_, faults_perform _ disk⟩
  rw [look_tree]
  exact .refl hsound

theorem change_eq_ok {operation : FileTree → Except IoError (α × FileTree)} {value : α}
    (h : change operation disk = (.ok value, later)) :
    operation disk.tree = .ok (value, later.tree) := by
  have hperform := perform_eq_ok h
  cases hoperation : operation disk.tree with
  | error error =>
      rw [hoperation] at hperform
      cases hperform
  | ok found =>
      rw [hoperation] at hperform
      rcases found with ⟨found, changed⟩
      cases hperform
      rfl

theorem change_of_next {operation : FileTree → Except IoError (α × FileTree)} {value : α}
    {tree : FileTree} (hnext : ∀ fault ∈ disk.faults.take 1, fault = none)
    (h : operation disk.tree = .ok (value, tree)) :
    change operation disk = (.ok value, { tree := tree, faults := disk.faults.tail }) := by
  rw [change, perform_of_next _ hnext, h]

theorem change_of_quiet {operation : FileTree → Except IoError (α × FileTree)} {value : α}
    {tree : FileTree} (hquiet : disk.Quiet) (h : operation disk.tree = .ok (value, tree)) :
    change operation disk = (.ok value, { tree := tree, faults := disk.faults.tail }) :=
  change_of_next (fun fault hfault => hquiet fault (List.mem_of_mem_take hfault)) h

theorem change_eq_error {operation : FileTree → Except IoError (α × FileTree)} {error : IoError}
    (h : change operation disk = (.error error, later)) : later.tree = disk.tree := by
  rcases disk with ⟨tree, faults⟩
  rcases faults with _ | ⟨_ | fault, faults⟩
  · cases hoperation : operation tree with
    | error found =>
        simp only [change, perform, hoperation] at h
        cases h
        rfl
    | ok found =>
        simp only [change, perform, hoperation] at h
        cases h
  · cases hoperation : operation tree with
    | error found =>
        simp only [change, perform, hoperation] at h
        cases h
        rfl
    | ok found =>
        simp only [change, perform, hoperation] at h
        cases h
  · cases h
    rfl

theorem evolves_change (hsound : disk.tree.Sound)
    {operation : FileTree → Except IoError (α × FileTree)}
    (h : ∀ value tree, operation disk.tree = .ok (value, tree) →
      disk.tree.Evolves written removed tree) :
    disk.Evolves written removed (change operation disk).2 := by
  refine ⟨?_, faults_perform _ disk⟩
  rcases hchange : change operation disk with ⟨outcome, later⟩
  cases outcome with
  | ok value => exact h value later.tree (change_eq_ok hchange)
  | error error =>
      rw [change_eq_error hchange]
      exact .refl hsound

end DiskM

/-!
## Changes of the tree
-/

namespace Disk

theorem create_eq_ok {path : String} {place : Place}
    (h : create path disk = (.ok place, later)) :
    disk.tree.create path = .ok (place, later.tree) :=
  DiskM.change_eq_ok h

theorem append_eq_ok {place : Place} {bytes : ByteArray}
    (h : append place bytes disk = (.ok (), later)) :
    later.tree = disk.tree.append place bytes :=
  (Prod.mk.inj (Except.ok.inj (DiskM.change_eq_ok h))).2.symm

theorem create_of_quiet {path : String} {place : Place} {tree : FileTree} (hquiet : disk.Quiet)
    (h : disk.tree.create path = .ok (place, tree)) :
    create path disk = (.ok place, { tree := tree, faults := disk.faults.tail }) :=
  DiskM.change_of_quiet hquiet h

theorem append_of_quiet (hquiet : disk.Quiet) (place : Place) (bytes : ByteArray) :
    append place bytes disk =
      (.ok (), { tree := disk.tree.append place bytes, faults := disk.faults.tail }) :=
  DiskM.change_of_quiet hquiet rfl

theorem remove_eq_ok {path : String} (h : remove path disk = (.ok (), later)) :
    disk.tree.remove path = .ok later.tree := by
  have hchange := DiskM.change_eq_ok h
  cases hremove : disk.tree.remove path with
  | error error =>
      rw [hremove] at hchange
      cases hchange
  | ok tree =>
      rw [hremove] at hchange
      cases hchange
      rfl

/-- A removal that no fault has stopped removed what there was to remove. -/
theorem remove_of_unstruck {path : String} {outcome : Except IoError Unit}
    (h : remove path disk = (outcome, later)) (hunstruck : disk.Unstruck later) :
    disk.tree.remove path = .ok later.tree ∨
      ∃ error, disk.tree.remove path = .error error ∧ later.tree = disk.tree := by
  rw [remove, DiskM.change] at h
  have hperformed := DiskM.perform_of_unstruck h hunstruck
  cases hremove : disk.tree.remove path with
  | ok tree =>
      rw [hremove] at hperformed
      cases hperformed
      exact Or.inl rfl
  | error error =>
      rw [hremove] at hperformed
      exact Or.inr ⟨error, rfl, (Prod.mk.inj hperformed).2.symm⟩

theorem evolves_makeDirectory (hsound : disk.tree.Sound) (path : String) :
    disk.Evolves written removed (makeDirectory path disk).2 := by
  refine DiskM.evolves_change hsound fun _ tree h => ?_
  cases hmake : disk.tree.makeDirectory path with
  | error error =>
      rw [hmake] at h
      cases h
  | ok changed =>
      rw [hmake] at h
      cases h
      exact FileTree.evolves_makeDirectory hsound hmake

theorem evolves_create (hsound : disk.tree.Sound) {path : String}
    (hwritten : ∀ resolved, disk.tree.resolve true path = .ok resolved → written resolved.place) :
    disk.Evolves written removed (create path disk).2 :=
  DiskM.evolves_change hsound fun _ _ h => FileTree.evolves_create hsound hwritten h

theorem evolves_append (hsound : disk.tree.Sound) {place : Place} (hwritten : written place)
    (bytes : ByteArray) : disk.Evolves written removed (append place bytes disk).2 := by
  refine DiskM.evolves_change hsound fun _ _ h => ?_
  cases h
  exact FileTree.evolves_append hsound hwritten bytes

theorem evolves_remove (hsound : disk.tree.Sound) {path : String}
    (hremoved : ∀ resolved, disk.tree.resolve false path = .ok resolved →
      removed resolved.place) :
    disk.Evolves written removed (remove path disk).2 := by
  refine DiskM.evolves_change hsound fun _ tree h => ?_
  cases hremove : disk.tree.remove path with
  | error error =>
      rw [hremove] at h
      cases h
  | ok changed =>
      rw [hremove] at h
      cases h
      exact FileTree.evolves_remove hsound hremoved hremove

/-- A directory is made at once, or it is tried again behind the directories above it; a path where
a directory is then is as good as one that has been made. -/
theorem makeDirectories_cases {depth : Nat} {path : String} {outcome : Except IoError Unit}
    (h : makeDirectories (depth + 1) path disk = (outcome, later)) :
    (∃ first, makeDirectory path disk = (first, later) ∧
        ∀ error, outcome = .error error → first = .error error) ∨
      ∃ cause between above, makeDirectory path disk = (.error cause, between) ∧
        Path.parent path = some above ∧ above.isEmpty = false ∧
        ((∃ error, outcome = .error error ∧
            makeDirectories depth above between = (.error error, later)) ∨
          ∃ deeper last, makeDirectories depth above between = (.ok (), deeper) ∧
            makeDirectory path deeper = (last, later) ∧
            ∀ error, outcome = .error error → last = .error error) := by
  rw [makeDirectories] at h
  dsimp only at h
  split at h
  · rename_i hfirst
    cases h
    exact Or.inl ⟨_, hfirst, fun _ => id⟩
  · rename_i error between hfirst
    split at h
    · left
      split at h <;> cases h
      · exact ⟨_, hfirst, fun _ h => (by cases h)⟩
      · exact ⟨_, hfirst, fun _ => id⟩
    · split at h
      · cases h
        exact Or.inl ⟨_, hfirst, fun _ => id⟩
      · rename_i above habove
        split at h
        · cases h
          exact Or.inl ⟨_, hfirst, fun _ => id⟩
        · rename_i hne
          refine Or.inr ⟨error, between, above, hfirst, habove, Bool.eq_false_iff.mpr hne, ?_⟩
          split at h
          · rename_i hdeep
            cases h
            exact Or.inl ⟨_, rfl, hdeep⟩
          · rename_i deeper hdeep
            refine Or.inr ⟨deeper, ?_⟩
            split at h
            · rename_i hsecond
              cases h
              exact ⟨_, hdeep, hsecond, fun _ => id⟩
            · rename_i hsecond
              split at h <;> cases h
              · exact ⟨_, hdeep, hsecond, fun _ h => (by cases h)⟩
              · exact ⟨_, hdeep, hsecond, fun _ => id⟩

/-- Directories are made one below the other, and nothing else changes. -/
theorem evolves_makeDirectories (hsound : disk.tree.Sound) (depth : Nat) (path : String) :
    disk.Evolves written removed (makeDirectories depth path disk).2 := by
  induction depth generalizing disk path with
  | zero => exact .refl hsound
  | succ depth ih =>
      have hmake : disk.Evolves written removed (makeDirectory path disk).2 :=
        evolves_makeDirectory hsound path
      rcases hall : makeDirectories (depth + 1) path disk with ⟨outcome, later⟩
      rcases makeDirectories_cases hall with
        ⟨first, hfirst, -⟩ | ⟨cause, between, above, hfirst, -, -, hdeeper⟩ <;>
        rw [hfirst] at hmake
      · exact hmake
      · have habove := ih hmake.tree.sound above
        rcases hdeeper with ⟨error, -, hdeep⟩ | ⟨deeper, last, hdeep, hlast, -⟩ <;>
          rw [hdeep] at habove
        · exact hmake.trans habove
        · have hagain : deeper.Evolves written removed (makeDirectory path deeper).2 :=
            evolves_makeDirectory habove.tree.sound path
          rw [hlast] at hagain
          exact (hmake.trans habove).trans hagain

end Disk

theorem FileCopy.evolves_makeParent (hsound : disk.tree.Sound) (path : String) :
    disk.Evolves written removed (FileCopy.makeParent path disk).2 := by
  rw [FileCopy.makeParent]
  cases Path.parent path with
  | none => exact .refl hsound
  | some above =>
      dsimp only
      by_cases hempty : above.isEmpty = true
      · rw [if_pos hempty]
        exact .refl hsound
      · rw [if_neg hempty]
        exact (Disk.evolves_makeDirectories hsound _ _).mapError

end BulkTransfer
