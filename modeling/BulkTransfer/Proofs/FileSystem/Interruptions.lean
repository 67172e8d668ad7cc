import BulkTransfer.Proofs.FileSystem.SelfCopies

/-!
# Interrupted copies

A copy opens its source and its target before it moves anything.  Where it is stopped before
that, nothing has changed; where it is stopped behind that, by a fault or because it has been
cancelled, the target is removed.  So the target gets all of the content, or it is as before, or
it is gone, but it never holds a part of the content.
-/

namespace BulkTransfer

open DiskM (bind_eq_ok_iff mapError_eq_ok_iff attempt_eq_ok_iff)

namespace FileTree

variable {tree later : FileTree} {path front : String} {place directory : Place} {name : String}
  {node : Node} {resolved : Resolved}

/-!
## Targets of copies
-/

/-- Whether a path names a symbolic link. -/
def IsLink (tree : FileTree) (path : String) : Prop :=
  ∃ place target, tree.resolve false path = .ok (.entry place (.link target))

/-- Whether the directory above a path is there, if there is anything above it. -/
def HasParent (tree : FileTree) (path : String) : Prop :=
  ∀ above, Path.parent path = some above → above.isEmpty = false → tree.isDirectory above = true

/-- A path that names no link leads to what it names. -/
theorem resolve_unfollowed (h : tree.resolve true path = .ok resolved)
    (hlink : ¬ tree.IsLink path) : tree.resolve false path = .ok resolved := by
  rcases leads_of_resolve h with ⟨links, hle, hleads⟩
  have husable := (resolve_eq_ok_iff.mp h).1
  rcases hleads.unfollow with ⟨fewer, hfewer, hsame | ⟨place, target, hlinked⟩⟩
  · exact resolve_eq_ok_iff.mpr
      ⟨husable, followLinks_of_leads hsame (Nat.le_trans hfewer hle)⟩
  · exact absurd ⟨place, target, resolve_eq_ok_iff.mpr
      ⟨husable, followLinks_of_leads hlinked (Nat.le_trans hfewer hle)⟩⟩ hlink

/-- Nothing is behind a vacant name. -/
theorem not_vacant_of_isFront (hsound : tree.Sound) (hfront : IsFront front path)
    (h : tree.resolve true path = .ok (.entry place node)) :
    tree.resolve false front ≠ .ok (.vacant directory name) := by
  intro hvacant
  rcases resolve_behind_vacant hsound (.refl hsound) hfront hvacant h with ⟨hnone, hmade, -⟩
  rw [hnone] at hmade
  cases hmade

/-- No directory is made above a path where it is there. -/
theorem HasParent.makeParent_tree {disk : Disk} (h : disk.tree.HasParent path)
    (hsound : disk.tree.Sound) : (FileCopy.makeParent path disk).2.tree = disk.tree := by
  rw [FileCopy.makeParent]
  cases hparent : Path.parent path with
  | none => rfl
  | some above =>
      dsimp only
      by_cases hempty : above.isEmpty = true
      · rw [if_pos hempty]
        rfl
      · rw [if_neg hempty]
        rcases Disk.makeDirectories_tree ((Path.parts above).length + 1) above disk with
          hsame | ⟨front, directory, name, hfront, hvacant⟩
        · exact hsame
        · have hdirectory := h above hparent (Bool.eq_false_iff.mpr hempty)
          rw [isDirectory] at hdirectory
          split at hdirectory
          · rename_i hstat
            exact absurd hvacant
              (not_vacant_of_isFront hsound hfront (stat_eq_ok_iff.mp hstat).1)
          · cases hdirectory

/-- A path names nothing once what it names is removed. -/
theorem namesEntry_of_removed (hsound : tree.Sound) (hremove : tree.remove path = .ok later) :
    later.namesEntry path = false := by
  rw [namesEntry]
  split
  · rename_i hresolve
    cases node?_of_removed hsound hremove hresolve
  · rfl

theorem agreesExcept_drop (hne : place ≠ []) : tree.AgreesExcept place (tree.drop place) :=
  ⟨rfl, fun other h => by rw [node?_drop tree other hne, if_neg (Ne.symm h)]⟩

/-- A file can be removed under the path that names it. -/
theorem remove_of_file (h : tree.resolve false path = .ok (.entry place node))
    (hfile : node.isFile = true) (hslash : Path.endsInSlash path = false) :
    tree.remove path = .ok (tree.drop place) := by
  cases node with
  | directory | closed | link => cases hfile
  | file content modified =>
      rw [remove, h]
      dsimp only
      rw [if_neg (by rw [hslash]; exact Bool.false_ne_true)]

end FileTree

theorem DiskM.bind_assoc {ε α β γ : Type} (action : DiskM ε α) (next : α → DiskM ε β)
    (last : β → DiskM ε γ) :
    ((action >>= next) >>= last) = (action >>= fun value => next value >>= last) := by
  funext disk
  rw [bind_apply, bind_apply, bind_apply]
  rcases action disk with ⟨_ | value, between⟩ <;> rfl

theorem DiskM.bind_pure {ε α : Type} (action : DiskM ε α) :
    (action >>= fun value => Pure.pure value) = action := by
  funext disk
  rw [bind_apply]
  rcases action disk with ⟨_ | _, between⟩ <;> rfl

namespace FileCopy

variable {disk later : Disk} {source target : String} {place created : Place}
  {content : ByteArray} {modified : Int} {cancel : CancelAfter} {outcome : Except JobError Nat}

/-!
## Opening both files
-/

/-- What a copy does before it moves anything: it opens the source and creates the target. -/
def openBoth (source target : String) : DiskM JobError (Place × Place) := do
  if ← sameEntry source target then
    DiskM.fail (.invalidArguments (source ++ " and " ++ target ++ " are the same file"))
  else
    let from? ← (Disk.openFile source).mapError (.ofIo source)
    makeParent target
    let place ← (Disk.create target).mapError (.ofIo target)
    return (from?, place)

/-- A copy opens both files and fills the one from the other. -/
theorem copy_eq (source target : String) (cancel : CancelAfter) :
    copy source target cancel =
      openBoth source target >>= fun opened => fill opened.1 opened.2 target cancel := by
  rw [copy, openBoth, DiskM.bind_assoc]
  congr 1
  funext same
  cases same with
  | true => rfl
  | false =>
      rw [if_neg Bool.false_ne_true, if_neg Bool.false_ne_true, DiskM.bind_assoc]
      congr 1
      funext from?
      rw [DiskM.bind_assoc]
      congr 1
      funext made
      rw [DiskM.bind_assoc]
      rfl

/-- Where the directory above the target is there, opening both files fails without a change, or
it creates the target and does nothing else. -/
theorem openBoth_cases (hsound : disk.tree.Sound) (hparent : disk.tree.HasParent target)
    {opened : Except JobError (Place × Place)} (h : openBoth source target disk = (opened, later)) :
    (∃ error, opened = .error error ∧ later.tree = disk.tree) ∨
      ∃ from? place, opened = .ok (from?, place) ∧
        (sameEntry source target disk).1 = .ok false ∧ disk.tree.openAt source = .ok from? ∧
          disk.tree.create target = .ok (place, later.tree) := by
  have htree := sameEntry_tree source target disk
  rw [openBoth] at h
  rcases DiskM.bind_cases h with ⟨error, hsame, rfl⟩ | ⟨same, looked, hsame, h⟩
  · rw [hsame] at htree
    exact Or.inl ⟨error, rfl, htree⟩
  rw [hsame] at htree
  cases same with
  | true =>
      cases h
      exact Or.inl ⟨_, rfl, htree⟩
  | false =>
      rw [if_neg Bool.false_ne_true] at h
      rcases DiskM.bind_cases h with ⟨error, hopen, rfl⟩ | ⟨from?, opened', hopen, h⟩
      · rcases DiskM.mapError_eq_error hopen with ⟨cause, hopen⟩
        exact Or.inl ⟨error, rfl, (DiskM.tree_of_look hopen).trans htree⟩
      rcases DiskM.look_eq_ok (mapError_eq_ok_iff.mp hopen) with ⟨hopen, htree'⟩
      rw [htree] at hopen htree'
      have hmade : (makeParent target opened').2.tree = disk.tree := by
        rw [← htree'] at hsound hparent
        exact (hparent.makeParent_tree hsound).trans htree'
      rcases DiskM.bind_cases h with ⟨error, hmake, rfl⟩ | ⟨⟨⟩, made, hmake, h⟩
      · rw [hmake] at hmade
        exact Or.inl ⟨error, rfl, hmade⟩
      rw [hmake] at hmade
      rcases DiskM.bind_cases h with ⟨error, hcreate, rfl⟩ | ⟨place, last, hcreate, h⟩
      · rcases DiskM.mapError_eq_error hcreate with ⟨cause, hcreate⟩
        exact Or.inl ⟨error, rfl, (DiskM.change_eq_error hcreate).trans hmade⟩
      cases h
      have hcreate := Disk.create_eq_ok (mapError_eq_ok_iff.mp hcreate)
      rw [hmade] at hcreate
      exact Or.inr ⟨from?, place, rfl, by rw [hsame], hopen, hcreate⟩

theorem evolves_openBoth {written removed : Place → Prop} (hsound : disk.tree.Sound)
    (hwritten : ∀ place, written place) (source target : String) :
    disk.Evolves written removed (openBoth source target disk).2 := by
  rw [openBoth]
  refine .bind (evolves_sameEntry hsound _ _) fun same looked _ hlooked => ?_
  cases same with
  | true => exact .refl hlooked.tree.sound
  | false =>
      refine .bind (DiskM.evolves_look hlooked.tree.sound _).mapError fun from? opened _ hopened => ?_
      refine .bind (evolves_makeParent hopened.tree.sound _) fun _ made _ hmade => ?_
      refine .bind (Disk.evolves_create hmade.tree.sound fun _ _ => hwritten _).mapError
        fun place last _ hlast => ?_
      exact .refl hlast.tree.sound

/-- A target that is not the source is not created in its place. -/
theorem openBoth_apart (hsound : disk.tree.Sound)
    (hstat : disk.tree.stat source = .ok (place, .file content modified))
    (hapart : (∀ node, disk.tree.stat target ≠ .ok (place, node)) ∨
      ∀ fault ∈ disk.faults.take 2, fault = none)
    (hsame : (sameEntry source target disk).1 = .ok false) {tree : FileTree}
    (hcreate : disk.tree.create target = .ok (created, tree)) : created ≠ place := by
  rintro rfl
  have htarget := FileTree.stat_of_create hsound hcreate
    (hsound.node?_of_stat hstat Node.noConfusion)
  rcases hapart with hapart | hfaults
  · exact hapart _ htarget
  · rcases sameEntry_of_stat hfaults hstat target with ⟨same, hsame', hsame_iff⟩
    rw [hsame] at hsame'
    cases hsame'
    exact Bool.false_ne_true (hsame_iff.mpr ⟨_, htarget⟩)

/-!
## Filling the target
-/

/-- A copy that fails while it moves chunks removes its target, if no fault strikes this. -/
theorem remove_unfinished {from? : Place} {time : Int} {steps : Nat} {error : JobError}
    {last : Disk} (hsound : disk.tree.Sound)
    (hleads : disk.tree.resolve false target = .ok (.entry created (.file .empty time)))
    (hslash : Path.endsInSlash target = false)
    (hmoved : moveChunks from? created target steps cancel 0 disk = (.error error, last))
    (hnext : ∀ fault ∈ last.faults.take 1, fault = none) :
    last.tree.remove target = .ok (last.tree.drop created) ∧
      Disk.remove target last =
        (.ok (), { tree := last.tree.drop created, faults := last.faults.tail }) := by
  have hempty := hsound.node?_of_resolve hleads Node.noConfusion
  rcases agreesExcept_moveChunks hempty hmoved with ⟨hagrees, part, time', hpart⟩
  have hold : ∀ node, disk.tree.node? created = some node → node.isFile = true := by
    intro node hnode
    rw [hempty] at hnode
    cases hnode
    rfl
  have hremove := FileTree.remove_of_file
    (FileTree.resolve_written hagrees hold hpart hleads rfl hempty.symm) rfl hslash
  refine ⟨hremove, DiskM.change_of_next hnext ?_⟩
  rw [hremove]
  rfl

/-- Filling a file leaves everything else as it is, and nothing of the file if it fails. -/
theorem fill_leaves {from? : Place} {time : Int} (hsound : disk.tree.Sound)
    (hleads : disk.tree.resolve false target = .ok (.entry created (.file .empty time)))
    (hslash : Path.endsInSlash target = false)
    (hremoval : ∀ error last, moveChunks from? created target
        (stepsFor (sizeAt from? disk.tree)) cancel 0 disk = (.error error, last) →
      ∀ fault ∈ last.faults.take 1, fault = none)
    (h : fill from? created target cancel disk = (outcome, later)) :
    disk.tree.AgreesExcept created later.tree ∧
      ∀ error, outcome = .error error →
        later.tree.namesEntry target = false ∧ later.tree.node? created = none := by
  have hempty := hsound.node?_of_resolve hleads Node.noConfusion
  have hroot : created ≠ [] := by
    rintro rfl
    cases hempty
  rw [fill] at h
  rcases DiskM.bind_cases h with ⟨error, hview, -⟩ | ⟨size, viewed, hview, h⟩
  · cases hview
  cases hview
  rcases DiskM.bind_cases h with ⟨error, hmoved, -⟩ | ⟨moved, last, hmoved, h⟩
  · cases hmoved
  have hmoved := attempt_eq_ok_iff.mp hmoved
  have hagrees := (agreesExcept_moveChunks hempty hmoved).1
  cases moved with
  | ok bytes =>
      cases h
      exact ⟨hagrees, fun error herror => by cases herror⟩
  | error error =>
      rcases remove_unfinished hsound hleads hslash hmoved (hremoval _ _ hmoved) with
        ⟨hremove, hremoved⟩
      rcases DiskM.bind_cases h with ⟨error, hattempt, -⟩ | ⟨removed, gone, hattempt, h⟩
      · cases hattempt
      have hattempt := attempt_eq_ok_iff.mp hattempt
      rw [hremoved] at hattempt
      cases hattempt
      cases h
      have hlast : last.tree.Sound := by
        have hevolves : disk.Evolves (fun _ => True) (fun _ => False)
            (moveChunks from? created target (stepsFor (sizeAt from? disk.tree)) cancel 0 disk).2 :=
          evolves_moveChunks hsound trivial _ _ _
        rw [hmoved] at hevolves
        exact hevolves.tree.sound
      refine ⟨hagrees.trans (FileTree.agreesExcept_drop hroot), fun _ _ =>
        ⟨FileTree.namesEntry_of_removed hlast hremove, ?_⟩⟩
      show (last.tree.drop created).node? created = none
      rw [FileTree.node?_drop _ _ hroot, if_pos rfl]

/-- Whether no fault strikes the removal of the target behind a copy that fails. -/
def RemovalUnstruck (disk : Disk) (source target : String) (cancel : CancelAfter) : Prop :=
  ∀ from? created between error last,
    openBoth source target disk = (.ok (from?, created), between) →
      moveChunks from? created target (stepsFor (sizeAt from? between.tree)) cancel 0 between =
        (.error error, last) →
        ∀ fault ∈ last.faults.take 1, fault = none

theorem removalUnstruck_of_quiet (hsound : disk.tree.Sound) (hquiet : disk.Quiet)
    (source target : String) (cancel : CancelAfter) :
    RemovalUnstruck disk source target cancel := by
  intro from? created between error last hopen hmoved fault hfault
  have hopened : disk.Evolves (fun _ => True) (fun _ => False)
      (openBoth source target disk).2 := evolves_openBoth hsound (fun _ => trivial) _ _
  rw [hopen] at hopened
  have hlast : between.Evolves (fun _ => True) (fun _ => False) (moveChunks from? created target
      (stepsFor (sizeAt from? between.tree)) cancel 0 between).2 :=
    evolves_moveChunks hopened.tree.sound trivial _ _ _
  rw [hmoved] at hlast
  exact hlast.quiet (hopened.quiet hquiet) fault (List.mem_of_mem_take hfault)

/-- A copy to a path with a directory above it, neither a link nor the source, leaves everything
as it was if it cannot open both files.  Otherwise nothing but its target changes: this gets all
of the content, or the copy fails and the target is gone, however it is cancelled and whatever
faults strike it but not the removal.  A copy that neither happens to does not fail. -/
theorem copy_all_or_nothing (disk : Disk) (source target : String) (place : Place)
    (content : ByteArray) (modified : Int) (cancel : CancelAfter) (hsound : disk.tree.Sound)
    (hstat : disk.tree.stat source = .ok (place, .file content modified))
    (hparent : disk.tree.HasParent target) (hlink : ¬ disk.tree.IsLink target)
    (hapart : (∀ node, disk.tree.stat target ≠ .ok (place, node)) ∨
      ∀ fault ∈ disk.faults.take 2, fault = none)
    (hremoval : RemovalUnstruck disk source target cancel) (outcome : Except JobError Nat)
    (later : Disk) (h : copy source target cancel disk = (outcome, later)) :
    (∃ error, (openBoth source target disk).1 = .error error ∧ outcome = .error error ∧
      later.tree = disk.tree) ∨
    ∃ created, (openBoth source target disk).1 = .ok (place, created) ∧ created ≠ place ∧
      disk.tree.AgreesExcept created later.tree ∧ later.tree.readFile source = .ok content ∧
      (outcome = .ok content.size ∧ later.tree.readFile target = .ok content ∨
        (∃ error, outcome = .error error) ∧ later.tree.namesEntry target = false ∧
          later.tree.node? created = none) ∧
      (cancel = none → disk.Quiet → outcome = .ok content.size) := by
  rw [copy_eq] at h
  rcases DiskM.bind_cases h with ⟨error, hopen, rfl⟩ | ⟨⟨from?, created⟩, between, hopen, h⟩
  · rcases openBoth_cases hsound hparent hopen with ⟨_, -, htree⟩ | ⟨_, _, hok, -⟩
    · exact Or.inl ⟨error, by rw [hopen], rfl, htree⟩
    · cases hok
  rcases openBoth_cases hsound hparent hopen with
    ⟨_, herror, -⟩ | ⟨_, _, hok, hsame, hopenAt, hcreate⟩
  · cases herror
  cases hok
  have hfrom : place = from? := by
    rw [FileTree.openAt, hstat] at hopenAt
    exact Except.ok.inj hopenAt
  subst hfrom
  have hne := openBoth_apart hsound hstat hapart hsame hcreate
  have hemptied := FileTree.emptied_of_create hsound hcreate
  have hstat' := hemptied.grows.stat_of_file (Ne.symm hne) hstat
    (hsound.node?_of_stat hstat Node.noConfusion) rfl
  rcases FileTree.create_eq_ok hsound hcreate with ⟨resolved, hresolve, -⟩
  have hleads := hemptied.leads false
    ((FileTree.resolve_unfollowed hresolve hlink).trans hresolve.symm)
  rcases fill_leaves hemptied.grows.sound hleads hemptied.slashFree
    (fun error last hmoved => hremoval _ _ _ _ _ hopen hmoved) h with ⟨hagrees, hgone⟩
  have hkeeps := fill_keeps hemptied.grows.sound hstat' (hemptied.leads true rfl)
    hemptied.slashFree hne h
  refine Or.inr ⟨created, by rw [hopen], hne, hemptied.agrees.trans hagrees,
    hkeeps.readFile_source, ?_, ?_⟩
  · cases outcome with
    | ok bytes =>
        rcases hkeeps.readFile_target with ⟨rfl, hread⟩
        exact Or.inl ⟨rfl, hread⟩
    | error error => exact Or.inr ⟨⟨error, rfl⟩, hgone error rfl⟩
  · rintro rfl hquiet
    have hevolves : disk.Evolves (fun _ => True) (fun _ => False)
        (openBoth source target disk).2 := evolves_openBoth hsound (fun _ => trivial) _ _
    rw [hopen] at hevolves
    rcases fill_of_quiet target (hevolves.quiet hquiet) (Ne.symm hne)
      (hemptied.grows.sound.node?_of_stat hstat' Node.noConfusion) with ⟨bytes, last, hfilled⟩
    rw [hfilled] at h
    cases h
    rw [hkeeps.readFile_target.1]

/-- A copy into a directory that is cancelled behind its first chunk leaves nothing there. -/
theorem copy_all_or_nothing_cancelled :
    fileAndDirectory.Sound ∧
    fileAndDirectory.stat "f" = .ok (["f"], .file "hello".toUTF8 1) ∧
    fileAndDirectory.HasParent "sub/g" ∧ ¬ fileAndDirectory.IsLink "sub/g" ∧
    (∀ node, fileAndDirectory.stat "sub/g" ≠ .ok (["f"], node)) ∧
    RemovalUnstruck { tree := fileAndDirectory } "f" "sub/g" (some 1) ∧
    (copy "f" "sub/g" (some 1) { tree := fileAndDirectory }).1 = .error .cancelled ∧
    (copy "f" "sub/g" (some 1) { tree := fileAndDirectory }).2.tree.namesEntry "sub/g" = false ∧
    (copy "f" "sub/g" (some 1) { tree := fileAndDirectory }).2.tree.readFile "f" =
      .ok "hello".toUTF8 := by
  have hstat : fileAndDirectory.stat "f" = .ok (["f"], .file "hello".toUTF8 1) := by rfl
  have hparent : fileAndDirectory.HasParent "sub/g" := by
    intro above habove _
    have hsub : Path.parent "sub/g" = some "sub" := by decide +kernel
    rw [hsub, Option.some.injEq] at habove
    rw [← habove]
    rfl
  have hvacant : fileAndDirectory.resolve false "sub/g" = .ok (.vacant ["sub"] "g") := by rfl
  have hlink : ¬ fileAndDirectory.IsLink "sub/g" := by
    rintro ⟨place, target, hresolve⟩
    rw [hvacant] at hresolve
    cases hresolve
  have hmissing : fileAndDirectory.stat "sub/g" = .error (.system .noEntry) := by rfl
  have hapart : ∀ node, fileAndDirectory.stat "sub/g" ≠ .ok (["f"], node) := by
    intro node hstat
    rw [hmissing] at hstat
    cases hstat
  have hremoval : RemovalUnstruck { tree := fileAndDirectory } "f" "sub/g" (some 1) :=
    removalUnstruck_of_quiet fileAndDirectory_sound (fun _ h => absurd h List.not_mem_nil) _ _ _
  have hcancelled : (copy "f" "sub/g" (some 1) { tree := fileAndDirectory }).1 =
      .error .cancelled := by decide +kernel
  have hopened : (openBoth "f" "sub/g" { tree := fileAndDirectory }).1 =
      .ok (["f"], ["sub", "g"]) := by decide +kernel
  refine ⟨fileAndDirectory_sound, hstat, hparent, hlink, hapart, hremoval, hcancelled, ?_⟩
  rcases copy_all_or_nothing { tree := fileAndDirectory } "f" "sub/g" _ _ _ (some 1)
      fileAndDirectory_sound hstat hparent hlink (Or.inl hapart) hremoval _ _
      (Prod.eta _).symm with
    ⟨error, hfailed, -⟩ | ⟨created, -, -, -, hsource, ⟨hok, -⟩ | ⟨-, hgone, -⟩, -⟩
  · rw [hopened] at hfailed
    cases hfailed
  · rw [hcancelled] at hok
    cases hok
  · exact ⟨hgone, hsource⟩

end FileCopy

end BulkTransfer
