import BulkTransfer.Proofs.FileSystem.Ancestors

/-!
# Copies to a path that is not the source

A copy may be struck at each of its steps.  Before it creates its target it only makes
directories above it; behind that it either completes or removes the target again, and only a
second strike can keep it from that.  So a target that was missing is complete or missing behind a
copy that has been struck once at most, and the source is what it was.
-/

namespace BulkTransfer

open DiskM (mapError_eq_ok_iff attempt_eq_ok_iff)

namespace FileTree

variable {tree later : FileTree} {written : Place → Prop} {path other : String}
  {place target : Place} {node kept : Node}

/-!
## Directories that stay
-/

theorem Evolves.stat_of_directory (h : tree.Grows written later)
    (hstat : tree.stat path = .ok (place, .directory)) :
    later.stat path = .ok (place, .directory) := by
  rcases stat_eq_ok_iff.mp hstat with ⟨hresolve, hslash⟩
  rcases leads_of_resolve hresolve with ⟨links, hle, hleads⟩
  rw [← h.workingDirectory] at hleads
  exact stat_eq_ok_iff.mpr ⟨resolve_eq_ok_iff.mpr ⟨(resolve_eq_ok_iff.mp hresolve).1,
    followLinks_of_leads (hleads.directory_of_grows h) hle⟩, hslash⟩

theorem ClimbsInside.grows (hclimbs : tree.ClimbsInside path) (h : tree.Grows written later) :
    later.ClimbsInside path := by
  intro front behind hnames
  rcases hclimbs front behind hnames with ⟨above, habove⟩
  rcases followLinks_eq_ok_iff.mp habove with ⟨links, hle, hleads⟩
  rw [← h.workingDirectory] at hleads
  exact ⟨above, followLinks_of_leads (hleads.directory_of_grows h) hle⟩

/-- The directories from which a path goes up are still there when another path to a file is
removed. -/
theorem ClimbsInside.remove (hclimbs : tree.ClimbsInside path) (hsound : tree.Sound)
    (hremove : tree.remove other = .ok later)
    (hother : tree.resolve true other = .ok (.entry target kept)) (hkept : kept.isFile = true) :
    later.ClimbsInside path := by
  rcases remove_eq_ok hsound hremove with ⟨named, held, hnamed, hheld, hdirectory, -, rfl⟩
  rcases leads_of_resolve hnamed with ⟨count, -, hnamed⟩
  rcases leads_of_resolve hother with ⟨count', -, hother⟩
  have hroot : named ≠ [] := by
    rintro rfl
    cases hheld
    cases hdirectory
  have hlater : ∀ place, place ≠ named → (tree.drop named).node? place = tree.node? place := by
    intro place hplace
    rw [node?_drop tree place hroot, if_neg (Ne.symm hplace)]
  intro front behind hnames
  rcases hclimbs front behind hnames with ⟨above, habove⟩
  rcases followLinks_eq_ok_iff.mp habove with ⟨links, hle, hleads⟩
  refine ⟨above, followLinks_of_leads
    (Leads.of_removed hnamed hother hkept hdirectory hlater hleads ?_) hle⟩
  rintro - rfl
  cases hkept

/-- Files stay where links and directories stay, unless they are written or removed themselves. -/
theorem Evolves.stat_of_unremoved {removed : Place → Prop} (h : tree.Evolves written removed later)
    (hlink : ∀ place target, removed place → tree.node? place ≠ some (.link target))
    (hsound : tree.Sound) (hwritten : ¬ written place) (hremoved : ¬ removed place)
    (hstat : tree.stat path = .ok (place, node)) (hfile : node.isFile = true) :
    later.stat path = .ok (place, node) := by
  rcases stat_eq_ok_iff.mp hstat with ⟨hresolve, hslash⟩
  have hnode : tree.node? place = some node := by
    refine hsound.node?_of_stat hstat ?_
    rintro rfl
    cases hfile
  have hplace : later.node? place = some node := by
    rcases (h.turns place).eq_or_made hwritten hremoved with hsame | ⟨hnone, -⟩
    · rw [hsame, hnode]
    · rw [hnode] at hnone
      cases hnone
  refine stat_eq_ok_iff.mpr ⟨resolve_of_unchanged hresolve hfile hfile h.workingDirectory hplace ?_,
    hslash⟩
  intro other held hother hnot
  have hturns := h.turns other
  rw [hother] at hturns
  generalize later.node? other = changed at hturns
  cases hturns with
  | same => rfl
  | filled allowed file =>
      rw [file held rfl] at hnot
      cases hnot
  | replaced allowed before after =>
      have hdirectory := before held rfl
      cases held with
      | link target => exact absurd hother (hlink other target allowed)
      | file => cases hnot
      | directory | closed => cases hdirectory

/-!
## Paths whose target is removed
-/

/-- Where names lead again that led to a file, after that was removed under them: to the place that
they named. -/
theorem Leads.place_of_removed {named directory : Place} {names : List String} {held : Node}
    {followLast : Bool} {count count' links : Nat} {resolved : Resolved}
    (hnamed : tree.Leads false count directory names (.entry named held))
    (htarget : tree.Leads true count' directory names (.entry target kept))
    (hkept : kept.isFile = true) (hheld : held ≠ .directory)
    (hthere : ∀ place node, place ≠ named → tree.node? place = some node → node.isFile = false →
      later.node? place = some node)
    (hlink : ∀ target, later.node? named ≠ some (.link target))
    (h : later.Leads followLast links directory names resolved) : resolved.place = named := by
  have hhere := hnamed.node?_eq hheld
  generalize hresolved : Resolved.entry named held = found at hnamed
  induction hnamed generalizing count' links with
  | here directory =>
      cases hresolved
      exact absurd rfl hheld
  | stay _ ih => exact ih htarget.of_stay h.of_stay hresolved
  | up _ ih => exact ih htarget.of_up h.of_up hresolved
  | @enter _ directory name rest _ hname hnode _ ih =>
      have hne : directory ++ [name] ≠ named := by
        rintro rfl
        rw [hhere] at hnode
        exact hheld (Option.some.inj hnode)
      exact ih (htarget.of_directory hname hnode)
        (h.of_directory hname (hthere _ _ hne hnode rfl)) hresolved
  | missing => cases hresolved
  | @found directory name node hname hnode =>
      cases hresolved
      cases hlast : later.node? (directory ++ [name]) with
      | none =>
          rw [(h.of_none hname hlast).2]
          rfl
      | some node =>
          cases node with
          | directory =>
              have hdirectory := h.of_directory hname hlast
              cases hdirectory
              rfl
          | closed | file =>
              rw [(h.of_some hname hlast Node.noConfusion fun _ => Node.noConfusion).2]
              rfl
          | link target => exact absurd hlast (hlink target)
  | @link _ directory name target rest _ hname hnode hrest hleads ih =>
      have hrest := hrest.resolve_left Bool.false_ne_true
      rcases htarget.of_link hname hnode (Or.inl rfl) with ⟨fewer, -, hinner⟩
      by_cases hpassed : directory ++ [name] = named
      · -- a link that is passed does not lead to a file
        subst hpassed
        rw [hhere] at hnode
        cases hnode
        cases hresolved
        rcases hleads.follow_link hinner with ⟨fewer', hlinked⟩
        rw [List.dropLast_concat] at hlinked
        exact absurd (hlinked.nil_of_append hkept hinner) hrest
      · rcases h.of_link hname (hthere _ _ hpassed hnode rfl) (Or.inr hrest) with
          ⟨fewer', -, hagain⟩
        exact ih hinner hagain hresolved

/-- A path still leads to allowed places only when the file is removed to which it leads. -/
theorem LeadsInto.remove {allowed : Place → Prop} (h : tree.LeadsInto path allowed)
    (hsound : tree.Sound) (hremove : tree.remove path = .ok later)
    (hstat : tree.stat path = .ok (target, kept)) (hkept : kept.isFile = true) :
    later.LeadsInto path allowed := by
  intro last hgrows followLast resolved hresolve
  rcases remove_eq_ok hsound hremove with ⟨named, held, hnamed, hheld, hdirectory, -, rfl⟩
  have hallowed : allowed named := h tree (.refl hsound) false _ hnamed
  have hroot : named ≠ [] := by
    rintro rfl
    cases hheld
    cases hdirectory
  rcases leads_of_resolve hnamed with ⟨count, -, hnamed⟩
  rcases leads_of_resolve (stat_eq_ok_iff.mp hstat).1 with ⟨count', -, htarget⟩
  rcases leads_of_resolve hresolve with ⟨links, -, hleads⟩
  rw [hgrows.workingDirectory] at hleads
  have hplace : resolved.place = named := by
    refine Leads.place_of_removed hnamed htarget hkept ?_ (fun place node hne hnode hfile => ?_)
      (fun link hlink => ?_) hleads
    · rintro rfl
      cases hdirectory
    · refine hgrows.node?_of_not_file ?_ hfile
      rw [node?_drop tree place hroot, if_neg (Ne.symm hne), hnode]
    · have hturns := hgrows.turns named
      rw [hlink, node?_drop tree named hroot, if_pos rfl] at hturns
      cases hturns.eq_of_link
  rw [hplace]
  exact hallowed

end FileTree

namespace FileCopy

variable {disk later : Disk} {source target : String} {from? created place : Place}
  {content : ByteArray} {modified time : Int} {cancel : CancelAfter}
  {outcome : Except JobError Nat} {error : JobError}

/-!
## The steps of a copy
-/

/-- How far a copy comes: to nothing but looking, to the directories above its target, which do
not bring it into being, or to the target itself. -/
theorem copy_cases (hsound : disk.tree.Sound) (hclimbs : disk.tree.ClimbsInside target)
    (h : copy source target cancel disk = (outcome, later)) :
    (∃ error, outcome = .error error ∧ later.tree = disk.tree) ∨
      ∃ from? made, disk.tree.openAt source = .ok from? ∧
        disk.tree.Grows (fun _ => False) made ∧
        (∀ found, made.stat target = .ok found → disk.tree.stat target = .ok found) ∧
        ((∃ error, outcome = .error error ∧ later.tree = made) ∨
          ∃ created emptied, made.create target = .ok (created, emptied.tree) ∧
            emptied.strikes ≤ disk.strikes ∧
            fill from? created target cancel emptied = (outcome, later)) := by
  have htree := sameEntry_tree source target disk
  have hlooked := (sameEntry_failsByFault source target).strikes_le disk
  rw [copy] at h
  rcases DiskM.bind_cases h with ⟨error, hsame, rfl⟩ | ⟨same, looked, hsame, h⟩
  · rw [hsame] at htree
    exact Or.inl ⟨error, rfl, htree⟩
  rw [hsame] at htree hlooked
  cases same with
  | true =>
      cases h
      exact Or.inl ⟨_, rfl, htree⟩
  | false =>
      rw [if_neg Bool.false_ne_true] at h
      have hstrikes := (Disk.openFile_failsByFault source).strikes_le looked
      rcases DiskM.bind_cases h with ⟨error, hopen, rfl⟩ | ⟨from?, opened, hopen, h⟩
      · rcases DiskM.mapError_eq_error hopen with ⟨cause, hopen⟩
        exact Or.inl ⟨error, rfl, (DiskM.tree_of_look hopen).trans htree⟩
      have hopen := mapError_eq_ok_iff.mp hopen
      rw [hopen] at hstrikes
      rcases DiskM.look_eq_ok hopen with ⟨hopened, htree'⟩
      rw [htree] at hopened
      rw [← htree, ← htree'] at hsound hclimbs
      have hgrows : opened.tree.Grows (fun _ => False) (makeParent target opened).2.tree :=
        (evolves_makeParent hsound target).tree
      have hback : ∀ found, (makeParent target opened).2.tree.stat target = .ok found →
          opened.tree.stat target = .ok found :=
        fun _ hfound => FileTree.stat_of_makeParent hsound hclimbs hfound
      rw [htree', htree] at hgrows hback
      refine Or.inr ⟨from?, _, hopened, hgrows, hback, ?_⟩
      have hmade := (makeParent_failsByFault target).strikes_le opened
      rcases DiskM.bind_cases h with ⟨error, hmake, rfl⟩ | ⟨⟨⟩, made, hmake, h⟩
      · rw [hmake]
        exact Or.inl ⟨error, rfl, rfl⟩
      rw [hmake] at hmade ⊢
      have hemptied := (Disk.create_failsByFault target).strikes_le made
      rcases DiskM.bind_cases h with ⟨error, hcreate, rfl⟩ | ⟨created, emptied, hcreate, h⟩
      · rcases DiskM.mapError_eq_error hcreate with ⟨cause, hcreate⟩
        exact Or.inl ⟨error, rfl, DiskM.change_eq_error hcreate⟩
      have hcreate := mapError_eq_ok_iff.mp hcreate
      rw [hcreate] at hemptied
      exact Or.inr ⟨created, emptied, Disk.create_eq_ok hcreate,
        Nat.le_trans hemptied (Nat.le_trans hmade (Nat.le_trans hstrikes hlooked)), h⟩

/-- A file that is filled in part is left or removed; it is left only where a strike stops the
removal. -/
theorem fill_cases (hsound : disk.tree.Sound)
    (hresolve : disk.tree.resolve true target = .ok (.entry created (.file .empty time)))
    (hslash : Path.endsInSlash target = false)
    (h : fill from? created target cancel disk = (outcome, later)) :
    ∃ between content time', disk.Evolves (· = created) (fun _ => False) between ∧
      between.tree.stat target = .ok (created, .file content time') ∧
      (∀ bytes, outcome = .ok bytes → later = between) ∧
      ∀ error, outcome = .error error →
        (error.isRetryable = true → between.strikes < disk.strikes) ∧
          (between.tree.remove target = .ok later.tree ∧ later.strikes ≤ between.strikes ∨
            later.tree = between.tree ∧ later.strikes < between.strikes) := by
  have hempty := hsound.node?_of_resolve hresolve Node.noConfusion
  rw [fill] at h
  rcases DiskM.bind_cases h with ⟨error, hview, -⟩ | ⟨size, viewed, hview, h⟩
  · cases hview
  cases hview
  rcases DiskM.bind_cases h with ⟨error, hmoved, -⟩ | ⟨moved, between, hmoved, h⟩
  · cases hmoved
  have hmoved := attempt_eq_ok_iff.mp hmoved
  have hgrows : disk.Evolves (· = created) (fun _ => False) between := by
    have hevolves : disk.Evolves (· = created) (fun _ => False)
        (moveChunks from? created target (stepsFor (sizeAt from? disk.tree)) cancel 0 disk).2 := by
      refine evolves_moveChunks hsound ?_ _ _ _
      rfl
    rwa [hmoved] at hevolves
  rcases agreesExcept_moveChunks hempty hmoved with ⟨-, content, time', hfile⟩
  have hstat : between.tree.stat target = .ok (created, .file content time') :=
    FileTree.stat_of_noSlash (FileTree.resolve_of_unchanged hresolve rfl rfl
      hgrows.tree.workingDirectory hfile fun _ _ hother hnot =>
        hgrows.tree.node?_of_not_file hother hnot) hslash
  refine ⟨between, content, time', hgrows, hstat, ?_⟩
  cases moved with
  | ok bytes =>
      cases h
      refine ⟨fun _ _ => rfl, fun error herror => ?_⟩
      cases herror
  | error error =>
      have hstruck := (moveChunks_failsByFault from? created target _ cancel 0).strikes_lt
        disk error between hmoved
      rcases DiskM.bind_cases h with ⟨error, hremove, -⟩ | ⟨removed, last, hremove, h⟩
      · cases hremove
      have hremove := attempt_eq_ok_iff.mp hremove
      have hle := (Disk.remove_failsByFault target).strikes_le between
      rw [hremove] at hle
      cases h
      constructor
      · intro bytes hbytes
        cases hbytes
      · intro error' herror
        cases herror
        refine ⟨hstruck, ?_⟩
        cases removed with
        | ok value => exact Or.inl ⟨Disk.remove_eq_ok hremove, hle⟩
        | error cause =>
            -- the file is there, so that only a strike keeps it from being removed
            rcases (FileTree.removable_of_stat hstat).remove hgrows.tree.sound with
              ⟨tree, htree, -⟩
            exact Or.inr ⟨DiskM.change_eq_error hremove, Disk.remove_struck hremove htree⟩

/-!
## The target
-/

/-- Where a target leads once it has been filled in part: to the file that was created, or
nowhere. -/
theorem stat_of_fill {found : Place × Node} (hsound : disk.tree.Sound)
    (hresolve : disk.tree.resolve true target = .ok (.entry created (.file .empty time)))
    (hslash : Path.endsInSlash target = false)
    (h : fill from? created target cancel disk = (outcome, later))
    (hfound : later.tree.stat target = .ok found) :
    found.1 = created ∧ found.2.isFile = true := by
  rcases fill_cases hsound hresolve hslash h with
    ⟨between, content, time', hgrows, hstat, hok, herror⟩
  have hsame : later.tree = between.tree → found.1 = created ∧ found.2.isFile = true := by
    intro htree
    rw [htree, hstat] at hfound
    cases hfound
    exact ⟨rfl, rfl⟩
  cases outcome with
  | ok bytes => exact hsame (by rw [hok bytes rfl])
  | error error =>
      rcases (herror error rfl).2 with ⟨hremove, -⟩ | ⟨htree, -⟩
      · exact absurd hfound (FileTree.stat_of_removed hgrows.tree.sound hremove found)
      · exact hsame htree

/-- What a path leads to, of a kind. -/
def LeadsTo (kind : Node → Prop) (tree : FileTree) (path : String) : Prop :=
  ∃ place node, tree.stat path = .ok (place, node) ∧ kind node

/-- A target that was missing is missing behind a copy that fails and could be tried again, unless
the copy has been struck twice. -/
theorem missing_of_copy {kind : Node → Prop} (hsound : disk.tree.Sound)
    (hclimbs : disk.tree.ClimbsInside target) (hmissing : ¬ LeadsTo kind disk.tree target)
    (h : copy source target cancel disk = (.error error, later))
    (hagain : error.isRetryable = true) :
    ¬ LeadsTo kind later.tree target ∨ later.strikes + 2 ≤ disk.strikes := by
  rcases copy_cases hsound hclimbs h with
    ⟨_, -, htree⟩ | ⟨from?, made, -, hgrows, hback, ⟨_, -, htree⟩ | ⟨created, emptied, hcreate,
      hstrikes, h⟩⟩
  · left
    rwa [htree]
  · left
    rw [htree]
    rintro ⟨place, node, hstat, hkind⟩
    exact hmissing ⟨place, node, hback _ hstat, hkind⟩
  · have hemptied := FileTree.emptied_of_create hgrows.sound hcreate
    rcases fill_cases hemptied.grows.sound (hemptied.leads true rfl) hemptied.slashFree h with
      ⟨between, content, time, hbetween, -, -, herror⟩
    rcases herror error rfl with ⟨hstruck, ⟨hremove, -⟩ | ⟨-, hstruck'⟩⟩
    · left
      rintro ⟨place, node, hstat, -⟩
      exact FileTree.stat_of_removed hbetween.tree.sound hremove _ hstat
    · right
      have hstruck := hstruck hagain
      omega

/-- The directories from which the target goes up stay there. -/
theorem climbsInside_of_copy (hsound : disk.tree.Sound) (hclimbs : disk.tree.ClimbsInside target)
    (h : copy source target cancel disk = (outcome, later)) :
    later.tree.Sound ∧ later.tree.ClimbsInside target := by
  rcases copy_cases hsound hclimbs h with
    ⟨_, -, htree⟩ | ⟨from?, made, -, hgrows, -, ⟨_, -, htree⟩ | ⟨created, emptied, hcreate, -, h⟩⟩
  · rw [htree]
    exact ⟨hsound, hclimbs⟩
  · rw [htree]
    exact ⟨hgrows.sound, hclimbs.grows hgrows⟩
  · have hemptied := FileTree.emptied_of_create hgrows.sound hcreate
    rcases fill_cases hemptied.grows.sound (hemptied.leads true rfl) hemptied.slashFree h with
      ⟨between, content, time, hbetween, hstat, hok, herror⟩
    have hclimbs' := ((hclimbs.grows hgrows).grows hemptied.grows).grows hbetween.tree
    cases outcome with
    | ok bytes =>
        rw [hok bytes rfl]
        exact ⟨hbetween.tree.sound, hclimbs'⟩
    | error error =>
        rcases (herror error rfl).2 with ⟨hremove, -⟩ | ⟨htree, -⟩
        · have hremoved : between.tree.Evolves (fun _ => False) (fun _ => True) later.tree :=
            FileTree.evolves_remove hbetween.tree.sound (fun _ _ => trivial) hremove
          exact ⟨hremoved.sound, hclimbs'.remove hbetween.tree.sound hremove
            (FileTree.stat_eq_ok_iff.mp hstat).1 rfl⟩
        · rw [htree]
          exact ⟨hbetween.tree.sound, hclimbs'⟩

/-- Where the target may lead, it may lead behind a copy, whatever becomes of it. -/
theorem leadsInto_of_copy {allowed : Place → Prop} (hsound : disk.tree.Sound)
    (hclimbs : disk.tree.ClimbsInside target) (hleads : disk.tree.LeadsInto target allowed)
    (h : copy source target cancel disk = (outcome, later)) :
    later.tree.LeadsInto target allowed := by
  have hnone : ∀ place : Place, False → allowed place := fun _ => False.elim
  rcases copy_cases hsound hclimbs h with
    ⟨_, -, htree⟩ | ⟨from?, made, -, hgrows, -, ⟨_, -, htree⟩ | ⟨created, emptied, hcreate, -, h⟩⟩
  · rw [htree]
    exact hleads
  · rw [htree]
    exact hleads.grows (hgrows.mono hnone fun _ => id)
  · have hmade := hgrows.mono hnone fun _ => id
    have hemptied := FileTree.emptied_of_create hgrows.sound hcreate
    rcases FileTree.create_eq_ok hgrows.sound hcreate with ⟨resolved, hresolve, hplace, -⟩
    have hcreated : ∀ place, place = created → allowed place := by
      rintro place rfl
      rw [← hplace]
      exact hleads _ hmade true resolved hresolve
    rcases fill_cases hemptied.grows.sound (hemptied.leads true rfl) hemptied.slashFree h with
      ⟨between, content, time, hbetween, hstat, hok, herror⟩
    have hkept := ((hleads.grows hmade).grows (hemptied.grows.mono hcreated fun _ => id)).grows
      (hbetween.tree.mono hcreated fun _ => id)
    cases outcome with
    | ok bytes =>
        rw [hok bytes rfl]
        exact hkept
    | error error =>
        rcases (herror error rfl).2 with ⟨hremove, -⟩ | ⟨htree, -⟩
        · exact hkept.remove hbetween.tree.sound hremove hstat rfl
        · rw [htree]
          exact hkept

/-!
## The source
-/

/-- What is created at a target that does not lead to an entry is another one. -/
theorem created_apart {made : FileTree} {tree : FileTree} {node : Node}
    (hgrows : disk.tree.Grows (fun _ => False) made)
    (hback : ∀ found, made.stat target = .ok found → disk.tree.stat target = .ok found)
    (hapart : ∀ node, disk.tree.stat target ≠ .ok (place, node))
    (hnode : disk.tree.node? place = some node)
    (hcreate : made.create target = .ok (created, tree)) : created ≠ place := by
  rintro rfl
  exact hapart _ (hback _ (FileTree.stat_of_create hgrows.sound hcreate
    (hgrows.node?_of_some hnode)))

/-- A copy to a path that does not lead to its source keeps the source, and the target does not
come to lead to it. -/
theorem copy_keeps_apart (hsound : disk.tree.Sound) (hclimbs : disk.tree.ClimbsInside target)
    (hstat : disk.tree.stat source = .ok (place, .file content modified))
    (hapart : ∀ node, disk.tree.stat target ≠ .ok (place, node))
    (h : copy source target cancel disk = (outcome, later)) :
    Keeps source target place content modified outcome later.tree ∧
      ∀ node, later.tree.stat target ≠ .ok (place, node) := by
  have hnode := hsound.node?_of_stat hstat Node.noConfusion
  rcases copy_cases hsound hclimbs h with
    ⟨error, rfl, htree⟩ | ⟨from?, made, hopen, hgrows, hback, hcourse⟩
  · rw [htree]
    exact ⟨keeps_error hsound hstat error, hapart⟩
  have hkept := hgrows.stat_of_file id hstat hnode rfl
  rcases hcourse with ⟨error, rfl, htree⟩ | ⟨created, emptied, hcreate, -, h⟩
  · rw [htree]
    exact ⟨⟨hgrows.sound, hkept, fun _ hbytes => nomatch hbytes⟩,
      fun node hfound => hapart node (hback _ hfound)⟩
  · have hfrom : from? = place := by
      rw [FileTree.openAt, hstat] at hopen
      exact (Except.ok.inj hopen).symm
    subst hfrom
    have hne := created_apart hgrows hback hapart hnode hcreate
    have hemptied := FileTree.emptied_of_create hgrows.sound hcreate
    have hsource := hgrows.sound.node?_of_stat hkept Node.noConfusion
    constructor
    · exact fill_keeps hemptied.grows.sound
        (hemptied.grows.stat_of_file (Ne.symm hne) hkept hsource rfl) (hemptied.leads true rfl)
        hemptied.slashFree hne h
    · intro node hfound
      exact hne (stat_of_fill hemptied.grows.sound (hemptied.leads true rfl) hemptied.slashFree h
        hfound).1.symm

/-- What is opened is a file or a directory. -/
theorem stat_of_openAt {tree : FileTree} (h : tree.openAt source = .ok place) :
    (∃ content modified, tree.stat source = .ok (place, .file content modified)) ∨
      tree.stat source = .ok (place, .directory) := by
  rw [FileTree.openAt] at h
  split at h
  · cases h
  · cases h
  · rename_i found node hclosed hstat
    cases h
    cases node with
    | file content modified => exact Or.inl ⟨content, modified, hstat⟩
    | directory => exact Or.inr hstat
    | closed => exact absurd rfl hclosed
    | link => exact absurd (FileTree.stat_eq_ok_iff.mp hstat).1 FileTree.resolve_true_ne_link

/-- Only a file can be copied. -/
theorem file_of_copy {bytes : Nat} (hsound : disk.tree.Sound)
    (hclimbs : disk.tree.ClimbsInside target)
    (h : copy source target cancel disk = (.ok bytes, later)) :
    ∃ place content modified, disk.tree.stat source = .ok (place, .file content modified) := by
  rcases copy_cases hsound hclimbs h with
    ⟨error, herror, -⟩ | ⟨from?, made, hopen, hgrows, -, ⟨error, herror, -⟩ | ⟨created, emptied,
      hcreate, -, h⟩⟩
  · cases herror
  · cases herror
  rcases stat_of_openAt hopen with ⟨content, modified, hstat⟩ | hstat
  · exact ⟨from?, content, modified, hstat⟩
  exfalso
  have hholds : disk.tree.HoldsEntries from? := by
    rcases hsound.resolve (FileTree.stat_eq_ok_iff.mp hstat).1 with hnode | ⟨-, hholds⟩
    · exact FileTree.holdsEntries_of_directory hnode
    · exact hholds
  rcases hholds with ⟨held, hheld, hdirectory⟩
  have hheld := hgrows.node?_of_some hheld
  -- a directory is neither vacant nor a file, so the target is created elsewhere
  have hne : created ≠ from? := by
    rintro rfl
    rcases FileTree.create_eq_ok hgrows.sound hcreate with ⟨-, -, -, -, -, -, hfile, -⟩
    rw [Turns.isDirectory_of_isFile (hfile held hheld)] at hdirectory
    cases hdirectory
  have hemptied := FileTree.emptied_of_create hgrows.sound hcreate
  have hcreated := hemptied.grows.sound.node?_of_resolve (hemptied.leads true rfl) Node.noConfusion
  rcases fill_eq_ok (Ne.symm hne) hcreated h with ⟨content, modified, hsource, -⟩
  rw [hemptied.agrees.elsewhere from? (Ne.symm hne), hheld] at hsource
  cases hsource
  cases hdirectory

/-- What is no file does not become one by being copied in vain. -/
theorem not_file_of_copy (hsound : disk.tree.Sound) (hclimbs : disk.tree.ClimbsInside target)
    (hnot : ∀ place content modified,
      disk.tree.stat source ≠ .ok (place, .file content modified))
    (h : copy source target cancel disk = (.error error, later)) (place : Place)
    (content : ByteArray) (modified : Int) :
    later.tree.stat source ≠ .ok (place, .file content modified) := by
  rcases copy_cases hsound hclimbs h with
    ⟨_, -, htree⟩ | ⟨from?, made, hopen, hgrows, -, hcourse⟩
  · rw [htree]
    exact hnot place content modified
  rcases stat_of_openAt hopen with ⟨content', modified', hstat⟩ | hstat
  · exact absurd hstat (hnot _ _ _)
  have hkept := hgrows.stat_of_directory hstat
  have hlater : later.tree.stat source = .ok (from?, .directory) := by
    rcases hcourse with ⟨_, -, htree⟩ | ⟨created, emptied, hcreate, -, h⟩
    · rw [htree]
      exact hkept
    · have hemptied := FileTree.emptied_of_create hgrows.sound hcreate
      rcases fill_cases hemptied.grows.sound (hemptied.leads true rfl) hemptied.slashFree h with
        ⟨between, content, time, hbetween, hcreated, -, herror⟩
      have hstill := hbetween.tree.stat_of_directory (hemptied.grows.stat_of_directory hkept)
      rcases (herror error rfl).2 with ⟨hremove, -⟩ | ⟨htree, -⟩
      · exact FileTree.stat_of_remove hbetween.tree.sound hremove
          (FileTree.stat_eq_ok_iff.mp hcreated).1 rfl hstill fun _ => Node.noConfusion
      · rw [htree]
        exact hstill
  rw [hlater]
  intro hfile
  cases hfile

/-!
## Two ends that are not one
-/

/-- Whether no file is what both paths lead to. -/
def Distinct (tree : FileTree) (source target : String) : Prop :=
  ∀ place content modified node, tree.stat source = .ok (place, .file content modified) →
    tree.stat target ≠ .ok (place, node)

theorem distinct_of_stat {tree : FileTree} {held : Node}
    (hsource : tree.stat source = .ok (place, .file content modified))
    (htarget : tree.stat target = .ok (created, held)) (hne : created ≠ place) :
    Distinct tree source target := by
  intro other content' modified' node hother htarget'
  rw [hsource] at hother
  rw [htarget] at htarget'
  cases hother
  cases htarget'
  exact hne rfl

/-- Whether a path leads to the same file in two trees, or to no file in either. -/
def SameFile (path : String) (tree later : FileTree) : Prop :=
  ∀ place content modified, later.stat path = .ok (place, .file content modified) ↔
    tree.stat path = .ok (place, .file content modified)

theorem sameFile_of_stat {tree tree' : FileTree}
    (h : tree.stat source = .ok (place, .file content modified))
    (h' : tree'.stat source = .ok (place, .file content modified)) :
    SameFile source tree tree' := by
  intro other content' modified'
  rw [h, h']

/-- A copy that fails keeps its source, and its target is still another file. -/
theorem distinct_of_copy (hsound : disk.tree.Sound) (hclimbs : disk.tree.ClimbsInside target)
    (hdistinct : Distinct disk.tree source target)
    (h : copy source target cancel disk = (.error error, later)) :
    SameFile source disk.tree later.tree ∧ Distinct later.tree source target := by
  by_cases hfile : ∃ place content modified, disk.tree.stat source = .ok (place, .file content modified)
  · rcases hfile with ⟨place, content, modified, hstat⟩
    rcases copy_keeps_apart hsound hclimbs hstat (hdistinct place content modified · hstat) h with
      ⟨hkeeps, hapart⟩
    refine ⟨sameFile_of_stat hstat hkeeps.source, ?_⟩
    intro other content' modified' node hother
    rw [hkeeps.source] at hother
    cases hother
    exact hapart node
  · rw [not_exists] at hfile
    have hnot : ∀ place content modified,
        disk.tree.stat source ≠ .ok (place, .file content modified) :=
      fun place content modified hstat => hfile place ⟨content, modified, hstat⟩
    have hstill := not_file_of_copy hsound hclimbs hnot h
    constructor
    · intro place content modified
      exact iff_of_false (hstill place content modified) (hnot place content modified)
    · intro place content modified node hstat
      exact absurd hstat (hstill place content modified)

/-- A copy that succeeds has brought the content of its source to another file. -/
theorem copied_of_distinct {bytes : Nat} (hsound : disk.tree.Sound)
    (hclimbs : disk.tree.ClimbsInside target) (hdistinct : Distinct disk.tree source target)
    (h : copy source target cancel disk = (.ok bytes, later)) :
    ∃ place content modified, disk.tree.stat source = .ok (place, .file content modified) ∧
      later.tree.stat source = .ok (place, .file content modified) ∧ bytes = content.size ∧
      ∃ created time, created ≠ place ∧
        later.tree.stat target = .ok (created, .file content time) := by
  rcases file_of_copy hsound hclimbs h with ⟨place, content, modified, hstat⟩
  have hkeeps := (copy_keeps_apart hsound hclimbs hstat (hdistinct place content modified · hstat) h).1
  exact ⟨place, content, modified, hstat, hkeeps.source, hkeeps.target bytes rfl⟩

end FileCopy
end BulkTransfer
