import BulkTransfer.Proofs.FileSystem.Copies
import BulkTransfer.Proofs.FileSystem.Leading
import BulkTransfer.Proofs.FileSystem.Parents

/-!
# Copies of a file onto itself

Whether two paths lead to one file is looked at before the directories above the target are
made.  Making them can change where the target leads only if it goes up again from one of
them; otherwise a target that leads to the source later led there before, and the copy has
been refused.  So the source keeps its content, whatever becomes of the copy.
-/

namespace BulkTransfer

open DiskM (bind_eq_ok_iff mapError_eq_ok_iff attempt_eq_ok_iff)

/-- Nothing but files changes where nothing is removed. -/
theorem Turns.eq_of_not_file {written : Prop} {node : Node} {later : Option Node}
    (h : Turns written False (some node) later) (hfile : node.isFile = false) :
    later = some node := by
  cases h with
  | same => rfl
  | filled allowed file =>
      rw [file node rfl] at hfile
      cases hfile
  | replaced allowed => exact allowed.elim

/-- A file stays a file where nothing is removed. -/
theorem Turns.isFile {written : Prop} {node : Node} {later : Option Node}
    (h : Turns written False (some node) later) (hfile : node.isFile = true) :
    ∃ node', later = some node' ∧ node'.isFile = true := by
  cases h with
  | same => exact ⟨node, rfl, hfile⟩
  | filled => exact ⟨_, rfl, rfl⟩
  | replaced allowed => exact allowed.elim

namespace FileTree

variable {tree later : FileTree} {written : Place → Prop} {path other : String} {place : Place}
  {node node' : Node} {resolved : Resolved}

/-!
## Paths to files
-/

theorem stat_of_noSlash (h : tree.resolve true path = .ok (.entry place node))
    (hslash : Path.endsInSlash path = false) : tree.stat path = .ok (place, node) := by
  refine stat_eq_ok_iff.mpr ⟨h, fun htrue => ?_⟩
  rw [hslash] at htrue
  cases htrue

theorem Sound.node?_of_resolve {followLast : Bool} (hsound : tree.Sound)
    (h : tree.resolve followLast path = .ok (.entry place node)) (hdirectory : node ≠ .directory) :
    tree.node? place = some node := by
  rcases hsound.resolve h with hnode | ⟨hnode, -⟩
  · exact hnode
  · exact absurd hnode hdirectory

theorem Sound.node?_of_stat (hsound : tree.Sound) (h : tree.stat path = .ok (place, node))
    (hdirectory : node ≠ .directory) : tree.node? place = some node :=
  hsound.node?_of_resolve (stat_eq_ok_iff.mp h).1 hdirectory

theorem Evolves.node?_of_not_file (h : tree.Grows written later)
    (hnode : tree.node? place = some node) (hfile : node.isFile = false) :
    later.node? place = some node := by
  have hturns := h.turns place
  rw [hnode] at hturns
  exact hturns.eq_of_not_file hfile

/-- There is nothing below a vacant place. -/
theorem Sound.node?_below (hsound : tree.Sound) (h : tree.node? place = none)
    (names : List String) : tree.node? (place ++ names) = none := by
  cases hnode : tree.node? (place ++ names) with
  | none => rfl
  | some node =>
      by_cases hnames : names = []
      · rw [hnames, List.append_nil, h] at hnode
        cases hnode
      · rcases hsound.holdsEntries hnames hnode with ⟨above, habove, -⟩
        rw [h] at habove
        cases habove

theorem Evolves.stat_of_file (h : tree.Grows written later) (hwritten : ¬ written place)
    (hstat : tree.stat path = .ok (place, node)) (hnode : tree.node? place = some node)
    (hfile : node.isFile = true) : later.stat path = .ok (place, node) := by
  rcases stat_eq_ok_iff.mp hstat with ⟨hresolve, hslash⟩
  have hplace : later.node? place = some node := by
    rcases (h.turns place).eq_or_made hwritten id with hsame | ⟨hnone, -⟩
    · rw [hsame, hnode]
    · rw [hnode] at hnone
      cases hnone
  exact stat_eq_ok_iff.mpr ⟨resolve_of_unchanged hresolve hfile hfile h.workingDirectory hplace
    fun _ _ hother hnot => h.node?_of_not_file hother hnot, hslash⟩

/-- A path leads where it did when what another path names is removed, unless that leads to the
same entry. -/
theorem stat_of_remove (hsound : tree.Sound) (hremove : tree.remove other = .ok later)
    {target : Place} {kept : Node} (hother : tree.resolve true other = .ok (.entry target kept))
    (hkept : kept.isFile = true) (hstat : tree.stat path = .ok (place, node))
    (hne : target = place → kept ≠ node) : later.stat path = .ok (place, node) := by
  rcases remove_eq_ok hsound hremove with ⟨named, held, hnamed, hheld, hdirectory, -, rfl⟩
  rcases leads_of_resolve hnamed with ⟨count, -, hnamed⟩
  rcases leads_of_resolve hother with ⟨count', -, hother⟩
  rcases stat_eq_ok_iff.mp hstat with ⟨hresolve, hslash⟩
  rcases leads_of_resolve hresolve with ⟨links, hle, hleads⟩
  have hroot : named ≠ [] := by
    rintro rfl
    cases hheld
    cases hdirectory
  have hlater : ∀ place, place ≠ named → (tree.drop named).node? place = tree.node? place := by
    intro place hplace
    rw [node?_drop tree place hroot, if_neg (Ne.symm hplace)]
  refine stat_eq_ok_iff.mpr ⟨resolve_eq_ok_iff.mpr ⟨(resolve_eq_ok_iff.mp hresolve).1, ?_⟩, hslash⟩
  exact followLinks_of_leads
    (Leads.of_removed hnamed hother hkept hdirectory hlater hleads hne) hle

/-- A path leads nowhere once what it names is removed. -/
theorem node?_of_removed (hsound : tree.Sound) (hremove : tree.remove path = .ok later)
    {followLast : Bool} (hresolve : later.resolve followLast path = .ok resolved) :
    resolved.node? = none := by
  rcases remove_eq_ok hsound hremove with ⟨named, held, hnamed, hheld, hdirectory, -, rfl⟩
  rcases leads_of_resolve hnamed with ⟨count, -, hnamed⟩
  rcases leads_of_resolve hresolve with ⟨links, -, hleads⟩
  have hroot : named ≠ [] := by
    rintro rfl
    cases hheld
    cases hdirectory
  exact hnamed.vacant_of_removed hdirectory
    (by rw [node?_drop tree _ hroot, if_pos rfl])
    (fun other hother => by rw [node?_drop tree _ hroot, if_neg (Ne.symm hother)]) hleads

theorem stat_of_removed (hsound : tree.Sound) (hremove : tree.remove path = .ok later)
    (found : Place × Node) : later.stat path ≠ .ok found := by
  intro hstat
  cases node?_of_removed hsound hremove (stat_eq_ok_iff.mp hstat).1

/-- What has been made empty is what the path led to. -/
theorem stat_of_create (hsound : tree.Sound) (hcreate : tree.create path = .ok (place, later))
    (hnode : tree.node? place = some node) : tree.stat path = .ok (place, node) := by
  rcases create_eq_ok hsound hcreate with ⟨resolved, hresolve, hplace, hheld, hslash, -⟩
  rw [hnode] at hheld
  cases resolved with
  | vacant => cases hheld
  | entry =>
      cases hheld
      cases hplace
      exact stat_of_noSlash hresolve hslash

/-!
## Paths that go up
-/

/-- Whether each `..` of a path goes up from a directory that is there. -/
def ClimbsInside (tree : FileTree) (path : String) : Prop :=
  ∀ front behind, namesOf path = front ++ ".." :: behind →
    ∃ place, tree.followLinks true linkLimit (startOf path tree.workingDirectory) front =
      .ok (.entry place .directory)

/-- Names that go on behind a vacant name lead nowhere, unless a directory has been made there;
then they are followed from it. -/
theorem Leads.behind_vacant {links links' : Nat} {directory : Place} {names rest : List String}
    {name : String} (h : tree.Leads false links directory names (.vacant place name))
    (hgrows : tree.Grows (fun _ => False) later)
    (h' : later.Leads true links' directory (names ++ rest) resolved) :
    resolved.node? = none ∨ later.node? (place ++ [name]) = some .directory ∧
      ∃ fewer, later.Leads true fewer (place ++ [name]) rest resolved := by
  generalize hvacant : Resolved.vacant place name = found at h
  induction h generalizing links' with
  | here directory => cases hvacant
  | stay _ ih => exact ih h'.of_stay hvacant
  | up _ ih => exact ih h'.of_up hvacant
  | enter hname hnode _ ih => exact ih (h'.of_directory hname (hgrows.directory hnode)) hvacant
  | missing hname hnode =>
      cases hvacant
      have hturns := hgrows.turns (place ++ [name])
      rw [hnode] at hturns
      rcases hturns.eq_or_made id id with hsame | ⟨-, hmade⟩
      · rw [(h'.of_none hname hsame).2]
        exact Or.inl rfl
      · exact Or.inr ⟨hmade, _, h'.of_directory hname hmade⟩
  | found => cases hvacant
  | link hname hnode _ _ ih =>
      rcases h'.of_link hname (hgrows.node?_of_some hnode) (Or.inl rfl) with ⟨fewer, -, hleads⟩
      exact ih (by rw [List.append_assoc]; exact hleads) hvacant

/-- A path can lead through a name that was vacant only if a directory has been made there. -/
theorem resolve_behind_vacant {front : String} {directory : Place} {name : String}
    (hsound : tree.Sound) (hgrows : tree.Grows (fun _ => False) later)
    (hfront : IsFront front path)
    (hvacant : tree.resolve false front = .ok (.vacant directory name))
    (h : later.resolve true path = .ok (.entry place node)) :
    tree.node? (directory ++ [name]) = none ∧
      later.node? (directory ++ [name]) = some .directory ∧
      ∃ rest links, namesOf front ++ rest = namesOf path ∧
        later.Leads true links (directory ++ [name]) rest (.entry place node) := by
  have hnone := (hsound.resolve hvacant).2
  have hstart : startOf front tree.workingDirectory = startOf path tree.workingDirectory := by
    rw [startOf, startOf, hfront.isAbsolute_eq]
  rcases hfront.namesOf_isPrefix with ⟨rest, hrest⟩
  rcases leads_of_resolve hvacant with ⟨links, -, hvacant⟩
  rcases leads_of_resolve h with ⟨links', -, hleads⟩
  rw [hgrows.workingDirectory, ← hrest, ← hstart] at hleads
  rcases hvacant.behind_vacant hgrows hleads with hnowhere | ⟨hmade, fewer, hbehind⟩
  · cases hnowhere
  · exact ⟨hnone, hmade, rest, fewer, hrest, hbehind⟩

/-- A path that goes up from directories only that are there does not go up behind a vacant
name. -/
theorem not_up_behind_vacant {front : String} {directory : Place} {name : String}
    {rest : List String} (hsound : tree.Sound) (hclimbs : tree.ClimbsInside path)
    (hfront : IsFront front path)
    (hvacant : tree.resolve false front = .ok (.vacant directory name))
    (hrest : namesOf front ++ rest = namesOf path) : ".." ∉ rest := by
  intro hmem
  rcases List.append_of_mem hmem with ⟨between, behind, rfl⟩
  rcases hclimbs (namesOf front ++ between) behind
    (by rw [← hrest, List.append_assoc]) with ⟨above, habove⟩
  rcases followLinks_eq_ok_iff.mp habove with ⟨count, -, habove⟩
  rw [startOf, ← hfront.isAbsolute_eq, ← startOf] at habove
  have hnone := (hsound.resolve hvacant).2
  rcases leads_of_resolve hvacant with ⟨links, -, hvacant⟩
  rcases hvacant.behind_vacant (.refl hsound) habove with hnowhere | ⟨hmade, -⟩
  · cases hnowhere
  · rw [hnone] at hmade
    cases hmade

/-- Below a new directory there are other new ones only. -/
theorem below_vacant (hsound : tree.Sound) (hgrows : tree.Grows (fun _ => False) later)
    (hnone : tree.node? place = none) (names : List String)
    (hnode : later.node? (place ++ names) = some node) : node = .directory := by
  have hturns := hgrows.turns (place ++ names)
  rw [hsound.node?_below hnone, hnode] at hturns
  rcases hturns.eq_or_made id id with hsame | ⟨-, hmade⟩
  · cases hsame
  · exact Option.some.inj hmade

/-- Where a path leads once the directories above it are made, it led before, if it goes up
from directories only that were there. -/
theorem resolve_of_makeParent {disk : Disk} (hsound : disk.tree.Sound)
    (hclimbs : disk.tree.ClimbsInside path)
    (h : (FileCopy.makeParent path disk).2.tree.resolve true path = .ok (.entry place node))
    (hdirectory : node ≠ .directory) : disk.tree.resolve true path = .ok (.entry place node) := by
  have hgrows : disk.tree.Grows (fun _ => False) (FileCopy.makeParent path disk).2.tree :=
    (FileCopy.evolves_makeParent hsound path).tree
  rcases FileCopy.makeParent_tree path disk with hsame | ⟨front, directory, name, hfront, hvacant⟩
  · rwa [hsame] at h
  · exfalso
    rcases resolve_behind_vacant hsound hgrows hfront hvacant h with
      ⟨hnone, -, rest, fewer, hrest, hbehind⟩
    have hup := not_up_behind_vacant hsound hclimbs hfront hvacant hrest
    rw [← List.append_nil (directory ++ [name])] at hbehind
    exact hdirectory (Leads.eq_directory_of_below
      (fun names _ hother => below_vacant hsound hgrows hnone names hother) hup hbehind)

end FileTree

namespace FileCopy

variable {disk later : Disk} {source target : String} {place : Place} {node : Node}
  {content : ByteArray} {modified : Int}

/-- Two paths that can be looked up lead to one entry or not. -/
theorem sameEntry_of_stat (hfaults : ∀ fault ∈ disk.faults.take 2, fault = none)
    (hstat : disk.tree.stat source = .ok (place, node)) (target : String) :
    ∃ same, (sameEntry source target disk).1 = .ok same ∧
      (same = true ↔ ∃ node', disk.tree.stat target = .ok (place, node')) := by
  have hfirst : Disk.stat source disk =
      (disk.tree.stat source, { disk with faults := disk.faults.tail }) :=
    DiskM.look_of_next _ fun fault hfault =>
      hfaults fault (List.take_subset_take_left _ (by decide) hfault)
  have hsecond : Disk.stat target { disk with faults := disk.faults.tail } =
      (disk.tree.stat target, { disk with faults := disk.faults.tail.tail }) := by
    refine DiskM.look_of_next _ fun fault hfault => hfaults fault ?_
    rcases disk with ⟨tree, _ | ⟨first, faults⟩⟩
    · exact hfault
    · exact List.mem_cons_of_mem _ hfault
  rw [sameEntry, DiskM.bind_apply, DiskM.attempt_apply, hfirst]
  dsimp only
  rw [DiskM.bind_apply, DiskM.attempt_apply, hsecond, hstat]
  dsimp only
  cases htarget : disk.tree.stat target with
  | error error =>
      refine ⟨false, rfl, fun h => absurd h Bool.false_ne_true, ?_⟩
      rintro ⟨node', hnode'⟩
      cases hnode'
  | ok found =>
      rcases found with ⟨place', node'⟩
      refine ⟨place == place', rfl, ?_⟩
      rw [beq_iff_eq]
      constructor
      · rintro rfl
        exact ⟨node', rfl⟩
      · rintro ⟨other, hother⟩
        cases hother
        rfl

/-- Whether a path does not come to lead to a place by the directories that are made above it:
it goes up only from directories that are there, or it does not lead to the place afterwards. -/
def KeepsCourse (tree : FileTree) (path : String) (place : Place) : Prop :=
  tree.ClimbsInside path ∨
    ∀ faults node, (makeParent path { tree := tree, faults := faults }).2.tree.resolve true path ≠
      .ok (.entry place node)

theorem KeepsCourse.resolve (hcourse : KeepsCourse disk.tree target place)
    (hsound : disk.tree.Sound)
    (h : (makeParent target disk).2.tree.resolve true target = .ok (.entry place node))
    (hdirectory : node ≠ .directory) : disk.tree.resolve true target = .ok (.entry place node) := by
  rcases hcourse with hclimbs | hnever
  · exact FileTree.resolve_of_makeParent hsound hclimbs h hdirectory
  · exact absurd h (hnever disk.faults node)

/-!
## The source of a copy
-/

/-- What a copy leaves, successful or not: the source, and if it succeeds its content at another
place. -/
structure Keeps (source target : String) (place : Place) (content : ByteArray) (modified : Int)
    (outcome : Except JobError Nat) (tree : FileTree) : Prop where
  sound : tree.Sound
  source : tree.stat source = .ok (place, .file content modified)
  target : ∀ bytes, outcome = .ok bytes → bytes = content.size ∧
    ∃ created time, created ≠ place ∧ tree.stat target = .ok (created, .file content time)

theorem keeps_error (hsound : disk.tree.Sound)
    (hstat : disk.tree.stat source = .ok (place, .file content modified)) (error : JobError) :
    Keeps source target place content modified (.error error) disk.tree :=
  ⟨hsound, hstat, fun bytes hbytes => by cases hbytes⟩

section Keeps

variable {outcome : Except JobError Nat} {cancel : CancelAfter} (hsound : disk.tree.Sound)
  (hstat : disk.tree.stat source = .ok (place, .file content modified))
include hsound hstat

/-- A file that has been filled holds the source, which is still where it was. -/
theorem filled_keeps {created : Place} {time : Int} {bytes : Nat}
    (hresolve : disk.tree.resolve true target = .ok (.entry created (.file .empty time)))
    (hslash : Path.endsInSlash target = false) (hne : created ≠ place)
    (hgrows : disk.Evolves (· = created) (fun _ => False) later)
    (h : fill place created target cancel disk = (.ok bytes, later)) :
    Keeps source target place content modified (.ok bytes) later.tree := by
  have hsource := hsound.node?_of_stat hstat Node.noConfusion
  have hcreated := hsound.node?_of_resolve hresolve Node.noConfusion
  refine ⟨hgrows.tree.sound, hgrows.tree.stat_of_file (Ne.symm hne) hstat hsource rfl,
    fun bytes' hbytes => ?_⟩
  cases hbytes
  rcases fill_eq_ok (Ne.symm hne) hcreated h with
    ⟨content', modified', hsource', hbytes, hagrees, time', hfile⟩
  rw [hsource] at hsource'
  cases hsource'
  refine ⟨hbytes, created, time', hne,
    FileTree.stat_of_noSlash (FileTree.resolve_of_unchanged hresolve rfl rfl
      hagrees.workingDirectory hfile fun other node hother hnot => ?_) hslash⟩
  rw [hagrees.elsewhere, hother]
  rintro rfl
  rw [hcreated] at hother
  cases hother
  cases hnot

/-- The removal of a file that has been filled in part leaves the source where it was. -/
theorem remove_keeps {created : Place} {time : Int} {between : Disk}
    {removed : Except IoError Unit} {error : JobError}
    (hresolve : disk.tree.resolve true target = .ok (.entry created (.file .empty time)))
    (hne : created ≠ place) (hgrows : disk.Evolves (· = created) (fun _ => False) between)
    (h : Disk.remove target between = (removed, later)) :
    Keeps source target place content modified (.error error) later.tree := by
  have hsource := hsound.node?_of_stat hstat Node.noConfusion
  have hkept := hgrows.tree.stat_of_file (Ne.symm hne) hstat hsource rfl
  have hturns := hgrows.tree.turns created
  rw [hsound.node?_of_resolve hresolve Node.noConfusion] at hturns
  rcases hturns.isFile rfl with ⟨filled, hfilled, hfile⟩
  have htarget := FileTree.resolve_of_unchanged hresolve rfl hfile hgrows.tree.workingDirectory
    hfilled fun _ _ hother hnot => hgrows.tree.node?_of_not_file hother hnot
  have hlast : between.Evolves (fun _ => False) (fun _ => True) later := by
    have hevolves : between.Evolves (fun _ => False) (fun _ => True)
        (Disk.remove target between).2 :=
      Disk.evolves_remove hgrows.tree.sound fun _ _ => trivial
    rwa [h] at hevolves
  refine keeps_error hlast.tree.sound ?_ error
  cases removed with
  | error error =>
      rw [DiskM.change_eq_error h]
      exact hkept
  | ok value =>
      exact FileTree.stat_of_remove hgrows.tree.sound (Disk.remove_eq_ok h) htarget hfile hkept
        fun hsame => absurd hsame hne

/-- Whatever becomes of filling a file, a path to another file still leads to it. -/
theorem fill_keeps {created : Place} {time : Int}
    (hresolve : disk.tree.resolve true target = .ok (.entry created (.file .empty time)))
    (hslash : Path.endsInSlash target = false) (hne : created ≠ place)
    (h : fill place created target cancel disk = (outcome, later)) :
    Keeps source target place content modified outcome later.tree := by
  have hall := h
  rw [fill] at h
  rcases DiskM.bind_cases h with ⟨error, hview, -⟩ | ⟨size, viewed, hview, h⟩
  · cases hview
  cases hview
  rcases DiskM.bind_cases h with ⟨error, hmoved, -⟩ | ⟨moved, between, hmoved, h⟩
  · cases hmoved
  have hmoved := attempt_eq_ok_iff.mp hmoved
  have hgrows : disk.Evolves (· = created) (fun _ => False) between := by
    have hevolves : disk.Evolves (· = created) (fun _ => False)
        (moveChunks place created target (stepsFor (sizeAt place disk.tree)) cancel 0 disk).2 := by
      refine evolves_moveChunks hsound ?_ _ _ _
      rfl
    rwa [hmoved] at hevolves
  cases moved with
  | ok bytes =>
      cases h
      exact filled_keeps hsound hstat hresolve hslash hne hgrows hall
  | error error =>
      rcases DiskM.bind_cases h with ⟨error, hremove, -⟩ | ⟨removed, last, hremove, h⟩
      · cases hremove
      have hremove := attempt_eq_ok_iff.mp hremove
      cases h
      exact remove_keeps hsound hstat hresolve hne hgrows hremove

/-- What is created at a target that did not lead to the source is another file, in spite of the
directories that have been made. -/
theorem created_ne (hcourse : KeepsCourse disk.tree target place)
    (hapart : ∀ node, disk.tree.stat target ≠ .ok (place, node)) {made : Disk}
    (hmade : makeParent target disk = (.ok (), made)) {created : Place} {tree : FileTree}
    (hcreate : made.tree.create target = .ok (created, tree)) : created ≠ place := by
  have hgrows : disk.tree.Grows (fun _ => False) (makeParent target disk).2.tree :=
    (evolves_makeParent hsound target).tree
  rw [hmade] at hgrows
  rintro rfl
  have hnode := hgrows.node?_of_some (hsound.node?_of_stat hstat Node.noConfusion)
  rcases FileTree.stat_eq_ok_iff.mp (FileTree.stat_of_create hgrows.sound hcreate hnode) with
    ⟨hresolve, hslash⟩
  have hbefore := hcourse.resolve hsound (by rw [hmade]; exact hresolve) Node.noConfusion
  exact hapart _ (FileTree.stat_eq_ok_iff.mpr ⟨hbefore, hslash⟩)

theorem create_fill_keeps
    (hne : ∀ created tree, disk.tree.create target = .ok (created, tree) → created ≠ place)
    (h : (do
      let created ← (Disk.create target).mapError (JobError.ofIo target)
      fill place created target cancel) disk = (outcome, later)) :
    Keeps source target place content modified outcome later.tree := by
  rcases DiskM.bind_cases h with ⟨error, hcreate, rfl⟩ | ⟨created, opened, hcreate, h⟩
  · rcases DiskM.mapError_eq_error hcreate with ⟨cause, hcreate⟩
    rw [DiskM.change_eq_error hcreate]
    exact keeps_error hsound hstat error
  have hcreate := Disk.create_eq_ok (mapError_eq_ok_iff.mp hcreate)
  have hne := hne created opened.tree hcreate
  have hsource := hsound.node?_of_stat hstat Node.noConfusion
  have hemptied := FileTree.emptied_of_create hsound hcreate
  exact fill_keeps hemptied.grows.sound
    (hemptied.grows.stat_of_file (Ne.symm hne) hstat hsource rfl) (hemptied.leads true rfl)
    hemptied.slashFree hne h

/-- A copy keeps its source, unless the directories above the target lead it there. -/
theorem copy_keeps (hfaults : ∀ fault ∈ disk.faults.take 2, fault = none)
    (hcourse : KeepsCourse disk.tree target place)
    (h : copy source target cancel disk = (outcome, later)) :
    Keeps source target place content modified outcome later.tree := by
  rcases sameEntry_of_stat hfaults hstat target with ⟨same, hsame, hsame_iff⟩
  rw [copy] at h
  rcases DiskM.bind_cases h with ⟨error, hlooked, -⟩ | ⟨same', looked, hlooked, h⟩
  · rw [hlooked] at hsame
    cases hsame
  have htree : looked.tree = disk.tree := by
    rw [← sameEntry_tree source target disk, hlooked]
  rw [hlooked] at hsame
  cases hsame
  rw [← htree] at hsound hstat hcourse
  cases same with
  | true =>
      cases h
      exact keeps_error hsound hstat _
  | false =>
      rw [if_neg Bool.false_ne_true] at h
      rcases DiskM.bind_cases h with ⟨error, hopen, rfl⟩ | ⟨opened, between, hopen, h⟩
      · rcases DiskM.mapError_eq_error hopen with ⟨cause, hopen⟩
        rw [DiskM.tree_of_look hopen]
        exact keeps_error hsound hstat error
      rcases DiskM.look_eq_ok (mapError_eq_ok_iff.mp hopen) with ⟨hopen, htree'⟩
      have hopened : opened = place := by
        rw [FileTree.openAt, hstat] at hopen
        exact (Except.ok.inj hopen).symm
      have hapart : ∀ node, between.tree.stat target ≠ .ok (place, node) := by
        intro node htarget
        rw [htree', htree] at htarget
        exact Bool.false_ne_true (hsame_iff.mpr ⟨node, htarget⟩)
      rw [← htree'] at hsound hstat hcourse
      rw [hopened] at h
      have hgrows : between.tree.Grows (fun _ => False) (makeParent target between).2.tree :=
        (evolves_makeParent hsound target).tree
      have hkept := hgrows.stat_of_file id hstat (hsound.node?_of_stat hstat Node.noConfusion) rfl
      rcases DiskM.bind_cases h with ⟨error, hmade, rfl⟩ | ⟨⟨⟩, made, hmade, h⟩
      · rw [hmade] at hgrows hkept
        exact keeps_error hgrows.sound hkept error
      rw [hmade] at hgrows hkept
      exact create_fill_keeps hgrows.sound hkept
        (fun _ _ hcreate => created_ne hsound hstat hcourse hapart hmade hcreate) h

omit hsound in
/-- A file is not copied onto itself, and nothing is changed. -/
theorem copy_onto_itself (hfaults : ∀ fault ∈ disk.faults.take 2, fault = none)
    (htarget : disk.tree.stat target = .ok (place, node)) :
    (copy source target none disk).1 =
        .error (.invalidArguments (source ++ " and " ++ target ++ " are the same file")) ∧
      (copy source target none disk).2.tree = disk.tree := by
  rcases sameEntry_of_stat hfaults hstat target with ⟨same, hsame, hsame_iff⟩
  have htree := sameEntry_tree source target disk
  rcases hlooked : sameEntry source target disk with ⟨looked, later⟩
  rw [hlooked] at hsame htree
  cases hsame
  rw [hsame_iff.mpr ⟨node, htarget⟩] at hlooked
  rw [copy, DiskM.bind_apply, hlooked]
  exact ⟨rfl, htree⟩

omit hsound in
theorem transfer_onto_itself (hfaults : ∀ fault ∈ disk.faults.take 2, fault = none)
    (htarget : disk.tree.stat target = .ok (place, node)) (removeSource : Bool) :
    (transfer source target removeSource none disk).1 =
        .error (.invalidArguments (source ++ " and " ++ target ++ " are the same file")) ∧
      (transfer source target removeSource none disk).2.tree = disk.tree := by
  rcases copy_onto_itself hstat hfaults htarget with ⟨herror, htree⟩
  rcases hcopy : copy source target none disk with ⟨outcome, later⟩
  rw [hcopy] at herror htree
  cases herror
  rw [transfer, DiskM.bind_apply, hcopy]
  exact ⟨rfl, htree⟩

/-- A source is deleted behind a copy that has succeeded only, and the target stays. -/
theorem transfer_keeps (hfaults : ∀ fault ∈ disk.faults.take 2, fault = none)
    (hcourse : KeepsCourse disk.tree target place) {removeSource : Bool}
    (h : transfer source target removeSource none disk = (outcome, later)) :
    Keeps source target place content modified outcome later.tree ∧
        (removeSource = true → ∃ error, outcome = .error error) ∨
      removeSource = true ∧ outcome = .ok content.size ∧ later.tree.Sound ∧
        (∀ found, later.tree.stat source ≠ .ok found) ∧
        ∃ created time, later.tree.stat target = .ok (created, .file content time) := by
  rw [transfer] at h
  rcases DiskM.bind_cases h with ⟨error, hcopy, rfl⟩ | ⟨bytes, copied, hcopy, h⟩
  · exact Or.inl ⟨copy_keeps hsound hstat hfaults hcourse hcopy, fun _ => ⟨error, rfl⟩⟩
  have hkeeps := copy_keeps hsound hstat hfaults hcourse hcopy
  cases removeSource with
  | false =>
      cases h
      exact Or.inl ⟨hkeeps, fun h => absurd h Bool.false_ne_true⟩
  | true =>
      rcases DiskM.bind_cases h with ⟨error, hdelete, rfl⟩ | ⟨⟨⟩, deleted, hdelete, h⟩
      · rcases DiskM.mapError_eq_error hdelete with ⟨cause, hremove⟩
        rw [DiskM.change_eq_error hremove]
        exact Or.inl ⟨keeps_error hkeeps.sound hkeeps.source error, fun _ => ⟨error, rfl⟩⟩
      · cases h
        have hremove := Disk.remove_eq_ok (mapError_eq_ok_iff.mp hdelete)
        rcases hkeeps.target bytes rfl with ⟨rfl, created, time, hne, htarget⟩
        have hremoved : copied.tree.Evolves (fun _ => False) (fun _ => True) later.tree :=
          FileTree.evolves_remove hkeeps.sound (fun _ _ => trivial) hremove
        refine Or.inr ⟨rfl, rfl, hremoved.sound,
          FileTree.stat_of_removed hkeeps.sound hremove, created, time, ?_⟩
        exact FileTree.stat_of_remove hkeeps.sound hremove
          (FileTree.stat_eq_ok_iff.mp hkeeps.source).1 rfl htarget
          fun hsame => absurd hsame (Ne.symm hne)

omit hsound hstat in
theorem Keeps.readFile_source {tree : FileTree}
    (h : Keeps source target place content modified outcome tree) :
    tree.readFile source = .ok content :=
  h.sound.readFile_eq_ok_iff.mpr ⟨place, modified, h.source⟩

omit hsound hstat in
theorem Keeps.readFile_target {tree : FileTree} {bytes : Nat}
    (h : Keeps source target place content modified (.ok bytes) tree) :
    bytes = content.size ∧ tree.readFile target = .ok content := by
  rcases h.target bytes rfl with ⟨hbytes, created, time, -, htarget⟩
  exact ⟨hbytes, h.sound.readFile_eq_ok_iff.mpr ⟨created, time, htarget⟩⟩

omit hsound hstat in
/-- A file that is copied, under whatever spelling of its own path or another one, keeps its
content, and a copy that succeeds leaves the same content at the target.  The file is deleted
behind such a copy only, and a target that is the file itself is refused. -/
theorem content_survives (disk : Disk) (source target : String) (place : Place)
    (content : ByteArray) (modified : Int) (hsound : disk.tree.Sound)
    (hfaults : ∀ fault ∈ disk.faults.take 2, fault = none)
    (hstat : disk.tree.stat source = .ok (place, .file content modified))
    (hcourse : KeepsCourse disk.tree target place) :
    (∀ outcome later, copy source target none disk = (outcome, later) →
      later.tree.readFile source = .ok content ∧
        ∀ bytes, outcome = .ok bytes →
          bytes = content.size ∧ later.tree.readFile target = .ok content) ∧
    (∀ removeSource outcome later,
      transfer source target removeSource none disk = (outcome, later) →
        (∀ error, outcome = .error error → later.tree.readFile source = .ok content) ∧
          ∀ bytes, outcome = .ok bytes →
            bytes = content.size ∧ later.tree.readFile target = .ok content ∧
              (removeSource = false → later.tree.readFile source = .ok content) ∧
              (removeSource = true → ∀ found, later.tree.stat source ≠ .ok found)) ∧
    ∀ node, disk.tree.stat target = .ok (place, node) →
      ((copy source target none disk).1 =
          .error (.invalidArguments (source ++ " and " ++ target ++ " are the same file")) ∧
        (copy source target none disk).2.tree = disk.tree) ∧
      ∀ removeSource, (transfer source target removeSource none disk).1 =
          .error (.invalidArguments (source ++ " and " ++ target ++ " are the same file")) ∧
        (transfer source target removeSource none disk).2.tree = disk.tree := by
  refine ⟨fun outcome later h => ?_, fun removeSource outcome later h => ?_, fun node htarget => ?_⟩
  · have hkeeps := copy_keeps hsound hstat hfaults hcourse h
    refine ⟨hkeeps.readFile_source, ?_⟩
    rintro bytes rfl
    exact hkeeps.readFile_target
  · rcases transfer_keeps hsound hstat hfaults hcourse h with
      ⟨hkeeps, hfails⟩ | ⟨rfl, rfl, hlater, hgone, created, time, htarget⟩
    · refine ⟨fun _ _ => hkeeps.readFile_source, ?_⟩
      rintro bytes rfl
      rcases hkeeps.readFile_target with ⟨hbytes, hread⟩
      refine ⟨hbytes, hread, fun _ => hkeeps.readFile_source, fun hremove => ?_⟩
      rcases hfails hremove with ⟨error, herror⟩
      cases herror
    · refine ⟨fun error herror => (by cases herror), fun bytes hbytes => ?_⟩
      cases hbytes
      exact ⟨rfl, hlater.readFile_eq_ok_iff.mpr ⟨created, time, htarget⟩,
        fun h => absurd h.symm Bool.false_ne_true, fun _ => hgone⟩
  · exact ⟨copy_onto_itself hstat hfaults htarget, transfer_onto_itself hstat hfaults htarget⟩

end Keeps

/-!
## A file and a directory
-/

/-- A tree with one file and one directory. -/
def fileAndDirectory : FileTree :=
  (FileTree.put ⟨∅, [], 0⟩ ["sub"] .directory).put ["f"] (.file "hello".toUTF8 1)

theorem fileAndDirectory_sound : fileAndDirectory.Sound :=
  FileTree.sound_of_entries (by decide +kernel) FileTree.holdsEntries_nil

theorem climbsInside_sub (name : String) (hname : name ≠ "..") {path : String}
    (hpath : FileTree.namesOf path = ["sub", "..", name])
    (hstart : FileTree.startOf path [] = []) : fileAndDirectory.ClimbsInside path := by
  intro front behind hnames
  rw [hpath] at hnames
  rcases front with _ | ⟨first, _ | ⟨second, _ | ⟨third, front⟩⟩⟩
  · exact absurd (List.cons.inj hnames).1 (by decide)
  · rw [← (List.cons.inj hnames).1]
    refine ⟨["sub"], ?_⟩
    show fileAndDirectory.followLinks true FileTree.linkLimit (FileTree.startOf path []) ["sub"] = _
    rw [hstart]
    rfl
  · exact absurd (List.cons.inj (List.cons.inj (List.cons.inj hnames).2).2).1 hname
  · cases front <;> cases hnames

theorem eq_ok_of_toOption {ε α : Type} {outcome : Except ε α} {value : α}
    (h : outcome.toOption = some value) : outcome = .ok value := by
  cases outcome with
  | error error => cases h
  | ok found =>
      cases h
      rfl

/-- Through a directory that is there a file is moved away, and not onto itself. -/
theorem content_survives_sample :
    fileAndDirectory.Sound ∧
    fileAndDirectory.stat "f" = .ok (["f"], .file "hello".toUTF8 1) ∧
    KeepsCourse fileAndDirectory "sub/../f" ["f"] ∧
    (transfer "f" "sub/../f" true none { tree := fileAndDirectory }).1 =
      .error (.invalidArguments "f and sub/../f are the same file") ∧
    (transfer "f" "sub/../f" true none { tree := fileAndDirectory }).2.tree = fileAndDirectory ∧
    KeepsCourse fileAndDirectory "sub/../g" ["f"] ∧
    (transfer "f" "sub/../g" true none { tree := fileAndDirectory }).1 = .ok 5 ∧
    (transfer "f" "sub/../g" true none { tree := fileAndDirectory }).2.tree.readFile "sub/../g" =
      .ok "hello".toUTF8 := by
  have hstat : fileAndDirectory.stat "f" = .ok (["f"], .file "hello".toUTF8 1) := by rfl
  have hself : KeepsCourse fileAndDirectory "sub/../f" ["f"] :=
    Or.inl (climbsInside_sub "f" (by decide) (by decide +kernel) rfl)
  have hother : KeepsCourse fileAndDirectory "sub/../g" ["f"] :=
    Or.inl (climbsInside_sub "g" (by decide) (by decide +kernel) rfl)
  have hok : (transfer "f" "sub/../g" true none { tree := fileAndDirectory }).1 = .ok 5 :=
    eq_ok_of_toOption (by decide +kernel)
  have hrejected := (content_survives { tree := fileAndDirectory } "f" "sub/../f" _ _ _
    fileAndDirectory_sound (fun _ h => by cases h) hstat hself).2.2
      (.file "hello".toUTF8 1) (by rfl)
  have hmoved := (content_survives { tree := fileAndDirectory } "f" "sub/../g" _ _ _
    fileAndDirectory_sound (fun _ h => by cases h) hstat hother).2.1 true _ _
      (Prod.eta _).symm
  exact ⟨fileAndDirectory_sound, hstat, hself, (hrejected.2 true).1, (hrejected.2 true).2,
    hother, hok, (hmoved.2 5 hok).2.1⟩

/-- Through a directory that is made on the way a file is copied onto itself and is lost. -/
theorem content_lost_through_new_directory :
    fileAndDirectory.readFile "f" = .ok "hello".toUTF8 ∧
    (copy "f" "new/../f" none { tree := fileAndDirectory }).1 = .ok 0 ∧
    (copy "f" "new/../f" none { tree := fileAndDirectory }).2.tree.readFile "f" = .ok .empty ∧
    (transfer "f" "new/../f" true none { tree := fileAndDirectory }).1 = .ok 0 ∧
    (transfer "f" "new/../f" true none { tree := fileAndDirectory }).2.tree.leadsSomewhere "f" =
      false :=
  ⟨eq_ok_of_toOption (by decide +kernel), eq_ok_of_toOption (by decide +kernel),
    eq_ok_of_toOption (by decide +kernel), eq_ok_of_toOption (by decide +kernel),
    by decide +kernel⟩

end FileCopy

end BulkTransfer
