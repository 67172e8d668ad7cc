import Mathlib.Data.Finset.Card
import Mathlib.Data.Finset.Filter
import BulkTransfer.Proofs.FileSystem.Removals
import BulkTransfer.Proofs.Store.Calls

/-!
# Deleting one object after the other

A deletion that nothing strikes succeeds if and only if the bucket is there and the path of the
object names a file or a link.  It leaves fewer entries, so that what could not be deleted
cannot be deleted later, and what has been deleted cannot be deleted again.
-/

namespace BulkTransfer

open DiskM (bind_eq_ok_iff)

namespace Disk

variable {tree later : FileTree} {path : String}

/-- A removal that nothing strikes does what it does to the tree. -/
theorem remove_of_ok (h : tree.remove path = .ok later) :
    remove path { tree := tree } = (.ok (), { tree := later }) :=
  DiskM.change_of_quiet (fun _ hfault => absurd hfault List.not_mem_nil) (by rw [h]; rfl)

theorem remove_of_error {error : IoError} (h : tree.remove path = .error error) :
    remove path { tree := tree } = (.error error, { tree := tree }) := by
  rw [remove, DiskM.change, DiskM.perform_of_quiet _ fun _ hfault => absurd hfault List.not_mem_nil,
    h]
  rfl

end Disk

namespace Store

variable {store : Store} {tree later : FileTree} {root : Place} {location : Location}
  {bucket : String} {content : ByteArray} {storage : StorageClass}

/-!
## One object
-/

theorem HasBucket.of_shrinks (hshrinks : tree.Shrinks later) (h : store.HasBucket later bucket) :
    store.HasBucket tree bucket := by
  rcases h with ⟨hname, place, node, hstat, hdirectory⟩
  exact ⟨hname, place, node, hshrinks.stat hstat, hdirectory⟩

/-- The bucket of a file is there, whatever links lead to it. -/
theorem hasBucket_of_stat (hvalid : IsValid location) {place : Place} {node : Node}
    (h : tree.stat (store.filePath location) = .ok (place, node)) :
    store.HasBucket tree location.bucket := by
  have hkey := isAbsolute_of_isObjectKey hvalid.key
  have hresolve := (FileTree.stat_eq_ok_iff.mp h).1
  rcases FileTree.leads_of_resolve hresolve with ⟨links, hle, hleads⟩
  rw [filePath, FileTree.namesOf_join hkey, FileTree.startOf, FileTree.isAbsolute_join_eq hkey,
    ← FileTree.startOf] at hleads
  have hnames : FileTree.namesOf location.key ≠ [] := by
    rw [namesOf_of_isObjectKey hvalid.key]
    exact Path.pieces_ne_nil _
  rcases hleads.front hnames with ⟨fewer, hfewer, above, habove⟩
  have husable : FileTree.IsUsable (store.bucketPath location.bucket) :=
    isUsable_of_join (bucketPath_ne_empty store hvalid.bucket) hkey
      (FileTree.resolve_eq_ok_iff.mp hresolve).1
  refine ⟨hvalid.bucket, above, .directory, FileTree.stat_eq_ok_iff.mpr ⟨?_, fun _ => rfl⟩, rfl⟩
  exact FileTree.resolve_eq_ok_iff.mpr
    ⟨husable, FileTree.followLinks_of_leads habove (Nat.le_trans hfewer hle)⟩

/-- Whether the deletion of an object has something to delete. -/
structure Deletable (store : Store) (tree : FileTree) (location : Location) : Prop where
  valid : IsValid location
  bucket : store.HasBucket tree location.bucket
  removable : tree.Removable (store.filePath location)

theorem Deletable.of_shrinks (hshrinks : tree.Shrinks later)
    (h : store.Deletable later location) : store.Deletable tree location :=
  ⟨h.valid, h.bucket.of_shrinks hshrinks, h.removable.of_shrinks hshrinks⟩

theorem deletable_of_object? (h : store.object? tree location = some (content, storage)) :
    store.Deletable tree location := by
  rcases object?_eq_some_iff.mp h with ⟨hvalid, ⟨place, modified, hstat⟩, -⟩
  exact ⟨hvalid, hasBucket_of_stat hvalid hstat, FileTree.removable_of_stat hstat⟩

/-- Without links only an object can be deleted. -/
theorem Deletable.object?_isSome (hroot : tree.Roots store.root root)
    (h : store.Deletable tree location) : (store.object? tree location).isSome = true := by
  rcases h.removable with ⟨hslash, place, node, hresolve, hdirectory⟩
  have hpath := continues_filePath store h.valid
  rcases (hroot.resolve_eq_ok_iff hpath).mp hresolve with ⟨husable, hopens, hfound⟩
  have hnode := congrArg Resolved.node? hfound
  have hplace := congrArg Resolved.place hfound
  rw [FileTree.node?_resolvedAt] at hnode
  rw [FileTree.place_resolvedAt] at hplace
  cases node with
  | directory | closed => cases hdirectory
  | link target => exact absurd hnode.symm (hroot.linkless _ _)
  | file content modified =>
      have hstat : tree.stat (store.filePath location) = .ok (place, .file content modified) := by
        refine (hroot.stat_eq_ok_iff hpath).mpr ⟨husable, hopens, hplace, hnode.symm, ?_⟩
        intro hend
        rw [hslash] at hend
        cases hend
      have hobject : store.object? tree location =
          some (content, classAt (store.sidecarPath location) tree) :=
        object?_eq_some_iff.mpr ⟨h.valid, ⟨place, modified, hstat⟩, rfl⟩
      rw [hobject]
      rfl

/-- Looking for a bucket leaves a disk without faults as it is. -/
theorem existingBucket_disk (store : Store) (bucket : String) (tree : FileTree) :
    (store.existingBucket bucket { tree := tree }).2 = { tree := tree } := by
  have hquiet : (Disk.mk tree []).Quiet := fun _ hfault => absurd hfault List.not_mem_nil
  rw [existingBucket]
  split
  · rfl
  · rw [DiskM.bind_apply, DiskM.attempt_apply, Disk.stat, DiskM.look_of_quiet _ hquiet]
    dsimp only
    cases tree.stat (store.bucketPath bucket) with
    | ok found =>
        dsimp only
        split <;> rfl
    | error error =>
        dsimp only
        split <;> rfl

theorem existingBucket_of_not_hasBucket (h : ¬ store.HasBucket tree bucket) :
    ∃ error, store.existingBucket bucket { tree := tree } = (.error error, { tree := tree }) := by
  have hdisk := existingBucket_disk store bucket tree
  rcases hfound : store.existingBucket bucket { tree := tree } with ⟨outcome, later⟩
  rw [hfound] at hdisk
  cases hdisk
  cases outcome with
  | ok path => exact absurd (existingBucket_eq_ok hfound).1 h
  | error error => exact ⟨error, rfl⟩

theorem objectPath_of_not (h : ¬ (IsValid location ∧ store.HasBucket tree location.bucket)) :
    ∃ error, store.objectPath location { tree := tree } = (.error error, { tree := tree }) := by
  rw [objectPath]
  cases hkey : isObjectKey location.key with
  | false => exact ⟨_, rfl⟩
  | true =>
      have hbucket : ¬ store.HasBucket tree location.bucket := fun hbucket =>
        h ⟨⟨hbucket.1, hkey⟩, hbucket⟩
      rcases existingBucket_of_not_hasBucket hbucket with ⟨error, herror⟩
      refine ⟨error, ?_⟩
      rw [Bool.not_true, if_neg Bool.false_ne_true, DiskM.bind_apply, herror]

/-- What is there to be deleted is deleted, and it cannot be deleted again. -/
theorem delete_of_deletable (hsound : tree.Sound) (h : store.Deletable tree location) :
    ∃ later, store.delete location { tree := tree } = (.ok (), { tree := later }) ∧
      later.Sound ∧ tree.Shrinks later ∧ ¬ store.Deletable later location := by
  rcases h.removable.remove hsound with ⟨gone, hremove, hsound', hshrinks⟩
  have hagain := FileTree.not_removable_of_removed hsound hremove
  have hsidecar : ∃ outcome later,
      Disk.remove (store.sidecarPath location) { tree := gone } = (outcome, { tree := later }) ∧
        later.Sound ∧ gone.Shrinks later := by
    cases hfirst : gone.remove (store.sidecarPath location) with
    | error error =>
        exact ⟨.error error, gone, Disk.remove_of_error hfirst, hsound', .refl gone⟩
    | ok later =>
        have hremovable := FileTree.removable_of_remove hsound' hfirst
        rcases hremovable.remove hsound' with ⟨later', hsecond, hsound'', hless⟩
        cases hfirst.symm.trans hsecond
        exact ⟨.ok (), later, Disk.remove_of_ok hfirst, hsound'', hless⟩
  rcases hsidecar with ⟨outcome, later, hrecord, hsound'', hless⟩
  refine ⟨later, ?_, hsound'', hshrinks.trans hless,
    fun hlater => hagain (hlater.removable.of_shrinks hless)⟩
  rw [delete, DiskM.bind_apply, objectPath_of_hasBucket h.valid h.bucket]
  dsimp only
  rw [DiskM.bind_apply, DiskM.attempt_apply, Disk.remove_of_ok hremove]
  dsimp only
  rw [DiskM.bind_apply, DiskM.attempt_apply, hrecord]
  rfl

/-- Where there is nothing to be deleted, nothing changes. -/
theorem delete_of_not_deletable (hsound : tree.Sound) (h : ¬ store.Deletable tree location) :
    ∃ error, store.delete location { tree := tree } = (.error error, { tree := tree }) := by
  rw [delete]
  by_cases hthere : IsValid location ∧ store.HasBucket tree location.bucket
  · rw [DiskM.bind_apply, objectPath_of_hasBucket hthere.1 hthere.2]
    dsimp only
    cases hremove : tree.remove (store.filePath location) with
    | ok later =>
        exact absurd ⟨hthere.1, hthere.2, FileTree.removable_of_remove hsound hremove⟩ h
    | error error =>
        rw [DiskM.bind_apply, DiskM.attempt_apply, Disk.remove_of_error hremove]
        dsimp only
        split <;> exact ⟨_, rfl⟩
  · rcases objectPath_of_not hthere with ⟨error, herror⟩
    exact ⟨error, by rw [DiskM.bind_apply, herror]⟩

/-- A deletion succeeds if and only if there is something to be deleted. -/
theorem delete_isOk_iff (hsound : tree.Sound) :
    (store.delete location { tree := tree }).1.isOk = true ↔ store.Deletable tree location := by
  by_cases h : store.Deletable tree location
  · rcases delete_of_deletable hsound h with ⟨later, hdelete, -⟩
    rw [hdelete]
    exact iff_of_true rfl h
  · rcases delete_of_not_deletable hsound h with ⟨error, hdelete⟩
    rw [hdelete]
    exact iff_of_false Bool.false_ne_true h

/-- Whatever becomes of a deletion, there is nothing left that it could delete. -/
theorem delete_leaves (hsound : tree.Sound) (location : Location) :
    ∃ later, (store.delete location { tree := tree }).2 = { tree := later } ∧ later.Sound ∧
      tree.Shrinks later ∧ ¬ store.Deletable later location := by
  by_cases h : store.Deletable tree location
  · rcases delete_of_deletable hsound h with ⟨later, hdelete, hafter⟩
    exact ⟨later, congrArg Prod.snd hdelete, hafter⟩
  · rcases delete_of_not_deletable hsound h with ⟨error, hdelete⟩
    exact ⟨tree, congrArg Prod.snd hdelete, hsound, .refl tree, h⟩

/-!
## Many objects
-/

/-- A deletion among others: its object and the tree in front of it. -/
structure Deletion where
  location : Location
  before : FileTree

/-- What a deletion answers. -/
def Deletion.outcome (store : Store) (deletion : Deletion) : Except JobError Unit :=
  (store.delete deletion.location { tree := deletion.before }).1

/-- The error of a deletion that fails. -/
def Deletion.error? (store : Store) (deletion : Deletion) : Option JobError :=
  match deletion.outcome store with
  | .ok () => none
  | .error error => some error

def Deletion.fails (store : Store) (deletion : Deletion) : Bool :=
  !(deletion.outcome store).isOk

theorem isSome_error? (store : Store) (deletion : Deletion) :
    (deletion.error? store).isSome = deletion.fails store := by
  rw [Deletion.error?, Deletion.fails]
  cases deletion.outcome store <;> rfl

/-- The deletions of some objects, one after the other. -/
def deletions (store : Store) : List Location → FileTree → List Deletion
  | [], _ => []
  | location :: locations, tree =>
      ⟨location, tree⟩ ::
        store.deletions locations (store.delete location { tree := tree }).2.tree

/-- The tree behind the deletions of some objects. -/
def afterDeletions (store : Store) (locations : List Location) (tree : FileTree) : FileTree :=
  locations.foldl (fun tree location => (store.delete location { tree := tree }).2.tree) tree

theorem afterDeletions_cons (location : Location) (locations : List Location)
    (tree : FileTree) :
    store.afterDeletions (location :: locations) tree =
      store.afterDeletions locations (store.delete location { tree := tree }).2.tree := rfl

theorem locations_deletions (store : Store) (locations : List Location) (tree : FileTree) :
    (store.deletions locations tree).map Deletion.location = locations := by
  induction locations generalizing tree with
  | nil => rfl
  | cons location locations ih => rw [deletions, List.map_cons, ih]

theorem fails_iff {deletion : Deletion} (hsound : deletion.before.Sound) :
    deletion.fails store = true ↔ ¬ store.Deletable deletion.before deletion.location := by
  rw [Deletion.fails, Bool.not_eq_true', ← Bool.not_eq_true, Deletion.outcome,
    delete_isOk_iff hsound]

/-- Deletions only take entries away. -/
theorem shrinks_of_mem_deletions {locations : List Location} (hsound : tree.Sound) :
    ∀ deletion ∈ store.deletions locations tree,
      deletion.before.Sound ∧ tree.Shrinks deletion.before := by
  induction locations generalizing tree with
  | nil => exact fun _ hmem => absurd hmem List.not_mem_nil
  | cons location locations ih =>
      rcases delete_leaves hsound location with ⟨later, hdelete, hsound', hshrinks, -⟩
      rw [deletions, hdelete, List.forall_mem_cons]
      refine ⟨⟨hsound, .refl tree⟩, fun deletion hmem => ?_⟩
      rcases ih hsound' deletion hmem with ⟨hbefore, hless⟩
      exact ⟨hbefore, hshrinks.trans hless⟩

theorem shrinks_afterDeletions (store : Store) (locations : List Location) (hsound : tree.Sound) :
    (store.afterDeletions locations tree).Sound ∧
      tree.Shrinks (store.afterDeletions locations tree) := by
  induction locations generalizing tree with
  | nil => exact ⟨hsound, .refl tree⟩
  | cons location locations ih =>
      rcases delete_leaves hsound location with ⟨later, hdelete, hsound', hshrinks, -⟩
      rw [afterDeletions_cons, hdelete]
      exact ⟨(ih hsound').1, hshrinks.trans (ih hsound').2⟩

/-- The deletion of an object that an earlier one was for fails. -/
theorem deletions_pairwise (locations : List Location) (hsound : tree.Sound) :
    (store.deletions locations tree).Pairwise fun earlier later =>
      earlier.location = later.location → later.fails store = true := by
  induction locations generalizing tree with
  | nil => exact .nil
  | cons location locations ih =>
      rcases delete_leaves hsound location with ⟨later, hdelete, hsound', -, hgone⟩
      rw [deletions, hdelete]
      refine .cons (fun deletion hmem hsame => ?_) (ih hsound')
      rcases shrinks_of_mem_deletions hsound' deletion hmem with ⟨hbefore, hless⟩
      rw [fails_iff hbefore, ← hsame]
      exact fun hagain => hgone (hagain.of_shrinks hless)

/-- Nothing is left of the objects behind their deletions. -/
theorem not_deletable_afterDeletions (locations : List Location) (hsound : tree.Sound) :
    ∀ location ∈ locations,
      ¬ store.Deletable (store.afterDeletions locations tree) location := by
  induction locations generalizing tree with
  | nil => exact fun _ hmem => absurd hmem List.not_mem_nil
  | cons location locations ih =>
      rcases delete_leaves hsound location with ⟨later, hdelete, hsound', -, hgone⟩
      rw [afterDeletions_cons, hdelete, List.forall_mem_cons]
      have hless := (shrinks_afterDeletions store locations hsound').2
      exact ⟨fun hagain => hgone (hagain.of_shrinks hless), ih hsound'⟩

theorem object?_eq_none_of_not_deletable (h : ¬ store.Deletable tree location) :
    store.object? tree location = none := by
  cases hobject : store.object? tree location with
  | none => rfl
  | some object => exact absurd (deletable_of_object? hobject) h

theorem object?_delete_self (store : Store) (hsound : tree.Sound) (location : Location) :
    store.object? (store.delete location { tree := tree }).2.tree location = none := by
  rcases delete_leaves hsound location with ⟨later, hdelete, -, -, hgone⟩
  rw [hdelete]
  exact object?_eq_none_of_not_deletable hgone

/-- The deletions of keys of one bucket, with the error of each that fails. -/
theorem deleteEach_eq (locations : List Location)
    (hbucket : ∀ location ∈ locations, location.bucket = bucket) (hsound : tree.Sound) :
    store.deleteEach bucket (locations.map Location.key) { tree := tree } =
      (.ok ((store.deletions locations tree).map fun deletion =>
          (deletion.location.key, deletion.error? store)),
        { tree := store.afterDeletions locations tree }) := by
  induction locations generalizing tree with
  | nil => rfl
  | cons location locations ih =>
      rw [List.forall_mem_cons] at hbucket
      have hlocation : ({ bucket := bucket, key := location.key } : Location) = location := by
        rw [← hbucket.1]
      rcases delete_leaves hsound location with ⟨later, hdelete, hsound', -⟩
      rw [List.map_cons, deleteEach, hlocation, DiskM.bind_apply, DiskM.attempt_apply, hdelete]
      dsimp only
      rw [DiskM.bind_apply, ih hbucket.2 hsound', deletions, afterDeletions_cons, hdelete]
      rfl

/-!
## Without links
-/

section Roots

variable (hsound : tree.Sound) (hroot : tree.Roots store.root root)
include hsound hroot

theorem evolves_delete_tree (location : Location) :
    tree.Evolves (fun _ => False) (places root location)
      (store.delete location { tree := tree }).2.tree := by
  have hdisk : (Disk.mk tree []).Evolves (fun _ => False) (places root location)
      (store.delete location { tree := tree }).2 := evolves_delete hsound hroot location
  exact hdisk.tree

/-- A deletion leaves all other objects. -/
theorem object?_delete {other : Location} (hne : location ≠ other) :
    store.object? (store.delete location { tree := tree }).2.tree other =
      store.object? tree other :=
  object?_evolves (evolves_delete_tree hsound hroot location) hsound hroot (fun _ => ⟨id, id⟩)
    fun hvalid => places_apart hvalid hne

theorem object?_afterDeletions {locations : List Location} {other : Location}
    (hother : other ∉ locations) :
    store.object? (store.afterDeletions locations tree) other = store.object? tree other := by
  induction locations generalizing tree with
  | nil => rfl
  | cons location locations ih =>
      rw [List.mem_cons, not_or] at hother
      have hevolves := evolves_delete_tree hsound hroot location
      rw [afterDeletions_cons]
      exact (ih hevolves.sound (hevolves.roots hroot) hother.2).trans
        (object?_delete hsound hroot (Ne.symm hother.1))

theorem fails_iff_object? (location : Location) :
    Deletion.fails store ⟨location, tree⟩ = true ↔ (store.object? tree location).isSome = false := by
  rw [fails_iff hsound]
  cases hobject : store.object? tree location with
  | none =>
      refine iff_of_true (fun hdeletable => ?_) rfl
      have hsome := hdeletable.object?_isSome hroot
      rw [hobject] at hsome
      cases hsome
  | some object => exact iff_of_false (fun h => h (deletable_of_object? hobject)) Bool.noConfusion

/-- The deletions that succeed are those of the objects, each counted once. -/
theorem countP_fails_deletions (locations : List Location) :
    (store.deletions locations tree).countP (Deletion.fails store) +
        (locations.toFinset.filter fun location =>
          (store.object? tree location).isSome = true).card = locations.length := by
  induction locations generalizing tree with
  | nil => rfl
  | cons location locations ih =>
      have hevolves := evolves_delete_tree hsound hroot location
      have hrest := ih hevolves.sound (hevolves.roots hroot)
      have hself := object?_delete_self store hsound location
      have hfails := fails_iff_object? hsound hroot location
      have hothers : ∀ other, location ≠ other →
          store.object? (store.delete location { tree := tree }).2.tree other =
            store.object? tree other := fun other => object?_delete hsound hroot
      rw [deletions, List.countP_cons, List.length_cons, List.toFinset_cons, ← hrest]
      generalize (store.delete location { tree := tree }).2.tree = later at *
      have hset : ((insert location locations.toFinset).filter fun other =>
          (store.object? tree other).isSome = true).erase location =
          locations.toFinset.filter fun other => (store.object? later other).isSome = true := by
        ext other
        by_cases hsame : location = other
        · subst hsame
          simp [hself]
        · simp [hothers other hsame, Ne.symm hsame]
      cases hobject : (store.object? tree location).isSome with
      | true =>
          have hmem : location ∈ (insert location locations.toFinset).filter fun other =>
              (store.object? tree other).isSome = true := by simp [hobject]
          rw [← Finset.card_erase_add_one hmem, hset, if_neg (by rw [hfails, hobject]; simp)]
          omega
      | false =>
          have hnot : location ∉ (insert location locations.toFinset).filter fun other =>
              (store.object? tree other).isSome = true := by simp [hobject]
          rw [← Finset.erase_eq_of_notMem hnot, hset, if_pos (hfails.mpr hobject)]
          omega

end Roots

end Store
end BulkTransfer
