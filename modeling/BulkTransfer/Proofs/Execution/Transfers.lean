import BulkTransfer.Proofs.Execution.Endpoints

/-!
# One attempt of a transfer

An attempt that finds its target there says so and changes nothing.  One that succeeds has
brought the content of its source to the target, and the source is gone behind a move.  One that
fails leaves the source; it leaves a target that was missing either missing or complete, unless it
has been struck twice.
-/

namespace BulkTransfer
namespace Endpoint

variable {store : Store} {tree : FileTree} {disk later : Disk} {root place : Place}
  {source target : Endpoint} {storage : StorageClass} {cancel : CancelAfter}
  {content content' : ByteArray} {error : JobError}

/-!
## Where the ends are
-/

/-- The surroundings of a transfer.  A store is kept in a directory that is reached without links
and holds none; a local target goes up from directories only that are there, and it is outside of
the store that the source is in. -/
structure Ground (store : Store) (root : Place) (source target : Endpoint) (tree : FileTree) :
    Prop where
  sound : tree.Sound
  roots : source.IsObject ∨ target.IsObject → tree.Roots store.root root
  climbs : ∀ text, target = .path text → tree.ClimbsInside text
  apart : source.IsObject → ∀ text, target = .path text → Store.Apart root tree text

/-- Surroundings in which a local file is not brought to a store that holds it. -/
structure Placed (store : Store) (root : Place) (source target : Endpoint) (tree : FileTree) :
    Prop extends Ground store root source target tree where
  outside : target.IsObject → ∀ text, source = .path text → ∀ place content modified,
    tree.stat text = .ok (place, .file content modified) → ¬ root <+: place

/-- Surroundings in which no file is both ends. -/
structure Parted (store : Store) (root : Place) (source target : Endpoint) (tree : FileTree) :
    Prop extends Placed store root source target tree where
  distinct : target.IsValid →
    FileCopy.Distinct tree (source.filePath store) (target.filePath store)

/-- Both ends hold the same content. -/
structure Complete (store : Store) (root : Place) (source target : Endpoint) (content : ByteArray)
    (tree : FileTree) : Prop extends Parted store root source target tree where
  atSource : source.content? store tree = some content
  atTarget : target.content? store tree = some content

theorem Ground.climbsInside (h : Ground store root source target tree) (hvalid : target.IsValid) :
    tree.ClimbsInside (target.filePath store) := by
  cases target with
  | object location =>
      exact (h.roots (Or.inr trivial)).climbsInside (Store.continues_filePath store hvalid)
  | path text => exact h.climbs text rfl

/-- A target that is missing is not the source. -/
theorem Placed.parted (h : Placed store root source target tree)
    (hmissing : ¬ target.Present store tree) : Parted store root source target tree := by
  refine ⟨h, fun hvalid place content modified node hsource htarget => hmissing ?_⟩
  have hnode := h.sound.node?_of_stat hsource Node.noConfusion
  -- a target that leads to the file of the source would be present
  have hfile : node = .file content modified := by
    rcases h.sound.resolve (FileTree.stat_eq_ok_iff.mp htarget).1 with hsame | ⟨-, held, hheld, hdirectory⟩
    · rw [hnode] at hsame
      exact (Option.some.inj hsame).symm
    · rw [hnode] at hheld
      cases hheld
      cases hdirectory
  rw [hfile] at htarget
  exact present_of_content? h.sound
    ((content?_eq_some_iff h.sound).mpr ⟨hvalid, place, modified, htarget⟩)

/-- Two files with the same content. -/
theorem Placed.complete {created : Place} {modified time : Int}
    (h : Placed store root source target tree) (hsource : source.IsValid)
    (htarget : target.IsValid)
    (hstat : tree.stat (source.filePath store) = .ok (place, .file content modified))
    (hcreated : tree.stat (target.filePath store) = .ok (created, .file content time))
    (hne : created ≠ place) : Complete store root source target content tree :=
  ⟨⟨h, fun _ => FileCopy.distinct_of_stat hstat hcreated hne⟩,
    (content?_eq_some_iff h.sound).mpr ⟨hsource, place, modified, hstat⟩,
    (content?_eq_some_iff h.sound).mpr ⟨htarget, created, time, hcreated⟩⟩

/-- The file of an object is at its place. -/
theorem place_eq {location : Location} {node : Node} (hroot : tree.Roots store.root root)
    (hvalid : Store.IsValid location)
    (hstat : tree.stat (store.filePath location) = .ok (place, node)) :
    place = root ++ Store.objectNames location :=
  ((hroot.stat_eq_ok_iff (Store.continues_filePath store hvalid)).mp hstat).2.2.1

/-!
## Copying
-/

theorem Ground.copy {outcome : Except JobError Nat}
    (h : Ground store root source target disk.tree) (hvalid : target.IsValid)
    (hcopy : FileCopy.copy (source.filePath store) (target.filePath store) cancel disk =
      (outcome, later)) : Ground store root source target later.tree := by
  cases target with
  | object location =>
      have hroot := h.roots (Or.inr trivial)
      have hevolves : disk.Evolves (Store.places root location) (Store.places root location)
          (FileCopy.copy (source.filePath store) (store.filePath location) cancel disk).2 :=
        Store.evolves_copy_filePath h.sound hroot hvalid
      rw [filePath] at hcopy
      rw [hcopy] at hevolves
      exact ⟨hevolves.tree.sound, fun _ => hevolves.tree.roots hroot, fun _ => Endpoint.noConfusion,
        fun _ _ => Endpoint.noConfusion⟩
  | path text =>
      have hclimbs := h.climbs text rfl
      rcases FileCopy.climbsInside_of_copy h.sound hclimbs hcopy with ⟨hsound, hclimbs'⟩
      constructor
      case sound => exact hsound
      case roots =>
        intro hobject
        have hapart := h.apart (hobject.resolve_right id) text rfl
        have hevolves : disk.Evolves (fun place => ¬ root <+: place) (fun place => ¬ root <+: place)
            (FileCopy.copy (source.filePath store) text cancel disk).2 :=
          FileCopy.evolves_copy h.sound hapart
        rw [filePath] at hcopy
        rw [hcopy] at hevolves
        exact hevolves.tree.roots (h.roots hobject)
      case climbs =>
        rintro _ ⟨⟩
        exact hclimbs'
      case apart =>
        rintro hobject _ ⟨⟩
        exact FileCopy.leadsInto_of_copy h.sound hclimbs (h.apart hobject text rfl) hcopy

/-- A local file stays outside of the store. -/
theorem Placed.of_sameFile {later : FileTree} (h : Placed store root source target tree)
    (hground : Ground store root source target later)
    (hsame : FileCopy.SameFile (source.filePath store) tree later) :
    Placed store root source target later := by
  refine ⟨hground, ?_⟩
  rintro hobject text rfl place content modified hstat
  exact h.outside hobject text rfl place content modified ((hsame place content modified).mp hstat)

theorem content?_of_sameFile {later : FileTree} (hsound : tree.Sound) (hsound' : later.Sound)
    (hsame : FileCopy.SameFile (source.filePath store) tree later) :
    source.content? store later = source.content? store tree := by
  refine Option.ext fun content => ?_
  rw [content?_eq_some_iff hsound', content?_eq_some_iff hsound]
  exact and_congr_right fun _ => exists_congr fun place => exists_congr fun modified =>
    hsame place content modified

/-- A copy that fails leaves the ends apart and the source as it was. -/
theorem Parted.copy_error (h : Parted store root source target disk.tree)
    (hvalid : target.IsValid)
    (hcopy : FileCopy.copy (source.filePath store) (target.filePath store) cancel disk =
      (.error error, later)) :
    Parted store root source target later.tree ∧
      source.content? store later.tree = source.content? store disk.tree := by
  have hground := h.toGround.copy hvalid hcopy
  rcases FileCopy.distinct_of_copy h.sound (h.climbsInside hvalid) (h.distinct hvalid) hcopy with
    ⟨hsame, hdistinct⟩
  exact ⟨⟨h.toPlaced.of_sameFile hground hsame, fun _ => hdistinct⟩,
    content?_of_sameFile h.sound hground.sound hsame⟩

/-- Behind a copy that succeeds both ends hold the content of the source. -/
theorem Parted.copy_ok {bytes : Nat} (h : Parted store root source target disk.tree)
    (hsource : source.IsValid) (htarget : target.IsValid)
    (hcopy : FileCopy.copy (source.filePath store) (target.filePath store) cancel disk =
      (.ok bytes, later)) :
    ∃ content, source.content? store disk.tree = some content ∧ bytes = content.size ∧
      Complete store root source target content later.tree := by
  have hground := h.toGround.copy htarget hcopy
  rcases FileCopy.copied_of_distinct h.sound (h.climbsInside htarget) (h.distinct htarget) hcopy with
    ⟨place, content, modified, hstat, hkept, hbytes, created, time, hne, hcreated⟩
  have hplaced := h.toPlaced.of_sameFile hground (FileCopy.sameFile_of_stat hstat hkept)
  exact ⟨content, (content?_eq_some_iff h.sound).mpr ⟨hsource, place, modified, hstat⟩, hbytes,
    hplaced.complete hsource htarget hkept hcreated hne⟩

/-!
## Recording
-/

/-- Where something is recorded about an end. -/
def RecordedAt (root : Place) : Endpoint → Place → Prop
  | object location, place => place = root ++ Store.sidecarNames location
  | path _, _ => False

/-- No object is kept where something is recorded about another one. -/
theorem not_recordedAt {location : Location} {node : Node} (hroot : tree.Roots store.root root)
    (hvalid : Store.IsValid location)
    (hstat : tree.stat (store.filePath location) = .ok (place, node)) :
    ¬ target.RecordedAt root place := by
  cases target with
  | object other =>
      intro hrecorded
      rw [RecordedAt, place_eq hroot hvalid hstat] at hrecorded
      exact Store.sidecarNames_ne_objectNames hvalid (List.append_cancel_left hrecorded).symm
  | path text => exact id

theorem Placed.not_recordedAt_source {modified : Int} (h : Placed store root source target tree)
    (hvalid : source.IsValid)
    (hstat : tree.stat (source.filePath store) = .ok (place, .file content modified)) :
    ¬ target.RecordedAt root place := by
  cases source with
  | object location => exact not_recordedAt (h.roots (Or.inl trivial)) hvalid hstat
  | path text =>
      cases target with
      | object other =>
          rintro rfl
          exact h.outside trivial text rfl _ _ _ hstat (List.prefix_append _ _)
      | path other => exact id

theorem Ground.not_recordedAt_target {node : Node} (h : Ground store root source target tree)
    (hvalid : target.IsValid)
    (hstat : tree.stat (target.filePath store) = .ok (place, node)) :
    ¬ target.RecordedAt root place := by
  cases target with
  | object location => exact not_recordedAt (h.roots (Or.inr trivial)) hvalid hstat
  | path text => exact id

/-- What is recorded about the target changes no file but the record. -/
theorem Ground.record {outcome : Except JobError Unit}
    (h : Ground store root source target disk.tree) (hvalid : target.IsValid)
    (hrecord : target.record store storage disk = (outcome, later)) :
    Ground store root source target later.tree ∧ ∀ path place node,
      ¬ target.RecordedAt root place → node.isFile = true →
        disk.tree.stat path = .ok (place, node) → later.tree.stat path = .ok (place, node) := by
  cases target with
  | object location =>
      have hroot := h.roots (Or.inr trivial)
      have hevolves := Store.evolves_writeClass h.sound hroot hvalid storage
      rw [Endpoint.record] at hrecord
      rw [hrecord] at hevolves
      refine ⟨⟨hevolves.tree.sound, fun _ => hevolves.tree.roots hroot, fun _ => Endpoint.noConfusion,
        fun _ _ => Endpoint.noConfusion⟩, fun path place node hother hfile hstat => ?_⟩
      refine hevolves.tree.stat_of_unremoved ?_ h.sound hother hother hstat hfile
      rintro _ target rfl
      exact hroot.linkless _ target
  | path text =>
      cases hrecord
      exact ⟨h, fun _ _ _ _ _ => id⟩

/-- What is recorded about the target leaves both ends complete. -/
theorem Complete.record {outcome : Except JobError Unit}
    (h : Complete store root source target content disk.tree)
    (hrecord : target.record store storage disk = (outcome, later)) :
    Complete store root source target content later.tree := by
  rcases (content?_eq_some_iff h.sound).mp h.atSource with ⟨hsource, place, modified, hstat⟩
  rcases (content?_eq_some_iff h.sound).mp h.atTarget with ⟨htarget, created, time, hcreated⟩
  rcases h.toGround.record htarget hrecord with ⟨hground, hkeeps⟩
  have hstat' := hkeeps _ _ _ (h.toPlaced.not_recordedAt_source hsource hstat) rfl hstat
  have hcreated' := hkeeps _ _ _ (h.toGround.not_recordedAt_target htarget hcreated) rfl hcreated
  have hplaced := h.toPlaced.of_sameFile hground (FileCopy.sameFile_of_stat hstat hstat')
  refine hplaced.complete hsource htarget hstat' hcreated' ?_
  rintro rfl
  exact h.distinct htarget _ _ _ _ hstat hcreated

/-!
## Discarding
-/

/-- Nothing changes when the source cannot be deleted. -/
theorem discard_eq_error (h : source.discard store disk = (.error error, later)) :
    later.tree = disk.tree := by
  cases source with
  | object location =>
      rw [discard, Store.delete] at h
      rcases Store.objectPath_bind_cases h with ⟨_, -, htree⟩ | ⟨found, htree, -, -, h⟩
      · exact htree
      · rcases DiskM.bind_cases h with ⟨_, hremove, -⟩ | ⟨removed, gone, hremove, h⟩
        · cases hremove
        · have hremove := DiskM.attempt_eq_ok_iff.mp hremove
          cases removed with
          | ok => cases h
          | error cause =>
              have hgone := DiskM.change_eq_error hremove
              dsimp only at h
              split at h <;> cases h <;> exact hgone.trans htree
  | path text =>
      rw [discard, FileCopy.delete] at h
      rcases DiskM.mapError_eq_error h with ⟨cause, hremove⟩
      exact DiskM.change_eq_error hremove

/-- When an object has been deleted that is the source, the target holds what it held. -/
theorem Complete.stat_of_delete {location : Location} {created : Place} {node : Node}
    (h : Complete store root (.object location) target content disk.tree)
    (hvalid : target.IsValid) (hdelete : store.delete location disk = (.ok (), later))
    (hcreated : disk.tree.stat (target.filePath store) = .ok (created, node))
    (hfile : node.isFile = true) :
    later.tree.stat (target.filePath store) = .ok (created, node) := by
  have hroot := h.roots (Or.inl trivial)
  have hevolves := Store.evolves_delete h.sound hroot location
  rw [hdelete] at hevolves
  -- a deletion touches the file of the source and its record, and the target is neither
  have hremoved : ¬ Store.places root location created := by
    cases target with
    | object other =>
        rw [place_eq hroot hvalid hcreated]
        refine (Store.places_apart hvalid ?_).1
        rintro rfl
        rcases (content?_eq_some_iff h.sound).mp h.atSource with ⟨-, place, modified, hstat⟩
        exact h.distinct hvalid _ _ _ _ hstat hstat
    | path text =>
        rintro ⟨-, hplace⟩
        refine h.apart trivial text rfl disk.tree (.refl h.sound) true _
          (FileTree.stat_eq_ok_iff.mp hcreated).1 ?_
        show root <+: created
        rcases hplace with rfl | rfl <;> exact List.prefix_append _ _
  refine hevolves.tree.stat_of_unremoved ?_ h.sound id hremoved hcreated hfile
  rintro _ link ⟨-, rfl | rfl⟩
  · exact hroot.linkless _ link
  · exact hroot.linkless _ link

/-- When the source has been deleted, it is missing and the target holds what it held. -/
theorem Complete.discard (h : Complete store root source target content disk.tree)
    (hdiscard : source.discard store disk = (.ok (), later)) :
    ¬ source.Present store later.tree ∧ target.content? store later.tree = some content := by
  rcases (content?_eq_some_iff h.sound).mp h.atSource with ⟨hsource, place, modified, hstat⟩
  rcases (content?_eq_some_iff h.sound).mp h.atTarget with ⟨htarget, created, time, hcreated⟩
  cases source with
  | object location =>
      have hroot := h.roots (Or.inl trivial)
      have hevolves := Store.evolves_delete h.sound hroot location
      have hmissing := Store.missing_of_delete h.sound hroot hdiscard
      rw [Endpoint.discard] at hdiscard
      rw [hdiscard] at hevolves
      constructor
      · rw [Present, hmissing.object?_eq_none (hevolves.tree.roots hroot)]
        exact Bool.false_ne_true
      · exact (content?_eq_some_iff hevolves.tree.sound).mpr ⟨htarget, created, time,
          h.stat_of_delete htarget hdiscard hcreated rfl⟩
  | path text =>
      have hremove := Disk.remove_eq_ok (DiskM.mapError_eq_ok_iff.mp hdiscard)
      have hevolves : disk.tree.Evolves (fun _ => False) (fun _ => True) later.tree :=
        FileTree.evolves_remove h.sound (fun _ _ => trivial) hremove
      constructor
      · rw [present_iff]
        rintro ⟨-, found, node, hfound, -⟩
        exact FileTree.stat_of_removed h.sound hremove _ hfound
      · refine (content?_eq_some_iff hevolves.sound).mpr ⟨htarget, created, time, ?_⟩
        refine FileTree.stat_of_remove h.sound hremove (FileTree.stat_eq_ok_iff.mp hstat).1 rfl
          hcreated ?_
        rintro rfl
        exact absurd hcreated (h.distinct htarget _ _ _ _ hstat)

/-!
## Bringing the data to the target
-/

theorem Ground.carry {outcome : Except JobError Nat}
    (h : Ground store root source target disk.tree)
    (hcarry : source.carry store storage cancel target disk = (outcome, later)) :
    Ground store root source target later.tree := by
  rcases carry_cases h.sound hcarry with ⟨_, -, htree⟩ | ⟨ready, htree, -, hsource, htarget, hsteps⟩
  · rwa [htree]
  · rw [← htree] at h
    rcases DiskM.bind_cases hsteps with ⟨_, hcopy, -⟩ | ⟨bytes, copied, hcopy, hsteps⟩
    · exact h.copy htarget hcopy
    · have hcopied := h.copy htarget hcopy
      rcases DiskM.bind_cases hsteps with ⟨_, hrecord, -⟩ | ⟨_, recorded, hrecord, hlast⟩
      · exact (hcopied.record htarget hrecord).1
      · cases hlast
        exact (hcopied.record htarget hrecord).1

/-- Bringing data to the target that fails leaves the ends apart and the source as it was. -/
theorem Parted.carry_error (h : Parted store root source target disk.tree)
    (hcarry : source.carry store storage cancel target disk = (.error error, later)) :
    Parted store root source target later.tree ∧
      source.content? store later.tree = source.content? store disk.tree := by
  rcases carry_cases h.sound hcarry with ⟨_, -, htree⟩ | ⟨ready, htree, -, hsource, htarget, hsteps⟩
  · rw [htree]
    exact ⟨h, rfl⟩
  · rw [← htree] at h ⊢
    rcases DiskM.bind_cases hsteps with ⟨_, hcopy, -⟩ | ⟨bytes, copied, hcopy, hsteps⟩
    · exact h.copy_error htarget hcopy
    · rcases h.copy_ok hsource htarget hcopy with ⟨content, hcontent, -, hcomplete⟩
      rcases DiskM.bind_cases hsteps with ⟨_, hrecord, -⟩ | ⟨_, recorded, -, hlast⟩
      · have hlater := hcomplete.record hrecord
        exact ⟨hlater.toParted, hlater.atSource.trans hcontent.symm⟩
      · cases hlast

theorem Parted.carry_ok {bytes : Nat} (h : Parted store root source target disk.tree)
    (hcarry : source.carry store storage cancel target disk = (.ok bytes, later)) :
    ∃ content, source.content? store disk.tree = some content ∧ bytes = content.size ∧
      Complete store root source target content later.tree := by
  rcases carry_cases h.sound hcarry with ⟨_, herror, -⟩ | ⟨ready, htree, -, hsource, htarget, hsteps⟩
  · cases herror
  · rw [← htree] at h ⊢
    rcases DiskM.bind_eq_ok_iff.mp hsteps with ⟨count, copied, hcopy, hsteps⟩
    rcases DiskM.bind_eq_ok_iff.mp hsteps with ⟨⟨⟩, recorded, hrecord, hlast⟩
    cases hlast
    rcases h.copy_ok hsource htarget hcopy with ⟨content, hcontent, hbytes, hcomplete⟩
    exact ⟨content, hcontent, hbytes, hcomplete.record hrecord⟩

/-- A target that was missing is missing or complete when bringing data to it has failed and could
be tried again, unless there have been two strikes. -/
theorem Parted.carry_retryable (h : Parted store root source target disk.tree)
    (hmissing : ¬ target.Present store disk.tree)
    (hcarry : source.carry store storage cancel target disk = (.error error, later))
    (hagain : error.isRetryable = true) :
    ¬ target.Present store later.tree ∨
      (∃ content, source.content? store disk.tree = some content ∧
        target.content? store later.tree = some content) ∨
      later.strikes + 2 ≤ disk.strikes := by
  rcases carry_cases h.sound hcarry with
    ⟨_, -, htree⟩ | ⟨ready, htree, hle, hsource, htarget, hsteps⟩
  · rw [htree]
    exact Or.inl hmissing
  · rw [← htree] at h hmissing ⊢
    rcases DiskM.bind_cases hsteps with ⟨_, hcopy, herror⟩ | ⟨bytes, copied, hcopy, hsteps⟩
    · cases herror
      rw [present_iff, not_and] at hmissing
      rcases FileCopy.missing_of_copy h.sound (h.climbsInside htarget) (hmissing htarget) hcopy
        hagain with hstill | hstruck
      · left
        rw [present_iff]
        exact fun hpresent => hstill hpresent.2
      · exact Or.inr (Or.inr (Nat.le_trans hstruck hle))
    · rcases h.copy_ok hsource htarget hcopy with ⟨content, hcontent, -, hcomplete⟩
      rcases DiskM.bind_cases hsteps with ⟨_, hrecord, -⟩ | ⟨_, recorded, -, hlast⟩
      · exact Or.inr (Or.inl ⟨content, hcontent, (hcomplete.record hrecord).atTarget⟩)
      · cases hlast

end Endpoint

/-!
## One attempt
-/

namespace Executor

open DiskM (FailsByFault)
open JobError (isRetryable)
open Endpoint (Ground Parted)

variable {store : Store} {disk later : Disk} {root : Place} {source target : Endpoint}
  {storage : StorageClass} {removeSource : Bool} {cancel : CancelAfter}
  {outcome : Except JobError Outcome} {said : Outcome} {error : JobError}

theorem transferData_failsByFault (store : Store) (source target : Endpoint)
    (storage : StorageClass) (removeSource : Bool) (cancel : CancelAfter) :
    FailsByFault isRetryable
      (transferData store source target storage removeSource cancel) := by
  refine .bind (Endpoint.carry_failsByFault store source target storage cancel) fun bytes => ?_
  cases removeSource with
  | true => exact .bind (Endpoint.discard_failsByFault store source) fun _ => .pure _
  | false => exact .pure _

/-- The data has been brought to the target, and then the source is deleted, if asked. -/
theorem transferData_cases
    (h : transferData store source target storage removeSource cancel disk = (outcome, later)) :
    (∃ error, outcome = .error error ∧
        source.carry store storage cancel target disk = (.error error, later)) ∨
      ∃ bytes carried, source.carry store storage cancel target disk = (.ok bytes, carried) ∧
        ((∃ error, outcome = .error error ∧
            source.discard store carried = (.error error, later)) ∨
          outcome = .ok { bytes := bytes } ∧
            (removeSource = true ∧ source.discard store carried = (.ok (), later) ∨
              removeSource = false ∧ later = carried)) := by
  rcases DiskM.bind_cases h with ⟨error, hcarry, rfl⟩ | ⟨bytes, carried, hcarry, h⟩
  · exact Or.inl ⟨error, rfl, hcarry⟩
  · refine Or.inr ⟨bytes, carried, hcarry, ?_⟩
    cases removeSource with
    | false =>
        cases h
        exact Or.inr ⟨rfl, Or.inr ⟨rfl, rfl⟩⟩
    | true =>
        rcases DiskM.bind_cases h with ⟨error, hdiscard, rfl⟩ | ⟨⟨⟩, discarded, hdiscard, h⟩
        · exact Or.inl ⟨error, rfl, hdiscard⟩
        · cases h
          exact Or.inr ⟨rfl, Or.inl ⟨rfl, hdiscard⟩⟩

/-- An attempt looks at its target, and goes on only if it sees nothing there. -/
theorem transferUnlessPresent_cases (hsound : disk.tree.Sound)
    (h : transferUnlessPresent store source target storage removeSource cancel disk =
      (outcome, later)) :
    (∃ error, outcome = .error error ∧ later.tree = disk.tree) ∨
      (outcome = .ok skipped ∧ target.Present store disk.tree ∧ later.tree = disk.tree) ∨
      ∃ looked, looked.tree = disk.tree ∧ looked.strikes ≤ disk.strikes ∧
        (¬ target.Present store disk.tree ∨ looked.strikes < disk.strikes) ∧
        transferData store source target storage removeSource cancel looked = (outcome, later) := by
  rcases (Endpoint.onlyLooks_look store target).bind_cases
      (Endpoint.look_failsByFault store target) h with
    herror | ⟨present, looked, hlook, htree, hle, hnext⟩
  · exact Or.inl herror
  · right
    cases present with
    | true =>
        cases hnext
        exact Or.inl ⟨rfl, Endpoint.present_of_look hsound hlook, htree⟩
    | false => exact Or.inr ⟨looked, htree, hle, Endpoint.missing_of_look hsound hlook, hnext⟩

/-- An attempt warns only about a target that is there, and then it changes nothing. -/
theorem present_of_warning (hsound : disk.tree.Sound)
    (h : transferUnlessPresent store source target storage removeSource cancel disk =
      (.ok said, later)) (hwarning : said.warning ≠ none) :
    said = skipped ∧ target.Present store disk.tree ∧ later.tree = disk.tree := by
  rcases transferUnlessPresent_cases hsound h with
    ⟨_, herror, -⟩ | ⟨hskipped, hpresent, htree⟩ | ⟨looked, -, -, -, hdata⟩
  · cases herror
  · exact ⟨Except.ok.inj hskipped, hpresent, htree⟩
  · rcases transferData_cases hdata with ⟨_, herror, -⟩ | ⟨bytes, carried, -, ⟨_, herror, -⟩ | ⟨hsaid, -⟩⟩
    · cases herror
    · cases herror
    · cases hsaid
      exact absurd rfl hwarning

/-- An attempt that succeeds without a warning has brought the content of the source to the
target; behind a move the source is missing. -/
theorem transferred_of_ok (hparted : Parted store root source target disk.tree)
    (h : transferUnlessPresent store source target storage removeSource cancel disk =
      (.ok said, later)) (hwarning : said.warning = none) :
    ∃ content, source.content? store disk.tree = some content ∧ said.bytes = content.size ∧
      target.content? store later.tree = some content ∧
      (if removeSource then ¬ source.Present store later.tree
        else source.content? store later.tree = some content) := by
  rcases transferUnlessPresent_cases hparted.sound h with
    ⟨_, herror, -⟩ | ⟨hskipped, -⟩ | ⟨looked, htree, -, -, hdata⟩
  · cases herror
  · cases hskipped
    cases hwarning
  · rw [← htree] at hparted ⊢
    rcases transferData_cases hdata with
      ⟨_, herror, -⟩ | ⟨bytes, carried, hcarry, ⟨_, herror, -⟩ | ⟨hsaid, hdone⟩⟩
    · cases herror
    · cases herror
    · cases hsaid
      rcases hparted.carry_ok hcarry with ⟨content, hcontent, hbytes, hcomplete⟩
      refine ⟨content, hcontent, hbytes, ?_⟩
      rcases hdone with ⟨rfl, hdiscard⟩ | ⟨rfl, rfl⟩
      · rcases hcomplete.discard hdiscard with ⟨hmissing, htarget⟩
        exact ⟨htarget, hmissing⟩
      · exact ⟨hcomplete.atTarget, hcomplete.atSource⟩

/-- An attempt that fails has changed nothing, or it fails while it brings the data or behind
that. -/
theorem failed_cases (hsound : disk.tree.Sound)
    (h : transferUnlessPresent store source target storage removeSource cancel disk =
      (.error error, later)) :
    later.tree = disk.tree ∨
      ∃ looked, looked.tree = disk.tree ∧ looked.strikes ≤ disk.strikes ∧
        (source.carry store storage cancel target looked = (.error error, later) ∨
          ∃ bytes carried, source.carry store storage cancel target looked = (.ok bytes, carried) ∧
            later.tree = carried.tree) := by
  rcases transferUnlessPresent_cases hsound h with
    ⟨_, -, htree⟩ | ⟨hskipped, -⟩ | ⟨looked, htree, hle, -, hdata⟩
  · exact Or.inl htree
  · cases hskipped
  · refine Or.inr ⟨looked, htree, hle, ?_⟩
    rcases transferData_cases hdata with
      ⟨_, herror, hcarry⟩ | ⟨bytes, carried, hcarry, ⟨_, -, hdiscard⟩ | ⟨hsaid, -⟩⟩
    · cases herror
      exact Or.inl hcarry
    · exact Or.inr ⟨bytes, carried, hcarry, Endpoint.discard_eq_error hdiscard⟩
    · cases hsaid

theorem ground_of_error (hground : Ground store root source target disk.tree)
    (h : transferUnlessPresent store source target storage removeSource cancel disk =
      (.error error, later)) : Ground store root source target later.tree := by
  rcases failed_cases hground.sound h with
    htree | ⟨looked, htree, -, hcarry | ⟨bytes, carried, hcarry, hlater⟩⟩
  · rwa [htree]
  · rw [← htree] at hground
    exact hground.carry hcarry
  · rw [← htree] at hground
    rw [hlater]
    exact hground.carry hcarry

/-- An attempt that fails leaves the ends apart and the source as it was. -/
theorem parted_of_error (hparted : Parted store root source target disk.tree)
    (h : transferUnlessPresent store source target storage removeSource cancel disk =
      (.error error, later)) :
    Parted store root source target later.tree ∧
      source.content? store later.tree = source.content? store disk.tree := by
  rcases failed_cases hparted.sound h with
    htree | ⟨looked, htree, -, hcarry | ⟨bytes, carried, hcarry, hlater⟩⟩
  · rw [htree]
    exact ⟨hparted, rfl⟩
  · rw [← htree] at hparted ⊢
    exact hparted.carry_error hcarry
  · rw [← htree] at hparted ⊢
    rcases hparted.carry_ok hcarry with ⟨content, hcontent, -, hcomplete⟩
    rw [hlater]
    exact ⟨hcomplete.toParted, hcomplete.atSource.trans hcontent.symm⟩

/-- Behind an attempt that fails and could be tried again, a target that was missing is missing or
complete, unless the attempt has been struck twice. -/
theorem missing_or_complete (hparted : Parted store root source target disk.tree)
    (hmissing : ¬ target.Present store disk.tree)
    (h : transferUnlessPresent store source target storage removeSource cancel disk =
      (.error error, later)) (hagain : error.isRetryable = true) :
    ¬ target.Present store later.tree ∨
      (∃ content, source.content? store disk.tree = some content ∧
        target.content? store later.tree = some content) ∨
      later.strikes + 2 ≤ disk.strikes := by
  rcases failed_cases hparted.sound h with
    htree | ⟨looked, htree, hle, hcarry | ⟨bytes, carried, hcarry, hlater⟩⟩
  · rw [htree]
    exact Or.inl hmissing
  · rw [← htree] at hparted hmissing ⊢
    rcases hparted.carry_retryable hmissing hcarry hagain with hstill | hcomplete | hstruck
    · exact Or.inl hstill
    · exact Or.inr (Or.inl hcomplete)
    · exact Or.inr (Or.inr (Nat.le_trans hstruck hle))
  · rw [← htree] at hparted ⊢
    rcases hparted.carry_ok hcarry with ⟨content, hcontent, -, hcomplete⟩
    rw [hlater]
    exact Or.inr (Or.inl ⟨content, hcontent, hcomplete.atTarget⟩)

/-- An attempt that fails and could be tried again, though its target is there, changes nothing
or has been struck twice: in front of what it changes, and by its error. -/
theorem unchanged_of_present (hsound : disk.tree.Sound) (hpresent : target.Present store disk.tree)
    (h : transferUnlessPresent store source target storage removeSource cancel disk =
      (.error error, later)) (hagain : error.isRetryable = true) :
    later.tree = disk.tree ∨ later.strikes + 2 ≤ disk.strikes := by
  rcases transferUnlessPresent_cases hsound h with
    ⟨_, -, htree⟩ | ⟨hskipped, -⟩ | ⟨looked, htree, -, hmissing, hdata⟩
  · exact Or.inl htree
  · cases hskipped
  · -- only a struck look overlooks the target, and the error behind it is a second strike
    have hfirst := hmissing.resolve_left (not_not_intro hpresent)
    have hsecond := (transferData_failsByFault store source target storage removeSource
      cancel).strikes_lt looked error later hdata hagain
    exact Or.inr (Nat.lt_of_le_of_lt (Nat.succ_le_of_lt hsecond) hfirst)

end Executor
end BulkTransfer
