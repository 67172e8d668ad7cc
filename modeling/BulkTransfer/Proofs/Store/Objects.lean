import BulkTransfer.Proofs.Store.Layout

/-!
# What the operations of a store do

Every operation writes and removes only at the places of the objects that it names, and one
that succeeds has done what it was asked for: a stored object has the bytes of its source
and the class that was given, whatever was kept there before, and a deleted one is missing.
-/

namespace BulkTransfer

open DiskM (bind_eq_ok_iff mapError_eq_ok_iff attempt_eq_ok_iff)

namespace Store

variable {store : Store} {tree : FileTree} {disk later : Disk} {root : Place} {bucket : String}
  {location : Location} {written removed : Place → Prop} {content : ByteArray}
  {storage : StorageClass}

/-!
## Buckets and paths
-/

/-- Whether the directory of a bucket is there. -/
def HasBucket (store : Store) (tree : FileTree) (bucket : String) : Prop :=
  isBucketName bucket = true ∧
    ∃ place node, tree.stat (store.bucketPath bucket) = .ok (place, node) ∧ node.isDirectory = true

theorem HasBucket.evolves {later : FileTree} (h : tree.Evolves written removed later)
    (hroot : tree.Roots store.root root) (hbucket : store.HasBucket tree bucket) :
    store.HasBucket later bucket := by
  rcases hbucket with ⟨hname, place, node, hstat, hdirectory⟩
  exact ⟨hname, place, node,
    h.stat_directory hroot (continues_bucketPath store hname) hstat hdirectory, hdirectory⟩

theorem evolves_existingBucket (hsound : disk.tree.Sound) (bucket : String) :
    disk.Evolves written removed (store.existingBucket bucket disk).2 := by
  rw [existingBucket]
  split
  · exact .refl hsound
  · refine .bind (DiskM.evolves_look hsound _).attempt fun outcome between _ hbetween => ?_
    cases outcome with
    | ok found =>
        dsimp only
        split <;> exact .refl hbetween.tree.sound
    | error error =>
        dsimp only
        split <;> exact .refl hbetween.tree.sound

/-- A bucket that exists has the path of its name, and looking at it changes nothing. -/
theorem existingBucket_eq_ok {path : String}
    (h : store.existingBucket bucket disk = (.ok path, later)) :
    store.HasBucket disk.tree bucket ∧ path = store.bucketPath bucket ∧
      later.tree = disk.tree := by
  rw [existingBucket] at h
  cases hname : isBucketName bucket with
  | false =>
      rw [hname] at h
      cases h
  | true =>
      rw [hname, Bool.not_true, if_neg Bool.false_ne_true] at h
      rcases bind_eq_ok_iff.mp h with ⟨outcome, between, hattempt, h⟩
      have hattempt := attempt_eq_ok_iff.mp hattempt
      cases outcome with
      | error error =>
          dsimp only at h
          split at h <;> cases h
      | ok found =>
          rcases found with ⟨place, node⟩
          rcases DiskM.look_eq_ok hattempt with ⟨hstat, htree⟩
          dsimp only at h
          split at h
          · rename_i hdirectory
            cases h
            exact ⟨⟨hname, place, node, hstat, hdirectory⟩, rfl, htree⟩
          · cases h

theorem existingBucket_of_hasBucket (h : store.HasBucket tree bucket) :
    store.existingBucket bucket { tree := tree } =
      (.ok (store.bucketPath bucket), { tree := tree }) := by
  rcases h with ⟨hname, place, node, hstat, hdirectory⟩
  rw [existingBucket, hname, Bool.not_true, if_neg Bool.false_ne_true]
  refine bind_eq_ok_iff.mpr ⟨tree.stat (store.bucketPath bucket), { tree := tree }, rfl, ?_⟩
  rw [hstat]
  dsimp only
  rw [hdirectory, if_pos rfl]
  rfl

theorem evolves_objectPath (hsound : disk.tree.Sound) (location : Location) :
    disk.Evolves written removed (store.objectPath location disk).2 := by
  rw [objectPath]
  split
  · exact .refl hsound
  · exact .bind (evolves_existingBucket hsound _) fun _ _ _ hbetween =>
      .refl hbetween.tree.sound

theorem objectPath_eq_ok {path : String}
    (h : store.objectPath location disk = (.ok path, later)) :
    IsValid location ∧ store.HasBucket disk.tree location.bucket ∧
      path = store.filePath location ∧ later.tree = disk.tree := by
  rw [objectPath] at h
  cases hkey : isObjectKey location.key with
  | false =>
      rw [hkey] at h
      cases h
  | true =>
      rw [hkey, Bool.not_true, if_neg Bool.false_ne_true] at h
      rcases bind_eq_ok_iff.mp h with ⟨found, between, hfound, h⟩
      cases h
      rcases existingBucket_eq_ok hfound with ⟨hbucket, rfl, htree⟩
      exact ⟨⟨hbucket.1, hkey⟩, hbucket, rfl, htree⟩

theorem objectPath_of_hasBucket (hvalid : IsValid location)
    (h : store.HasBucket tree location.bucket) :
    store.objectPath location { tree := tree } =
      (.ok (store.filePath location), { tree := tree }) := by
  rw [objectPath, hvalid.key, Bool.not_true, if_neg Bool.false_ne_true]
  exact bind_eq_ok_iff.mpr ⟨_, _, existingBucket_of_hasBucket h, rfl⟩

/-!
## Looking at objects
-/

theorem evolves_readClass (hsound : disk.tree.Sound) (location : Location) :
    disk.Evolves written removed (store.readClass location disk).2 := by
  rw [readClass]
  refine .bind (DiskM.evolves_look hsound _).attempt fun outcome between _ hbetween => ?_
  cases outcome <;> exact .refl hbetween.tree.sound

theorem readClass_of_quiet (hquiet : disk.Quiet) (location : Location) :
    store.readClass location disk = (.ok (classAt (store.sidecarPath location) disk.tree),
      { disk with faults := disk.faults.tail }) := by
  rw [readClass]
  refine bind_eq_ok_iff.mpr ⟨disk.tree.readFile (store.sidecarPath location),
    { disk with faults := disk.faults.tail }, ?_, ?_⟩
  · rw [DiskM.attempt_apply, Disk.readFile, DiskM.look_of_quiet _ hquiet]
  · rw [classAt]
    cases disk.tree.readFile (store.sidecarPath location) <;> rfl

theorem readClass_eq_ok (h : store.readClass location disk = (.ok storage, later)) :
    later.tree = disk.tree ∧
      (disk.Unstruck later → storage = classAt (store.sidecarPath location) disk.tree) := by
  rw [readClass] at h
  rcases bind_eq_ok_iff.mp h with ⟨outcome, between, hattempt, h⟩
  have hlook := attempt_eq_ok_iff.mp hattempt
  have htree : between.tree = disk.tree := DiskM.tree_of_look hlook
  cases outcome with
  | ok found =>
      cases h
      refine ⟨htree, fun hunstruck => ?_⟩
      rw [classAt, DiskM.look_of_unstruck hlook hunstruck]
  | error error =>
      cases h
      refine ⟨htree, fun hunstruck => ?_⟩
      rw [classAt, DiskM.look_of_unstruck hlook hunstruck]

theorem evolves_infoAt (hsound : disk.tree.Sound) (location : Location) (path : String) :
    disk.Evolves written removed (store.infoAt location path disk).2 := by
  rw [infoAt]
  refine .bind (DiskM.evolves_look hsound _).attempt fun outcome between _ hbetween => ?_
  cases outcome with
  | ok found =>
      rcases found with ⟨place, node⟩
      cases node with
      | file content modified =>
          exact .bind (evolves_readClass hbetween.tree.sound location) fun _ _ _ hread =>
            .refl hread.tree.sound
      | directory | closed | link => exact .refl hbetween.tree.sound
  | error error =>
      dsimp only
      split <;> exact .refl hbetween.tree.sound

/-- What is said about an object is what the file at its path shows. -/
theorem infoAt_eq_some (hsound : disk.tree.Sound) {path : String} {info : ObjectInfo}
    (h : store.infoAt location path disk = (.ok (some info), later)) :
    later.tree = disk.tree ∧
      ∃ place content, disk.tree.stat path = .ok (place, .file content info.modified) ∧
        info.key = location.key ∧ info.size = content.size ∧
        (disk.Unstruck later →
          info.storage = classAt (store.sidecarPath location) disk.tree) := by
  rw [infoAt] at h
  rcases bind_eq_ok_iff.mp h with ⟨outcome, between, hattempt, h⟩
  have hlook := attempt_eq_ok_iff.mp hattempt
  cases outcome with
  | error error =>
      dsimp only at h
      split at h <;> cases h
  | ok found =>
      rcases found with ⟨place, node⟩
      rcases DiskM.look_eq_ok hlook with ⟨hstat, htree⟩
      cases node with
      | directory | closed | link => cases h
      | file content modified =>
          rcases bind_eq_ok_iff.mp h with ⟨storage, read, hread, h⟩
          cases h
          rcases readClass_eq_ok hread with ⟨htree', hclass⟩
          rw [htree] at htree' hclass
          refine ⟨htree', place, content, hstat, rfl, rfl, fun hunstruck => hclass ?_⟩
          have hlooked : disk.Evolves (fun _ => False) (fun _ => False) (Disk.stat path disk).2 :=
            DiskM.evolves_look hsound _
          rw [hlook] at hlooked
          have hread' : between.Evolves (fun _ => False) (fun _ => False)
              (store.readClass location between).2 :=
            evolves_readClass hlooked.tree.sound location
          rw [hread] at hread'
          exact hlooked.unstruck hread'.faults hunstruck

/-- Unless a fault strikes, nothing is said about an object only if no file is at its path. -/
theorem infoAt_eq_none {path : String}
    (h : store.infoAt location path disk = (.ok none, later)) (hunstruck : disk.Unstruck later)
    (place : Place) (content : ByteArray) (modified : Int) :
    disk.tree.stat path ≠ .ok (place, .file content modified) := by
  intro hstat
  rw [infoAt] at h
  rcases bind_eq_ok_iff.mp h with ⟨outcome, between, hattempt, h⟩
  have hlook := attempt_eq_ok_iff.mp hattempt
  cases outcome with
  | ok found =>
      have hfound := (DiskM.look_eq_ok hlook).1
      rw [hstat] at hfound
      cases hfound
      rcases bind_eq_ok_iff.mp h with ⟨storage, read, hread, h⟩
      cases h
  | error error =>
      dsimp only at h
      split at h
      · cases h
        have hfound := DiskM.look_of_unstruck hlook hunstruck
        rw [hstat] at hfound
        cases hfound
      · cases h

/-- Unless a fault strikes, the answer about an object is what its location stands for. -/
theorem head_eq_ok (hsound : disk.tree.Sound) {info? : Option ObjectInfo}
    (h : store.head location disk = (.ok info?, later)) (hunstruck : disk.Unstruck later) :
    info?.map (fun info => (info.key, info.size, info.storage)) =
      (store.object? disk.tree location).map
        fun object => (location.key, object.1.size, object.2) := by
  rw [head] at h
  rcases bind_eq_ok_iff.mp h with ⟨path, between, hpath, h⟩
  have hlooked : disk.Evolves (fun _ => False) (fun _ => False)
      (store.objectPath location disk).2 := evolves_objectPath hsound location
  rw [hpath] at hlooked
  have hinfo : between.Evolves (fun _ => False) (fun _ => False)
      (store.infoAt location path between).2 := evolves_infoAt hlooked.tree.sound location path
  rw [h] at hinfo
  have hunstruck' := hlooked.unstruck hinfo.faults hunstruck
  rcases objectPath_eq_ok hpath with ⟨hvalid, -, rfl, htree⟩
  cases info? with
  | none =>
      have hmissing := infoAt_eq_none h hunstruck'
      rw [htree] at hmissing
      rw [object?_eq_none hmissing]
      rfl
  | some info =>
      rcases infoAt_eq_some hlooked.tree.sound h with
        ⟨-, place, content, hstat, hkey, hsize, hstorage⟩
      rw [htree] at hstat hstorage
      have hobject : store.object? disk.tree location =
          some (content, classAt (store.sidecarPath location) disk.tree) :=
        object?_eq_some_iff.mpr ⟨hvalid, ⟨place, info.modified, hstat⟩, rfl⟩
      rw [hobject]
      simp only [Option.map_some, hkey, hsize, hstorage hunstruck']

/-- Without faults an object that is there is reported. -/
theorem head_of_object? (hbucket : store.HasBucket tree location.bucket)
    (h : store.object? tree location = some (content, storage)) :
    ∃ modified, store.head location { tree := tree } =
      (.ok (some { key := location.key, size := content.size, modified := modified,
                   storage := storage }), { tree := tree }) := by
  rcases object?_eq_some_iff.mp h with ⟨hvalid, ⟨place, modified, hstat⟩, hclass⟩
  refine ⟨modified, ?_⟩
  rw [head]
  refine bind_eq_ok_iff.mpr ⟨_, _, objectPath_of_hasBucket hvalid hbucket, ?_⟩
  rw [infoAt]
  refine bind_eq_ok_iff.mpr ⟨tree.stat (store.filePath location), { tree := tree }, rfl, ?_⟩
  rw [hstat]
  have hquiet : Disk.Quiet { tree := tree } := fun fault hfault => absurd hfault List.not_mem_nil
  refine bind_eq_ok_iff.mpr ⟨_, _, readClass_of_quiet hquiet location, ?_⟩
  dsimp only
  rw [hclass]
  rfl

/-- The file of an object is required. -/
theorem requireObject_eq_ok (hsound : disk.tree.Sound) {path : String}
    (h : store.requireObject location disk = (.ok path, later)) :
    path = store.filePath location ∧ later.tree = disk.tree ∧
      ∃ content storage, store.object? disk.tree location = some (content, storage) := by
  rw [requireObject] at h
  rcases bind_eq_ok_iff.mp h with ⟨found, between, hpath, h⟩
  rcases objectPath_eq_ok hpath with ⟨hvalid, -, rfl, htree⟩
  rcases bind_eq_ok_iff.mp h with ⟨info?, last, hinfo, h⟩
  cases info? with
  | none => cases h
  | some info =>
      cases h
      rcases infoAt_eq_some (by rwa [htree]) hinfo with ⟨htree', place, content, hstat, -⟩
      rw [htree] at htree' hstat
      exact ⟨rfl, htree', content, _, object?_eq_some_iff.mpr ⟨hvalid, ⟨place, _, hstat⟩, rfl⟩⟩

theorem evolves_requireObject (hsound : disk.tree.Sound) (location : Location) :
    disk.Evolves written removed (store.requireObject location disk).2 := by
  rw [requireObject]
  refine .bind (evolves_objectPath hsound _) fun path between _ hbetween => ?_
  refine .bind (evolves_infoAt hbetween.tree.sound _ _) fun info? last _ hlast => ?_
  cases info? <;> exact .refl hlast.tree.sound

/-- The place where the file of an object is opened. -/
theorem openAt_filePath (hroot : tree.Roots store.root root) (hvalid : IsValid location)
    {place : Place} (h : tree.openAt (store.filePath location) = .ok place) :
    place = root ++ objectNames location := by
  rw [FileTree.openAt] at h
  split at h
  · cases h
  · cases h
  · rename_i found node _ hstat
    cases h
    exact ((hroot.stat_eq_ok_iff (continues_filePath store hvalid)).mp hstat).2.2.1

/-!
## Classes
-/

theorem classOfContent_name (storage : StorageClass) :
    classOfContent storage.name.toUTF8 = storage := by
  cases storage <;> decide +kernel

theorem evolves_writeClass (hsound : disk.tree.Sound) (hroot : disk.tree.Roots store.root root)
    (hvalid : IsValid location) (storage : StorageClass) :
    disk.Evolves (· = root ++ sidecarNames location) (· = root ++ sidecarNames location)
      (store.writeClass location storage disk).2 := by
  have hpath := continues_sidecarPath store hvalid
  have hleads : disk.tree.LeadsInto (store.sidecarPath location)
      (· = root ++ sidecarNames location) := hroot.leadsInto hpath rfl
  rw [writeClass]
  by_cases hstandard : storage = .standard
  · rw [if_pos hstandard]
    refine .bind (Disk.evolves_remove hsound ?_).attempt fun _ _ _ hlast =>
      .refl hlast.tree.sound
    exact fun resolved hresolve => hleads _ (.refl hsound) false resolved hresolve
  · rw [if_neg hstandard]
    refine .grow_bind (FileCopy.evolves_makeParent hsound _) fun _ made _ hmade => ?_
    refine .mapError (.grow_bind (Disk.evolves_create hmade.tree.sound ?_)
      fun place created hcreate hcreated => ?_)
    · exact fun resolved hresolve => hleads _ hmade.tree true resolved hresolve
    · refine Disk.evolves_append hcreated.tree.sound ?_ _
      rcases FileTree.create_eq_ok hmade.tree.sound (Disk.create_eq_ok hcreate) with
        ⟨resolved, hresolve, hplace, -⟩
      rw [← hplace]
      exact hleads _ hmade.tree true resolved hresolve

/-- A class that is written is the class that is read, but a fault may keep the sidecar file
of an object that gets the standard class. -/
theorem classAt_of_writeClass (hsound : disk.tree.Sound)
    (hroot : disk.tree.Roots store.root root) (hvalid : IsValid location)
    (h : store.writeClass location storage disk = (.ok (), later))
    (hkept : storage ≠ .standard ∨ disk.Unstruck later) :
    classAt (store.sidecarPath location) later.tree = storage := by
  have hevolves := evolves_writeClass hsound hroot hvalid storage
  rw [h] at hevolves
  have hpath := continues_sidecarPath store hvalid
  rw [writeClass] at h
  by_cases hstandard : storage = .standard
  · rw [if_pos hstandard] at h
    rcases bind_eq_ok_iff.mp h with ⟨outcome, last, hattempt, h⟩
    cases h
    have hremoved := attempt_eq_ok_iff.mp hattempt
    have hunread : ∀ content, later.tree.readFile (store.sidecarPath location) ≠ .ok content := by
      rcases Disk.remove_of_unstruck hremoved (hkept.resolve_left fun h => h hstandard) with
        hremove | ⟨error, hremove, htree⟩
      · exact hroot.readFile_of_remove_ok hsound hpath hremove
      · rw [htree]
        exact hroot.readFile_of_remove_error hsound hpath hremove
    rw [classAt, hstandard]
    cases hread : later.tree.readFile (store.sidecarPath location) with
    | ok content => exact absurd hread (hunread content)
    | error error => rfl
  · rw [if_neg hstandard] at h
    rcases bind_eq_ok_iff.mp h with ⟨⟨⟩, made, hmade, h⟩
    rcases bind_eq_ok_iff.mp (mapError_eq_ok_iff.mp h) with ⟨place, created, hcreate, happend⟩
    have hgrows : disk.Evolves (fun _ => False) (fun _ => False)
        (FileCopy.makeParent (store.sidecarPath location) disk).2 :=
      FileCopy.evolves_makeParent hsound _
    rw [hmade] at hgrows
    have hcreate := Disk.create_eq_ok hcreate
    rcases FileTree.create_eq_ok hgrows.tree.sound hcreate with
      ⟨resolved, hresolve, hplace, -, -, hne, -, -, hcreated⟩
    have hempty : created.tree.node? place = some (.file .empty made.tree.now) := by
      rw [hcreated, FileTree.node?_put _ _ _ hne, if_pos rfl]
    have hagrees : made.tree.AgreesExcept place later.tree := by
      have hcreated' : made.tree.AgreesExcept place created.tree := by
        rw [hcreated]
        exact FileTree.agreesExcept_put hne _
      rw [Disk.append_eq_ok happend]
      exact hcreated'.trans (FileTree.agreesExcept_append _)
    have hfile : later.tree.node? place =
        some (.file (.empty ++ storage.name.toUTF8) created.tree.now) := by
      rw [Disk.append_eq_ok happend, FileTree.node?_append_of_file hempty, if_pos rfl]
    rw [classAt, FileTree.readFile_of_create hgrows.tree.sound hevolves.tree.sound hcreate hagrees
      hfile, ByteArray.empty_append]
    exact classOfContent_name storage

end Store
end BulkTransfer
