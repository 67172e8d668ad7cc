import BulkTransfer.Proofs.Store.Objects

/-!
# Objects that are stored, fetched and deleted

An object that has been stored or copied has the bytes of the source and the class that was
given, and it is fetched with these bytes.  An object that has been deleted is missing, and
stays so until something is written at its place.
-/

namespace BulkTransfer

open DiskM (bind_eq_ok_iff mapError_eq_ok_iff attempt_eq_ok_iff)

namespace Store

variable {store : Store} {tree : FileTree} {disk between later : Disk} {root : Place}
  {location : Location} {written removed : Place → Prop} {content : ByteArray}
  {storage : StorageClass} {bytes : Nat} {cancel : CancelAfter}

/-!
## Storing
-/

/-- The steps by which a file becomes an object: its bytes are copied and its class is kept. -/
def storeFile (store : Store) (sourcePath : String) (location : Location)
    (storage : StorageClass) (cancel : CancelAfter) : DiskM JobError Nat := do
  let bytes ← FileCopy.copy sourcePath (store.filePath location) cancel
  store.writeClass location storage
  return bytes

section Storing

variable {sourcePath : String} (hsound : disk.tree.Sound)
  (hroot : disk.tree.Roots store.root root)
include hsound hroot

theorem evolves_copy_filePath (hvalid : IsValid location) :
    disk.Evolves (places root location) (places root location)
      (FileCopy.copy sourcePath (store.filePath location) cancel disk).2 :=
  FileCopy.evolves_copy hsound
    (hroot.leadsInto (continues_filePath store hvalid) ⟨hvalid, Or.inl rfl⟩)

theorem evolves_storeFile (hvalid : IsValid location) (storage : StorageClass) :
    disk.Evolves (places root location) (places root location)
      (store.storeFile sourcePath location storage cancel disk).2 := by
  rw [storeFile]
  refine .bind (evolves_copy_filePath hsound hroot hvalid) fun bytes copied _ hcopied => ?_
  have hwrite := evolves_writeClass hcopied.tree.sound (hcopied.tree.roots hroot) hvalid storage
  exact .bind (hwrite.mono (fun _ h => ⟨hvalid, Or.inr h⟩) fun _ h => ⟨hvalid, Or.inr h⟩)
    fun _ _ _ hlast => .refl hlast.tree.sound

/-- A location stands for the bytes of the file that has become an object, and for its class. -/
theorem storeFile_eq_ok (hvalid : IsValid location)
    (hapart : ∀ place, disk.tree.openAt sourcePath = .ok place →
      place ≠ root ++ objectNames location)
    (h : store.storeFile sourcePath location storage none disk = (.ok bytes, later)) :
    ∃ content storage', disk.tree.readFile sourcePath = .ok content ∧ bytes = content.size ∧
      store.object? later.tree location = some (content, storage') ∧
        (storage ≠ .standard ∨ disk.Unstruck later → storage' = storage) := by
  rw [storeFile] at h
  rcases bind_eq_ok_iff.mp h with ⟨bytes, copied, hcopy, h⟩
  rcases bind_eq_ok_iff.mp h with ⟨⟨⟩, last, hwrite, h⟩
  cases h
  have hpath := continues_filePath store hvalid
  have hleads : disk.tree.LeadsInto (store.filePath location)
      (· = root ++ objectNames location) := hroot.leadsInto hpath rfl
  have hcopied : disk.Evolves (places root location) (places root location)
      (FileCopy.copy sourcePath (store.filePath location) none disk).2 :=
    evolves_copy_filePath hsound hroot hvalid
  rw [hcopy] at hcopied
  have hroot' := hcopied.tree.roots hroot
  have hwritten := evolves_writeClass hcopied.tree.sound hroot' hvalid storage
  rw [hwrite] at hwritten
  rcases FileCopy.readFile_of_copy hsound hleads hapart hcopy with
    ⟨content, hsource, hbytes, hread⟩
  have hother : ¬ root ++ objectNames location = root ++ sidecarNames location := fun hsame =>
    sidecarNames_ne_objectNames hvalid (List.append_cancel_left hsame).symm
  have hread' : later.tree.readFile (store.filePath location) = .ok content :=
    (hwritten.tree.readFile_eq_ok_iff hcopied.tree.sound hroot' hpath hother hother).mpr hread
  refine ⟨content, _, hsource, hbytes, object?_eq_some_iff.mpr
    ⟨hvalid, hwritten.tree.sound.readFile_eq_ok_iff.mp hread', rfl⟩, fun hkept => ?_⟩
  exact classAt_of_writeClass hcopied.tree.sound hroot' hvalid hwrite
    (hkept.imp_right (hcopied.unstruck hwritten.faults))

theorem evolves_put (source : String) (location : Location) (storage : StorageClass)
    (cancel : CancelAfter) :
    disk.Evolves (places root location) (places root location)
      (store.put source location storage cancel disk).2 := by
  rw [put]
  refine .bind (evolves_objectPath hsound location) fun path found hfound hevolves => ?_
  rcases objectPath_eq_ok hfound with ⟨hvalid, -, rfl, -⟩
  exact evolves_storeFile hevolves.tree.sound (hevolves.tree.roots hroot) hvalid storage

/-- An object that has been stored has the bytes of the file and the class; only a fault may
keep the former class in place of the standard one. -/
theorem put_eq_ok {source : String}
    (hapart : ∀ place, disk.tree.openAt source = .ok place → ¬ root <+: place)
    (h : store.put source location storage none disk = (.ok bytes, later)) :
    ∃ content storage', disk.tree.readFile source = .ok content ∧ bytes = content.size ∧
      store.object? later.tree location = some (content, storage') ∧
        (storage ≠ .standard ∨ disk.Unstruck later → storage' = storage) := by
  rw [put] at h
  rcases bind_eq_ok_iff.mp h with ⟨path, found, hfound, h⟩
  have hlooked : disk.Evolves (fun _ => False) (fun _ => False)
      (store.objectPath location disk).2 := evolves_objectPath hsound location
  rw [hfound] at hlooked
  have hroot' := hlooked.tree.roots hroot
  rcases objectPath_eq_ok hfound with ⟨hvalid, -, rfl, htree⟩
  have hstore : store.storeFile source location storage none found = (.ok bytes, later) := h
  have hstored : found.Evolves (places root location) (places root location)
      (store.storeFile source location storage none found).2 :=
    evolves_storeFile hlooked.tree.sound hroot' hvalid storage
  rw [hstore] at hstored
  have houtside : ∀ place, found.tree.openAt source = .ok place →
      place ≠ root ++ objectNames location := by
    rw [htree]
    rintro place hopen rfl
    exact hapart _ hopen (List.prefix_append _ _)
  rcases storeFile_eq_ok hlooked.tree.sound hroot' hvalid houtside hstore with
    ⟨content, storage', hread, hbytes, hobject, hkept⟩
  rw [htree] at hread
  exact ⟨content, storage', hread, hbytes, hobject,
    fun h => hkept (h.imp_right (hlooked.unstruck hstored.faults))⟩

theorem evolves_copy (source target : Location) (storage : StorageClass)
    (cancel : CancelAfter) :
    disk.Evolves (places root target) (places root target)
      (store.copy source target storage cancel disk).2 := by
  rw [copy]
  by_cases hsame : source = target
  · rw [if_pos hsame]
    exact .refl hsound
  · rw [if_neg hsame]
    refine .bind (evolves_requireObject hsound source) fun path found _ hfound => ?_
    refine .bind (evolves_objectPath hfound.tree.sound target) fun path' last hlast hevolves => ?_
    rcases objectPath_eq_ok hlast with ⟨hvalid, -, rfl, -⟩
    exact evolves_storeFile hevolves.tree.sound
      (hevolves.tree.roots (hfound.tree.roots hroot)) hvalid storage

/-- An object that has been copied has the bytes of the source and the class. -/
theorem copy_eq_ok {source target : Location}
    (h : store.copy source target storage none disk = (.ok bytes, later)) :
    ∃ content former storage', store.object? disk.tree source = some (content, former) ∧
      bytes = content.size ∧ store.object? later.tree target = some (content, storage') ∧
        (storage ≠ .standard ∨ disk.Unstruck later → storage' = storage) := by
  rw [copy] at h
  by_cases hsame : source = target
  · rw [if_pos hsame] at h
    cases h
  · rw [if_neg hsame] at h
    rcases bind_eq_ok_iff.mp h with ⟨path, required, hrequired, h⟩
    have hfirst : disk.Evolves (fun _ => False) (fun _ => False)
        (store.requireObject source disk).2 := evolves_requireObject hsound source
    rw [hrequired] at hfirst
    rcases requireObject_eq_ok hsound hrequired with ⟨rfl, htree, content, former, hsource⟩
    rcases bind_eq_ok_iff.mp h with ⟨path, found, hfound, h⟩
    have hsecond : required.Evolves (fun _ => False) (fun _ => False)
        (store.objectPath target required).2 := evolves_objectPath hfirst.tree.sound target
    rw [hfound] at hsecond
    have hlooked := hfirst.trans hsecond
    have hroot' := hlooked.tree.roots hroot
    rcases objectPath_eq_ok hfound with ⟨hvalid, -, rfl, htree'⟩
    rw [htree] at htree'
    have hstore : store.storeFile (store.filePath source) target storage none found =
        (.ok bytes, later) := h
    have hstored : found.Evolves (places root target) (places root target)
        (store.storeFile (store.filePath source) target storage none found).2 :=
      evolves_storeFile hlooked.tree.sound hroot' hvalid storage
    rw [hstore] at hstored
    rcases object?_eq_some_iff.mp hsource with ⟨hvalidSource, hstat, -⟩
    have houtside : ∀ place, found.tree.openAt (store.filePath source) = .ok place →
        place ≠ root ++ objectNames target := by
      rw [htree']
      rintro place hopen rfl
      have hplace := openAt_filePath hroot hvalidSource hopen
      exact hsame (objectNames_inj (List.append_cancel_left hplace).symm)
    rcases storeFile_eq_ok hlooked.tree.sound hroot' hvalid houtside hstore with
      ⟨content', storage', hread, hbytes, hobject, hkept⟩
    rw [htree', (hsound.readFile_eq_ok_iff).mpr hstat] at hread
    cases hread
    exact ⟨content, former, storage', hsource, hbytes, hobject,
      fun h => hkept (h.imp_right (hlooked.unstruck hstored.faults))⟩

end Storing

/-!
## Fetching
-/

/-- A path of the local file system that never leads below the root of the store. -/
def Apart (root : Place) (tree : FileTree) (path : String) : Prop :=
  tree.LeadsInto path fun place => ¬ root <+: place

theorem Apart.openAt {path : String} (hsound : tree.Sound) (h : Apart root tree path)
    {place : Place} (hopen : tree.openAt path = .ok place) : ¬ root <+: place := by
  rw [FileTree.openAt] at hopen
  split at hopen
  · cases hopen
  · cases hopen
  · rename_i found node _ hstat
    cases hopen
    exact h tree (.refl hsound) true _ (FileTree.stat_eq_ok_iff.mp hstat).1

theorem evolves_get (hsound : disk.tree.Sound) {target : String}
    (hapart : Apart root disk.tree target) :
    disk.Evolves (fun place => ¬ root <+: place) (fun place => ¬ root <+: place)
      (store.get location target cancel disk).2 := by
  rw [get]
  refine .grow_bind (evolves_requireObject hsound location) fun path found _ hfound => ?_
  exact FileCopy.evolves_copy hfound.tree.sound (hapart.grows hfound.tree)

/-- An object that has been fetched was there, and its bytes are in the file. -/
theorem get_eq_ok (hsound : disk.tree.Sound) (hroot : disk.tree.Roots store.root root)
    {target : String} (hapart : Apart root disk.tree target)
    (h : store.get location target none disk = (.ok bytes, later)) :
    ∃ content storage, store.object? disk.tree location = some (content, storage) ∧
      bytes = content.size ∧ later.tree.readFile target = .ok content := by
  rw [get] at h
  rcases bind_eq_ok_iff.mp h with ⟨path, required, hrequired, h⟩
  rcases requireObject_eq_ok hsound hrequired with ⟨rfl, htree, content, storage, hobject⟩
  rcases object?_eq_some_iff.mp hobject with ⟨hvalid, hstat, -⟩
  rw [Apart, ← htree] at hapart
  have houtside : ∀ place, required.tree.openAt (store.filePath location) = .ok place →
      ¬ ¬ root <+: place := by
    intro place hopen hplace
    rw [htree] at hopen
    rw [openAt_filePath hroot hvalid hopen] at hplace
    exact hplace (List.prefix_append _ _)
  rcases FileCopy.readFile_of_copy (by rwa [htree]) hapart houtside h with
    ⟨content', hread, hbytes, hlater⟩
  rw [htree, hsound.readFile_eq_ok_iff.mpr hstat] at hread
  cases hread
  exact ⟨content, storage, hobject, hbytes, hlater⟩

/-- Without faults an object that is there is fetched wherever a file can be created. -/
theorem get_of_object? (hsound : tree.Sound) (hroot : tree.Roots store.root root)
    (hbucket : store.HasBucket tree location.bucket)
    (hobject : store.object? tree location = some (content, storage)) {target : String}
    (hapart : Apart root tree target) (hready : FileCopy.CanReceive tree target) :
    ∃ later, store.get location target none { tree := tree } = (.ok content.size, later) ∧
      later.tree.readFile target = .ok content := by
  rcases object?_eq_some_iff.mp hobject with ⟨hvalid, ⟨place, modified, hstat⟩, -⟩
  have hplace : place = root ++ objectNames location :=
    ((hroot.stat_eq_ok_iff (continues_filePath store hvalid)).mp hstat).2.2.1
  have hinside : ¬ ¬ root <+: place := by
    rw [hplace, not_not]
    exact List.prefix_append _ _
  rcases FileCopy.copy_of_canReceive hsound hapart hstat hinside hready with
    ⟨bytes, later, hcopy⟩
  have hget : store.get location target none { tree := tree } = (.ok bytes, later) := by
    rw [get]
    refine bind_eq_ok_iff.mpr ⟨store.filePath location, { tree := tree }, ?_, hcopy⟩
    rw [requireObject]
    refine bind_eq_ok_iff.mpr ⟨_, _, objectPath_of_hasBucket hvalid hbucket, ?_⟩
    rcases head_of_object? hbucket hobject with ⟨time, hhead⟩
    rw [head] at hhead
    rcases bind_eq_ok_iff.mp hhead with ⟨path, found, hpath, hinfo⟩
    rw [objectPath_of_hasBucket hvalid hbucket] at hpath
    cases hpath
    exact bind_eq_ok_iff.mpr ⟨_, _, hinfo, rfl⟩
  have hsound' : (Disk.mk tree []).tree.Sound := hsound
  rcases get_eq_ok hsound' hroot hapart hget with
    ⟨content', storage', hobject', hbytes, hread⟩
  rw [hobject] at hobject'
  cases hobject'
  exact ⟨later, by rw [hget, hbytes], hread⟩

/-!
## Deleting
-/

/-- An object whose file is missing from a directory that is there. -/
structure Missing (store : Store) (root : Place) (tree : FileTree) (location : Location) :
    Prop where
  valid : IsValid location
  bucket : store.HasBucket tree location.bucket
  usable : FileTree.IsUsable (store.filePath location)
  opens : tree.Opens root (objectNames location)
  vacant : tree.node? (root ++ objectNames location) = none ∨
    tree.node? (root ++ objectNames location) = some .directory

namespace Missing

/-- A missing object stays missing where nothing is written. -/
theorem evolves {later : FileTree} (h : tree.Evolves written removed later)
    (hroot : tree.Roots store.root root) (hwritten : ¬ written (root ++ objectNames location))
    (hmissing : store.Missing root tree location) : store.Missing root later location :=
  ⟨hmissing.valid, hmissing.bucket.evolves h hroot, hmissing.usable, h.opens hmissing.opens,
    (h.turns _).eq_none_or_directory hwritten hmissing.vacant⟩

theorem object?_eq_none (hroot : tree.Roots store.root root)
    (hmissing : store.Missing root tree location) : store.object? tree location = none := by
  refine Store.object?_eq_none fun place content modified hstat => ?_
  have hnode := ((hroot.stat_eq_ok_iff (continues_filePath store hmissing.valid)).mp
    hstat).2.2.2.1
  rcases hmissing.vacant with hvacant | hvacant
  · rw [hvacant] at hnode
    cases hnode
  · rw [hvacant] at hnode
    cases hnode

/-- Without faults a missing object is reported as missing. -/
theorem head (hroot : tree.Roots store.root root)
    (hmissing : store.Missing root tree location) :
    store.head location { tree := tree } = (.ok none, { tree := tree }) := by
  rw [Store.head]
  refine bind_eq_ok_iff.mpr
    ⟨_, _, objectPath_of_hasBucket hmissing.valid hmissing.bucket, ?_⟩
  rw [infoAt]
  refine bind_eq_ok_iff.mpr ⟨tree.stat (store.filePath location), { tree := tree }, rfl, ?_⟩
  have hresolve : tree.resolve true (store.filePath location) =
      .ok (tree.resolvedAt (root ++ objectNames location)) :=
    (hroot.resolve_eq_ok_iff (continues_filePath store hmissing.valid)).mpr
      ⟨hmissing.usable, hmissing.opens, rfl⟩
  rcases hmissing.vacant with hvacant | hvacant
  · have hstat : tree.stat (store.filePath location) = .error (.system .noEntry) := by
      rw [FileTree.resolvedAt, hvacant] at hresolve
      rw [FileTree.stat, hresolve]
    rw [hstat]
    rfl
  · have hstat : tree.stat (store.filePath location) =
        .ok (root ++ objectNames location, .directory) := by
      rw [FileTree.resolvedAt_of_some hvacant] at hresolve
      exact FileTree.stat_eq_ok_iff.mpr ⟨hresolve, fun _ => rfl⟩
    rw [hstat]
    rfl

end Missing

section Deleting

variable (hsound : disk.tree.Sound) (hroot : disk.tree.Roots store.root root)
include hsound hroot

theorem evolves_remove_place {path : String} {names : List String}
    (hpath : FileTree.Continues store.root path names)
    (hremoved : removed (root ++ names)) :
    disk.Evolves (fun _ => False) removed (Disk.remove path disk).2 := by
  refine Disk.evolves_remove hsound fun resolved hresolve => ?_
  rcases (hroot.resolve_eq_ok_iff hpath).mp hresolve with ⟨-, -, rfl⟩
  rwa [FileTree.place_resolvedAt]

theorem evolves_delete (location : Location) :
    disk.Evolves (fun _ => False) (places root location) (store.delete location disk).2 := by
  rw [delete]
  refine .bind (evolves_objectPath hsound location) fun path found hfound hevolves => ?_
  rcases objectPath_eq_ok hfound with ⟨hvalid, -, rfl, -⟩
  refine .bind (evolves_remove_place hevolves.tree.sound (hevolves.tree.roots hroot)
    (continues_filePath store hvalid) ⟨hvalid, Or.inl rfl⟩).attempt fun outcome last _ hlast => ?_
  cases outcome with
  | ok =>
      exact .bind (evolves_remove_place hlast.tree.sound
        ((hevolves.trans hlast).tree.roots hroot) (continues_sidecarPath store hvalid)
        ⟨hvalid, Or.inr rfl⟩).attempt fun _ _ _ h => .refl h.tree.sound
  | error error =>
      dsimp only
      split <;> exact .refl hlast.tree.sound

/-- An object that has been deleted is missing. -/
theorem missing_of_delete (h : store.delete location disk = (.ok (), later)) :
    store.Missing root later.tree location := by
  rw [delete] at h
  rcases bind_eq_ok_iff.mp h with ⟨path, found, hfound, h⟩
  have hlooked : disk.Evolves (fun _ => False) (places root location)
      (store.objectPath location disk).2 := evolves_objectPath hsound location
  rw [hfound] at hlooked
  rcases objectPath_eq_ok hfound with ⟨hvalid, hbucket, rfl, -⟩
  rcases bind_eq_ok_iff.mp h with ⟨outcome, gone, hattempt, h⟩
  cases outcome with
  | error error =>
      dsimp only at h
      split at h <;> cases h
  | ok =>
      have hremove := attempt_eq_ok_iff.mp hattempt
      have hroot' := hlooked.tree.roots hroot
      have hfile : FileTree.IsUsable (store.filePath location) ∧
          found.tree.Opens root (objectNames location) ∧
          gone.tree = found.tree.drop (root ++ objectNames location) ∧
          gone.tree.node? (root ++ objectNames location) = none ∧
          found.tree.Evolves (fun _ => False) (· = root ++ objectNames location) gone.tree :=
        hroot'.remove_eq_ok hlooked.tree.sound (continues_filePath store hvalid)
          (Disk.remove_eq_ok hremove)
      rcases hfile with ⟨husable, hopens, -, hvacant, hgone⟩
      have hmissing : store.Missing root gone.tree location :=
        ⟨hvalid, (hbucket.evolves hlooked.tree hroot).evolves hgone hroot', husable,
          hgone.opens hopens, Or.inl hvacant⟩
      rcases bind_eq_ok_iff.mp h with ⟨_, last, hsidecar, h⟩
      cases h
      have hroot'' := hgone.roots hroot'
      have hlast : gone.Evolves (fun _ => False) (places root location)
          (Disk.remove (store.sidecarPath location) gone).2 :=
        evolves_remove_place hgone.sound hroot'' (continues_sidecarPath store hvalid)
          ⟨hvalid, Or.inr rfl⟩
      rw [attempt_eq_ok_iff.mp hsidecar] at hlast
      exact hmissing.evolves hlast.tree hroot'' fun h => h

end Deleting

/-- The places of several objects of one bucket. -/
def placesOf (root : Place) (bucket : String) (keys : List String) (place : Place) : Prop :=
  ∃ key ∈ keys, places root { bucket := bucket, key := key } place

theorem evolves_deleteEach {bucket : String} (keys : List String) (hsound : disk.tree.Sound)
    (hroot : disk.tree.Roots store.root root) :
    disk.Evolves (fun _ => False) (placesOf root bucket keys)
      (store.deleteEach bucket keys disk).2 := by
  induction keys generalizing disk with
  | nil => exact .refl hsound
  | cons key keys ih =>
      rw [deleteEach]
      refine .bind (Disk.Evolves.mono (evolves_delete hsound hroot _) (fun _ h => h)
        fun _ h => ⟨key, List.mem_cons_self, h⟩).attempt fun outcome between _ hbetween => ?_
      have hrest := ih hbetween.tree.sound (hbetween.tree.roots hroot)
      refine .bind (hrest.mono (fun _ h => h) ?_) fun _ _ _ hlast => .refl hlast.tree.sound
      rintro place ⟨key', hmem, hplace⟩
      exact ⟨key', List.mem_cons_of_mem _ hmem, hplace⟩

/-- Each key gets an answer, and one without an error is missing. -/
theorem missing_of_deleteEach {bucket : String} {keys : List String}
    {outcomes : List (String × Option JobError)} (hsound : disk.tree.Sound)
    (hroot : disk.tree.Roots store.root root)
    (h : store.deleteEach bucket keys disk = (.ok outcomes, later)) :
    outcomes.map Prod.fst = keys ∧ ∀ key, (key, none) ∈ outcomes →
      store.Missing root later.tree { bucket := bucket, key := key } := by
  induction keys generalizing disk outcomes with
  | nil =>
      cases h
      exact ⟨rfl, fun key hmem => absurd hmem List.not_mem_nil⟩
  | cons key keys ih =>
      rw [deleteEach] at h
      rcases bind_eq_ok_iff.mp h with ⟨outcome, between, hattempt, h⟩
      have hdelete := attempt_eq_ok_iff.mp hattempt
      have hfirst : disk.Evolves (fun _ => False) (places root { bucket := bucket, key := key })
          (store.delete { bucket := bucket, key := key } disk).2 := evolves_delete hsound hroot _
      rw [hdelete] at hfirst
      rcases bind_eq_ok_iff.mp h with ⟨others, last, hothers, h⟩
      cases h
      have hroot' := hfirst.tree.roots hroot
      have hrest : between.Evolves (fun _ => False) (placesOf root bucket keys)
          (store.deleteEach bucket keys between).2 :=
        evolves_deleteEach keys hfirst.tree.sound hroot'
      rw [hothers] at hrest
      rcases ih hfirst.tree.sound hroot' hothers with ⟨hkeys, hmissing⟩
      refine ⟨by rw [List.map_cons, hkeys], fun key' hmem => ?_⟩
      rcases List.mem_cons.mp hmem with hhead | hmem
      · cases outcome with
        | error error => cases hhead
        | ok =>
            cases hhead
            exact (missing_of_delete hsound hroot hdelete).evolves hrest.tree hroot' fun h => h
      · exact hmissing key' hmem

theorem evolves_deleteMany {bucket : String} (keys : List String) (hsound : disk.tree.Sound)
    (hroot : disk.tree.Roots store.root root) :
    disk.Evolves (fun _ => False) (placesOf root bucket keys)
      (store.deleteMany bucket keys disk).2 := by
  rw [deleteMany]
  exact .bind (evolves_existingBucket hsound bucket) fun _ _ _ hbetween =>
    evolves_deleteEach keys hbetween.tree.sound (hbetween.tree.roots hroot)

theorem missing_of_deleteMany {bucket : String} {keys : List String}
    {outcomes : List (String × Option JobError)} (hsound : disk.tree.Sound)
    (hroot : disk.tree.Roots store.root root)
    (h : store.deleteMany bucket keys disk = (.ok outcomes, later)) :
    outcomes.map Prod.fst = keys ∧ ∀ key, (key, none) ∈ outcomes →
      store.Missing root later.tree { bucket := bucket, key := key } := by
  rw [deleteMany] at h
  rcases bind_eq_ok_iff.mp h with ⟨path, between, hbucket, h⟩
  have hlooked : disk.Evolves (fun _ => False) (fun _ => False)
      (store.existingBucket bucket disk).2 := evolves_existingBucket hsound bucket
  rw [hbucket] at hlooked
  exact missing_of_deleteEach hlooked.tree.sound (hlooked.tree.roots hroot) h

end Store
end BulkTransfer
