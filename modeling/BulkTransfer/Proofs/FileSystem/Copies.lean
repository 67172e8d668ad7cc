import BulkTransfer.Proofs.FileSystem.Operations

/-!
# Copies

A copy makes directories above its target, writes the target and, if it fails, removes it
again.  A copy that succeeds leaves the bytes of the source at the target; it succeeds on a
quiet disk if the source is a file and the target can be created.
-/

namespace BulkTransfer

open DiskM (bind_eq_ok_iff mapError_eq_ok_iff attempt_eq_ok_iff)

namespace FileTree

variable {allowed written removed : Place → Prop} {tree between later : FileTree} {path : String}
  {place : Place}

/-- Wherever files are written at allowed places, a path leads to such a place. -/
def LeadsInto (tree : FileTree) (path : String) (allowed : Place → Prop) : Prop :=
  ∀ later, tree.Grows allowed later → ∀ followLast resolved,
    later.resolve followLast path = .ok resolved → allowed resolved.place

theorem LeadsInto.grows (h : tree.LeadsInto path allowed) (hgrows : tree.Grows allowed between) :
    between.LeadsInto path allowed :=
  fun later hlater => h later (hgrows.trans hlater)

theorem Roots.leadsInto {base : String} {root : Place} {names : List String}
    (hroot : tree.Roots base root) (hpath : Continues base path names)
    (hallowed : allowed (root ++ names)) : tree.LeadsInto path allowed := by
  intro later hgrows followLast resolved hresolve
  rcases ((hgrows.roots hroot).resolve_eq_ok_iff hpath).mp hresolve with ⟨-, -, rfl⟩
  rwa [place_resolvedAt]

/-- A tree that differs at one place only. -/
structure AgreesExcept (place : Place) (tree later : FileTree) : Prop where
  workingDirectory : later.workingDirectory = tree.workingDirectory
  elsewhere : ∀ other, other ≠ place → later.node? other = tree.node? other

namespace AgreesExcept

theorem refl : tree.AgreesExcept place tree :=
  ⟨rfl, fun _ _ => rfl⟩

theorem trans (h : tree.AgreesExcept place between) (h' : between.AgreesExcept place later) :
    tree.AgreesExcept place later :=
  ⟨h'.workingDirectory.trans h.workingDirectory,
    fun other hne => (h'.elsewhere other hne).trans (h.elsewhere other hne)⟩

end AgreesExcept

theorem agreesExcept_put (hne : place ≠ []) (node : Node) :
    tree.AgreesExcept place (tree.put place node) :=
  ⟨rfl, fun other h => by rw [node?_put tree node other hne, if_neg (Ne.symm h)]⟩

theorem agreesExcept_append (bytes : ByteArray) :
    tree.AgreesExcept place (tree.append place bytes) := by
  rw [append]
  split
  · rename_i content modified hnode
    refine agreesExcept_put ?_ _
    rintro rfl
    cases hnode
  · exact .refl

/-!
## Files that have been written
-/

/-- A path leads to what has been written at the place that it led to. -/
theorem resolve_written {content : ByteArray} {modified : Int}
    (hagrees : tree.AgreesExcept place later)
    (hold : ∀ node, tree.node? place = some node → node.isFile = true)
    (hfile : later.node? place = some (.file content modified)) {followLast : Bool}
    {resolved : Resolved} (hresolve : tree.resolve followLast path = .ok resolved)
    (hplace : resolved.place = place) (hnode : resolved.node? = tree.node? place) :
    later.resolve followLast path = .ok (.entry place (.file content modified)) := by
  subst hplace
  refine resolve_of_written hresolve ?_ rfl hagrees.workingDirectory hfile ?_
  · rwa [hnode]
  · intro other held hother hnot
    rw [hagrees.elsewhere other, hother]
    rintro rfl
    rw [hold held hother] at hnot
    cases hnot

/-- A tree in which the file that a path leads to has been made empty. -/
structure Emptied (tree : FileTree) (path : String) (place : Place) (later : FileTree) : Prop where
  grows : tree.Grows (· = place) later
  agrees : tree.AgreesExcept place later
  slashFree : Path.endsInSlash path = false
  leads : ∀ followLast, tree.resolve followLast path = tree.resolve true path →
    later.resolve followLast path = .ok (.entry place (.file .empty tree.now))

theorem emptied_of_create (hsound : tree.Sound) (h : tree.create path = .ok (place, later)) :
    tree.Emptied path place later := by
  rcases create_eq_ok hsound h with
    ⟨resolved, hresolve, hplace, hheld, hslash, hroot, hold, hparent, rfl⟩
  have hagrees : tree.AgreesExcept place (tree.put place (.file .empty tree.now)) :=
    agreesExcept_put hroot _
  refine ⟨evolves_put hsound hroot (.filled rfl hold) hparent, hagrees, hslash,
    fun followLast hsame => ?_⟩
  refine resolve_written hagrees hold ?_ (hsame.trans hresolve) hplace hheld
  rw [node?_put _ _ _ hroot, if_pos rfl]

/-- A created file is read under its path. -/
theorem readFile_of_create (hsound : tree.Sound) (hlater : later.Sound) {created : FileTree}
    {content : ByteArray} {modified : Int} (hcreate : tree.create path = .ok (place, created))
    (hagrees : tree.AgreesExcept place later)
    (hfile : later.node? place = some (.file content modified)) :
    later.readFile path = .ok content := by
  rcases create_eq_ok hsound hcreate with
    ⟨resolved, hresolve, hplace, hnode, hslash, -, hold, -, -⟩
  rw [hlater.readFile_eq_ok_iff]
  refine ⟨place, modified, stat_eq_ok_iff.mpr ⟨?_, ?_⟩⟩
  · exact resolve_written hagrees hold hfile hresolve hplace hnode
  · rw [hslash]
    exact fun h => absurd h Bool.false_ne_true

end FileTree
/-!
## Chunks
-/

namespace FileCopy

variable {allowed written removed : Place → Prop} {disk later : Disk} {source target : Place}
  {name : String} {content : ByteArray} {modified : Int}

theorem evolves_moveChunks (hsound : disk.tree.Sound) (hwritten : written target)
    (steps : Nat) (cancel : CancelAfter) (done : Nat) :
    disk.Evolves written removed (moveChunks source target name steps cancel done disk).2 := by
  induction steps generalizing disk cancel done with
  | zero => exact .refl hsound
  | succ steps ih =>
      rw [moveChunks]
      by_cases hcancel : cancel = some 0
      · rw [if_pos hcancel]
        exact .refl hsound
      · rw [if_neg hcancel]
        refine .bind (DiskM.evolves_look hsound _).mapError fun chunk between _ hbetween => ?_
        by_cases hempty : chunk.size = 0
        · rw [if_pos hempty]
          exact .refl hbetween.tree.sound
        · rw [if_neg hempty]
          exact .bind (Disk.evolves_append hbetween.tree.sound hwritten chunk).mapError
            fun _ last _ hlast => ih hlast.tree.sound _ _

/-- The bytes of a chunk and those behind it. -/
theorem extract_chunk {done : Nat} (hdone : done ≤ content.size) {chunk : ByteArray}
    (hchunk : chunk = content.extract done (done + chunkSize)) :
    chunk ++ content.extract (done + chunk.size) content.size =
        content.extract done content.size ∧
      done + chunk.size ≤ content.size ∧
      (chunk.size = 0 → done = content.size) ∧
      (content.size = done + chunk.size ∨ chunk.size = chunkSize) := by
  have hsize : chunk.size = min (done + chunkSize) content.size - done := by
    rw [hchunk, ByteArray.size_extract]
  have hpositive : 0 < chunkSize := by decide
  refine ⟨?_, by omega, by omega, by omega⟩
  rcases Nat.le_total (done + chunkSize) content.size with hle | hle
  · have hfull : chunk.size = chunkSize := by omega
    rw [hfull, hchunk]
    exact (ByteArray.extract_eq_extract_append_extract _ (Nat.le_add_right _ _) hle).symm
  · have hend : done + chunk.size = content.size := by omega
    have hbehind : content.extract content.size (done + chunkSize) = ByteArray.empty :=
      ByteArray.extract_eq_empty_iff.mpr (Nat.min_le_right _ _)
    rw [hend, ByteArray.extract_same, ByteArray.append_empty, hchunk,
      ByteArray.extract_eq_extract_append_extract content.size hdone hle, hbehind,
      ByteArray.append_empty]

theorem readAt_eq_ok {done : Nat} {chunk : ByteArray}
    (hsource : disk.tree.node? source = some (.file content modified))
    (h : Disk.readAt source done chunkSize disk = (.ok chunk, later)) :
    chunk = content.extract done (done + chunkSize) ∧ later.tree = disk.tree := by
  rcases DiskM.look_eq_ok h with ⟨hchunk, htree⟩
  rw [FileTree.contentAt, hsource] at hchunk
  exact ⟨(Except.ok.inj hchunk).symm, htree⟩

/-- Chunks are only moved where the copy has not been cancelled. -/
theorem not_cancelled {steps done bytes : Nat} {cancel : CancelAfter}
    (h : moveChunks source target name (steps + 1) cancel done disk = (.ok bytes, later)) :
    cancel ≠ some 0 := by
  rintro rfl
  rw [moveChunks, if_pos rfl] at h
  cases h

/-- Chunks that are moved leave what is left of the source behind the target. -/
theorem moveChunks_eq_ok (hne : source ≠ target) {steps done bytes : Nat} {front : ByteArray}
    {time : Int} (hsource : disk.tree.node? source = some (.file content modified))
    (htarget : disk.tree.node? target = some (.file front time)) (hdone : done ≤ content.size)
    (hsteps : content.size ≤ done + steps * chunkSize) {cancel : CancelAfter}
    (h : moveChunks source target name steps cancel done disk = (.ok bytes, later)) :
    bytes = content.size ∧ disk.tree.AgreesExcept target later.tree ∧
      ∃ time', later.tree.node? target =
        some (.file (front ++ content.extract done content.size) time') := by
  induction steps generalizing disk done front time cancel with
  | zero =>
      have hend : done = content.size := by omega
      cases h
      rw [hend, ByteArray.extract_same, ByteArray.append_empty]
      exact ⟨rfl, .refl, time, htarget⟩
  | succ steps ih =>
      rw [moveChunks, if_neg (not_cancelled h)] at h
      rcases bind_eq_ok_iff.mp h with ⟨chunk, between, hread, h⟩
      rcases readAt_eq_ok hsource (mapError_eq_ok_iff.mp hread) with ⟨hchunk, htree⟩
      rcases extract_chunk hdone hchunk with ⟨hjoin, hle, hempty, hfull⟩
      by_cases hzero : chunk.size = 0
      · rw [if_pos hzero] at h
        cases h
        rw [htree, hempty hzero, ByteArray.extract_same, ByteArray.append_empty]
        exact ⟨rfl, .refl, time, htarget⟩
      · rw [if_neg hzero] at h
        rcases bind_eq_ok_iff.mp h with ⟨⟨⟩, appended, happend, h⟩
        have hadded := Disk.append_eq_ok (mapError_eq_ok_iff.mp happend)
        rw [htree] at hadded
        have hagrees : disk.tree.AgreesExcept target appended.tree := by
          rw [hadded]
          exact FileTree.agreesExcept_append chunk
        have hsource' : appended.tree.node? source = some (.file content modified) := by
          rw [hagrees.elsewhere source hne, hsource]
        have htarget' : appended.tree.node? target =
            some (.file (front ++ chunk) disk.tree.now) := by
          rw [hadded, FileTree.node?_append_of_file htarget, if_pos rfl]
        have hsteps' : content.size ≤ done + chunk.size + steps * chunkSize := by
          rw [Nat.succ_mul] at hsteps
          omega
        rcases ih hsource' htarget' hle hsteps' h with ⟨hbytes, hrest, time', hfile⟩
        refine ⟨hbytes, hagrees.trans hrest, time', ?_⟩
        rw [hfile, ByteArray.append_assoc, hjoin]

/-- Whatever stops the chunks, nothing but the target changes, and this stays a file. -/
theorem agreesExcept_moveChunks {steps done : Nat} {cancel : CancelAfter} {front : ByteArray}
    {time : Int} (htarget : disk.tree.node? target = some (.file front time))
    {outcome : Except JobError Nat}
    (h : moveChunks source target name steps cancel done disk = (outcome, later)) :
    disk.tree.AgreesExcept target later.tree ∧
      ∃ content time, later.tree.node? target = some (.file content time) := by
  induction steps generalizing disk done cancel front time with
  | zero =>
      cases h
      exact ⟨.refl, front, time, htarget⟩
  | succ steps ih =>
      rw [moveChunks] at h
      by_cases hcancel : cancel = some 0
      · rw [if_pos hcancel] at h
        cases h
        exact ⟨.refl, front, time, htarget⟩
      rw [if_neg hcancel] at h
      rcases DiskM.bind_cases h with ⟨error, hread, -⟩ | ⟨chunk, between, hread, h⟩
      · rcases DiskM.mapError_eq_error hread with ⟨cause, hread⟩
        rw [DiskM.tree_of_look hread]
        exact ⟨.refl, front, time, htarget⟩
      have htree := (DiskM.look_eq_ok (mapError_eq_ok_iff.mp hread)).2
      by_cases hzero : chunk.size = 0
      · rw [if_pos hzero] at h
        cases h
        rw [htree]
        exact ⟨.refl, front, time, htarget⟩
      rw [if_neg hzero] at h
      rcases DiskM.bind_cases h with ⟨error, happend, -⟩ | ⟨⟨⟩, appended, happend, h⟩
      · rcases DiskM.mapError_eq_error happend with ⟨cause, happend⟩
        rw [DiskM.change_eq_error happend, htree]
        exact ⟨.refl, front, time, htarget⟩
      have hadded := Disk.append_eq_ok (mapError_eq_ok_iff.mp happend)
      rw [htree] at hadded
      have hagrees : disk.tree.AgreesExcept target appended.tree := by
        rw [hadded]
        exact FileTree.agreesExcept_append chunk
      have hfile : appended.tree.node? target = some (.file (front ++ chunk) disk.tree.now) := by
        rw [hadded, FileTree.node?_append_of_file htarget, if_pos rfl]
      rcases ih hfile h with ⟨hrest, hlast⟩
      exact ⟨hagrees.trans hrest, hlast⟩

/-- On a quiet disk chunks are moved to the end. -/
theorem moveChunks_of_quiet (name : String) (hquiet : disk.Quiet) (hne : source ≠ target)
    (hsource : disk.tree.node? source = some (.file content modified)) (steps done : Nat) :
    ∃ bytes later, moveChunks source target name steps none done disk = (.ok bytes, later) := by
  induction steps generalizing disk done with
  | zero => exact ⟨done, disk, rfl⟩
  | succ steps ih =>
      have hread : Disk.readAt source done chunkSize disk =
          (.ok (content.extract done (done + chunkSize)),
            { disk with faults := disk.faults.tail }) := by
        rw [Disk.readAt, DiskM.look_of_quiet _ hquiet, FileTree.contentAt, hsource]
        rfl
      have hquiet' : Disk.Quiet { disk with faults := disk.faults.tail } := hquiet.tail disk.tree
      rw [moveChunks, if_neg (Option.some_ne_none 0).symm]
      by_cases hzero : (content.extract done (done + chunkSize)).size = 0
      · refine ⟨done, { disk with faults := disk.faults.tail },
          bind_eq_ok_iff.mpr ⟨_, _, mapError_eq_ok_iff.mpr hread, ?_⟩⟩
        rw [if_pos hzero]
        rfl
      · have happend := Disk.append_of_quiet hquiet' target
          (content.extract done (done + chunkSize))
        have hsource' : (disk.tree.append target
            (content.extract done (done + chunkSize))).node? source =
              some (.file content modified) := by
          rw [(FileTree.agreesExcept_append _).elsewhere source hne, hsource]
        rcases ih (hquiet'.tail _) hsource' (done + (content.extract done (done + chunkSize)).size) with
          ⟨bytes, last, hlast⟩
        refine ⟨bytes, last, bind_eq_ok_iff.mpr ⟨_, _, mapError_eq_ok_iff.mpr hread, ?_⟩⟩
        rw [if_neg hzero]
        exact bind_eq_ok_iff.mpr ⟨(), _, mapError_eq_ok_iff.mpr happend, hlast⟩

/-!
## Whole copies
-/

section Copies

variable {sourcePath targetPath : String} {cancel : CancelAfter}

theorem evolves_sameEntry (hsound : disk.tree.Sound) (first second : String) :
    disk.Evolves written removed (sameEntry first second disk).2 := by
  rw [sameEntry]
  refine .bind (DiskM.evolves_look hsound _).attempt fun _ between _ hbetween => ?_
  refine .bind (DiskM.evolves_look hbetween.tree.sound _).attempt fun _ last _ hlast => ?_
  split <;> exact .refl hlast.tree.sound

theorem sameEntry_tree (first second : String) (disk : Disk) :
    (sameEntry first second disk).2.tree = disk.tree := by
  rw [sameEntry, DiskM.bind_apply, DiskM.attempt_apply]
  dsimp only
  rw [DiskM.bind_apply, DiskM.attempt_apply]
  dsimp only
  have hsecond := DiskM.look_tree (fun tree => tree.stat second) (Disk.stat first disk).2
  have hfirst := DiskM.look_tree (fun tree => tree.stat first) disk
  cases (Disk.stat first disk).1 <;>
    cases (Disk.stat second (Disk.stat first disk).2).1 <;> exact hsecond.trans hfirst

theorem evolves_fill (hsound : disk.tree.Sound) (hallowed : allowed target)
    (hleads : disk.tree.LeadsInto targetPath allowed) :
    disk.Evolves allowed allowed (fill source target targetPath cancel disk).2 := by
  rw [fill]
  refine .grow_bind (.refl hsound) fun size between hview _ => ?_
  cases hview
  refine .grow_bind (evolves_moveChunks hsound hallowed _ _ _).attempt
    fun outcome between _ hgrows => ?_
  cases outcome with
  | ok bytes => exact .refl hgrows.tree.sound
  | error error =>
      refine .bind (Disk.evolves_remove hgrows.tree.sound fun resolved hresolve => ?_).attempt
        fun _ _ _ hlast => .refl hlast.tree.sound
      exact hleads _ hgrows.tree false resolved hresolve

/-- A copy changes the tree at the places of its target only. -/
theorem evolves_copy (hsound : disk.tree.Sound)
    (hleads : disk.tree.LeadsInto targetPath allowed) :
    disk.Evolves allowed allowed (copy sourcePath targetPath cancel disk).2 := by
  rw [copy]
  refine .grow_bind (evolves_sameEntry hsound _ _) fun same between _ hsame => ?_
  cases same with
  | true => exact .refl hsame.tree.sound
  | false =>
      refine .grow_bind (DiskM.evolves_look hsame.tree.sound _).mapError
        fun place between' _ hopen => ?_
      refine .grow_bind (evolves_makeParent hopen.tree.sound _) fun _ made _ hmade => ?_
      have hgrows := ((hsame.trans hopen).trans hmade).tree
      refine .grow_bind (Disk.evolves_create hmade.tree.sound ?_).mapError
        fun target created hcreate hcreated => ?_
      · exact fun resolved hresolve => hleads _ hgrows true resolved hresolve
      · have hcreate := Disk.create_eq_ok (mapError_eq_ok_iff.mp hcreate)
        rcases FileTree.create_eq_ok hmade.tree.sound hcreate with
          ⟨resolved, hresolve, hplace, -⟩
        refine evolves_fill hcreated.tree.sound ?_ (hleads.grows (hgrows.trans hcreated.tree))
        rw [← hplace]
        exact hleads _ hgrows true resolved hresolve

theorem le_stepsFor (size : Nat) : size ≤ 0 + stepsFor size * chunkSize := by
  have hpositive : 0 < chunkSize := by decide
  have hlt : size < size / chunkSize * chunkSize + chunkSize := Nat.lt_div_mul_add hpositive
  rw [stepsFor, Nat.add_mul]
  omega

/-- A copy that fills a created file found a file to read. -/
theorem fill_eq_ok (hdistinct : source ≠ target) {time : Int} {bytes : Nat}
    (htarget : disk.tree.node? target = some (.file .empty time))
    (h : fill source target targetPath cancel disk = (.ok bytes, later)) :
    ∃ content modified, disk.tree.node? source = some (.file content modified) ∧
      bytes = content.size ∧ disk.tree.AgreesExcept target later.tree ∧
      ∃ time', later.tree.node? target = some (.file content time') := by
  rw [fill] at h
  rcases bind_eq_ok_iff.mp h with ⟨size, viewed, hview, h⟩
  cases hview
  rcases bind_eq_ok_iff.mp h with ⟨outcome, moved, hmoved, h⟩
  cases outcome with
  | error error =>
      rcases bind_eq_ok_iff.mp h with ⟨_, _, _, h⟩
      cases h
  | ok moved' =>
      cases h
      have hmoved := attempt_eq_ok_iff.mp hmoved
      have hsource : ∃ content modified,
          disk.tree.node? source = some (.file content modified) := by
        -- the first chunk was read
        have hfirst := hmoved
        rw [stepsFor, moveChunks, if_neg (not_cancelled hmoved)] at hfirst
        rcases bind_eq_ok_iff.mp hfirst with ⟨chunk, read, hread, -⟩
        have hcontent := (DiskM.look_eq_ok (mapError_eq_ok_iff.mp hread)).1
        rw [FileTree.contentAt] at hcontent
        split at hcontent
        · rename_i content modified hnode
          exact ⟨content, modified, hnode⟩
        · cases hcontent
        · cases hcontent
        · cases hcontent
      rcases hsource with ⟨content, modified, hsource⟩
      have hsize : sizeAt source disk.tree = content.size := by
        rw [sizeAt, hsource]
        rfl
      rw [hsize] at hmoved
      rcases moveChunks_eq_ok hdistinct hsource htarget (Nat.zero_le _) (le_stepsFor _) hmoved
        with ⟨hbytes, hagrees, time', hfile⟩
      rw [ByteArray.empty_append, ByteArray.extract_zero_size] at hfile
      exact ⟨content, modified, hsource, hbytes, hagrees, time', hfile⟩

/-- On a quiet disk a created file is filled. -/
theorem fill_of_quiet (path : String) (hquiet : disk.Quiet) (hne : source ≠ target)
    (hsource : disk.tree.node? source = some (.file content modified)) :
    ∃ bytes later, fill source target path none disk = (.ok bytes, later) := by
  rcases moveChunks_of_quiet path hquiet hne hsource (stepsFor (sizeAt source disk.tree)) 0 with
    ⟨bytes, last, hmoved⟩
  refine ⟨bytes, last, bind_eq_ok_iff.mpr ⟨_, _, rfl, ?_⟩⟩
  exact bind_eq_ok_iff.mpr ⟨.ok bytes, last, attempt_eq_ok_iff.mpr hmoved, rfl⟩

/-- A copy that succeeds leaves the bytes of the source at the target. -/
theorem copy_eq_ok (hsound : disk.tree.Sound)
    (hleads : disk.tree.LeadsInto targetPath allowed)
    (hapart : ∀ place, disk.tree.openAt sourcePath = .ok place → ¬ allowed place) {bytes : Nat}
    (h : copy sourcePath targetPath none disk = (.ok bytes, later)) :
    ∃ content place made created, disk.tree.readFile sourcePath = .ok content ∧
      bytes = content.size ∧ disk.tree.Grows allowed made ∧
      made.create targetPath = .ok (place, created) ∧ made.AgreesExcept place later.tree ∧
      ∃ time, later.tree.node? place = some (.file content time) := by
  rw [copy] at h
  rcases bind_eq_ok_iff.mp h with ⟨same, looked, hlooked, h⟩
  cases same with
  | true => cases h
  | false =>
      have htree : looked.tree = disk.tree := by
        rw [← sameEntry_tree sourcePath targetPath disk, hlooked]
      rw [if_neg Bool.false_ne_true] at h
      rcases bind_eq_ok_iff.mp h with ⟨source, opened, hopen, h⟩
      rcases DiskM.look_eq_ok (mapError_eq_ok_iff.mp hopen) with ⟨hopen, htree'⟩
      rw [htree] at hopen htree'
      rcases bind_eq_ok_iff.mp h with ⟨⟨⟩, made, hmade, h⟩
      have hgrows : disk.tree.Grows allowed made.tree := by
        have hmake : opened.Evolves allowed (fun _ => False) (makeParent targetPath opened).2 :=
          evolves_makeParent (by rwa [htree']) targetPath
        rw [hmade] at hmake
        rw [← htree']
        exact hmake.tree
      rcases bind_eq_ok_iff.mp h with ⟨target, created, hcreate, h⟩
      have hcreate := Disk.create_eq_ok (mapError_eq_ok_iff.mp hcreate)
      rcases FileTree.create_eq_ok hgrows.sound hcreate with
        ⟨resolved, hresolve, hplace, -, -, hne, -, -, hcreated⟩
      have hdistinct : source ≠ target := by
        rintro rfl
        refine hapart source hopen ?_
        rw [← hplace]
        exact hleads _ hgrows true resolved hresolve
      have hagrees : made.tree.AgreesExcept target created.tree := by
        rw [hcreated]
        exact FileTree.agreesExcept_put hne _
      have htarget : created.tree.node? target = some (.file .empty made.tree.now) := by
        rw [hcreated, FileTree.node?_put _ _ _ hne, if_pos rfl]
      rcases fill_eq_ok hdistinct htarget h with
        ⟨content, modified, hsource, hbytes, hrest, time, hfile⟩
      have hbefore : disk.tree.node? source = some (.file content modified) := by
        rw [hagrees.elsewhere source hdistinct] at hsource
        rcases (hgrows.turns source).eq_or_made (hapart source hopen) (fun h => h) with
          hsame | ⟨-, hmade⟩
        · rwa [← hsame]
        · rw [hsource] at hmade
          cases hmade
      refine ⟨content, target, made.tree, created.tree, ?_, hbytes, hgrows, hcreate,
        hagrees.trans hrest, time, hfile⟩
      rw [FileTree.readFile, hopen]
      dsimp only
      rw [FileTree.contentAt, hbefore]

/-- A copied file is read under the path of the target. -/
theorem readFile_of_copy (hsound : disk.tree.Sound)
    (hleads : disk.tree.LeadsInto targetPath allowed)
    (hapart : ∀ place, disk.tree.openAt sourcePath = .ok place → ¬ allowed place) {bytes : Nat}
    (h : copy sourcePath targetPath none disk = (.ok bytes, later)) :
    ∃ content, disk.tree.readFile sourcePath = .ok content ∧ bytes = content.size ∧
      later.tree.readFile targetPath = .ok content := by
  rcases copy_eq_ok hsound hleads hapart h with
    ⟨content, place, made, created, hread, hbytes, hgrows, hcreate, hagrees, time, hfile⟩
  have hlater : later.tree.Sound := by
    have hevolves : disk.Evolves allowed allowed (copy sourcePath targetPath none disk).2 :=
      evolves_copy hsound hleads
    rw [h] at hevolves
    exact hevolves.tree.sound
  exact ⟨content, hread, hbytes,
    FileTree.readFile_of_create hgrows.sound hlater hcreate hagrees hfile⟩

/-- A file can be created at a path, with the directories above it. -/
def CanReceive (tree : FileTree) (path : String) : Prop :=
  ∃ (disk : Disk) (place : Place) (created : FileTree),
    makeParent path { tree := tree } = (.ok (), disk) ∧
      disk.tree.create path = .ok (place, created)

/-- Without faults a file is copied to wherever a file can be created. -/
theorem copy_of_canReceive {tree : FileTree} (hsound : tree.Sound)
    (hleads : tree.LeadsInto targetPath allowed)
    (hstat : tree.stat sourcePath = .ok (source, .file content modified))
    (hapart : ¬ allowed source) (hready : CanReceive tree targetPath) :
    ∃ bytes later, copy sourcePath targetPath none { tree := tree } = (.ok bytes, later) := by
  rcases hready with ⟨made, target, created, hmade, hcreate⟩
  have hgrows : Disk.Evolves allowed (fun _ => False) { tree := tree } made := by
    have hmake : Disk.Evolves allowed (fun _ => False) { tree := tree }
        (makeParent targetPath { tree := tree }).2 := evolves_makeParent hsound targetPath
    rwa [hmade] at hmake
  have hquiet : made.Quiet := hgrows.quiet fun fault hfault => absurd hfault List.not_mem_nil
  have hsame : sameEntry sourcePath targetPath { tree := tree } = (.ok false, { tree := tree }) := by
    have hdistinct : ∀ place node, tree.stat targetPath = .ok (place, node) → source ≠ place := by
      rintro place node htarget rfl
      exact hapart (hleads tree (.refl hsound) true _ (FileTree.stat_eq_ok_iff.mp htarget).1)
    rw [sameEntry]
    refine bind_eq_ok_iff.mpr ⟨tree.stat sourcePath, { tree := tree }, rfl, ?_⟩
    refine bind_eq_ok_iff.mpr ⟨tree.stat targetPath, { tree := tree }, rfl, ?_⟩
    rw [hstat]
    cases htarget : tree.stat targetPath with
    | error error => rfl
    | ok found =>
        rcases found with ⟨place, node⟩
        dsimp only
        rw [beq_eq_false_iff_ne.mpr (hdistinct place node htarget)]
        rfl
  have hopen : Disk.openFile sourcePath { tree := tree } = (.ok source, { tree := tree }) := by
    show (tree.openAt sourcePath, _) = _
    rw [FileTree.openAt, hstat]
  rcases FileTree.create_eq_ok hgrows.tree.sound hcreate with
    ⟨resolved, hresolve, hplace, -, -, hne, -, -, hcreated⟩
  have hdistinct : source ≠ target := by
    rintro rfl
    refine hapart ?_
    rw [← hplace]
    exact hleads _ hgrows.tree true resolved hresolve
  have hsource : created.node? source = some (.file content modified) := by
    rw [hcreated, (FileTree.agreesExcept_put hne _).elsewhere source hdistinct]
    have hnode : tree.node? source = some (.file content modified) := by
      rcases hsound.resolve (FileTree.stat_eq_ok_iff.mp hstat).1 with hnode | ⟨hnode, -⟩
      · exact hnode
      · cases hnode
    have hturns := hgrows.tree.turns source
    rw [hnode] at hturns
    rcases hturns.eq_or_made hapart (fun h => h) with hsame | ⟨hnone, -⟩
    · exact hsame
    · cases hnone
  have hcreate' := Disk.create_of_quiet hquiet hcreate
  rcases fill_of_quiet targetPath (hquiet.tail created) hdistinct hsource with
    ⟨bytes, last, hfilled⟩
  refine ⟨bytes, last, ?_⟩
  rw [copy]
  refine bind_eq_ok_iff.mpr ⟨false, _, hsame, ?_⟩
  rw [if_neg Bool.false_ne_true]
  refine bind_eq_ok_iff.mpr ⟨source, _, mapError_eq_ok_iff.mpr hopen, ?_⟩
  refine bind_eq_ok_iff.mpr ⟨(), made, hmade, ?_⟩
  exact bind_eq_ok_iff.mpr ⟨target, _, mapError_eq_ok_iff.mpr hcreate', hfilled⟩

end Copies

end FileCopy
end BulkTransfer
