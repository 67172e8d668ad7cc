import BulkTransfer.Proofs.FileSystem.Copies
import BulkTransfer.Proofs.FileSystem.Paths
import BulkTransfer.Store.Basic

/-!
# The layout of a store

An object is a file behind the directory of its bucket, and its class is kept behind the
sidecar directory, each at a place of its own.  So a store stands for a map from locations
to contents and classes, and a change of the tree that writes and removes elsewhere leaves
what a location stands for.
-/

namespace BulkTransfer

open Text

namespace FileTree

theorem namesOf_join {base path : String} (hpath : Path.isAbsolute path = false) :
    namesOf (Path.join base path) = namesOf base ++ namesOf path := by
  by_cases hbase : base = ""
  · rw [hbase, Path.join, if_neg (by rw [hpath]; exact Bool.false_ne_true)]
    show namesOf ("" ++ path) = namesOf "" ++ namesOf path
    rw [String.empty_append]
    rfl
  · rcases Path.pieces_join hbase hpath with ⟨front, last, hpieces, hlast, -, hjoin⟩
    have hnone : last.filter (fun piece => !piece.isEmpty) = [] := by
      rcases hlast with rfl | rfl
      · rfl
      · rfl
    rw [namesOf, namesOf, namesOf, hpieces, hjoin, List.filter_append, List.filter_append, hnone,
      List.append_nil]

theorem isAbsolute_join_eq {base path : String} (hpath : Path.isAbsolute path = false) :
    Path.isAbsolute (Path.join base path) = Path.isAbsolute base := by
  by_cases hbase : base = ""
  · rw [hbase, Path.isAbsolute_join_of_relative rfl hpath]
    rfl
  · exact Path.isAbsolute_join hbase hpath

theorem pieces_of_slashFree {name : String} (h : '/' ∉ name.toList) : Path.pieces name = [name] := by
  rw [Path.pieces, splitOn_of_not_mem h, List.map_singleton, String.ofList_toList]

end FileTree

namespace Store

variable {store : Store} {tree later : FileTree} {location other : Location} {root : Place}

/-!
## Paths and places
-/

/-- A location that can name an object. -/
structure IsValid (location : Location) : Prop where
  bucket : isBucketName location.bucket = true
  key : isObjectKey location.key = true

/-- The names from the root of a store to the file of an object. -/
def objectNames (location : Location) : List String :=
  location.bucket :: Path.pieces location.key

/-- The names from the root of a store to the file that keeps the class of an object. -/
def sidecarNames (location : Location) : List String :=
  sidecarDirectory :: objectNames location

theorem bucketPath_ne_empty (store : Store) {bucket : String} (h : isBucketName bucket = true) :
    store.bucketPath bucket ≠ "" := by
  have hbucket : bucket ≠ "" := by
    intro hempty
    rw [hempty] at h
    cases h
  have hne : bucket.toList ≠ [] := fun hnil =>
    hbucket (String.toList_inj.mp (hnil.trans String.toList_empty.symm))
  intro hempty
  have hchars := congrArg String.toList hempty
  rw [bucketPath, Path.join] at hchars
  split at hchars
  · exact hne hchars
  · split at hchars
    all_goals
      simp only [String.toList_append, String.toList_empty, List.append_eq_nil_iff] at hchars
      exact hne hchars.2

/-- The path of the file of an object. -/
def filePath (store : Store) (location : Location) : String :=
  Path.join (store.bucketPath location.bucket) location.key

structure IsBucket (bucket : String) : Prop where
  ne_empty : bucket ≠ ""
  visible : bucket.toList.head? ≠ some '.'
  slashFree : '/' ∉ bucket.toList

theorem isBucket_of_isBucketName {bucket : String} (h : isBucketName bucket = true) :
    IsBucket bucket := by
  rw [isBucketName, Bool.and_eq_true, Bool.and_eq_true, List.all_eq_true] at h
  rcases h with ⟨⟨hempty, hdot⟩, hletters⟩
  refine ⟨?_, ?_, fun hmem => ?_⟩
  · rintro rfl
    cases hempty
  · rwa [bne_iff_ne] at hdot
  · have hslash := hletters '/' hmem
    cases hslash

theorem plain_of_isBucket {bucket : String} (h : IsBucket bucket) : FileTree.IsPlain bucket := by
  constructor
  · rintro rfl
    exact h.visible rfl
  · rintro rfl
    exact h.visible rfl

theorem pieces_of_isObjectKey {key : String} (h : isObjectKey key = true) :
    ∀ piece ∈ Path.pieces key, piece ≠ "" ∧ FileTree.IsPlain piece := by
  rw [isObjectKey, List.all_eq_true] at h
  intro piece hmem
  have hpiece := h piece hmem
  simp only [Bool.and_eq_true, decide_eq_true_eq] at hpiece
  exact ⟨hpiece.1.1, hpiece.1.2, hpiece.2⟩

theorem isAbsolute_of_isObjectKey {key : String} (h : isObjectKey key = true) :
    Path.isAbsolute key = false := by
  rw [Path.isAbsolute, beq_eq_false_iff_ne]
  intro hhead
  rcases List.head?_eq_some_iff.mp hhead with ⟨rest, hrest⟩
  have hmem : "" ∈ Path.pieces key := by
    rw [Path.pieces, hrest]
    refine List.mem_map.mpr ⟨[], ?_, rfl⟩
    rw [← List.nil_append ('/' :: rest), splitOn_append]
    exact List.mem_append_left _ List.mem_cons_self
  exact (pieces_of_isObjectKey h _ hmem).1 rfl

theorem isAbsolute_of_slashFree {name : String} (h : '/' ∉ name.toList) :
    Path.isAbsolute name = false := by
  rw [Path.isAbsolute, beq_eq_false_iff_ne]
  exact fun hhead => h (List.mem_of_head? hhead)

theorem namesOf_of_slashFree {name : String} (h : '/' ∉ name.toList) (hne : name ≠ "") :
    FileTree.namesOf name = [name] := by
  have hempty : name.isEmpty = false := by rwa [String.isEmpty_eq_false_iff]
  rw [FileTree.namesOf, FileTree.pieces_of_slashFree h, List.filter_singleton, hempty]
  rfl

theorem namesOf_of_isObjectKey {key : String} (h : isObjectKey key = true) :
    FileTree.namesOf key = Path.pieces key := by
  rw [FileTree.namesOf, List.filter_eq_self]
  intro piece hmem
  simpa using (pieces_of_isObjectKey h piece hmem).1

theorem continues_bucketPath (store : Store) {bucket : String} (h : isBucketName bucket = true) :
    FileTree.Continues store.root (store.bucketPath bucket) [bucket] := by
  have hbucket := isBucket_of_isBucketName h
  have hrelative := isAbsolute_of_slashFree hbucket.slashFree
  refine ⟨?_, FileTree.isAbsolute_join_eq hrelative, List.cons_ne_nil _ _, ?_⟩
  · rw [bucketPath, FileTree.namesOf_join hrelative,
      namesOf_of_slashFree hbucket.slashFree hbucket.ne_empty]
  · intro name hname
    rw [List.mem_singleton] at hname
    rw [hname]
    exact plain_of_isBucket hbucket

theorem continues_filePath (store : Store) (h : IsValid location) :
    FileTree.Continues store.root (store.filePath location) (objectNames location) := by
  have hbucket := continues_bucketPath store h.bucket
  have hrelative := isAbsolute_of_isObjectKey h.key
  refine ⟨?_, (FileTree.isAbsolute_join_eq hrelative).trans hbucket.isAbsolute_eq,
    List.cons_ne_nil _ _, ?_⟩
  · rw [filePath, FileTree.namesOf_join hrelative, hbucket.namesOf_eq,
      namesOf_of_isObjectKey h.key, List.append_assoc, List.singleton_append, objectNames]
  · rw [objectNames, List.forall_mem_cons]
    exact ⟨hbucket.plain _ List.mem_cons_self,
      fun piece hmem => (pieces_of_isObjectKey h.key piece hmem).2⟩

theorem continues_sidecarPath (store : Store) (h : IsValid location) :
    FileTree.Continues store.root (store.sidecarPath location) (sidecarNames location) := by
  have hbucket := isBucket_of_isBucketName h.bucket
  have hmeta : Path.isAbsolute sidecarDirectory = false := by decide
  have hmetaNames : FileTree.namesOf sidecarDirectory = [sidecarDirectory] :=
    namesOf_of_slashFree (by decide) (by decide)
  have hrelative := isAbsolute_of_slashFree hbucket.slashFree
  have hkey := isAbsolute_of_isObjectKey h.key
  refine ⟨?_, ?_, List.cons_ne_nil _ _, ?_⟩
  · rw [sidecarPath, FileTree.namesOf_join hkey, FileTree.namesOf_join hrelative,
      FileTree.namesOf_join hmeta, namesOf_of_slashFree hbucket.slashFree hbucket.ne_empty,
      namesOf_of_isObjectKey h.key, hmetaNames,
      List.append_assoc, List.append_assoc]
    rfl
  · rw [sidecarPath, FileTree.isAbsolute_join_eq hkey, FileTree.isAbsolute_join_eq hrelative,
      FileTree.isAbsolute_join_eq hmeta]
  · rw [sidecarNames, List.forall_mem_cons]
    exact ⟨⟨by decide, by decide⟩, (continues_filePath store h).plain⟩

/-- The places where the content and the class of an object are kept. -/
def places (root : Place) (location : Location) (place : Place) : Prop :=
  IsValid location ∧
    (place = root ++ objectNames location ∨ place = root ++ sidecarNames location)

theorem objectNames_inj (h : objectNames location = objectNames other) : location = other := by
  rcases List.cons.inj h with ⟨hbucket, hpieces⟩
  have hkey : location.key = other.key := by
    rw [← Path.joinNames_pieces location.key, hpieces, Path.joinNames_pieces]
  cases location
  cases other
  cases hbucket
  cases hkey
  rfl

theorem sidecarNames_ne_objectNames (h : IsValid other) :
    sidecarNames location ≠ objectNames other := by
  intro hsame
  have hbucket := (List.cons.inj hsame).1
  refine (isBucket_of_isBucketName h.bucket).visible ?_
  rw [← hbucket]
  decide

/-- Two objects share no place. -/
theorem places_apart (hother : IsValid other) (hne : location ≠ other) :
    ¬ places root location (root ++ objectNames other) ∧
      ¬ places root location (root ++ sidecarNames other) := by
  constructor
  · rintro ⟨-, hsame | hsame⟩
    · exact hne (objectNames_inj (List.append_cancel_left hsame).symm)
    · exact sidecarNames_ne_objectNames hother (List.append_cancel_left hsame).symm
  · rintro ⟨hvalid, hsame | hsame⟩
    · exact sidecarNames_ne_objectNames hvalid (List.append_cancel_left hsame)
    · exact hne (objectNames_inj (List.cons.inj (List.append_cancel_left hsame)).2.symm)

/-!
## Objects
-/

/-- The content and the class of an object, if it is there. -/
def object? (store : Store) (tree : FileTree) (location : Location) :
    Option (ByteArray × StorageClass) :=
  if isBucketName location.bucket && isObjectKey location.key then
    match tree.stat (store.filePath location) with
    | .ok (_, .file content _) => some (content, classAt (store.sidecarPath location) tree)
    | _ => none
  else none

theorem object?_eq_some_iff {content : ByteArray} {storage : StorageClass} :
    store.object? tree location = some (content, storage) ↔
      IsValid location ∧
        (∃ place modified, tree.stat (store.filePath location) =
          .ok (place, .file content modified)) ∧
        classAt (store.sidecarPath location) tree = storage := by
  rw [object?]
  constructor
  · intro h
    split at h
    · rename_i hvalid
      rw [Bool.and_eq_true] at hvalid
      split at h
      · rename_i place found modified hstat
        cases h
        exact ⟨⟨hvalid.1, hvalid.2⟩, ⟨place, modified, hstat⟩, rfl⟩
      · cases h
    · cases h
  · rintro ⟨hvalid, ⟨place, modified, hstat⟩, hclass⟩
    rw [hvalid.bucket, hvalid.key, Bool.and_self, if_pos rfl, hstat]
    dsimp only
    rw [hclass]

/-- An object is missing if no file is at its path. -/
theorem object?_eq_none (h : ∀ place content modified,
    tree.stat (store.filePath location) ≠ .ok (place, .file content modified)) :
    store.object? tree location = none := by
  cases hobject : store.object? tree location with
  | none => rfl
  | some object =>
      rcases (object?_eq_some_iff.mp hobject).2.1 with ⟨place, modified, hstat⟩
      exact absurd hstat (h place _ modified)

theorem classAt_congr {path : String}
    (h : ∀ content, later.readFile path = .ok content ↔ tree.readFile path = .ok content) :
    classAt path later = classAt path tree := by
  rw [classAt, classAt]
  cases hread : tree.readFile path with
  | ok content => rw [(h content).mpr hread]
  | error error =>
      cases hlater : later.readFile path with
      | ok content =>
          have hcontent := (h content).mp hlater
          rw [hread] at hcontent
          cases hcontent
      | error error' => rfl

/-- What a location stands for stays, if nothing is written or removed at its places. -/
theorem object?_evolves {written removed : Place → Prop}
    (h : tree.Evolves written removed later) (hsound : tree.Sound)
    (hroot : tree.Roots store.root root)
    (hwritten : IsValid location → ¬ written (root ++ objectNames location) ∧
      ¬ written (root ++ sidecarNames location))
    (hremoved : IsValid location → ¬ removed (root ++ objectNames location) ∧
      ¬ removed (root ++ sidecarNames location)) :
    store.object? later location = store.object? tree location := by
  have hiff : ∀ object, store.object? later location = some object ↔
      store.object? tree location = some object := by
    rintro ⟨content, storage⟩
    rw [object?_eq_some_iff, object?_eq_some_iff]
    refine and_congr_right fun hvalid => ?_
    have hclass : classAt (store.sidecarPath location) later =
        classAt (store.sidecarPath location) tree :=
      classAt_congr fun content => h.readFile_eq_ok_iff hsound hroot
        (continues_sidecarPath store hvalid) (hwritten hvalid).2 (hremoved hvalid).2
    rw [hclass]
    refine and_congr_left fun _ => exists_congr fun place => exists_congr fun modified => ?_
    exact h.stat_file_iff hsound hroot (continues_filePath store hvalid) (hwritten hvalid).1
      (hremoved hvalid).1
  exact Option.ext fun object => hiff object

end Store
end BulkTransfer
