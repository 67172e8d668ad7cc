import Mathlib.Algebra.GroupWithZero.Nat
import BulkTransfer.Execute
import BulkTransfer.Proofs.Command.Canonical
import BulkTransfer.Proofs.Expansion.Pieces
import BulkTransfer.Proofs.Store.Listings

/-!
# What a wildcard location stands for

A wildcard location is listed, measured and fanned out into tasks by different functions.  All
of them go by one listing, so they speak of the same objects; in a regular store these are the
matching objects of the whole bucket.
-/

namespace BulkTransfer

open DiskM (bind_apply)

namespace DiskM

theorem fst_bind_pure {ε α β : Type} (action : DiskM ε α) (f : α → β) (disk : Disk) :
    ((action >>= fun value => Pure.pure (f value)) disk).1 = (action disk).1.map f := by
  rw [bind_apply]
  rcases action disk with ⟨outcome, disk'⟩
  cases outcome <;> rfl

end DiskM

/-!
## Covered objects
-/

/-- The objects that a task reads or deletes, for the tasks that storage batches fan out
into. -/
def SubTask.sources (sub : SubTask) : List Location :=
  match sub.operation with
  | .batchDeleteActual => sub.arguments.filterMap Argument.location
  | _ => (sub.arguments.head?.bind Argument.location).toList

namespace Expansion

def sourcesOf : Except ExpansionError SubTask → List Location
  | .ok sub => sub.sources
  | .error _ => []

def errorOf? : Except ExpansionError SubTask → Option ExpansionError
  | .ok _ => none
  | .error error => some error

/-- What is said in the place of an object that cannot be downloaded. -/
def refusal (source : Location) (object : ObjectInfo) : ExpansionError :=
  .entry (source.withKey object.key).text "cannot download glacier object"

/-- An expansion that ends by itself, whose tasks take some objects, each once, and which
refuses others. -/
structure Covers (expansion : Expansion) (source : Location) (taken refused : List ObjectInfo) :
    Prop where
  fault : expansion.fault = none
  sources : (expansion.items.flatMap sourcesOf).Perm
    (taken.map fun object => source.withKey object.key)
  errors : (expansion.items.filterMap errorOf?).Perm (refused.map (refusal source))

end Expansion

namespace Expand

open Expansion (sourcesOf errorOf? refusal)

variable {store : Store} {tree : FileTree} {task : Task} {source target : Location}
  {objects : List ObjectInfo}

/-!
## The items of a batch
-/

theorem sources_deletions (source : Location) (objects : List ObjectInfo) :
    (deletions source objects true).flatMap sourcesOf =
      objects.map fun object => source.withKey object.key := by
  -- the pieces are as many tasks, but joined they are the objects again
  have hchunks : (deletions source objects true).flatMap sourcesOf =
      (pieces keysPerDeletion true [] (objects.map (objectArgument source))).flatten.filterMap
        Argument.location := by
    rw [deletions, List.flatMap_map, List.filterMap_flatten, List.flatMap_def]
    rfl
  rw [hchunks, flatten_pieces (by decide), List.filterMap_map]
  exact congrFun List.filterMap_eq_map' _

theorem errors_deletions (source : Location) (objects : List ObjectInfo) :
    (deletions source objects true).filterMap errorOf? = [] := by
  rw [deletions, List.filterMap_map, List.filterMap_eq_nil_iff]
  exact fun arguments _ => rfl

theorem sources_copies (task : Task) (source target : Location) (objects : List ObjectInfo) :
    (objects.map (copyItem task source target)).flatMap sourcesOf =
      objects.map fun object => source.withKey object.key := by
  rw [List.flatMap_map]
  exact List.flatMap_pure_eq_map _ _

theorem errors_copies (task : Task) (source target : Location) (objects : List ObjectInfo) :
    (objects.map (copyItem task source target)).filterMap errorOf? = [] := by
  rw [List.filterMap_map, List.filterMap_eq_nil_iff]
  exact fun object _ => rfl

/-- Objects of the Glacier class are refused, and all others are downloaded. -/
theorem covers_downloads (task : Task) (source : Location) (objects : List ObjectInfo) :
    (objects.map (downloadItem task source)).flatMap sourcesOf =
        (objects.filter (·.storage ≠ .glacier)).map (fun object => source.withKey object.key) ∧
      (objects.map (downloadItem task source)).filterMap errorOf? =
        (objects.filter (·.storage = .glacier)).map (refusal source) := by
  induction objects with
  | nil => exact ⟨rfl, rfl⟩
  | cons object objects ih =>
      rcases ih with ⟨hsources, herrors⟩
      rw [List.map_cons, List.flatMap_cons, hsources]
      by_cases hglacier : object.storage = .glacier
      · have hitem : downloadItem task source object = .error (refusal source object) :=
          if_pos hglacier
        rw [hitem, List.filter_cons_of_neg (by simpa using hglacier),
          List.filter_cons_of_pos (by simpa using hglacier), List.map_cons,
          List.filterMap_cons_some (f := errorOf?) rfl, herrors]
        exact ⟨rfl, rfl⟩
      · have hitem : ∃ sub, downloadItem task source object = .ok sub ∧
            sub.sources = [source.withKey object.key] := ⟨_, if_neg hglacier, rfl⟩
        rcases hitem with ⟨sub, hsub, hsource⟩
        rw [hsub, List.filter_cons_of_pos (by simpa using hglacier),
          List.filter_cons_of_neg (by simpa using hglacier), List.map_cons,
          List.filterMap_cons_none (f := errorOf?) rfl, herrors]
        refine ⟨?_, rfl⟩
        show sub.sources ++ _ = _
        rw [hsource]
        rfl

/-!
## Storage batches
-/

/-- A batch that fans out into tasks for objects, with a destination if it needs one. -/
inductive IsStorageBatch (task : Task) : Prop
  | download (h : task.operation = .batchDownload)
  | copy (target : Location) (h : task.operation = .batchCopy)
      (htarget : task.location? 1 = some target)
  | delete (h : task.operation = .batchDelete)

theorem expand_of_isStorageBatch (store : Store) (tree : FileTree) (h : IsStorageBatch task) :
    expand store tree task = storage store tree task := by
  rw [expand]
  cases h with
  | download h => rw [h]
  | copy target h => rw [h]
  | delete h => rw [h]

theorem fault_ofObjects (h : IsStorageBatch task) (source : Location)
    (objects : List ObjectInfo) (fault : Option ExpansionError) :
    (ofObjects task source objects fault).fault = fault := by
  cases h with
  | download h => simp only [ofObjects, h]
  | copy target h htarget => simp only [ofObjects, h, htarget]
  | delete h => simp only [ofObjects, h]

section Refused

variable (h : IsStorageBatch task) (hsource : task.location? 0 = some source)
include h hsource

theorem fault_of_oversized {oversized : Wildcard.Oversized}
    (hsize : source.checkSize = .error oversized) :
    (expand store tree task).fault = some (.pattern oversized.message) := by
  rw [expand_of_isStorageBatch store tree h]
  simp only [storage, hsource, hsize]
  rfl

theorem fault_of_list_error (hsize : source.checkSize = .ok ()) {error : JobError}
    (hlist : (store.list source.bucket source.literalKey false { tree := tree }).1 =
      .error error) :
    (expand store tree task).fault = some (.listing error.message) := by
  rw [expand_of_isStorageBatch store tree h]
  simp only [storage, hsource, hsize]
  rcases Store.list_eq_error_iff.mp hlist with hstream | ⟨objects, hstream⟩
  · rw [hstream]
    rfl
  · rw [hstream]
    exact fault_ofObjects h _ _ _

end Refused

/-- The objects of a batch are those of a listing, in the order of the walk. -/
theorem storage_of_list (hsource : task.location? 0 = some source)
    (hsize : source.checkSize = .ok ()) {listing : Listing}
    (hlist : (store.list source.bucket source.literalKey false { tree := tree }).1 =
      .ok listing) :
    ∃ objects, storage store tree task = ofObjects task source objects none ∧
      objects.Perm (listing.objects.filter fun object => source.accepts object.key) := by
  rcases Store.list_eq_ok_iff.mp hlist with ⟨objects, hstream, rfl⟩
  refine ⟨objects.filter fun object => source.accepts object.key, ?_, ?_⟩
  · simp only [storage, hsource, hsize, hstream]
    rfl
  · exact (List.mergeSort_perm _ _).symm.filter _

section Covered

variable {listing : Listing} (hsource : task.location? 0 = some source)
  (hsize : source.checkSize = .ok ())
  (hlist : (store.list source.bucket source.literalKey false { tree := tree }).1 = .ok listing)
include hsource hsize hlist

theorem covers_delete (hoperation : task.operation = .batchDelete) :
    (expand store tree task).Covers source
      (listing.objects.filter fun object => source.accepts object.key) [] := by
  rcases storage_of_list hsource hsize hlist with ⟨objects, hstorage, hperm⟩
  rw [expand_of_isStorageBatch store tree (.delete hoperation), hstorage]
  simp only [ofObjects, hoperation]
  constructor
  · rfl
  · show ((deletions source objects true).flatMap sourcesOf).Perm _
    rw [sources_deletions]
    exact hperm.map _
  · show ((deletions source objects true).filterMap errorOf?).Perm _
    rw [errors_deletions]
    exact .nil

theorem covers_copy (hoperation : task.operation = .batchCopy)
    (htarget : task.location? 1 = some target) :
    (expand store tree task).Covers source
      (listing.objects.filter fun object => source.accepts object.key) [] := by
  rcases storage_of_list hsource hsize hlist with ⟨objects, hstorage, hperm⟩
  rw [expand_of_isStorageBatch store tree (.copy target hoperation htarget), hstorage]
  simp only [ofObjects, hoperation, htarget]
  constructor
  · rfl
  · rw [sources_copies]
    exact hperm.map _
  · rw [errors_copies]
    exact .nil

theorem covers_download (hoperation : task.operation = .batchDownload) :
    (expand store tree task).Covers source
      ((listing.objects.filter fun object => source.accepts object.key).filter
        (·.storage ≠ .glacier))
      ((listing.objects.filter fun object => source.accepts object.key).filter
        (·.storage = .glacier)) := by
  rcases storage_of_list hsource hsize hlist with ⟨objects, hstorage, hperm⟩
  rw [expand_of_isStorageBatch store tree (.download hoperation), hstorage]
  simp only [ofObjects, hoperation]
  rcases covers_downloads task source objects with ⟨hsources, herrors⟩
  constructor
  · rfl
  · rw [hsources]
    exact (hperm.filter _).map _
  · rw [herrors]
    exact (hperm.filter _).map _

end Covered

end Expand

namespace Executor

variable {exec : Executor} {tree : FileTree} {task : Task} {location : Location}

/-!
## Listing and measuring
-/

/-- The objects that a location stands for, or why they cannot be told. -/
theorem fst_matching (exec : Executor) (tree : FileTree) (location : Location) :
    (exec.matching location { tree := tree }).1 =
      match location.checkSize with
      | .error oversized => .error (.invalidArguments oversized.message)
      | .ok () =>
          (exec.store.list location.bucket location.literalKey false { tree := tree }).1.map
            fun listing => listing.objects.filter fun object => location.accepts object.key := by
  rw [matching]
  cases location.checkSize with
  | error oversized => rfl
  | ok _ => exact DiskM.fst_bind_pure _ _ _

theorem execute_list (exec : Executor) (hoperation : task.operation = .list) :
    exec.execute task none = exec.list task := by
  rw [execute, if_neg (Option.some_ne_none 0).symm, perform, hoperation]

theorem fst_execute_list (hoperation : task.operation = .list)
    (hlocation : task.location? 0 = some location) (hwildcard : location.isWildcard = true) :
    (exec.execute task none { tree := tree }).1 =
      (exec.matching location { tree := tree }).1.map fun objects =>
        { messages := objects.map fun object =>
            objectLine (task.options.has .humanReadable)
              (shownKey (Store.directoryPart location.literalKey) object.key) object } := by
  have hlines : (exec.wildcardLines (task.options.has .humanReadable) location
      { tree := tree }).1 = (exec.matching location { tree := tree }).1.map fun objects =>
        objects.map fun object => objectLine (task.options.has .humanReadable)
          (shownKey (Store.directoryPart location.literalKey) object.key) object :=
    DiskM.fst_bind_pure _ _ _
  have hneed : exec.list task = exec.wildcardLines (task.options.has .humanReadable) location >>=
      fun lines => Pure.pure { messages := lines } := by
    rw [list, needLocation, hlocation]
    show (if location.isWildcard = true then _ else _) = _
    rw [if_pos hwildcard]
  rw [execute_list exec hoperation, hneed, DiskM.fst_bind_pure, hlines]
  cases (exec.matching location { tree := tree }).1 <;> rfl

theorem fst_execute_size (hoperation : task.operation = .size)
    (hlocation : task.location? 0 = some location) :
    (exec.execute task none { tree := tree }).1 =
      (exec.matching location { tree := tree }).1.map fun objects =>
        { messages := [bytesText (task.options.has .humanReadable)
            (objects.map ObjectInfo.size).sum ++ " bytes in " ++ toString objects.length ++
              " objects: " ++ location.text] } := by
  have hsize : exec.execute task none = exec.size task := by
    rw [execute, if_neg nofun, perform, hoperation]
  -- the total is kept in a loop
  have htotal : ∀ objects : List ObjectInfo,
      objects.foldl (fun total object => total + object.size) 0 =
        (objects.map ObjectInfo.size).sum := by
    intro objects
    rw [List.sum_eq_foldl, List.foldl_map]
  rw [hsize, size, needLocation, hlocation]
  simp only [← htotal]
  exact DiskM.fst_bind_pure _ _ _

/-!
## One set of objects
-/

/-- What is listed, measured and fanned out for a wildcard location are the same objects. -/
structure Shows (exec : Executor) (tree : FileTree) (location : Location)
    (objects : List ObjectInfo) : Prop where
  distinct : (objects.map ObjectInfo.key).Nodup
  listed : ∀ task, task.operation = .list → task.location? 0 = some location →
    (exec.execute task none { tree := tree }).1 =
      .ok { messages := objects.map fun object =>
              objectLine (task.options.has .humanReadable)
                (shownKey (Store.directoryPart location.literalKey) object.key) object }
  measured : ∀ task, task.operation = .size → task.location? 0 = some location →
    (exec.execute task none { tree := tree }).1 =
      .ok { messages := [bytesText (task.options.has .humanReadable)
              (objects.map ObjectInfo.size).sum ++ " bytes in " ++ toString objects.length ++
                " objects: " ++ location.text] }
  deleted : ∀ task, task.operation = .batchDelete → task.location? 0 = some location →
    (expand exec.store tree task).Covers location objects []
  copied : ∀ task target, task.operation = .batchCopy → task.location? 0 = some location →
    task.location? 1 = some target → (expand exec.store tree task).Covers location objects []
  downloaded : ∀ task, task.operation = .batchDownload → task.location? 0 = some location →
    (expand exec.store tree task).Covers location (objects.filter (·.storage ≠ .glacier))
      (objects.filter (·.storage = .glacier))

/-- A wildcard location whose objects cannot be told is refused alike. -/
structure Refuses (exec : Executor) (tree : FileTree) (location : Location) (error : JobError)
    (fault : ExpansionError) : Prop where
  executed : ∀ task, task.operation = .list ∨ task.operation = .size →
    task.location? 0 = some location → (exec.execute task none { tree := tree }).1 = .error error
  expanded : ∀ task, Expand.IsStorageBatch task → task.location? 0 = some location →
    (expand exec.store tree task).fault = some fault

section Agreement

variable (hwildcard : location.isWildcard = true)
include hwildcard

theorem shows_of_list (htree : tree.Named) (habsolute : Path.isAbsolute location.key = false)
    (hsize : location.checkSize = .ok ()) {listing : Listing}
    (hlist : (exec.store.list location.bucket location.literalKey false { tree := tree }).1 =
      .ok listing) :
    exec.Shows tree location
      (listing.objects.filter fun object => location.accepts object.key) := by
  have hmatching : (exec.matching location { tree := tree }).1 =
      .ok (listing.objects.filter fun object => location.accepts object.key) := by
    rw [fst_matching, hsize, hlist]
    rfl
  constructor
  · have hsorted := Store.pairwise_of_list htree (Location.isAbsolute_literalKey habsolute) hlist
    refine List.pairwise_map.mpr ((hsorted.filter _).imp fun hlt hsame => ?_)
    rw [hsame] at hlt
    exact String.lt_irrefl _ hlt
  · intro task hoperation hlocation
    rw [fst_execute_list hoperation hlocation hwildcard, hmatching]
    rfl
  · intro task hoperation hlocation
    rw [fst_execute_size hoperation hlocation, hmatching]
    rfl
  · exact fun task hoperation hlocation =>
      Expand.covers_delete hlocation hsize hlist hoperation
  · exact fun task target hoperation hlocation htarget =>
      Expand.covers_copy hlocation hsize hlist hoperation htarget
  · exact fun task hoperation hlocation =>
      Expand.covers_download hlocation hsize hlist hoperation

theorem refuses_of_matching {error : JobError} {fault : ExpansionError}
    (hmatching : (exec.matching location { tree := tree }).1 = .error error)
    (hexpand : ∀ task, Expand.IsStorageBatch task → task.location? 0 = some location →
      (expand exec.store tree task).fault = some fault) :
    exec.Refuses tree location error fault := by
  constructor
  · rintro task (hoperation | hoperation) hlocation
    · rw [fst_execute_list hoperation hlocation hwildcard, hmatching]
      rfl
    · rw [fst_execute_size hoperation hlocation, hmatching]
      rfl
  · exact hexpand

end Agreement

def sampleExecutor : Executor :=
  { store := Store.sampleStore }

/-- The object of the first bucket. -/
def innerObject : ObjectInfo :=
  { key := "in", size := 1, modified := 1, storage := .standard }

theorem list_twoBuckets :
    (Store.sampleStore.list "b" "" false { tree := Store.twoBuckets }).1 =
      .ok { objects := [innerObject], prefixes := [] } := by
  have hstream : (Store.sampleStore.stream "b" "" { tree := Store.twoBuckets }).1 =
      .ok ([innerObject], none) := by
    decide +kernel
  have hsorted : Store.sortObjects [innerObject] = [innerObject] := List.mergeSort_singleton _
  exact Store.list_eq_ok_iff.mpr ⟨[innerObject], hstream, by rw [hsorted]⟩

theorem automatonSize_replicate_star (count : Nat) :
    Wildcard.automatonSize (List.replicate count '*') =
      4 * Wildcard.stateSize + count * Wildcard.runSize := by
  have hfold : ∀ size, (List.replicate count '*').foldl
      (fun size c => size + Wildcard.sizeOfChar c) size = size + count * Wildcard.runSize := by
    induction count with
    | zero => intro size; rw [Nat.zero_mul]; rfl
    | succ count ih =>
        intro size
        have hstar : Wildcard.sizeOfChar '*' = Wildcard.runSize := rfl
        rw [List.replicate_succ, List.foldl_cons, ih, hstar, Nat.succ_mul, Nat.add_assoc,
          Nat.add_comm Wildcard.runSize]
  exact hfold _

/-- Stars for which no automaton is built. -/
def manyStars : Location :=
  { bucket := "b", key := String.ofList (List.replicate 12000 '*') }

theorem isWildcard_manyStars : manyStars.isWildcard = true := by
  rw [Location.isWildcard, hasWildcard, manyStars, String.toList_ofList, List.any_eq_true]
  exact ⟨'*', List.mem_replicate.mpr ⟨by decide, rfl⟩, rfl⟩

theorem checkSize_manyStars :
    manyStars.checkSize = .error { limit := Wildcard.largestAutomaton } := by
  have hpattern : manyStars.pattern = List.replicate 12000 '*' := by
    rw [Location.pattern, if_pos isWildcard_manyStars, manyStars, String.toList_ofList]
  rw [Location.checkSize, hpattern, automatonSize_replicate_star]
  exact if_pos (by decide)

theorem accepts_manyStars {key : String} (h : '\n' ∉ key.toList) :
    manyStars.accepts key = true := by
  rw [Location.accepts, if_pos isWildcard_manyStars, manyStars, String.toList_ofList,
    Wildcard.isMatch_iff_derives]
  exact Wildcard.derives_replicate_star (by decide) h

theorem literalKey_manyStars : manyStars.literalKey = "" := by
  have hstar : ∀ count, (List.replicate (count + 1) '*').takeWhile (fun c => !isWildcardChar c) =
      [] := fun count => rfl
  rw [Location.literalKey, manyStars, String.toList_ofList, hstar]

theorem written_manyStars : manyStars.Written := by
  constructor
  · decide
  · decide
  · decide
  · rw [manyStars, Path.isAbsolute, String.toList_ofList]
    rfl

end Executor
end BulkTransfer
