import BulkTransfer.Proofs.Execution.Wildcards
import BulkTransfer.Proofs.Location.Expressions

/-!
# Expansions lose and repeat nothing

The objects that a storage batch stands for are those of the walk of its bucket that match its
source.  The batch downloads or copies each of them by a task of its own and deletes them by
multi-key deletions, all full but the last one, and both go through the objects in walk order.
-/

namespace BulkTransfer

namespace Expand

/-!
## The items of a batch
-/

/-- The transfer of one object to some destination. -/
def Transfers (operation : Operation) (source : Location) (object : ObjectInfo)
    (item : Except ExpansionError SubTask) : Prop :=
  ∃ destination, item = .ok
    { operation := operation,
      arguments := [.storage (source.withKey object.key), destination] }

/-- A download, or for an object of the Glacier class the refusal of it. -/
def Downloads (source : Location) (object : ObjectInfo)
    (item : Except ExpansionError SubTask) : Prop :=
  if object.storage = .glacier then item = .error (Expansion.refusal source object)
  else Transfers .download source object item

/-- One multi-key deletion for each chunk of locations. -/
def multiDeletions (chunks : List (List Argument)) : List (Except ExpansionError SubTask) :=
  chunks.map fun arguments => .ok { operation := .batchDeleteActual, arguments := arguments }

/-- A batch that goes through some objects, one after the other, and ends by itself or with a
fault.  Behind a fault the objects that do not fill a deletion are left. -/
structure Emits (expansion : Expansion) (task : Task) (source : Location)
    (objects : List ObjectInfo) (stop : Option ExpansionError) : Prop where
  fault : expansion.fault = stop
  downloads : task.operation = .batchDownload →
    List.Forall₂ (Downloads source) objects expansion.items
  copies : task.operation = .batchCopy →
    List.Forall₂ (Transfers .copy source) objects expansion.items
  deletions : task.operation = .batchDelete → ∃ chunks,
    expansion.items = multiDeletions chunks ∧
      if stop = none then CutInto 1000 chunks (objects.map (objectArgument source))
      else ∃ left, Divided 1000 chunks left (objects.map (objectArgument source))

variable {store : Store} {tree : FileTree} {task : Task} {source : Location}
  {objects : List ObjectInfo} {stop : Option ExpansionError}

theorem downloads_downloadItem (task : Task) (source : Location) (object : ObjectInfo) :
    Downloads source object (downloadItem task source object) := by
  rw [Downloads, downloadItem]
  by_cases hglacier : object.storage = .glacier
  · rw [if_pos hglacier, if_pos hglacier]
    rfl
  · rw [if_neg hglacier, if_neg hglacier]
    exact ⟨_, rfl⟩

/-- Every item of a map is what it has been made for. -/
theorem forall₂_map {R : ObjectInfo → Except ExpansionError SubTask → Prop}
    {itemOf : ObjectInfo → Except ExpansionError SubTask}
    (h : ∀ object, R object (itemOf object)) (objects : List ObjectInfo) :
    List.Forall₂ R objects (objects.map itemOf) :=
  List.forall₂_map_right_iff.mpr (List.forall₂_same.mpr fun object _ => h object)

theorem exists_chunks (source : Location) (objects : List ObjectInfo)
    (stop : Option ExpansionError) :
    ∃ chunks, deletions source objects stop.isNone = multiDeletions chunks ∧
      if stop = none then CutInto 1000 chunks (objects.map (objectArgument source))
      else ∃ left, Divided 1000 chunks left (objects.map (objectArgument source)) := by
  rcases exists_divided (show ([] : List Argument).length < keysPerDeletion by decide)
    (objects.map (objectArgument source)) with ⟨full, left, hdivided, hpieces⟩
  refine ⟨_, congrArg multiDeletions (hpieces stop.isNone), ?_⟩
  cases stop with
  | none => exact hdivided.cutInto
  | some error =>
      show ∃ left, Divided keysPerDeletion (full ++ []) left _
      rw [List.append_nil]
      exact ⟨left, hdivided⟩

theorem emits_ofObjects (h : IsStorageBatch task) (source : Location)
    (objects : List ObjectInfo) (stop : Option ExpansionError) :
    Emits (ofObjects task source objects stop) task source objects stop := by
  refine ⟨fault_ofObjects h source objects stop, ?_, ?_, ?_⟩
  · intro hdownload
    simp only [ofObjects, hdownload]
    exact forall₂_map (downloads_downloadItem task source) objects
  · intro hcopy
    cases h with
    | download h | delete h => rw [h] at hcopy; cases hcopy
    | copy target _ htarget =>
        simp only [ofObjects, hcopy, htarget]
        exact forall₂_map (fun object => ⟨_, rfl⟩) objects
  · intro hdelete
    simp only [ofObjects, hdelete]
    exact exists_chunks source objects stop

/-!
## Whole expansions
-/

section Whole

variable (h : IsStorageBatch task) (hsource : task.location? 0 = some source)
include h hsource

theorem expand_of_oversized {oversized : Wildcard.Oversized}
    (hsize : source.checkSize = .error oversized) :
    expand store tree task = .failed (.pattern oversized.message) := by
  rw [expand_of_isStorageBatch store tree h]
  simp only [storage, hsource, hsize]

theorem expand_of_stream_error (hsize : source.checkSize = .ok ()) {error : JobError}
    (hstream : (store.stream source.bucket source.literalKey { tree := tree }).1 = .error error) :
    expand store tree task = .failed (.listing error.message) := by
  rw [expand_of_isStorageBatch store tree h]
  simp only [storage, hsource, hsize, hstream]

theorem emits_of_stream (hsize : source.checkSize = .ok ()) {fault : Option JobError}
    (hstream : (store.stream source.bucket source.literalKey { tree := tree }).1 =
      .ok (objects, fault)) :
    Emits (expand store tree task) task source
      (objects.filter fun object => source.accepts object.key)
      (fault.map fun error => .listing error.message) := by
  rw [expand_of_isStorageBatch store tree h]
  simp only [storage, hsource, hsize, hstream]
  exact emits_ofObjects h source _ _

end Whole

/-- The matching objects of a regular bucket are those that can be looked up, in walk order. -/
theorem exists_matching {root : Place} (hregular : store.Regular tree root)
    (hbucket : store.HasBucket tree source.bucket)
    (habsolute : Path.isAbsolute source.key = false)
    (hup : ".." ∉ Path.pieces (Store.directoryPart source.literalKey)) :
    ∃ objects, (store.stream source.bucket source.literalKey { tree := tree }).1 =
        .ok (objects, none) ∧
      ∀ info, (info ∈ objects.filter fun object => source.accepts object.key) ↔
        source.accepts info.key = true ∧
        (store.head { bucket := source.bucket, key := info.key } { tree := tree }).1 =
          .ok (some info) := by
  have hliteral := Location.isAbsolute_literalKey habsolute
  have hmem := hregular.mem_walkObjects_iff hbucket hliteral hup
  have hfault := hregular.walkObjects_fault hbucket hliteral hup
  rw [Store.stream_of_hasBucket hbucket]
  rcases hobjects : store.walkObjects source.bucket (store.bucketPath source.bucket)
    source.literalKey tree with ⟨objects, fault⟩
  rw [hobjects] at hmem hfault
  cases hfault
  refine ⟨objects, rfl, fun info => ?_⟩
  rw [List.mem_filter, hmem, hregular.head_eq_some_iff hbucket]
  constructor
  · rintro ⟨⟨-, hfile⟩, haccepts⟩
    exact ⟨haccepts, hfile⟩
  · rintro ⟨haccepts, hfile⟩
    exact ⟨⟨Location.literalKey_prefix_of_accepts haccepts, hfile⟩, haccepts⟩

/-- The deletion of what a location stands for. -/
def removalOf (source : Location) : Task :=
  Task.make "rm" .batchDelete .none [.storage source]

theorem stream_twoBuckets :
    (Store.sampleStore.stream "b" "" { tree := Store.twoBuckets }).1 =
      .ok ([Executor.innerObject], none) := by
  decide +kernel

end Expand
end BulkTransfer
