import BulkTransfer.Proofs.Execution.Wildcards
import BulkTransfer.Proofs.Store.Deletions

/-!
# Deleting many keys

The bucket is settled before anything is deleted: keys of several buckets, or of one that is not
there, are refused and nothing changes.  After that every key gets its own deletion, whatever
becomes of the others, and the answer accounts for each of them.
-/

namespace BulkTransfer
namespace Executor

open Store

variable {exec : Executor} {task : Task} {tree : FileTree} {bucket : String}
  {arguments : List Argument} {locations : List Location}

/-!
## Keys of one bucket
-/

theorem keysInBucket_eq_ok (harguments : arguments.map Argument.location = locations.map some)
    (hbucket : ∀ location ∈ locations, location.bucket = bucket) (index : Nat) :
    keysInBucket bucket index arguments = .ok (locations.map Location.key) := by
  induction locations generalizing arguments index with
  | nil =>
      rw [List.map_nil, List.map_eq_nil_iff] at harguments
      rw [harguments]
      rfl
  | cons location locations ih =>
      rcases List.map_eq_cons_iff.mp harguments with ⟨argument, rest, rfl, hlocation, hrest⟩
      rw [List.forall_mem_cons] at hbucket
      rw [keysInBucket, hlocation]
      dsimp only
      rw [if_neg (not_not_intro hbucket.1), ih hrest hbucket.2]
      rfl

/-- A location in another bucket is refused. -/
theorem keysInBucket_eq_error (harguments : arguments.map Argument.location = locations.map some)
    {location : Location} (hmem : location ∈ locations) (hother : location.bucket ≠ bucket)
    (index : Nat) : ∃ error, keysInBucket bucket index arguments = .error error := by
  induction locations generalizing arguments index with
  | nil => exact absurd hmem List.not_mem_nil
  | cons first locations ih =>
      rcases List.map_eq_cons_iff.mp harguments with ⟨argument, rest, rfl, hlocation, hrest⟩
      rw [keysInBucket, hlocation]
      dsimp only
      by_cases hsame : first.bucket = bucket
      · have hlater : location ∈ locations := by
          rcases List.mem_cons.mp hmem with rfl | hlater
          · exact absurd hsame hother
          · exact hlater
        rcases ih hrest hlater (index + 1) with ⟨error, herror⟩
        rw [if_neg (not_not_intro hsame), herror]
        exact ⟨error, rfl⟩
      · rw [if_pos hsame]
        exact ⟨_, rfl⟩

/-!
## Accounts of deletions
-/

/-- The answer counts the deletions that failed, or names every key. -/
theorem deletionOutcome_deletions (store : Store) (locations : List Location)
    (hbucket : ∀ location ∈ locations, location.bucket = bucket) (tree : FileTree) :
    deletionOutcome bucket ((store.deletions locations tree).map fun deletion =>
        (deletion.location.key, deletion.error? store)) =
      if (store.deletions locations tree).countP (Deletion.fails store) = 0 then
        .ok { messages := locations.map fun location =>
                "Batch-delete s3://" ++ location.bucket ++ "/" ++ location.key }
      else
        .error (.partialFailure ((store.deletions locations tree).countP (Deletion.fails store))
          locations.length) := by
  have hlocations := locations_deletions store locations tree
  have hkeys : (store.deletions locations tree).map (fun deletion =>
      "Batch-delete s3://" ++ bucket ++ "/" ++ deletion.location.key) =
      locations.map fun location =>
        "Batch-delete s3://" ++ location.bucket ++ "/" ++ location.key := by
    have hsame : (store.deletions locations tree).map (fun deletion =>
        "Batch-delete s3://" ++ bucket ++ "/" ++ deletion.location.key) =
        ((store.deletions locations tree).map Deletion.location).map fun location =>
          "Batch-delete s3://" ++ bucket ++ "/" ++ location.key := by
      rw [List.map_map]
      rfl
    rw [hsame, hlocations]
    refine List.map_congr_left fun location hmem => ?_
    rw [hbucket location hmem]
  have hlength : (store.deletions locations tree).length = locations.length := by
    rw [← List.length_map (f := Deletion.location), hlocations]
  have hcount : (((store.deletions locations tree).map fun deletion =>
        (deletion.location.key, deletion.error? store)).filter fun outcome => outcome.2.isSome).length =
      (store.deletions locations tree).countP (Deletion.fails store) := by
    rw [List.filter_map, List.length_map, ← List.countP_eq_length_filter]
    exact congrArg (List.countP · _) (funext (isSome_error? store))
  simp only [deletionOutcome, hcount, List.length_map, hlength, List.map_map]
  split
  · rw [← hkeys]
    rfl
  · rfl

/-!
## Executing a deletion of many keys
-/

section Execution

variable (hoperation : task.operation = .batchDeleteActual)
  (harguments : task.arguments.map Argument.location = locations.map some)
include hoperation harguments

/-- The keys are gathered before the store is looked at. -/
theorem execute_keys_cons {first : Location} {rest : List Location}
    (hfirst : locations = first :: rest) (disk : Disk) :
    exec.execute task none disk =
      (match keysInBucket first.bucket 0 task.arguments with
      | .error error => (.error error, disk)
      | .ok keys => (exec.store.deleteMany first.bucket keys >>= fun outcomes =>
          DiskM.ofExcept (deletionOutcome first.bucket outcomes)) disk) := by
  have hlocation : task.location? 0 = some first := by
    rw [hfirst, List.map_cons] at harguments
    rcases List.map_eq_cons_iff.mp harguments with ⟨argument, others, hcons, hargument, -⟩
    rw [Task.location?, hcons]
    exact hargument
  rw [execute, if_neg (Option.some_ne_none 0).symm, perform, hoperation]
  dsimp only
  rw [deleteKeys, needLocation, hlocation]
  dsimp only
  rw [DiskM.bind_apply]
  show (DiskM.ofExcept (keysInBucket first.bucket 0 task.arguments) >>= _) disk = _
  rw [DiskM.bind_apply, DiskM.ofExcept]
  cases keysInBucket first.bucket 0 task.arguments with
  | error error => rfl
  | ok keys => rfl

/-- Without keys, with keys of two buckets and with keys of a missing one nothing is done. -/
theorem execute_keys_refused
    (h : locations = [] ∨
      (∃ location ∈ locations, ∃ other ∈ locations, location.bucket ≠ other.bucket) ∨
      ∃ location ∈ locations, ¬ exec.store.HasBucket tree location.bucket) :
    ∃ error, exec.execute task none { tree := tree } = (.error error, { tree := tree }) := by
  cases locations with
  | nil =>
      have hlocation : task.location? 0 = none := by
        rw [List.map_nil, List.map_eq_nil_iff] at harguments
        rw [Task.location?, harguments]
        rfl
      rw [execute, if_neg (Option.some_ne_none 0).symm, perform, hoperation]
      dsimp only
      rw [deleteKeys, needLocation, hlocation]
      exact ⟨_, rfl⟩
  | cons first rest =>
      rw [execute_keys_cons hoperation harguments rfl]
      by_cases hbucket : ∀ location ∈ first :: rest, location.bucket = first.bucket
      · have hmissing : ¬ exec.store.HasBucket tree first.bucket := by
          rcases h with hnone | ⟨location, hmem, other, hmem', hne⟩ | ⟨location, hmem, hmissing⟩
          · cases hnone
          · exact absurd ((hbucket location hmem).trans (hbucket other hmem').symm) hne
          · rwa [hbucket location hmem] at hmissing
        rcases existingBucket_of_not_hasBucket hmissing with ⟨error, herror⟩
        rw [keysInBucket_eq_ok harguments hbucket 0]
        dsimp only
        rw [deleteMany, DiskM.bind_apply, DiskM.bind_apply, herror]
        exact ⟨error, rfl⟩
      · rw [not_forall] at hbucket
        rcases hbucket with ⟨location, hother⟩
        rw [Classical.not_imp] at hother
        rcases keysInBucket_eq_error harguments hother.1 hother.2 0 with ⟨error, herror⟩
        rw [herror]
        exact ⟨error, rfl⟩

/-- Keys of one bucket that is there are deleted one after the other. -/
theorem execute_keys_accepted (hsound : tree.Sound) (hne : locations ≠ [])
    (hsame : ∀ location ∈ locations, ∀ other ∈ locations, location.bucket = other.bucket)
    (hbucket : ∀ location ∈ locations, exec.store.HasBucket tree location.bucket) :
    exec.execute task none { tree := tree } =
      (if (exec.store.deletions locations tree).countP (Deletion.fails exec.store) = 0 then
        .ok { messages := locations.map fun location =>
                "Batch-delete s3://" ++ location.bucket ++ "/" ++ location.key }
      else
        .error (.partialFailure
          ((exec.store.deletions locations tree).countP (Deletion.fails exec.store))
          locations.length),
      { tree := exec.store.afterDeletions locations tree }) := by
  cases locations with
  | nil => exact absurd rfl hne
  | cons first rest =>
      have hfirst : ∀ location ∈ first :: rest, location.bucket = first.bucket :=
        fun location hmem => hsame location hmem first List.mem_cons_self
      rw [execute_keys_cons hoperation harguments rfl,
        keysInBucket_eq_ok harguments hfirst 0]
      dsimp only
      rw [deleteMany, DiskM.bind_apply, DiskM.bind_apply,
        existingBucket_of_hasBucket (hbucket first List.mem_cons_self)]
      dsimp only
      rw [deleteEach_eq (first :: rest) hfirst hsound]
      dsimp only
      rw [deletionOutcome_deletions exec.store (first :: rest) hfirst tree]
      rfl

end Execution

/-- Keys of several buckets, or of a missing one, are refused and nothing changes.  Otherwise
each key gets its deletion, in order.  The answer is the list of all keys if every deletion
succeeded, and the number of the failed ones if not; a key that has come before fails.  Behind
the deletions no listed location names an object.  Where there are no links, no other object has
changed, and the deletions that succeeded are as many as the objects that were listed. -/
theorem key_deletions_accounted (exec : Executor) (task : Task) (locations : List Location)
    (tree : FileTree) (hoperation : task.operation = .batchDeleteActual)
    (harguments : task.arguments.map Argument.location = locations.map some)
    (hsound : tree.Sound) :
    ((locations = [] ∨
      (∃ location ∈ locations, ∃ other ∈ locations, location.bucket ≠ other.bucket) ∨
      ∃ location ∈ locations, ¬ exec.store.HasBucket tree location.bucket) →
        ∃ error, exec.execute task none { tree := tree } = (.error error, { tree := tree })) ∧
    (locations ≠ [] →
      (∀ location ∈ locations, ∀ other ∈ locations, location.bucket = other.bucket) →
      (∀ location ∈ locations, exec.store.HasBucket tree location.bucket) →
        let deletions := exec.store.deletions locations tree
        let failed := deletions.countP (Deletion.fails exec.store)
        let later := exec.store.afterDeletions locations tree
        exec.execute task none { tree := tree } =
          (if failed = 0 then
            .ok { messages := locations.map fun location =>
                    "Batch-delete s3://" ++ location.bucket ++ "/" ++ location.key }
          else .error (.partialFailure failed locations.length), { tree := later }) ∧
        deletions.map Deletion.location = locations ∧
        deletions.Pairwise (fun earlier later =>
          earlier.location = later.location → later.fails exec.store = true) ∧
        (∀ location ∈ locations, exec.store.object? later location = none) ∧
        ∀ root, tree.Roots exec.store.root root →
          (∀ other, other ∉ locations →
            exec.store.object? later other = exec.store.object? tree other) ∧
          failed + (locations.toFinset.filter fun location =>
            (exec.store.object? tree location).isSome = true).card = locations.length) := by
  constructor
  · exact execute_keys_refused hoperation harguments
  · intro hne hsame hbucket
    refine ⟨execute_keys_accepted hoperation harguments hsound hne hsame hbucket,
      locations_deletions exec.store locations tree, deletions_pairwise locations hsound,
      fun location hmem => ?_, fun root hroot => ⟨fun other hother => ?_, ?_⟩⟩
    · exact object?_eq_none_of_not_deletable
        (not_deletable_afterDeletions locations hsound location hmem)
    · exact object?_afterDeletions hsound hroot hother
    · exact countP_fails_deletions hsound hroot locations

def keyDeletion (locations : List Location) : Task :=
  .make "batch-rm" .batchDeleteActual Options.none (locations.map .storage)

def mixedLocations : List Location :=
  [sampleLocation, ⟨"b", "gone"⟩, sampleLocation, ⟨"b", "../src"⟩]

/-- An object, a missing key, the object again and a key that is none: one deletion succeeds. -/
theorem key_deletions_accounted_mixed :
    sampleTree.Sound ∧ sampleTree.Roots sampleExecutor.store.root ["store"] ∧
      sampleExecutor.store.HasBucket sampleTree "b" ∧
      ∃ later, sampleExecutor.execute (keyDeletion mixedLocations) none { tree := sampleTree } =
          (.error (.partialFailure 3 4), { tree := later }) ∧
        sampleExecutor.store.object? later sampleLocation = none := by
  have hbucket : sampleExecutor.store.HasBucket sampleTree "b" :=
    ⟨by decide, ["store", "b"], .directory, rfl, rfl⟩
  have hroot : sampleTree.Roots sampleExecutor.store.root ["store"] := sampleTree_roots
  have hnames : ∀ location ∈ mixedLocations, location.bucket = "b" := by decide
  have haccounted := (key_deletions_accounted sampleExecutor (keyDeletion mixedLocations)
    mixedLocations sampleTree rfl rfl sampleTree_evolves.sound).2 (List.cons_ne_nil _ _)
    (fun location hmem other hmem' => (hnames location hmem).trans (hnames other hmem').symm)
    (fun location hmem => (hnames location hmem).symm ▸ hbucket)
  rcases haccounted with ⟨hexecute, -, -, hgone, haccount⟩
  have hone : (mixedLocations.toFinset.filter fun location =>
      (sampleExecutor.store.object? sampleTree location).isSome = true).card = 1 := by
    decide +kernel
  have hcount := (haccount ["store"] hroot).2
  have hfailed : (sampleExecutor.store.deletions mixedLocations sampleTree).countP
      (Deletion.fails sampleExecutor.store) = 3 := by
    rw [hone] at hcount
    exact Nat.succ.inj hcount
  rw [hfailed, if_neg (by decide)] at hexecute
  exact ⟨sampleTree_evolves.sound, hroot, hbucket, _, hexecute,
    hgone sampleLocation List.mem_cons_self⟩

/-- A bucket in which a link leads from one object to another. -/
def aliasedTree : FileTree :=
  (((emptyTree.put ["store"] .directory).put ["store", "b"] .directory).put
    ["store", "b", "y"] (.file "1".toUTF8 1)).put ["store", "b", "x"] (.link "y")

/-- An object that a link leads to is lost under the name of the link as well, though that was
not listed. -/
theorem key_deletions_lose_alias :
    aliasedTree.Sound ∧
      (sampleStore.object? aliasedTree ⟨"b", "x"⟩).isSome = true ∧
      ∃ later, sampleExecutor.execute (keyDeletion [⟨"b", "y"⟩]) none { tree := aliasedTree } =
          (.ok { messages := ["Batch-delete s3://b/y"] }, later) ∧
        sampleStore.object? later.tree ⟨"b", "x"⟩ = none := by
  have hsound : aliasedTree.Sound :=
    FileTree.sound_of_entries (by decide +kernel) FileTree.holdsEntries_nil
  have hmessage : (sampleExecutor.execute (keyDeletion [⟨"b", "y"⟩]) none
      { tree := aliasedTree }).1.toOption = some { messages := ["Batch-delete s3://b/y"] } := by
    decide +kernel
  have hlost : (sampleStore.object? (sampleExecutor.execute (keyDeletion [⟨"b", "y"⟩]) none
      { tree := aliasedTree }).2.tree ⟨"b", "x"⟩).isSome = false := by
    decide +kernel
  rcases hrun : sampleExecutor.execute (keyDeletion [⟨"b", "y"⟩]) none
    { tree := aliasedTree } with ⟨outcome, later⟩
  rw [hrun] at hmessage hlost
  have houtcome : outcome = .ok { messages := ["Batch-delete s3://b/y"] } :=
    FileCopy.eq_ok_of_toOption hmessage
  refine ⟨hsound, by decide +kernel, later, by rw [houtcome], ?_⟩
  exact Option.isNone_iff_eq_none.mp (Option.isSome_eq_false_iff.mp hlost)

end Executor
end BulkTransfer
