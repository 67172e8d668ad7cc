import BulkTransfer.Execute
import BulkTransfer.Proofs.Command.Arguments
import BulkTransfer.Proofs.Expansion.Names
import BulkTransfer.Proofs.FileSystem.Failures

/-!
# Tasks with the arguments that they demand

A task that has what its operation demands does not fail for an argument that is missing
or no location, nor because it should have been expanded.  All other failures say
something else.
-/

namespace BulkTransfer

open DiskM

/-- A failure that a task with suitable arguments cannot have. -/
inductive Unsupplied : JobError → Prop
  | missing (index : Nat) :
      Unsupplied (.invalidArguments ("missing argument " ++ toString (index + 1)))
  | notLocation (index : Nat) :
      Unsupplied (.invalidArguments
        ("argument " ++ toString (index + 1) ++ " is not a storage location"))
  | notExpanded (operation : Operation) :
      Unsupplied (.invalidArguments (operation.shownName ++ " must be expanded before execution"))

/-!
## Other failures
-/

theorem getLast?_toList_append {s t : String} (h : t ≠ "") :
    (s ++ t).toList.getLast? = t.toList.getLast? := by
  rw [String.toList_append, List.getLast?_append_of_ne_nil _ fun hnil =>
    h (String.toList_inj.mp (hnil.trans String.toList_empty.symm))]

/-- The text of a number ends in a digit. -/
theorem isDigit_of_getLast?_toString {n : Nat} {c : Char}
    (h : (toString n).toList.getLast? = some c) : c.isDigit = true := by
  have hmem := List.mem_of_getLast? h
  rw [Nat.toString_eq_repr, Nat.repr, String.toList_ofList] at hmem
  exact Nat.isDigit_of_mem_toDigits (by decide) (by decide) hmem

/-- A failure whose text ends otherwise says something else. -/
theorem not_unsupplied_of_getLast? {text : String} {c : Char}
    (h : text.toList.getLast? = some c) (hdigit : c.isDigit = false) (hn : c ≠ 'n') :
    ¬ Unsupplied (.invalidArguments text) := by
  intro hunsupplied
  cases hunsupplied with
  | missing index =>
      have hne : toString (index + 1) ≠ "" := by
        intro hempty
        have hlength := congrArg String.length hempty
        rw [Nat.toString_eq_repr] at hlength
        exact absurd hlength (Nat.ne_of_gt Nat.length_repr_pos)
      rw [getLast?_toList_append hne] at h
      rw [isDigit_of_getLast?_toString h] at hdigit
      cases hdigit
  | notLocation index =>
      rw [getLast?_toList_append (by decide)] at h
      exact hn (Option.some.inj h).symm
  | notExpanded operation =>
      rw [getLast?_toList_append (by decide)] at h
      exact hn (Option.some.inj h).symm

theorem not_unsupplied_ofIo (name : String) (error : IoError) :
    ¬ Unsupplied (.ofIo name error) := by
  intro h
  rw [JobError.ofIo] at h
  split at h
  · cases h
  · split at h
    · cases h
    · split at h <;> cases h

theorem not_unsupplied_spans (bucket other : String) :
    ¬ Unsupplied (.invalidArguments
      ("batch delete spans buckets " ++ bucket ++ " and " ++ other)) := by
  intro h
  generalize htext : "batch delete spans buckets " ++ bucket ++ " and " ++ other = text at h
  have hfront : text.toList.take 6 = ['b', 'a', 't', 'c', 'h', ' '] := by
    rw [← htext, String.append_assoc, String.append_assoc, String.toList_append]
    rfl
  cases h with
  | missing index =>
      rw [String.toList_append] at hfront
      cases (List.cons.inj hfront).1
  | notLocation index =>
      rw [String.append_assoc, String.toList_append] at hfront
      cases (List.cons.inj hfront).1
  | notExpanded operation =>
      have hnames : ∀ operation ∈ Operation.all,
          (operation.shownName ++ " must be expanded before execution").toList.take 6 ≠
            ['b', 'a', 't', 'c', 'h', ' '] := by
        decide
      exact hnames operation operation.all_complete hfront

/-!
## Copies and the store
-/

namespace FileCopy

variable {P : JobError → Prop}

theorem failsOnly_makeParent (hio : ∀ name error, P (.ofIo name error)) (path : String) :
    FailsOnly P (makeParent path) := by
  rw [makeParent]
  split
  · exact failsOnly_pure ()
  · split
    · exact failsOnly_pure ()
    · exact failsOnly_mapError (hio _)

theorem failsOnly_moveChunks (hio : ∀ name error, P (.ofIo name error)) (hcancelled : P .cancelled)
    {source target : Place} {name : String} {steps : Nat} {cancel : CancelAfter} {done : Nat} :
    FailsOnly P (moveChunks source target name steps cancel done) := by
  induction steps generalizing cancel done with
  | zero => exact failsOnly_pure done
  | succ steps ih =>
      rw [moveChunks]
      split
      · exact failsOnly_fail hcancelled
      · refine (failsOnly_mapError (hio name)).bind fun chunk => ?_
        split
        · exact failsOnly_pure done
        · exact (failsOnly_mapError (hio name)).bind fun _ => ih

theorem failsOnly_copy (hio : ∀ name error, P (.ofIo name error)) (hcancelled : P .cancelled)
    {source target : String} {cancel : CancelAfter}
    (hsame : P (.invalidArguments (source ++ " and " ++ target ++ " are the same file"))) :
    FailsOnly P (copy source target cancel) := by
  rw [copy]
  refine FailsOnly.bind ?_ fun same => ?_
  · rw [sameEntry]
    refine (failsOnly_attempt _).bind fun first => (failsOnly_attempt _).bind fun second => ?_
    split <;> exact failsOnly_pure _
  · split
    · exact failsOnly_fail hsame
    · refine (failsOnly_mapError (hio _)).bind fun place => ?_
      refine (failsOnly_makeParent hio target).bind fun _ => ?_
      refine (failsOnly_mapError (hio _)).bind fun place' => ?_
      rw [fill]
      refine (failsOnly_view _).bind fun size => ?_
      refine (failsOnly_moveChunks hio hcancelled).attempt_bind (fun bytes => failsOnly_pure bytes)
        fun error herror => ?_
      exact (failsOnly_attempt _).bind fun _ => failsOnly_fail herror

end FileCopy

/-- A failure that says something else than that an argument does not suit. -/
def Suited (error : JobError) : Prop :=
  ¬ Unsupplied error

theorem suited_cancelled : Suited .cancelled := by
  intro h
  cases h

theorem failsOnly_transfer_copy (source target : String) (cancel : CancelAfter) :
    FailsOnly Suited (FileCopy.copy source target cancel) := by
  refine FileCopy.failsOnly_copy not_unsupplied_ofIo suited_cancelled ?_
  refine not_unsupplied_of_getLast? (c := 'e') ?_ (by decide) (by decide)
  rw [getLast?_toList_append (by decide)]
  rfl

namespace Store

variable (store : Store)

theorem failsOnly_existingBucket (bucket : String) :
    FailsOnly Suited (store.existingBucket bucket) := by
  have hmissing : Suited (.noSuchBucket bucket) := fun h => by cases h
  rw [existingBucket]
  split
  · exact failsOnly_fail hmissing
  · refine (failsOnly_attempt _).bind fun outcome => ?_
    split
    · split
      · exact failsOnly_pure _
      · exact failsOnly_fail hmissing
    · split
      · exact failsOnly_fail hmissing
      · exact failsOnly_fail (not_unsupplied_ofIo _ _)

theorem failsOnly_objectPath (location : Location) :
    FailsOnly Suited (store.objectPath location) := by
  rw [objectPath]
  split
  · refine failsOnly_fail (not_unsupplied_of_getLast? (c := 't') ?_ (by decide) (by decide))
    rw [getLast?_toList_append (by decide)]
    rfl
  · exact (failsOnly_existingBucket store _).bind fun bucket => failsOnly_pure _

theorem failsOnly_readClass (location : Location) :
    FailsOnly Suited (store.readClass location) := by
  rw [readClass]
  refine (failsOnly_attempt _).bind fun outcome => ?_
  split <;> exact failsOnly_pure _

theorem failsOnly_writeClass (location : Location) (storage : StorageClass) :
    FailsOnly Suited (store.writeClass location storage) := by
  rw [writeClass]
  split
  · exact (failsOnly_attempt _).bind fun _ => failsOnly_pure ()
  · exact (FileCopy.failsOnly_makeParent not_unsupplied_ofIo _).bind fun _ =>
      failsOnly_mapError (not_unsupplied_ofIo _)

theorem failsOnly_infoAt (location : Location) (path : String) :
    FailsOnly Suited (store.infoAt location path) := by
  rw [infoAt]
  refine (failsOnly_attempt _).bind fun outcome => ?_
  split
  · exact (failsOnly_readClass store location).bind fun _ => failsOnly_pure _
  · exact failsOnly_pure _
  · split
    · exact failsOnly_pure _
    · exact failsOnly_fail (not_unsupplied_ofIo _ _)

theorem failsOnly_head (location : Location) : FailsOnly Suited (store.head location) := by
  rw [head]
  exact (failsOnly_objectPath store location).bind fun path => failsOnly_infoAt store location path

theorem failsOnly_requireObject (location : Location) :
    FailsOnly Suited (store.requireObject location) := by
  rw [requireObject]
  refine (failsOnly_objectPath store location).bind fun path => ?_
  refine (failsOnly_infoAt store location path).bind fun info => ?_
  split
  · exact failsOnly_pure path
  · exact failsOnly_fail fun h => by cases h

theorem failsOnly_get (location : Location) (target : String) (cancel : CancelAfter) :
    FailsOnly Suited (store.get location target cancel) := by
  rw [get]
  exact (failsOnly_requireObject store location).bind fun path =>
    failsOnly_transfer_copy path target cancel

theorem failsOnly_put (source : String) (location : Location) (storage : StorageClass)
    (cancel : CancelAfter) : FailsOnly Suited (store.put source location storage cancel) := by
  rw [put]
  refine (failsOnly_objectPath store location).bind fun path => ?_
  refine (failsOnly_transfer_copy source path cancel).bind fun bytes => ?_
  exact (failsOnly_writeClass store location storage).bind fun _ => failsOnly_pure bytes

theorem failsOnly_copy (source target : Location) (storage : StorageClass)
    (cancel : CancelAfter) : FailsOnly Suited (store.copy source target storage cancel) := by
  rw [copy]
  split
  · refine failsOnly_fail (not_unsupplied_of_getLast? (c := 'f') ?_ (by decide) (by decide))
    rw [getLast?_toList_append (by decide)]
    rfl
  · refine (failsOnly_requireObject store source).bind fun sourcePath => ?_
    refine (failsOnly_objectPath store target).bind fun targetPath => ?_
    refine (failsOnly_transfer_copy sourcePath targetPath cancel).bind fun bytes => ?_
    exact (failsOnly_writeClass store target storage).bind fun _ => failsOnly_pure bytes

theorem failsOnly_delete (location : Location) : FailsOnly Suited (store.delete location) := by
  rw [delete]
  refine (failsOnly_objectPath store location).bind fun path => ?_
  refine (failsOnly_attempt _).bind fun outcome => ?_
  split
  · exact (failsOnly_attempt _).bind fun _ => failsOnly_pure ()
  · split
    · exact failsOnly_fail fun h => by cases h
    · exact failsOnly_fail (not_unsupplied_ofIo _ _)

theorem failsOnly_deleteEach (bucket : String) (keys : List String) :
    FailsOnly Suited (store.deleteEach bucket keys) := by
  induction keys with
  | nil => exact failsOnly_pure []
  | cons key keys ih =>
      rw [deleteEach]
      exact (failsOnly_attempt _).bind fun outcome => ih.bind fun others => failsOnly_pure _

theorem failsOnly_deleteMany (bucket : String) (keys : List String) :
    FailsOnly Suited (store.deleteMany bucket keys) := by
  rw [deleteMany]
  exact (failsOnly_existingBucket store bucket).bind fun _ => failsOnly_deleteEach store bucket keys

theorem suited_of_fault {bucketDir keyPrefix : String} {tree : FileTree} {error : JobError}
    (h : .fault error ∈ walk tree bucketDir keyPrefix) : Suited error := by
  rcases fault_mem_walk_iff.mp h with ⟨names, error', -, rfl⟩
  exact nofun

/-- What stops gathering is a fault of the walk. -/
theorem fault_of_gather {delimited : Bool} {keyPrefix : String} {found : List Found}
    {error : JobError} (h : gather delimited keyPrefix found = .error error) :
    .fault error ∈ found := by
  induction found with
  | nil => cases h
  | cons first found ih =>
      cases first with
      | fault error' =>
          cases h
          exact List.mem_cons_self
      | object key node =>
          rw [gather] at h
          cases hgather : gather delimited keyPrefix found with
          | error error' =>
              rw [hgather] at h
              cases h
              exact List.mem_cons_of_mem _ (ih hgather)
          | ok gathered =>
              rw [hgather] at h
              cases h

theorem failsOnly_describe (bucket : String) (files : List (String × Node)) :
    FailsOnly Suited (store.describe bucket files) := by
  induction files with
  | nil => exact failsOnly_pure []
  | cons file files ih =>
      rcases file with ⟨key, node⟩
      rw [describe]
      exact (failsOnly_readClass store _).bind fun storage => ih.bind fun others => failsOnly_pure _

theorem failsOnly_list (bucket keyPrefix : String) (delimited : Bool) :
    FailsOnly Suited (store.list bucket keyPrefix delimited) := by
  rw [list]
  refine (failsOnly_existingBucket store bucket).bind fun bucketDir => ?_
  have hgives : Gives (fun outcome => ∀ error, outcome = .error error → Suited error)
      (DiskM.view fun tree => gather delimited keyPrefix (walk tree bucketDir keyPrefix) :
        DiskM JobError (Except JobError Gathered)) :=
    gives_view fun tree error h => suited_of_fault (fault_of_gather h)
  refine (failsOnly_view _).bind_gives hgives fun outcome houtcome => ?_
  refine (failsOnly_ofExcept houtcome).bind fun gathered => ?_
  exact (failsOnly_describe store bucket _).bind fun objects => failsOnly_pure _

theorem failsOnly_buckets : FailsOnly Suited store.buckets := by
  rw [buckets]
  refine FailsOnly.bind (failsOnly_mapError (not_unsupplied_ofIo _)) fun entries => ?_
  exact (failsOnly_view _).bind fun now => failsOnly_pure _

end Store

/-!
## The operations
-/

namespace Operation.Supplied

variable {task : Task}

/-- A demanded argument is there and meets its demand. -/
theorem exists_argument (h : task.operation.Supplied task.arguments) {index : Nat}
    {demand : Demand} (hdemand : task.operation.demands[index]? = some demand) :
    ∃ argument, task.arguments[index]? = some argument ∧ demand.Met argument := by
  rcases List.getElem?_eq_some_iff.mp hdemand with ⟨hindex, hget⟩
  rcases List.forall₂_iff_get.mp h.demanded with ⟨hlength, hmet⟩
  have hindex' : index < (task.arguments.take task.operation.demands.length).length :=
    hlength ▸ hindex
  have hargument := hmet index hindex hindex'
  rw [List.get_eq_getElem, List.get_eq_getElem, hget, List.getElem_take] at hargument
  have hbound : index < task.arguments.length :=
    Nat.lt_of_lt_of_le hindex' (by rw [List.length_take]; exact Nat.min_le_right _ _)
  exact ⟨_, List.getElem?_eq_getElem hbound, hargument⟩

theorem exists_location (h : task.operation.Supplied task.arguments) {index : Nat}
    (hdemand : task.operation.demands[index]? = some .location) :
    ∃ location, task.location? index = some location := by
  rcases h.exists_argument hdemand with ⟨argument, hargument, hmet⟩
  rcases Option.isSome_iff_exists.mp hmet with ⟨location, hlocation⟩
  exact ⟨location, by rw [Task.location?, hargument, Option.bind_some, hlocation]⟩

end Operation.Supplied

namespace Executor

variable (exec : Executor) {task : Task} {cancel : CancelAfter}

theorem failsOnly_needLocation (h : task.operation.Supplied task.arguments) {index : Nat}
    (hdemand : task.operation.demands[index]? = some .location) :
    FailsOnly Suited (needLocation task index) := by
  rcases h.exists_location hdemand with ⟨location, hlocation⟩
  rw [needLocation, hlocation]
  exact failsOnly_pure location

theorem failsOnly_needPath (h : task.operation.Supplied task.arguments) {index : Nat}
    (hdemand : task.operation.demands[index]? = some .word) :
    FailsOnly Suited (needPath task index) := by
  rcases h.exists_argument hdemand with ⟨argument, hargument, -⟩
  rw [needPath, hargument]
  exact failsOnly_pure argument.text

theorem failsOnly_pathExists (path : String) : FailsOnly Suited (FileCopy.pathExists path) := by
  rw [FileCopy.pathExists]
  refine (failsOnly_attempt _).bind fun outcome => ?_
  split <;> exact failsOnly_pure _

theorem failsOnly_delete (path : String) : FailsOnly Suited (FileCopy.delete path) :=
  failsOnly_mapError (not_unsupplied_ofIo _)

theorem failsOnly_download (h : task.operation.Supplied task.arguments)
    (hoperation : task.operation = .download) : FailsOnly Suited (exec.download task cancel) := by
  rw [download]
  refine (failsOnly_needLocation h (by rw [hoperation]; rfl)).bind fun source => ?_
  refine (failsOnly_needPath h (by rw [hoperation]; rfl)).bind fun target => ?_
  refine FailsOnly.either (failsOnly_pathExists target) (failsOnly_pure false) fun skip => ?_
  beta_reduce
  split
  · exact failsOnly_pure _
  · refine (Store.failsOnly_get exec.store source target cancel).bind fun bytes => ?_
    exact FailsOnly.optional (Store.failsOnly_delete exec.store source) fun _ => failsOnly_pure _

theorem failsOnly_upload (h : task.operation.Supplied task.arguments)
    (hoperation : task.operation = .upload) : FailsOnly Suited (exec.upload task cancel) := by
  rw [upload]
  refine (failsOnly_needPath h (by rw [hoperation]; rfl)).bind fun source => ?_
  refine (failsOnly_needLocation h (by rw [hoperation]; rfl)).bind fun target => ?_
  refine FailsOnly.either (Store.failsOnly_head exec.store target) (failsOnly_pure none)
    fun present => ?_
  beta_reduce
  split
  · exact failsOnly_pure _
  · refine (Store.failsOnly_put exec.store source target _ cancel).bind fun bytes => ?_
    exact FailsOnly.optional (failsOnly_delete source) fun _ => failsOnly_pure _

theorem failsOnly_copy (h : task.operation.Supplied task.arguments)
    (hoperation : task.operation = .copy) : FailsOnly Suited (exec.copy task cancel) := by
  rw [copy]
  refine (failsOnly_needLocation h (by rw [hoperation]; rfl)).bind fun source => ?_
  refine (failsOnly_needLocation h (by rw [hoperation]; rfl)).bind fun target => ?_
  refine FailsOnly.either (Store.failsOnly_head exec.store target) (failsOnly_pure none)
    fun present => ?_
  beta_reduce
  split
  · exact failsOnly_pure _
  · refine (Store.failsOnly_copy exec.store source target _ cancel).bind fun bytes => ?_
    exact FailsOnly.optional (Store.failsOnly_delete exec.store source) fun _ => failsOnly_pure _

theorem failsOnly_localCopy (h : task.operation.Supplied task.arguments)
    (hoperation : task.operation = .localCopy) : FailsOnly Suited (localCopy task cancel) := by
  rw [localCopy]
  refine (failsOnly_needPath h (by rw [hoperation]; rfl)).bind fun source => ?_
  refine (failsOnly_needPath h (by rw [hoperation]; rfl)).bind fun target => ?_
  refine FailsOnly.either (failsOnly_pathExists target) (failsOnly_pure false) fun skip => ?_
  beta_reduce
  split
  · exact failsOnly_pure _
  · refine FailsOnly.bind ?_ fun bytes => failsOnly_pure _
    rw [FileCopy.transfer]
    refine (failsOnly_transfer_copy source target cancel).bind fun bytes => ?_
    exact FailsOnly.optional (failsOnly_delete source) fun _ => failsOnly_pure _

theorem suited_of_keysInBucket {bucket : String} {index : Nat} {arguments : List Argument}
    {error : JobError} (h : keysInBucket bucket index arguments = .error error)
    (harguments : ∀ argument ∈ arguments, argument.isStorage = true) : Suited error := by
  induction arguments generalizing index with
  | nil => cases h
  | cons argument arguments ih =>
      rw [List.forall_mem_cons] at harguments
      rcases Option.isSome_iff_exists.mp harguments.1 with ⟨location, hlocation⟩
      rw [keysInBucket, hlocation] at h
      simp only at h
      split at h
      · cases h
        exact not_unsupplied_spans bucket location.bucket
      · cases hrest : keysInBucket bucket (index + 1) arguments with
        | ok keys => rw [hrest] at h; cases h
        | error error' =>
            rw [hrest] at h
            cases h
            exact ih hrest harguments.2

theorem failsOnly_deleteKeys (h : task.operation.Supplied task.arguments)
    (hoperation : task.operation = .batchDeleteActual) :
    FailsOnly Suited (exec.deleteKeys task) := by
  rw [deleteKeys]
  refine (failsOnly_needLocation h (by rw [hoperation]; rfl)).bind fun first => ?_
  refine FailsOnly.bind (failsOnly_ofExcept fun error herror =>
    suited_of_keysInBucket herror (h.locations hoperation)) fun keys => ?_
  refine (Store.failsOnly_deleteMany exec.store first.bucket keys).bind fun outcomes => ?_
  refine failsOnly_ofExcept fun error herror => ?_
  simp only [deletionOutcome] at herror
  split at herror
  · cases herror
  · cases herror
    intro hunsupplied
    cases hunsupplied

theorem failsOnly_matching (location : Location) : FailsOnly Suited (exec.matching location) := by
  rw [matching]
  refine FailsOnly.bind (failsOnly_ofExcept fun error herror => ?_) fun _ => ?_
  · have hsize : ∀ oversized : Wildcard.Oversized,
        Suited (.invalidArguments oversized.message) := by
      intro oversized
      have htext : ∃ front, oversized.message = front ++ " bytes." := ⟨_, rfl⟩
      rcases htext with ⟨front, htext⟩
      refine not_unsupplied_of_getLast? (c := '.') ?_ (by decide) (by decide)
      rw [htext, getLast?_toList_append (by decide)]
      rfl
    generalize location.checkSize = size at herror
    cases size with
    | ok _ => cases herror
    | error oversized =>
        rw [Except.mapError, Except.error.injEq] at herror
        rw [← herror]
        exact hsize oversized
  · exact (Store.failsOnly_list exec.store _ _ _).bind fun listing => failsOnly_pure _

theorem failsOnly_listing (h : task.operation.Supplied task.arguments)
    (hoperation : task.operation = .list) : FailsOnly Suited (exec.list task) := by
  rw [list]
  refine (failsOnly_needLocation h (by rw [hoperation]; rfl)).bind fun location => ?_
  refine FailsOnly.either ?_ ?_ fun lines => failsOnly_pure _
  · rw [wildcardLines]
    exact (failsOnly_matching exec location).bind fun objects => failsOnly_pure _
  · rw [plainLines]
    exact (Store.failsOnly_list exec.store _ _ _).bind fun listing => failsOnly_pure _

theorem failsOnly_size (h : task.operation.Supplied task.arguments)
    (hoperation : task.operation = .size) : FailsOnly Suited (exec.size task) := by
  rw [size]
  refine (failsOnly_needLocation h (by rw [hoperation]; rfl)).bind fun location => ?_
  exact (failsOnly_matching exec location).bind fun objects => failsOnly_pure _

theorem failsOnly_runProgram (hwords : task.arguments ≠ []) :
    FailsOnly Suited (exec.runProgram task) := by
  rw [runProgram]
  cases harguments : task.arguments with
  | nil => exact absurd harguments hwords
  | cons program arguments =>
      refine (failsOnly_view _).bind fun programs => ?_
      refine (failsOnly_goOn _).bind fun _ => ?_
      refine FailsOnly.bind (failsOnly_ofExcept fun error herror => ?_) fun lines =>
        failsOnly_pure _
      intro hunsupplied
      generalize programs program.text (arguments.map Argument.text) = started at herror
      cases started with
      | error error' =>
          cases herror
          cases hunsupplied
      | ok run =>
          rw [Shell.outcomeWithin] at herror
          split at herror
          · cases herror
            cases hunsupplied
          · rw [Shell.outcome] at herror
            split at herror
            · split at herror
              · cases herror
              · cases herror
                cases hunsupplied
            · cases herror
              cases hunsupplied

/-- A task that is no batch and has what it demands fails for other reasons only. -/
theorem failsOnly_execute (h : task.operation.Supplied task.arguments)
    (hbatch : task.operation.isBatch = false) (hexit : task.operation ≠ .abort)
    (hwords : task.operation = .shellExec → task.arguments ≠ []) :
    FailsOnly Suited (exec.execute task cancel) := by
  rw [execute]
  split
  · exact failsOnly_fail suited_cancelled
  · rw [perform]
    cases hoperation : task.operation with
    | download => exact failsOnly_download exec h hoperation
    | upload => exact failsOnly_upload exec h hoperation
    | copy => exact failsOnly_copy exec h hoperation
    | delete =>
        refine (failsOnly_needLocation h (by rw [hoperation]; rfl)).bind fun location => ?_
        exact (Store.failsOnly_delete exec.store location).bind fun _ => failsOnly_pure _
    | batchDeleteActual => exact failsOnly_deleteKeys exec h hoperation
    | list => exact failsOnly_listing exec h hoperation
    | listBuckets =>
        exact (Store.failsOnly_buckets exec.store).bind fun buckets => failsOnly_pure _
    | size => exact failsOnly_size exec h hoperation
    | localCopy => exact failsOnly_localCopy h hoperation
    | localDelete =>
        refine (failsOnly_needPath h (by rw [hoperation]; rfl)).bind fun path => ?_
        exact (failsOnly_delete path).bind fun _ => failsOnly_pure _
    | shellExec => exact failsOnly_runProgram exec (hwords hoperation)
    | abort => exact absurd hoperation hexit
    | batchDownload | batchUpload | batchCopy | batchDelete | batchLocalCopy =>
        rw [hoperation] at hbatch
        cases hbatch

end Executor
end BulkTransfer
