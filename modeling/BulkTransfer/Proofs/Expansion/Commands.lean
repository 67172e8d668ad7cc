import BulkTransfer.Proofs.Expansion.Items
import BulkTransfer.Proofs.Parse.Lines

/-!
# The tasks of a command line

A line of standard commands gives tasks that can be performed or expanded: what the parser
checked is what the executor and the expansions rely on, for the tasks of the line and for
those that its batches fan out into.
-/

namespace BulkTransfer

open DiskM

/-- A task that is performed as it is: no batch, no `exit` and no shell line without words. -/
structure Task.Direct (task : Task) : Prop where
  noBatch : task.operation.isBatch = false
  noExit : task.operation ≠ .abort
  words : task.operation = .shellExec → task.arguments ≠ []

/-- A destination that names are put behind: it ends in a slash or is a whole bucket. -/
inductive Argument.IsDirectory : Argument → Prop
  | path {path : String} (h : Path.endsInSlash path = true) : IsDirectory (.plain path)
  | location {location : Location}
      (h : location.key = "" ∨ Path.endsInSlash location.key = true) :
      IsDirectory (.storage location)

theorem Demand.isDirectory_of_met {demand : Demand} {argument : Argument}
    (hdemand : demand = .directoryPath ∨ demand = .directoryLocation)
    (h : demand.Met argument) : argument.IsDirectory := by
  rcases hdemand with rfl | rfl
  · rcases h with ⟨path, rfl, hpath⟩
    exact .path hpath
  · rcases h with ⟨location, rfl, hkey⟩
    exact .location hkey

namespace Operation

/-- Every batch but a deletion demands a directory to put its names behind. -/
theorem demands_destination {operation : Operation} (hbatch : operation.isBatch = true)
    (hdelete : operation ≠ .batchDelete) :
    ∃ demand, operation.demands[1]? = some demand ∧
      (demand = .directoryPath ∨ demand = .directoryLocation) := by
  cases operation with
  | batchDownload | batchLocalCopy => exact ⟨_, rfl, Or.inl rfl⟩
  | batchUpload | batchCopy => exact ⟨_, rfl, Or.inr rfl⟩
  | batchDelete => exact absurd rfl hdelete
  | abort | download | upload | copy | delete | batchDeleteActual | list | listBuckets | size
  | localCopy | localDelete | shellExec => cases hbatch

end Operation

theorem Emitted.direct {task : Task} {sub : SubTask} (h : Emitted task sub) :
    (task.derive sub.operation sub.arguments).Direct where
  noBatch := h.concrete
  noExit := h.ordinary.1
  words := fun hshell => absurd hshell h.ordinary.2

namespace Parse

/-- The tasks of a line never fail for want of a suitable argument.  A batch has a directory
as its destination, is refused only for a source that is no directory, and fans out into
tasks of the same kind below its destination; only a pattern that leads upwards and keeps its
directories can leave it. -/
theorem line_suits_execution (tree : FileTree) (text : String) (job : Job)
    (hline : line tree .standard text = .ok (some job)) (task : Task) (hmem : task ∈ job.tasks) :
    (task.Direct → ∀ (exec : Executor) (cancel : CancelAfter),
      FailsOnly Suited (exec.execute task cancel)) ∧
    (task.operation.isBatch = true →
      (task.operation ≠ .batchDelete →
        ∃ destination, task.arguments[1]? = some destination ∧ destination.IsDirectory) ∧
      ∀ (store : Store) (tree' : FileTree), tree'.Named →
        (∀ message, (expand store tree' task).fault = some (.invalidSource message) →
          ∃ source, task.arguments[0]? = some source ∧ hasGlobChar source.text = false ∧
            tree'.isDirectory source.text = false) ∧
        ∀ item ∈ (expand store tree' task).items,
          (∃ path message, item = .error (.entry path message)) ∨
          ∃ sub, item = .ok sub ∧ Emitted task sub ∧
            (task.derive sub.operation sub.arguments).Direct ∧
            ∀ (exec : Executor) (cancel : CancelAfter),
              FailsOnly Suited
                (exec.execute (task.derive sub.operation sub.arguments) cancel)) := by
  rcases exists_segment_of_mem_tasks (reads_of_line hline) hmem with ⟨s, -, hsegment⟩
  have hsupplied := supplied_of_segment hsegment
  refine ⟨fun hdirect exec cancel => ?_, fun hbatch => ⟨fun hdelete => ?_, ?_⟩⟩
  · exact exec.failsOnly_execute hsupplied hdirect.noBatch hdirect.noExit hdirect.words
  · rcases Operation.demands_destination hbatch hdelete with ⟨demand, hdemand, hdirectory⟩
    rcases hsupplied.exists_argument hdemand with ⟨destination, hdestination, hmet⟩
    exact ⟨destination, hdestination, Demand.isDirectory_of_met hdirectory hmet⟩
  · intro store tree' htree
    rcases Expand.expand_cases store hbatch hsupplied htree with ⟨hitems, hfault⟩
    refine ⟨hfault, fun item hitem => ?_⟩
    rcases hitems item hitem with herror | ⟨sub, hsub, hemitted⟩
    · exact Or.inl herror
    · refine Or.inr ⟨sub, hsub, hemitted, hemitted.direct, fun exec cancel => ?_⟩
      have hdirect := hemitted.direct
      exact exec.failsOnly_execute hemitted.supplied hdirect.noBatch hdirect.noExit hdirect.words

/-- A file and two directories. -/
def smallTree : FileTree :=
  (((default : FileTree).put ["dst"] .directory).put ["sub"] .directory).put ["f"]
    (.file ⟨#[120]⟩ 0)

theorem named_smallTree : smallTree.Named :=
  FileTree.named_of_entries (by decide +kernel)

/-- A batch whose pattern leads upwards. -/
def upwardsTask : Task where
  source := "cp --parents sub/.*/f dst/"
  keyword := "cp"
  operation := .batchLocalCopy
  options := Options.none.insert .parents
  arguments := [.plain "sub/.*/f", .plain "dst/"]

def removalTask : Task where
  source := "rm f"
  keyword := "rm"
  operation := .localDelete
  options := Options.none
  arguments := [.plain "f"]

theorem line_upwards : line smallTree .standard "cp --parents sub/.*/f dst/ && rm f" =
    .ok (some (.mk upwardsTask (some (.ofTask removalTask)) none)) := by
  let c : Chain :=
    { first := "cp --parents sub/.*/f dst/".toList, onSuccess := some "rm f".toList,
      onFailure := none }
  have hcut : Chain.split
      (Chain.prepareChars "cp --parents sub/.*/f dst/ && rm f".toList) = c := by
    decide +kernel
  have hfirst : segment smallTree .standard c.first = .ok (some upwardsTask) := by
    decide +kernel
  have hnext : segment smallTree .standard "rm f".toList = .ok (some removalTask) := by
    decide +kernel
  rw [line_of_not_comment (by decide +kernel) (by decide +kernel), hcut, chain_eq_job_iff]
  exact ⟨hfirst, .present hnext, .absent⟩

/-- The transfer of the file that the pattern leads to. -/
def upwardsSubTask : SubTask where
  operation := .localCopy
  arguments := [.plain "sub/../f", .plain "dst/../f"]

theorem items_upwards (store : Store) :
    (expand store smallTree upwardsTask).items = [.ok upwardsSubTask] := by
  have hlocal : (Expand.localBatch smallTree upwardsTask).items = [.ok upwardsSubTask] := by
    decide +kernel
  exact hlocal

theorem line_suits_execution_upwards :
    (∃ destination, upwardsTask.arguments[1]? = some destination ∧ destination.IsDirectory) ∧
    Emitted upwardsTask upwardsSubTask ∧
    FailsOnly Suited (({ store := ⟨"store"⟩ } : Executor).execute
      (upwardsTask.derive upwardsSubTask.operation upwardsSubTask.arguments) none) ∧
    FailsOnly Suited (({ store := ⟨"store"⟩ } : Executor).execute removalTask none) := by
  have hbatch := (line_suits_execution smallTree _ _ line_upwards upwardsTask
    List.mem_cons_self).2 rfl
  have hremoval := (line_suits_execution smallTree _ _ line_upwards removalTask
    (List.mem_cons_of_mem _ List.mem_cons_self)).1
  have hdirect : removalTask.Direct := ⟨rfl, nofun, nofun⟩
  rcases hbatch with ⟨hdestination, hexpansion⟩
  have hitem : .ok upwardsSubTask ∈ (expand ⟨"store"⟩ smallTree upwardsTask).items := by
    rw [items_upwards]
    exact List.mem_singleton_self _
  rcases (hexpansion ⟨"store"⟩ smallTree named_smallTree).2 _ hitem with
    ⟨_, _, herror⟩ | ⟨sub, hsub, hemitted, -, hfails⟩
  · cases herror
  · cases hsub
    exact ⟨hdestination nofun, hemitted, hfails _ _, hremoval hdirect _ _⟩

/-- A pattern that leads upwards and keeps its directories leaves its destination. -/
theorem upwards_leaves_destination :
    line smallTree .standard "cp --parents sub/.*/f dst/ && rm f" =
      .ok (some (.mk upwardsTask (some (.ofTask removalTask)) none)) ∧
    (expand ⟨"store"⟩ smallTree upwardsTask).items = [.ok upwardsSubTask] ∧
    upwardsTask.arguments[1]? = some (.plain "dst/") ∧
    ¬ ∃ names target, upwardsSubTask.arguments[1]? = some target ∧
        Lands names (.plain "dst/") target ∧ ∀ name ∈ names, IsName name := by
  refine ⟨line_upwards, items_upwards _, rfl, ?_⟩
  rintro ⟨names, target, htarget, hlands, hnames⟩
  have hjoined : joinNames names = "../f" := by
    generalize hdestination : Argument.plain "dst/" = destination at hlands
    cases hlands with
    | path directory =>
        have hdirectory : "dst/" = directory := congrArg Argument.text hdestination
        have htext : "dst/../f" = directory ++ joinNames names :=
          congrArg Argument.text (Option.some.inj htarget)
        rw [← hdirectory, show "dst/../f" = "dst/" ++ "../f" from rfl] at htext
        exact (String.append_right_inj _).mp htext.symm
    | location target => exact absurd (congrArg Argument.location hdestination) nofun
  have hne : names ≠ [] := by
    rintro rfl
    exact absurd hjoined (by decide)
  have hpieces := Path.pieces_joinNames hne fun name hname => (hnames name hname).slashFree
  rw [hjoined] at hpieces
  have hmem : ".." ∈ names := by
    rw [← hpieces]
    decide
  exact (hnames _ hmem).ne_up rfl

end Parse
end BulkTransfer
