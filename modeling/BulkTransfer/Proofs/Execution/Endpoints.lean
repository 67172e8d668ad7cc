import BulkTransfer.Execute
import BulkTransfer.Proofs.FileSystem.Arrivals
import BulkTransfer.Proofs.Store.Strikes

/-!
# The ends of a transfer

The four transfers differ in what their ends are, an object or a local path each.  What is done
at an end depends on that end only: it is looked at, filled from the other one, or discarded.  So
a transfer with `-n` is one computation with its ends as parameters.
-/

namespace BulkTransfer

open DiskM (bind_apply bind_eq_ok_iff mapError_eq_ok_iff attempt_eq_ok_iff)

/-- An end of a transfer. -/
inductive Endpoint
  | object (location : Location)
  | path (text : String)
deriving DecidableEq, Repr

namespace Endpoint

/-- The path of the file at an end. -/
def filePath (store : Store) : Endpoint → String
  | object location => store.filePath location
  | path text => text

/-- The content at an end, if a file or an object is there. -/
def content? (store : Store) (tree : FileTree) : Endpoint → Option ByteArray
  | object location => (store.object? tree location).map Prod.fst
  | path text => (tree.readFile text).toOption

/-- Whether a transfer with `-n` finds something at an end. -/
def Present (store : Store) (tree : FileTree) : Endpoint → Prop
  | object location => (store.object? tree location).isSome = true
  | path text => tree.leadsSomewhere text = true

/-- Whether an end is in the store. -/
def IsObject : Endpoint → Prop
  | object _ => True
  | path _ => False

/-- Whether an end can name something. -/
def IsValid : Endpoint → Prop
  | object location => Store.IsValid location
  | path _ => True

/-- What a transfer with `-n` minds at an end: an object in the store, and anything outside. -/
def Minds : Endpoint → Node → Prop
  | object _, node => node.isFile = true
  | path _, _ => True

instance (store : Store) (tree : FileTree) :
    (point : Endpoint) → Decidable (point.Present store tree)
  | object location => inferInstanceAs (Decidable ((store.object? tree location).isSome = true))
  | path text => inferInstanceAs (Decidable (tree.leadsSomewhere text = true))

/-- Look whether something is at an end. -/
def look (store : Store) : Endpoint → DiskM JobError Bool
  | object location => do return (← store.head location).isSome
  | path text => FileCopy.pathExists text

/-- Bring the data of one end to another one. -/
def carry (store : Store) (storage : StorageClass) (cancel : CancelAfter) :
    Endpoint → Endpoint → DiskM JobError Nat
  | object source, object target => store.copy source target storage cancel
  | object source, path target => store.get source target cancel
  | path source, object target => store.put source target storage cancel
  | path source, path target => FileCopy.copy source target cancel

/-- Keep the class of what has been brought to an end. -/
def record (store : Store) (storage : StorageClass) : Endpoint → DiskM JobError Unit
  | object location => store.writeClass location storage
  | path _ => pure ()

/-- Delete what is at an end. -/
def discard (store : Store) : Endpoint → DiskM JobError Unit
  | object location => store.delete location
  | path text => FileCopy.delete text

end Endpoint

namespace Executor

/-- The source and the target of a transfer. -/
def ends? (task : Task) : Option (Endpoint × Endpoint) :=
  let object? := fun index => (task.location? index).map Endpoint.object
  let path? := fun (index : Nat) =>
    task.arguments[index]?.map fun argument => Endpoint.path argument.text
  match task.operation with
  | .download => (object? 0).bind fun source => (path? 1).map (source, ·)
  | .upload => (path? 0).bind fun source => (object? 1).map (source, ·)
  | .copy => (object? 0).bind fun source => (object? 1).map (source, ·)
  | .localCopy => (path? 0).bind fun source => (path? 1).map (source, ·)
  | _ => none

/-- Bring the data of one end to another one and then delete the source, if asked. -/
def transferData (store : Store) (source target : Endpoint) (storage : StorageClass)
    (removeSource : Bool) (cancel : CancelAfter) : DiskM JobError Outcome := do
  let bytes ← source.carry store storage cancel target
  if removeSource then
    source.discard store
  return { bytes := bytes }

/-- A transfer that leaves its target alone if something is there. -/
def transferUnlessPresent (store : Store) (source target : Endpoint) (storage : StorageClass)
    (removeSource : Bool) (cancel : CancelAfter) : DiskM JobError Outcome := do
  if ← target.look store then
    return skipped
  else
    transferData store source target storage removeSource cancel

theorem needLocation_of_some {task : Task} {index : Nat} {location : Location}
    (h : task.location? index = some location) : needLocation task index = pure location := by
  rw [needLocation, h]

theorem needPath_of_some {task : Task} {index : Nat} {argument : Argument}
    (h : task.arguments[index]? = some argument) : needPath task index = pure argument.text := by
  rw [needPath, h]

theorem pure_bind {ε α β : Type} (value : α) (next : α → DiskM ε β) :
    (pure value >>= next) = next value := rfl

/-- Each of the four transfers with `-n` is one computation on its ends. -/
theorem perform_eq_transfer (exec : Executor) {task : Task} {source target : Endpoint}
    (hends : ends? task = some (source, target)) (hskip : task.options.has .ifNotExists = true)
    (cancel : CancelAfter) :
    exec.perform task cancel = transferUnlessPresent exec.store source target
      (StorageClass.ofOptions task.options) (task.options.has .deleteSource) cancel := by
  rw [ends?] at hends
  dsimp only at hends
  split at hends
  · rename_i hoperation
    rcases Option.bind_eq_some_iff.mp hends with ⟨_, hsource, hends⟩
    rcases Option.map_eq_some_iff.mp hsource with ⟨location, hlocation, rfl⟩
    rcases Option.map_eq_some_iff.mp hends with ⟨_, htarget, hpair⟩
    rcases Option.map_eq_some_iff.mp htarget with ⟨argument, hargument, rfl⟩
    cases hpair
    rw [perform, hoperation]
    dsimp only
    rw [download, needLocation_of_some hlocation, pure_bind, needPath_of_some hargument, pure_bind,
      if_pos hskip]
    rfl
  · rename_i hoperation
    rcases Option.bind_eq_some_iff.mp hends with ⟨_, hsource, hends⟩
    rcases Option.map_eq_some_iff.mp hsource with ⟨argument, hargument, rfl⟩
    rcases Option.map_eq_some_iff.mp hends with ⟨_, htarget, hpair⟩
    rcases Option.map_eq_some_iff.mp htarget with ⟨location, hlocation, rfl⟩
    cases hpair
    rw [perform, hoperation]
    dsimp only
    rw [upload, needPath_of_some hargument, pure_bind, needLocation_of_some hlocation, pure_bind,
      if_pos hskip, transferUnlessPresent, Endpoint.look, DiskM.bind_assoc]
    rfl
  · rename_i hoperation
    rcases Option.bind_eq_some_iff.mp hends with ⟨_, hsource, hends⟩
    rcases Option.map_eq_some_iff.mp hsource with ⟨location, hlocation, rfl⟩
    rcases Option.map_eq_some_iff.mp hends with ⟨_, htarget, hpair⟩
    rcases Option.map_eq_some_iff.mp htarget with ⟨location', hlocation', rfl⟩
    cases hpair
    rw [perform, hoperation]
    dsimp only
    rw [copy, needLocation_of_some hlocation, pure_bind, needLocation_of_some hlocation', pure_bind,
      if_pos hskip, transferUnlessPresent, Endpoint.look, DiskM.bind_assoc]
    rfl
  · rename_i hoperation
    rcases Option.bind_eq_some_iff.mp hends with ⟨_, hsource, hends⟩
    rcases Option.map_eq_some_iff.mp hsource with ⟨argument, hargument, rfl⟩
    rcases Option.map_eq_some_iff.mp hends with ⟨_, htarget, hpair⟩
    rcases Option.map_eq_some_iff.mp htarget with ⟨argument', hargument', rfl⟩
    cases hpair
    rw [perform, hoperation]
    dsimp only
    rw [localCopy, needPath_of_some hargument, pure_bind, needPath_of_some hargument', pure_bind,
      if_pos hskip]
    refine congrArg _ (funext fun present => ?_)
    cases present with
    | true => rfl
    | false =>
        dsimp only
        rw [if_neg Bool.false_ne_true, if_neg Bool.false_ne_true, FileCopy.transfer,
          DiskM.bind_assoc]
        refine congrArg _ (funext fun bytes => ?_)
        cases task.options.has .deleteSource with
        | true => exact DiskM.bind_assoc _ _ _
        | false => rfl
  · cases hends

end Executor

/-!
## Looking at an end
-/

namespace Endpoint

open DiskM (FailsByFault OnlyLooks onlyLooks_pure onlyLooks_look)
open JobError (isRetryable)

variable {store : Store} {tree : FileTree} {disk later : Disk} {root : Place}

theorem look_failsByFault (store : Store) (target : Endpoint) :
    FailsByFault isRetryable (target.look store) := by
  cases target with
  | object location => exact .bind (store.head_failsByFault location) fun _ => .pure _
  | path text => exact FileCopy.pathExists_failsByFault text

theorem onlyLooks_look (store : Store) (target : Endpoint) : OnlyLooks (target.look store) := by
  cases target with
  | object location => exact (store.onlyLooks_head location).bind fun _ => onlyLooks_pure _
  | path text =>
      refine (DiskM.onlyLooks_look _).attempt.bind fun outcome => ?_
      split <;> exact onlyLooks_pure _

/-- What is found at an end is there. -/
theorem present_of_look {target : Endpoint} (hsound : disk.tree.Sound)
    (h : target.look store disk = (.ok true, later)) : target.Present store disk.tree := by
  cases target with
  | object location =>
      rw [look] at h
      rcases bind_eq_ok_iff.mp h with ⟨info?, last, hhead, h⟩
      cases info? with
      | none => cases h
      | some info =>
          rw [Store.head] at hhead
          rcases bind_eq_ok_iff.mp hhead with ⟨path, between, hpath, hinfo⟩
          rcases Store.objectPath_eq_ok hpath with ⟨hvalid, -, rfl, htree⟩
          rcases Store.infoAt_eq_some (by rwa [htree]) hinfo with ⟨-, place, content, hstat, -⟩
          rw [htree] at hstat
          rw [Present, Store.object?_eq_some_iff.mpr ⟨hvalid, ⟨place, _, hstat⟩, rfl⟩]
          rfl
  | path text =>
      rw [look, FileCopy.pathExists] at h
      rcases bind_eq_ok_iff.mp h with ⟨outcome, last, hlooked, h⟩
      cases outcome with
      | error error => cases h
      | ok found =>
          rw [Present, FileTree.leadsSomewhere, (DiskM.look_eq_ok (attempt_eq_ok_iff.mp hlooked)).1]

/-- What is not found at an end is not there, unless a fault has kept it from being seen. -/
theorem missing_of_look {target : Endpoint} (hsound : disk.tree.Sound)
    (h : target.look store disk = (.ok false, later)) :
    ¬ target.Present store disk.tree ∨ later.strikes < disk.strikes := by
  rcases Nat.lt_or_ge later.strikes disk.strikes with hlt | hle
  · exact Or.inr hlt
  left
  cases target with
  | object location =>
      rw [look] at h
      rcases bind_eq_ok_iff.mp h with ⟨info?, last, hhead, h⟩
      cases info? with
      | some info => cases h
      | none =>
          cases h
          have hevolves : disk.Evolves (fun _ => False) (fun _ => False)
              (store.head location disk).2 :=
            .bind (Store.evolves_objectPath hsound location) fun path _ _ hfound =>
              Store.evolves_infoAt hfound.tree.sound location path
          rw [hhead] at hevolves
          have hnone := Store.head_eq_ok hsound hhead
            (Disk.unstruck_of_strikes hevolves.faults hle)
          rw [Present]
          intro hsome
          rw [Option.map_none, eq_comm, Option.map_eq_none_iff] at hnone
          rw [hnone] at hsome
          cases hsome
  | path text =>
      rw [look, FileCopy.pathExists] at h
      rcases bind_eq_ok_iff.mp h with ⟨outcome, last, hlooked, h⟩
      have hlooked := attempt_eq_ok_iff.mp hlooked
      cases outcome with
      | ok found => cases h
      | error error =>
          cases h
          rw [Present, FileTree.leadsSomewhere]
          cases hstat : disk.tree.stat text with
          | error error => exact Bool.false_ne_true
          | ok found =>
              have hstruck : later.strikes < disk.strikes :=
                FailsByFault.struck_of_look hlooked hstat
              exact absurd hstruck (Nat.not_lt.mpr hle)

/-!
## What is at an end
-/

theorem content?_eq_some_iff (hsound : tree.Sound) {point : Endpoint} {content : ByteArray} :
    point.content? store tree = some content ↔ point.IsValid ∧
      ∃ place modified, tree.stat (point.filePath store) = .ok (place, .file content modified) := by
  cases point with
  | object location =>
      rw [content?, Option.map_eq_some_iff]
      constructor
      · rintro ⟨⟨found, storage⟩, hobject, rfl⟩
        rcases Store.object?_eq_some_iff.mp hobject with ⟨hvalid, hstat, -⟩
        exact ⟨hvalid, hstat⟩
      · rintro ⟨hvalid, hstat⟩
        exact ⟨(content, _), Store.object?_eq_some_iff.mpr ⟨hvalid, hstat, rfl⟩, rfl⟩
  | path text =>
      rw [content?, IsValid, true_and, filePath, ← hsound.readFile_eq_ok_iff]
      cases tree.readFile text with
      | error error => exact ⟨fun h => (nomatch h), fun h => (nomatch h)⟩
      | ok found =>
          rw [Except.toOption, Option.some_inj, Except.ok.injEq]

theorem present_iff {point : Endpoint} :
    point.Present store tree ↔
      point.IsValid ∧ FileCopy.LeadsTo point.Minds tree (point.filePath store) := by
  cases point with
  | object location =>
      rw [Present, Option.isSome_iff_exists]
      constructor
      · rintro ⟨⟨content, storage⟩, hobject⟩
        rcases Store.object?_eq_some_iff.mp hobject with ⟨hvalid, ⟨place, modified, hstat⟩, -⟩
        exact ⟨hvalid, place, _, hstat, rfl⟩
      · rintro ⟨hvalid, place, node, hstat, hfile⟩
        cases node with
        | file content modified =>
            exact ⟨_, Store.object?_eq_some_iff.mpr ⟨hvalid, ⟨place, modified, hstat⟩, rfl⟩⟩
        | directory | closed | link => cases hfile
  | path text =>
      rw [Present, FileTree.leadsSomewhere, IsValid, true_and, filePath]
      constructor
      · intro h
        cases hstat : tree.stat text with
        | error error =>
            rw [hstat] at h
            cases h
        | ok found => exact ⟨found.1, found.2, hstat, trivial⟩
      · rintro ⟨place, node, hstat, -⟩
        rw [hstat]

theorem present_of_content? (hsound : tree.Sound) {point : Endpoint} {content : ByteArray}
    (h : point.content? store tree = some content) : point.Present store tree := by
  rcases (content?_eq_some_iff hsound).mp h with ⟨hvalid, place, modified, hstat⟩
  refine present_iff.mpr ⟨hvalid, place, _, hstat, ?_⟩
  cases point with
  | object location => rfl
  | path text => trivial

/-!
## Bringing data from one end to another
-/

theorem carry_failsByFault (store : Store) (source target : Endpoint) (storage : StorageClass)
    (cancel : CancelAfter) :
    FailsByFault isRetryable (source.carry store storage cancel target) := by
  cases source with
  | object source =>
      cases target with
      | object target =>
          rw [carry, Store.copy]
          split
          · exact .fail rfl
          · exact .bind (store.requireObject_failsByFault source) fun path =>
              .bind (store.objectPath_failsByFault target) fun path' =>
                .bind (FileCopy.copy_failsByFault path path' cancel) fun _ =>
                  .bind (store.writeClass_failsByFault target storage) fun _ => .pure _
      | path target => exact store.get_failsByFault source target cancel
  | path source =>
      cases target with
      | object target =>
          exact .bind (store.objectPath_failsByFault target) fun path =>
            .bind (FileCopy.copy_failsByFault source path cancel) fun _ =>
              .bind (store.writeClass_failsByFault target storage) fun _ => .pure _
      | path target => exact FileCopy.copy_failsByFault source target cancel

theorem discard_failsByFault (store : Store) (source : Endpoint) :
    FailsByFault isRetryable (source.discard store) := by
  cases source with
  | object location => exact store.delete_failsByFault location
  | path text => exact FileCopy.delete_failsByFault text

/-- Between the ends there is one copy of a file, behind some looks and in front of what is recorded
at the target. -/
theorem carry_cases {source target : Endpoint} {storage : StorageClass} {cancel : CancelAfter}
    {outcome : Except JobError Nat} (hsound : disk.tree.Sound)
    (h : source.carry store storage cancel target disk = (outcome, later)) :
    (∃ error, outcome = .error error ∧ later.tree = disk.tree) ∨
      ∃ ready, ready.tree = disk.tree ∧ ready.strikes ≤ disk.strikes ∧ source.IsValid ∧
        target.IsValid ∧
        (FileCopy.copy (source.filePath store) (target.filePath store) cancel >>= fun bytes =>
          target.record store storage >>= fun _ => pure bytes) ready = (outcome, later) := by
  cases source with
  | object source =>
      cases target with
      | object target =>
          rw [carry, Store.copy] at h
          split at h
          · cases h
            exact Or.inl ⟨_, rfl, rfl⟩
          · rcases Store.requireObject_bind_cases hsound h with
              herror | ⟨found, htree, hle, hsource, h⟩
            · exact Or.inl herror
            · rcases Store.objectPath_bind_cases h with
                ⟨error, herror, htree'⟩ | ⟨ready, htree', hle', htarget, h⟩
              · exact Or.inl ⟨error, herror, htree'.trans htree⟩
              · exact Or.inr ⟨ready, htree'.trans htree, Nat.le_trans hle' hle, hsource, htarget, h⟩
      | path target =>
          rw [carry, Store.get] at h
          rcases Store.requireObject_bind_cases hsound h with
            herror | ⟨ready, htree, hle, hsource, h⟩
          · exact Or.inl herror
          · rw [← DiskM.bind_pure (FileCopy.copy _ _ _)] at h
            exact Or.inr ⟨ready, htree, hle, hsource, trivial, h⟩
  | path source =>
      cases target with
      | object target =>
          rw [carry, Store.put] at h
          rcases Store.objectPath_bind_cases h with herror | ⟨ready, htree, hle, htarget, h⟩
          · exact Or.inl herror
          · exact Or.inr ⟨ready, htree, hle, trivial, htarget, h⟩
      | path target =>
          rw [carry, ← DiskM.bind_pure (FileCopy.copy _ _ _)] at h
          exact Or.inr ⟨disk, rfl, Nat.le_refl _, trivial, trivial, h⟩

end Endpoint
end BulkTransfer
