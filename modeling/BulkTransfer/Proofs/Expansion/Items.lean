import BulkTransfer.Proofs.Execution.Demands
import BulkTransfer.Proofs.Expansion.Matches
import BulkTransfer.Proofs.Expansion.Pieces
import BulkTransfer.Proofs.Location.Matching

/-!
# What a batch fans out into

The tasks of a batch are no batches, they have what their operations demand, and their
destinations are names below the destination of the batch.  A batch with suitable
arguments is refused only for a source that is no directory.
-/

namespace BulkTransfer

/-!
## Sub-tasks
-/

/-- Names that are put behind a destination. -/
inductive Lands (names : List String) : Argument → Argument → Prop
  | path (directory : String) :
      Lands names (.plain directory) (.plain (directory ++ joinNames names))
  | location (target : Location) :
      Lands names (.storage target) (.storage (target.withKey (target.key ++ joinNames names)))

/-- A match of a pattern that leads upwards and keeps its directories. -/
structure Upwards (task : Task) (sub : SubTask) : Prop where
  parents : task.options.has .parents = true
  pattern : ∃ source, task.arguments[0]? = some source ∧ hasGlobChar source.text = true
  up : ∃ path, sub.arguments[0]? = some (.plain path) ∧ PathPart.up ∈ Path.parts path

/-- What is true of every task that a batch fans out into. -/
structure Emitted (task : Task) (sub : SubTask) : Prop where
  concrete : sub.operation.isBatch = false
  ordinary : sub.operation ≠ .abort ∧ sub.operation ≠ .shellExec
  supplied : sub.operation.Supplied sub.arguments
  oneBucket : sub.operation = .batchDeleteActual → ∃ bucket, ∀ argument ∈ sub.arguments,
    ∃ key, argument = .storage { bucket := bucket, key := key }
  lands : task.operation ≠ .batchDelete → ∀ destination, task.arguments[1]? = some destination →
    ∃ names target, sub.arguments[1]? = some target ∧ Lands names destination target ∧
      names ≠ [] ∧ ∀ name ∈ names, IsName name ∨ name = ".." ∧ Upwards task sub

namespace Operation

theorem supplied_download (source : Location) (target : Argument) :
    Operation.download.Supplied [.storage source, target] where
  demanded := .cons rfl (.cons trivial .nil)
  locations := fun h => by cases h

theorem supplied_upload (source : Argument) (target : Location) :
    Operation.upload.Supplied [source, .storage target] where
  demanded := .cons trivial (.cons rfl .nil)
  locations := fun h => by cases h

theorem supplied_copy (source target : Location) :
    Operation.copy.Supplied [.storage source, .storage target] where
  demanded := .cons rfl (.cons rfl .nil)
  locations := fun h => by cases h

theorem supplied_localCopy (source target : Argument) :
    Operation.localCopy.Supplied [source, target] where
  demanded := .cons trivial (.cons trivial .nil)
  locations := fun h => by cases h

end Operation

namespace Expand

variable {task : Task} {tree : FileTree} {store : Store}

/-!
## Tasks of one item
-/

/-- A task that brings one item to its names behind the destination of a batch. -/
theorem emitted_item {sub : SubTask} {names : List String} {destination target : Argument}
    (hkind : sub.operation = .download ∨ sub.operation = .upload ∨ sub.operation = .copy ∨
      sub.operation = .localCopy)
    (hsupplied : sub.operation.Supplied sub.arguments)
    (hdestination : task.arguments[1]? = some destination)
    (htarget : sub.arguments[1]? = some target) (hlands : Lands names destination target)
    (hne : names ≠ [])
    (hnames : ∀ name ∈ names, IsName name ∨ name = ".." ∧ Upwards task sub) :
    Emitted task sub where
  concrete := by rcases hkind with h | h | h | h <;> rw [h] <;> rfl
  ordinary := by rcases hkind with h | h | h | h <;> rw [h] <;> decide
  supplied := hsupplied
  oneBucket := by
    intro hdeletion
    rw [hdeletion] at hkind
    exact absurd hkind (by decide)
  lands := by
    intro _ other hother
    rw [hdestination, Option.some.injEq] at hother
    exact ⟨names, target, htarget, hother ▸ hlands, hne, hnames⟩

/-!
## Storage batches
-/

theorem emitted_deletion (hoperation : task.operation = .batchDelete) {source : Location}
    {objects : List ObjectInfo} {complete : Bool} {sub : SubTask}
    (h : .ok sub ∈ deletions source objects complete) : Emitted task sub := by
  rw [deletions, List.mem_map] at h
  rcases h with ⟨arguments, hpiece, hsub⟩
  cases hsub
  rcases mem_pieces (by decide) hpiece with ⟨hne, hmem⟩
  have hlocation : ∀ argument ∈ arguments, ∃ key,
      argument = .storage { bucket := source.bucket, key := key } := by
    intro argument hargument
    rcases List.mem_map.mp (hmem argument hargument) with ⟨object, -, rfl⟩
    exact ⟨object.key, rfl⟩
  have hstorage : ∀ argument ∈ arguments, argument.isStorage = true := by
    intro argument hargument
    rcases hlocation argument hargument with ⟨key, rfl⟩
    rfl
  constructor
  · rfl
  · exact ⟨fun h => (by cases h), fun h => (by cases h)⟩
  · refine ⟨?_, fun _ => hstorage⟩
    cases arguments with
    | nil => exact absurd rfl hne
    | cons argument arguments =>
        exact .cons (hstorage argument List.mem_cons_self) .nil
  · exact fun _ => ⟨source.bucket, hlocation⟩
  · exact fun hother => absurd hoperation hother

/-- An object of a storage batch, by the names behind the directory part of its source. -/
structure Found (source : Location) (object : ObjectInfo) : Prop where
  literal : source.literalKey.toList <+: object.key.toList
  names : ∃ names, names ≠ [] ∧ (∀ name ∈ names, IsName name) ∧
    object.key = Store.directoryPart source.literalKey ++ joinNames names

theorem emitted_download {source : Location} (hwildcard : source.isWildcard = true) {directory : String}
    (hdirectory : task.arguments[1]? = some (.plain directory)) {object : ObjectInfo}
    (hfound : Found source object) {sub : SubTask}
    (h : downloadItem task source object = .ok sub) : Emitted task sub := by
  rw [downloadItem] at h
  split at h
  · cases h
  · cases h
    rcases hfound.names with ⟨names, hne, hnames, hkey⟩
    rcases names_of_objectName (task.options.has .parents) hwildcard hfound.literal
      hne hnames hkey with ⟨names', hne', hnames', hname⟩
    refine emitted_item (Or.inl rfl) (Operation.supplied_download _ _) hdirectory rfl ?_ hne'
      fun name hname' => Or.inl (hnames' name hname')
    rw [hname, hdirectory]
    exact Lands.path directory

theorem emitted_copy {source target : Location} (hwildcard : source.isWildcard = true)
    (htarget : task.arguments[1]? = some (.storage target)) {object : ObjectInfo}
    (hfound : Found source object) {sub : SubTask}
    (h : copyItem task source target object = .ok sub) : Emitted task sub := by
  cases h
  rcases hfound.names with ⟨names, hne, hnames, hkey⟩
  rcases names_of_objectName (task.options.has .parents) hwildcard hfound.literal
    hne hnames hkey with ⟨names', hne', hnames', hname⟩
  refine emitted_item (Or.inr (Or.inr (Or.inl rfl))) (Operation.supplied_copy _ _) htarget rfl ?_
    hne' fun name hname' => Or.inl (hnames' name hname')
  rw [hname]
  exact Lands.location target

/-- The objects of a storage batch, behind the refusals that may come before. -/
theorem storage_cases (store : Store) {source : Location}
    (hsource : task.location? 0 = some source)
    (htree : tree.Named) (habsolute : Path.isAbsolute source.key = false) :
    (∃ error, storage store tree task = .failed error ∧ ∀ text, error ≠ .invalidSource text) ∨
    ∃ objects fault, storage store tree task = ofObjects task source objects fault ∧
      (∀ object ∈ objects, Found source object) ∧
      ∀ text, fault ≠ some (.invalidSource text) := by
  have hliteral := Location.isAbsolute_literalKey habsolute
  simp only [storage, hsource]
  generalize source.checkSize = size
  cases size with
  | error error => exact Or.inl ⟨.pattern error.message, rfl, fun text h => by cases h⟩
  | ok _ =>
      cases hstream : (store.stream source.bucket source.literalKey { tree := tree }).1 with
      | error error => exact Or.inl ⟨.listing error.message, rfl, fun text h => by cases h⟩
      | ok listed =>
          rcases listed with ⟨objects, fault⟩
          refine Or.inr ⟨_, _, rfl, fun object hmem => ?_, fun text h => ?_⟩
          · rcases Store.names_of_stream htree hliteral hstream object
              (List.mem_filter.mp hmem).1 with ⟨hstart, hnames⟩
            exact ⟨hstart, hnames⟩
          · cases fault <;> cases h

/-!
## Local batches
-/

/-- A target as the argument that it was given in. -/
def Target.argument : Target → Argument
  | .storage location => .storage location
  | .directory path => .plain path

theorem emitted_subTask {target : Target} (htarget : task.arguments[1]? = some target.argument)
    {path : String} {names : List String} (hne : names ≠ [])
    (hnames : ∀ name ∈ names,
      IsName name ∨ name = ".." ∧ Upwards task (target.subTask path (joinNames names))) :
    Emitted task (target.subTask path (joinNames names)) := by
  cases target with
  | storage location =>
      exact emitted_item (Or.inr (Or.inl rfl)) (Operation.supplied_upload _ _) htarget rfl
        (Lands.location location) hne hnames
  | directory directory =>
      exact emitted_item (Or.inr (Or.inr (Or.inr rfl))) (Operation.supplied_localCopy _ _) htarget
        rfl (Lands.path directory) hne hnames

/-- The items of a local batch are sub-tasks with names, or faults of entries. -/
def Itemized (task : Task) (items : List (Except ExpansionError SubTask)) : Prop :=
  ∀ item ∈ items, (∃ path text, item = .error (.entry path text)) ∨
    ∃ sub, item = .ok sub ∧ Emitted task sub

/-- A file below a directory goes to its names from there. -/
theorem walkItem_of_names {source : String} {names : List String} (target : Target) (node : Node)
    (hsource : source ≠ "") (hne : names ≠ []) (hnames : ∀ name ∈ names, IsName name) :
    walkItem source target (.file names node) =
      some (.ok (target.subTask (FileTree.pathBelow source names) (joinNames names))) := by
  rw [walkItem, relativeName_pathBelow hsource hne hnames, Option.map_some]

theorem itemized_ofDirectory {source : String} {target : Target} (htree : tree.Named)
    (htarget : task.arguments[1]? = some target.argument) :
    Itemized task ((tree.walk source).filterMap (walkItem source target)) := by
  intro item hmem
  rcases List.mem_filterMap.mp hmem with ⟨event, hevent, hitem⟩
  cases event with
  | fault names error =>
      cases hitem
      exact Or.inl ⟨_, _, rfl⟩
  | file names node =>
      rcases FileTree.names_of_walk htree hevent with ⟨hne, hnames⟩
      have hsource : source ≠ "" := by
        have husable := (FileTree.usable_of_mem_walk hevent).ne_empty
        rwa [String.isEmpty_eq_false_iff] at husable
      rw [walkItem_of_names target node hsource hne hnames, Option.some.injEq] at hitem
      exact Or.inr ⟨_, hitem.symm,
        emitted_subTask htarget hne fun name hname => Or.inl (hnames name hname)⟩

theorem itemized_ofPattern {source : Argument} {target : Target} {found : List Glob.Match}
    (htree : tree.Named) (hsource : task.arguments[0]? = some source)
    (hglob : hasGlobChar source.text = true) (htarget : task.arguments[1]? = some target.argument)
    (hfound : Glob.walk tree source.text = .ok found) :
    Itemized task
      (found.filterMap (matchItem tree source.text (task.options.has .parents) target)) := by
  intro item hmem
  rcases List.mem_filterMap.mp hmem with ⟨event, hevent, hitem⟩
  cases event with
  | fault path error =>
      cases hitem
      exact Or.inl ⟨_, _, rfl⟩
  | path path =>
      rw [matchItem] at hitem
      split at hitem
      · rcases Option.map_eq_some_iff.mp hitem with ⟨name, hname, rfl⟩
        refine Or.inr ⟨_, rfl, ?_⟩
        cases hparents : task.options.has .parents with
        | false =>
            rw [hparents, if_neg Bool.false_ne_true] at hname
            have hnames : ∀ other ∈ [name], IsName other := by
              simpa using (Path.mem_pieces_of_fileName hname).2
            have hjoined : name = joinNames [name] := String.intercalate_singleton.symm
            rw [hjoined]
            exact emitted_subTask htarget (List.cons_ne_nil name [])
              fun other hother => Or.inl (hnames other hother)
        | true =>
            rw [hparents, if_pos rfl] at hname
            have habsolute : Path.isAbsolute (Glob.literalDirectory source.text) = false →
                Path.isAbsolute path = false := by
              intro hbase
              cases hpattern : Path.isAbsolute source.text with
              | false => exact Glob.isAbsolute_of_walk htree hpattern hfound hevent
              | true =>
                  rw [Glob.isAbsolute_literalDirectory hpattern] at hbase
                  cases hbase
            rcases parts_of_relativeName habsolute hname with ⟨parts, hne, hparts, hjoined⟩
            have hnames : name = joinNames (parts.map PathPart.text) := hjoined
            rw [hnames]
            refine emitted_subTask htarget
              (by simpa using hne) fun other hother => ?_
            rcases List.mem_map.mp hother with ⟨part, hpart, rfl⟩
            rcases Path.mem_innerParts (hparts part hpart) with rfl | ⟨word, rfl, hword⟩
            · refine Or.inr ⟨rfl, hparents, ⟨_, hsource, hglob⟩, path, ?_, ?_⟩
              · cases target <;> rfl
              · exact (Path.innerParts_suffix path).subset (hparts _ hpart)
            · exact Or.inl hword
      · cases hitem

theorem ofPattern_cases {source : Argument} {target : Target} (htree : tree.Named)
    (hsource : task.arguments[0]? = some source) (hglob : hasGlobChar source.text = true)
    (htarget : task.arguments[1]? = some target.argument) :
    Itemized task (ofPattern tree source.text (task.options.has .parents) target).items ∧
      ∀ text, (ofPattern tree source.text (task.options.has .parents) target).fault ≠
        some (.invalidSource text) := by
  rw [ofPattern]
  cases hfound : Glob.walk tree source.text with
  | error error =>
      refine ⟨fun _ hmem => absurd hmem List.not_mem_nil, fun text h => ?_⟩
      cases (Option.some.inj h)
  | ok found => exact ⟨itemized_ofPattern htree hsource hglob htarget hfound, fun text => nofun⟩

/-- A local batch with a source and a target is refused only for a source that is no
directory. -/
theorem localBatch_cases {source : Argument} {target : Target} (htree : tree.Named)
    (hsource : task.arguments[0]? = some source)
    (htarget : task.arguments[1]? = some target.argument) (htarget' : target? task = some target) :
    Itemized task (localBatch tree task).items ∧
      ∀ text, (localBatch tree task).fault = some (.invalidSource text) →
        hasGlobChar source.text = false ∧ tree.isDirectory source.text = false := by
  have hhead : task.arguments.head? = some source := by
    rw [List.head?_eq_getElem?, hsource]
  have hbatch : localBatch tree task =
      if hasGlobChar source.text then ofPattern tree source.text (task.options.has .parents) target
      else ofDirectory tree source.text target := by
    rw [localBatch, hhead, htarget']
  rw [hbatch]
  cases hglob : hasGlobChar source.text with
  | true =>
      rw [if_pos rfl]
      rcases ofPattern_cases htree hsource hglob htarget with ⟨hitems, hfault⟩
      exact ⟨hitems, fun text h => absurd h (hfault text)⟩
  | false =>
      rw [if_neg Bool.false_ne_true, ofDirectory]
      cases hdirectory : tree.isDirectory source.text with
      | true => exact ⟨itemized_ofDirectory htree htarget, fun text => nofun⟩
      | false => exact ⟨fun _ hmem => absurd hmem List.not_mem_nil, fun _ _ => ⟨rfl, rfl⟩⟩

/-!
## All batches
-/

theorem itemized_map {α : Type} {items : List α} {item : α → Except ExpansionError SubTask}
    (h : ∀ a ∈ items, (∃ path text, item a = .error (.entry path text)) ∨
      ∃ sub, item a = .ok sub ∧ Emitted task sub) : Itemized task (items.map item) := by
  intro other hmem
  rcases List.mem_map.mp hmem with ⟨a, ha, rfl⟩
  exact h a ha

theorem ofObjects_cases (hbatch : task.operation = .batchDownload ∨ task.operation = .batchCopy ∨
      task.operation = .batchDelete) (hsupplied : task.operation.Supplied task.arguments)
    {source : Location} (hwildcard : source.isWildcard = true) {objects : List ObjectInfo}
    (fault : Option ExpansionError) (hfound : ∀ object ∈ objects, Found source object) :
    Itemized task (ofObjects task source objects fault).items ∧
      (ofObjects task source objects fault).fault = fault := by
  rcases hbatch with hoperation | hoperation | hoperation
  · have hdemand : task.operation.demands[1]? = some .directoryPath := by rw [hoperation]; rfl
    rcases hsupplied.exists_argument hdemand with
      ⟨_, hargument, directory, rfl, -⟩
    simp only [ofObjects, hoperation]
    refine ⟨itemized_map fun object hmem => ?_, trivial⟩
    cases hitem : downloadItem task source object with
    | ok sub =>
        exact Or.inr ⟨sub, rfl, emitted_download hwildcard hargument (hfound object hmem) hitem⟩
    | error error =>
        rw [downloadItem] at hitem
        split at hitem
        · cases hitem
          exact Or.inl ⟨_, _, rfl⟩
        · cases hitem
  · have hdemand : task.operation.demands[1]? = some .directoryLocation := by
      rw [hoperation]; rfl
    rcases hsupplied.exists_argument hdemand with
      ⟨_, hargument, target, rfl, -⟩
    have htarget : task.location? 1 = some target := by rw [Task.location?, hargument]; rfl
    simp only [ofObjects, hoperation, htarget]
    refine ⟨itemized_map fun object hmem => ?_, trivial⟩
    exact Or.inr ⟨_, rfl, emitted_copy hwildcard hargument (hfound object hmem) rfl⟩
  · simp only [ofObjects, hoperation]
    refine ⟨fun item hmem => ?_, trivial⟩
    have hdeletions := hmem
    rw [deletions, List.mem_map] at hmem
    rcases hmem with ⟨arguments, -, rfl⟩
    exact Or.inr ⟨_, rfl, emitted_deletion hoperation hdeletions⟩

/-- The items of a batch with suitable arguments, and the refusals that it can meet. -/
theorem expand_cases (store : Store) (hbatch : task.operation.isBatch = true)
    (hsupplied : task.operation.Supplied task.arguments) (htree : tree.Named) :
    Itemized task (expand store tree task).items ∧
      ∀ text, (expand store tree task).fault = some (.invalidSource text) →
        ∃ source, task.arguments[0]? = some source ∧ hasGlobChar source.text = false ∧
          tree.isDirectory source.text = false := by
  have hstorage : task.operation = .batchDownload ∨ task.operation = .batchCopy ∨
      task.operation = .batchDelete →
      Itemized task (storage store tree task).items ∧
        ∀ text, (storage store tree task).fault ≠ some (.invalidSource text) := by
    intro hoperation
    have hdemand : task.operation.demands[0]? = some .pattern := by
      rcases hoperation with h | h | h <;> rw [h] <;> rfl
    rcases hsupplied.exists_argument hdemand with ⟨_, hargument, source, rfl, hwildcard, habsolute⟩
    have hsource : task.location? 0 = some source := by rw [Task.location?, hargument]; rfl
    rcases storage_cases store hsource htree habsolute with
      ⟨error, hfailed, herror⟩ | ⟨objects, fault, hobjects, hfound, hfault⟩
    · rw [hfailed]
      exact ⟨fun _ hmem => absurd hmem List.not_mem_nil,
        fun text h => herror text (Option.some.inj h)⟩
    · rw [hobjects]
      rcases ofObjects_cases hoperation hsupplied hwildcard fault hfound with
        ⟨hitems, hsame⟩
      exact ⟨hitems, fun text h => hfault text (hsame ▸ h)⟩
  have hlocal : ∀ target, task.operation.demands[0]? = some .word →
      task.arguments[1]? = some (Target.argument target) → target? task = some target →
      Itemized task (localBatch tree task).items ∧
        ∀ text, (localBatch tree task).fault = some (.invalidSource text) →
          ∃ source, task.arguments[0]? = some source ∧ hasGlobChar source.text = false ∧
            tree.isDirectory source.text = false := by
    intro target hdemand htarget htarget'
    rcases hsupplied.exists_argument hdemand with ⟨source, hsource, -⟩
    rcases localBatch_cases htree hsource htarget htarget' with ⟨hitems, hfault⟩
    exact ⟨hitems, fun text h => ⟨source, hsource, hfault text h⟩⟩
  rw [expand]
  cases hoperation : task.operation with
  | batchDownload | batchCopy | batchDelete =>
      rcases hstorage (by simp [hoperation]) with ⟨hitems, hfault⟩
      exact ⟨hitems, fun text h => absurd h (hfault text)⟩
  | batchUpload =>
      have hdemand : task.operation.demands[1]? = some .directoryLocation := by
        rw [hoperation]; rfl
      rcases hsupplied.exists_argument hdemand with
        ⟨_, hargument, target, rfl, -⟩
      refine hlocal (.storage target) (by rw [hoperation]; rfl) hargument ?_
      rw [target?, hoperation, Task.location?, hargument]
      rfl
  | batchLocalCopy =>
      have hdemand : task.operation.demands[1]? = some .directoryPath := by
        rw [hoperation]; rfl
      rcases hsupplied.exists_argument hdemand with
        ⟨_, hargument, directory, rfl, -⟩
      refine hlocal (.directory directory) (by rw [hoperation]; rfl) hargument ?_
      rw [target?, hoperation, hargument]
      rfl
  | abort | download | upload | copy | delete | batchDeleteActual | list | listBuckets | size
  | localCopy | localDelete | shellExec =>
      rw [hoperation] at hbatch
      cases hbatch

end Expand
end BulkTransfer
