import BulkTransfer.Proofs.Parse.Tasks

/-!
# Where a transfer goes

The destination of a transfer of one file or object names a file or an object: one that is
written as a directory takes over the basename of the source.  Only a directory that exists
and is written without a slash keeps its name, and gets the slash.
-/

namespace BulkTransfer

open Chain

/-!
## Texts that end in a slash
-/

theorem Literal.endsInSlash_append {base : String} (h : Literal base) (front : String) :
    Path.endsInSlash (front ++ base) = false := by
  have hne : base.toList ≠ [] := fun hnil =>
    h.ne_empty (String.toList_inj.mp (hnil.trans String.toList_empty.symm))
  rw [Path.endsInSlash, String.toList_append, List.getLast?_append_of_ne_nil _ hne,
    beq_eq_false_iff_ne]
  exact fun hslash => h.slashFree (List.mem_of_getLast? hslash)

theorem Location.key_ne_empty {location : Location} (h : location.isDirectory = false) :
    location.key ≠ "" := by
  intro hempty
  rw [isDirectory, hempty] at h
  cases h

/-- The text of a location that names no directory ends like its key. -/
theorem Location.endsInSlash_text {location : Location} (h : location.isDirectory = false) :
    Path.endsInSlash location.text = false := by
  have hne : location.key.toList ≠ [] := fun hnil =>
    key_ne_empty h (String.toList_inj.mp (hnil.trans String.toList_empty.symm))
  rw [isDirectory, Bool.or_eq_false_iff] at h
  rw [Path.endsInSlash, text, shortText, if_neg (Bool.not_eq_true _ ▸ h.1), String.toList_append,
    String.toList_append, ← List.append_assoc, List.getLast?_append_of_ne_nil _ hne]
  exact h.2

/-- A location with a name behind the key of a directory names an object. -/
theorem Location.isDirectory_completed {base : String} (h : Literal base) (location : Location) :
    (location.withKey (if location.isDirectory then location.key ++ base
      else location.key)).isDirectory = false := by
  cases hdirectory : location.isDirectory with
  | true => exact Validate.isDirectory_withKey_append h
  | false => exact hdirectory

/-!
## Checked destinations
-/

namespace Validate

variable {tree : FileTree} {kind : ArgumentKind} {reference : Option Argument}
  {word base : String} {destination : Argument}

/-- The path of a file or directory behind a reference with a basename. -/
def completePath (tree : FileTree) (base path : String) : String :=
  if Path.endsInSlash path then path ++ base
  else if tree.isDirectory path then path ++ "/"
  else path

theorem eq_completePath {path text : String} (h : fileOrDir tree (some base) path = .ok text) :
    text = completePath tree base path := by
  rw [fileOrDir] at h
  rw [completePath]
  cases hslash : Path.endsInSlash path with
  | true =>
      rw [if_pos hslash] at h
      cases h
      rfl
  | false =>
      rw [hslash, if_neg Bool.false_ne_true, entry] at h
      rw [if_neg Bool.false_ne_true, FileTree.isDirectory]
      cases hstat : tree.stat path with
      | ok found =>
          rcases found with ⟨place, node⟩
          rw [hstat] at h
          cases h
          rfl
      | error error =>
          rw [hstat] at h
          cases hmissing : error.isNotFound with
          | true =>
              simp only [hmissing, if_true, Except.ok.injEq] at h
              exact h.symm
          | false => simp only [hmissing, Bool.false_eq_true, if_false, reduceCtorEq] at h

/-- Only the path of an existing directory that has no slash comes to end in one. -/
theorem endsInSlash_completePath (h : Literal base) (path : String) :
    Path.endsInSlash (completePath tree base path) = true ↔
      Path.endsInSlash path = false ∧ tree.isDirectory path = true := by
  rw [completePath]
  cases hslash : Path.endsInSlash path with
  | true =>
      rw [if_pos rfl, h.endsInSlash_append]
      exact iff_of_false Bool.false_ne_true fun hpath => nomatch hpath.1
  | false =>
      cases hdirectory : tree.isDirectory path with
      | true =>
          rw [if_neg Bool.false_ne_true, if_pos rfl]
          exact iff_of_true (endsInSlash_append_slash path) ⟨rfl, rfl⟩
      | false =>
          rw [if_neg Bool.false_ne_true, if_neg Bool.false_ne_true, hslash]
          exact iff_of_false Bool.false_ne_true fun hpath => nomatch hpath.2

/-- A local destination behind a reference with a basename. -/
theorem local_destination (hkind : kind.isFileOrDir = true)
    (hbase : referenceBasename reference = some base)
    (h : validate tree kind reference word = .ok destination) :
    destination = .plain (completePath tree base (pathOfWord kind word)) := by
  rw [validate_of_isFileOrDir hkind, localWord_eq_ok_iff, localPath_of_isFileOrDir hkind,
    hbase] at h
  rcases h with ⟨-, -, path, hpath, rfl⟩
  rw [eq_completePath hpath]

/-- A storage destination behind a reference with a basename. -/
theorem storage_destination (hbase : referenceBasename reference = some base)
    (h : validate tree .storageObjectOrDir reference word = .ok destination) :
    ∃ written, Location.parse word = .ok written ∧
      destination = .storage (written.withKey
        (if written.isDirectory then written.key ++ base else written.key)) := by
  rw [validate_of_isStorage rfl, storage_eq_ok_iff] at h
  rcases h with ⟨written, hparse, -, rfl⟩
  refine ⟨written, hparse, ?_⟩
  have hbasename : ArgumentKind.basename .storageObjectOrDir reference = some base := hbase
  rw [hbasename, completeLocation]
  cases written.isDirectory <;> rfl

end Validate

/-!
## Lines
-/

/-- Whether a single file or object is written. -/
def Operation.isSingleTransfer : Operation → Bool
  | download | upload | copy | localCopy => true
  | _ => false

/-- The path that a local destination is written as; one that is left out is the working
directory. -/
def Task.destinationPath (task : Task) : String :=
  match task.words[1]? with
  | none => "./"
  | some word => if word = "." then "./" else word

namespace CommandSpec

/-- Whether a signature has a reference and behind it a destination that may take over the
basename of the reference. -/
def writesOne (spec : CommandSpec) : Bool :=
  match spec.fixedKinds with
  | [source, destination] => source.isReference && !spec.isVariadic &&
      if spec.operation = .upload ∨ spec.operation = .copy then
        destination == .storageObjectOrDir
      else destination.isFileOrDir
  | _ => false

theorem standard_writesOne : ∀ spec ∈ CommandTable.standard.specs,
    spec.operation.isSingleTransfer = true → spec.writesOne = true := by
  decide +kernel

variable {tree : FileTree} {spec : CommandSpec}

/-- The two arguments of a transfer of one file or object. -/
theorem Binds.exists_destination (hwrites : spec.writesOne = true) {words : List String}
    {arguments : List Argument} (hbinds : Binds tree spec words arguments) :
    ∃ kind source destination, spec.fixedKinds.getLast? = some kind ∧
      spec.fixedKinds.length = 2 ∧ arguments = [source, destination] ∧ source.IsReference ∧
      (if spec.operation = .upload ∨ spec.operation = .copy then kind = .storageObjectOrDir
        else kind.isFileOrDir = true) ∧
      validate tree kind (some source) (words.tail.headD "") = .ok destination := by
  rw [writesOne] at hwrites
  split at hwrites
  · rename_i sourceKind kind hkinds
    rw [Bool.and_eq_true, Bool.and_eq_true, Bool.not_eq_true'] at hwrites
    rcases hwrites with ⟨⟨hreference, hfixed⟩, hkind⟩
    rcases hbinds.checks hfixed with ⟨last, hchecks⟩
    rw [hkinds] at hchecks
    cases hchecks with
    | @cons _ _ _ _ _ source _ hsource hrest =>
        cases hrest with
        | @cons _ _ _ _ _ destination _ hdestination hnone =>
            cases hnone
            have hnext : nextReference sourceKind none source = some source := by
              rw [nextReference, hreference]
              rfl
            rw [hnext] at hdestination
            refine ⟨kind, source, destination, by rw [hkinds]; rfl, by rw [hkinds]; rfl, rfl,
              isReference_of_validate hreference hsource, ?_, hdestination⟩
            split at hkind
            · rw [if_pos ‹_›]
              exact beq_iff_eq.mp hkind
            · rw [if_neg ‹_›]
              exact hkind
  · cases hwrites

end CommandSpec

namespace Parse

variable {tree : FileTree}

/-- A destination is its second word, or is left out if it may be. -/
theorem pathOfWord_eq_destinationPath {task : Task} {kind : ArgumentKind}
    (hwords : ∀ word ∈ task.words, IsWord word.toList)
    (hmissing : task.words.length < 2 → kind.isOptional = true) :
    Validate.pathOfWord kind (task.words.tail.headD "") = task.destinationPath := by
  rw [Task.destinationPath, List.headD_eq_head?_getD, List.head?_eq_getElem?, List.getElem?_tail]
  cases hword : task.words[1]? with
  | none =>
      have hoptional := hmissing (Nat.lt_succ_of_le (List.getElem?_eq_none_iff.mp hword))
      rw [Option.getD_none, Validate.pathOfWord, hoptional]
      rfl
  | some word =>
      have hne : word.isEmpty = false := by
        rw [String.isEmpty_eq_false_iff]
        rintro rfl
        exact (hwords _ (List.mem_of_getElem? hword)).ne_nil rfl
      rw [Option.getD_some, Validate.pathOfWord, hne, Bool.false_and, if_neg Bool.false_ne_true]

/-- A transfer of one file or object, from a source with a basename, goes to a file or an
object: a bucket, a key or a path that ends in a slash, the working directory and a
destination that is left out take over the basename.  Only the path of a directory that
exists gets a slash instead, if it has none. -/
theorem transfer_destination (tree : FileTree) (text : String) (job : Job)
    (hline : line tree .standard text = .ok (some job)) (task : Task) (hmem : task ∈ job.tasks)
    (hsingle : task.operation.isSingleTransfer = true) :
    ∃ source destination, task.arguments = [source, destination] ∧
      ∀ base, Validate.referenceBasename (some source) = some base →
        (task.operation = .upload ∨ task.operation = .copy →
          ∃ word written location, task.words[1]? = some word ∧
            Location.parse word = .ok written ∧ destination = .storage location ∧
            location.bucket = written.bucket ∧
            location.key = (if written.isDirectory then written.key ++ base else written.key) ∧
            location.key ≠ "" ∧ Path.endsInSlash destination.text = false) ∧
        (task.operation = .download ∨ task.operation = .localCopy →
          ∃ path, destination = .plain path ∧
            (Path.endsInSlash task.destinationPath = true → path = task.destinationPath ++ base) ∧
            (Path.endsInSlash task.destinationPath = false →
              tree.isDirectory task.destinationPath = false → path = task.destinationPath) ∧
            (Path.endsInSlash task.destinationPath = false →
              tree.isDirectory task.destinationPath = true →
              path = task.destinationPath ++ "/") ∧
            (Path.endsInSlash path = true ↔ Path.endsInSlash task.destinationPath = false ∧
              tree.isDirectory task.destinationPath = true)) := by
  rcases exists_spec_of_line hline hmem with ⟨spec, hspec, hoperation, harity, hbinds⟩
  have hwords := isWord_of_mem_words hline hmem
  rw [hoperation] at hsingle ⊢
  rcases hbinds.exists_destination (CommandSpec.standard_writesOne spec hspec hsingle) with
    ⟨kind, source, destination, hlast, htwo, harguments, hsource, hkind, hvalid⟩
  refine ⟨source, destination, harguments, fun base hbase => ⟨fun hstorage => ?_, fun hlocal => ?_⟩⟩
  all_goals
    have hliteral := literal_of_referenceBasename (fun _ h => Option.some.inj h ▸ hsource) hbase
  · rw [if_pos hstorage] at hkind
    subst hkind
    rcases Validate.storage_destination hbase hvalid with ⟨written, hparse, rfl⟩
    have hobject := Location.isDirectory_completed hliteral written
    refine ⟨_, written, _, ?_, hparse, rfl, rfl, rfl, Location.key_ne_empty hobject,
      Location.endsInSlash_text hobject⟩
    cases hword : task.words[1]? with
    | none =>
        -- without a second word there would be no location
        rw [List.headD_eq_head?_getD, List.head?_eq_getElem?, List.getElem?_tail, hword] at hparse
        cases hparse
    | some word =>
        rw [List.headD_eq_head?_getD, List.head?_eq_getElem?, List.getElem?_tail, hword,
          Option.getD_some]
  · have hnot : ¬ (spec.operation = .upload ∨ spec.operation = .copy) := by
      rcases hlocal with hlocal | hlocal <;> rw [hlocal] <;> decide
    rw [if_neg hnot] at hkind
    have hpath : Validate.pathOfWord kind (task.words.tail.headD "") = task.destinationPath := by
      refine pathOfWord_eq_destinationPath hwords fun hless => ?_
      rcases (CommandSpec.complete_of_acceptsArity harity hwords).2 (htwo ▸ hless) with
        ⟨-, last, hlast', hoptional⟩
      rw [hlast] at hlast'
      cases hlast'
      exact hoptional
    have hdestination := Validate.local_destination hkind hbase hvalid
    rw [hpath] at hdestination
    refine ⟨_, hdestination, fun hslash => if_pos hslash, fun hslash hmissing => ?_,
      fun hslash hexists => ?_, Validate.endsInSlash_completePath hliteral _⟩
    · rw [Validate.completePath, hslash, hmissing]
      rfl
    · rw [Validate.completePath, hslash, hexists]
      rfl

theorem transfer_destination_directory :
    line copyTree .standard "cp foo dst/" =
        .ok (some (.ofTask (copyTask "cp foo dst/" "dst/foo"))) ∧
      ∃ path, (copyTask "cp foo dst/" "dst/foo").arguments = [.plain "foo", .plain path] ∧
        path = "dst/" ++ "foo" ∧ Path.endsInSlash path = false := by
  have hline : line copyTree .standard "cp foo dst/" =
      .ok (some (.ofTask (copyTask "cp foo dst/" "dst/foo"))) :=
    line_copy (by decide +kernel) (by decide +kernel) (by decide +kernel)
  refine ⟨hline, ?_⟩
  rcases transfer_destination copyTree "cp foo dst/" _ hline
    (copyTask "cp foo dst/" "dst/foo") List.mem_cons_self rfl with
    ⟨source, destination, harguments, hnamed⟩
  cases harguments
  have hwritten : (copyTask "cp foo dst/" "dst/foo").destinationPath = "dst/" := by decide +kernel
  rcases (hnamed "foo" (by decide +kernel)).2 (Or.inr rfl) with ⟨path, hpath, hslash, -, -, hends⟩
  cases hpath
  rw [hwritten] at hslash hends
  refine ⟨"dst/foo", rfl, hslash (by decide), Bool.eq_false_iff.mpr fun hend => ?_⟩
  exact absurd (hends.mp hend).1 (by decide)

/-- An existing directory that is named without a slash gets one and not the basename. -/
theorem existing_directory_not_completed :
    line copyTree .standard "cp foo dst" =
      .ok (some (.ofTask (copyTask "cp foo dst" "dst/"))) ∧
    Validate.referenceBasename (some (.plain "foo")) = some "foo" ∧
    Path.endsInSlash "dst/" = true :=
  ⟨line_copy (by decide +kernel) (by decide +kernel) (by decide +kernel), by decide +kernel,
    by decide⟩

end Parse
end BulkTransfer
