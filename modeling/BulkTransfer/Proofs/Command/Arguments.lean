import BulkTransfer.Proofs.Command.Reading
import BulkTransfer.Proofs.Parse.Segments

/-!
# What checked arguments are good for

Every operation demands arguments of a certain form in its first places.  A word that has
been checked against a kind meets what that kind promises, and the standard signatures
promise what their operations demand.
-/

namespace BulkTransfer

/-!
## Checking one word
-/

/-- The key of a written location does not begin with a slash. -/
theorem Location.isAbsolute_of_parse {word : String} {location : Location}
    (h : Location.parse word = .ok location) : Path.isAbsolute location.key = false := by
  rw [Location.parse] at h
  split at h
  · cases h
  · rename_i rest _
    simp only [Location.ofRest] at h
    split at h
    · cases h
    · split at h
      · cases h
      · rw [Except.ok.injEq] at h
        rw [← h, Path.isAbsolute, String.toList_ofList]
        cases hkey : (rest.dropWhile (· ≠ '/')).dropWhile (· = '/') with
        | nil => rfl
        | cons c key =>
            have hc := List.head?_dropWhile_not (· = '/') (rest.dropWhile (· ≠ '/'))
            rw [hkey, List.head?_cons] at hc
            simpa using hc

namespace Validate

theorem storage_eq_ok_iff {kind : ArgumentKind} {basename : Option String} {word : String}
    {argument : Argument} :
    storage kind basename word = .ok argument ↔
      ∃ location, Location.parse word = .ok location ∧ storageFault kind location = none ∧
        argument = .storage (completeLocation kind basename location) := by
  rw [storage]
  cases hparse : Location.parse word with
  | error error =>
      constructor
      · intro h
        cases h
      · rintro ⟨_, h, -⟩
        cases h
  | ok location =>
      cases hfault : storageFault kind location with
      | some fault =>
          constructor
          · intro h
            simp only [hfault, reduceCtorEq] at h
          · rintro ⟨_, h, hnone, -⟩
            cases h
            rw [hfault] at hnone
            cases hnone
      | none =>
          constructor
          · intro h
            simp only [hfault, Except.ok.injEq] at h
            exact ⟨location, rfl, hfault, h.symm⟩
          · rintro ⟨_, h, -, rfl⟩
            cases h
            simp only [hfault]

/-- The path that a word stands for in the place of a local kind. -/
def pathOfWord (kind : ArgumentKind) (word : String) : String :=
  if word.isEmpty && kind.isOptional then "./" else if word = "." then "./" else word

theorem localWord_eq_ok_iff {tree : FileTree} {kind : ArgumentKind} {basename : Option String}
    {word : String} {argument : Argument} :
    localWord tree kind basename word = .ok argument ↔
      isLocation word = false ∧ hasGlobChar (pathOfWord kind word) = false ∧
        ∃ path, localPath tree kind basename (pathOfWord kind word) = .ok path ∧
          argument = .plain path := by
  have hlocation : isLocation (if (word.isEmpty && kind.isOptional) = true then "." else word) =
      isLocation word := by
    split
    · rename_i hempty
      rw [Bool.and_eq_true, String.isEmpty_iff] at hempty
      rw [hempty.1]
      rfl
    · rfl
  have hpath : (if (if (word.isEmpty && kind.isOptional) = true then "." else word) = "."
      then "./" else (if (word.isEmpty && kind.isOptional) = true then "." else word)) =
      pathOfWord kind word := by
    rw [pathOfWord]
    split <;> rfl
  rw [localWord]
  simp only [hlocation, hpath]
  cases isLocation word with
  | true =>
      constructor
      · intro h
        cases h
      · rintro ⟨h, -⟩
        cases h
  | false =>
      simp only [Bool.false_eq_true, if_false, true_and]
      cases hasGlobChar (pathOfWord kind word) with
      | true =>
          constructor
          · intro h
            cases h
          · rintro ⟨h, -⟩
            cases h
      | false =>
          simp only [Bool.false_eq_true, if_false, true_and]
          cases localPath tree kind basename (pathOfWord kind word) with
          | error error =>
              constructor
              · intro h
                cases h
              · rintro ⟨_, h, -⟩
                cases h
          | ok path =>
              constructor
              · intro h
                cases h
                exact ⟨path, rfl, rfl⟩
              · rintro ⟨_, h, rfl⟩
                cases h
                rfl

theorem glob_eq_ok_iff {word : String} {argument : Argument} :
    glob word = .ok argument ↔
      isLocation word = false ∧ hasGlobChar word = true ∧ (∃ tokens, Glob.parse word = .ok tokens) ∧
        argument = .plain word := by
  rw [glob]
  cases isLocation word with
  | true =>
      constructor
      · intro h
        cases h
      · rintro ⟨h, -⟩
        cases h
  | false =>
      cases hasGlobChar word with
      | false =>
          constructor
          · intro h
            cases h
          · rintro ⟨-, h, -⟩
            cases h
      | true =>
          cases Glob.parse word with
          | error error =>
              constructor
              · intro h
                cases h
              · rintro ⟨-, -, ⟨_, h⟩, -⟩
                cases h
          | ok tokens =>
              constructor
              · intro h
                cases h
                exact ⟨rfl, rfl, ⟨tokens, rfl⟩, rfl⟩
              · rintro ⟨-, -, -, rfl⟩
                rfl

theorem endsInSlash_append_slash (path : String) : Path.endsInSlash (path ++ "/") = true := by
  rw [Path.endsInSlash, String.toList_append]
  simp

/-- A checked directory ends in a slash. -/
theorem endsInSlash_of_directory {tree : FileTree} {path text : String}
    (h : directory tree path = .ok text) : Path.endsInSlash text = true := by
  rw [directory] at h
  cases hslash : Path.endsInSlash path with
  | true =>
      simp only [hslash, if_true, Except.ok.injEq] at h
      rwa [← h]
  | false =>
      simp only [hslash, Bool.false_eq_true, if_false] at h
      cases hentry : entry tree path with
      | error error => rw [hentry] at h; cases h
      | ok found =>
          rw [hentry] at h
          cases found with
          | none =>
              cases h
              exact endsInSlash_append_slash path
          | some node =>
              cases hnode : node.isDirectory with
              | false => simp only [hnode, Bool.false_eq_true, if_false, reduceCtorEq] at h
              | true =>
                  simp only [hnode, if_true, Except.ok.injEq] at h
                  rw [← h]
                  exact endsInSlash_append_slash path

end Validate

section Validation

variable {tree : FileTree} {kind : ArgumentKind} {reference : Option Argument} {word : String}
  {argument : Argument}

/-- The basename that a word of a kind may take over. -/
def ArgumentKind.basename (kind : ArgumentKind) (reference : Option Argument) : Option String :=
  if kind.infersBasename then Validate.referenceBasename reference else none

theorem validate_of_isStorage (h : kind.isStorage = true) :
    validate tree kind reference word = Validate.storage kind (kind.basename reference) word := by
  cases kind <;> first | rfl | cases h

theorem validate_of_isLocal (h : kind.isLocal = true) :
    validate tree kind reference word =
      Validate.localWord tree kind (kind.basename reference) word := by
  cases kind <;> first | rfl | cases h

/-- A checked word of a storage kind is a location. -/
theorem location_of_validate (hkind : kind.isStorage = true)
    (h : validate tree kind reference word = .ok argument) :
    ∃ location, argument = .storage location := by
  rw [validate_of_isStorage hkind, Validate.storage_eq_ok_iff] at h
  rcases h with ⟨location, -, -, hargument⟩
  exact ⟨_, hargument⟩

end Validation

/-!
## Demands
-/

/-- What an operation expects of an argument. -/
inductive Demand
  | word
  | location
  /-- a location with a wildcard -/
  | pattern
  /-- a local path that ends in a slash -/
  | directoryPath
  /-- a location that names a directory -/
  | directoryLocation
deriving DecidableEq, Repr

namespace Demand

def Met : Demand → Argument → Prop
  | word, _ => True
  | location, argument => argument.isStorage = true
  | pattern, argument =>
      ∃ place, argument = .storage place ∧ place.isWildcard = true ∧
        Path.isAbsolute place.key = false
  | directoryPath, argument =>
      ∃ path, argument = .plain path ∧ Path.endsInSlash path = true
  | directoryLocation, argument =>
      ∃ place, argument = .storage place ∧ (place.key = "" ∨ Path.endsInSlash place.key = true)

/-- Whether checking a word against a kind is enough. -/
def promisedBy : Demand → ArgumentKind → Bool
  | word, _ => true
  | location, kind => kind.isStorage
  | pattern, kind => kind == .storageWildcardObject
  | directoryPath, kind => kind == .localDir || kind == .optionalLocalDir
  | directoryLocation, kind => kind == .storageDir

theorem met_of_validate (demand : Demand) {tree : FileTree} {kind : ArgumentKind}
    {reference : Option Argument} {word : String} {argument : Argument}
    (hkind : demand.promisedBy kind = true)
    (h : validate tree kind reference word = .ok argument) : demand.Met argument := by
  cases demand with
  | word => exact trivial
  | location =>
      rcases location_of_validate hkind h with ⟨location, rfl⟩
      rfl
  | pattern =>
      rw [promisedBy, beq_iff_eq] at hkind
      cases hkind
      rw [validate_of_isStorage rfl, Validate.storage_eq_ok_iff] at h
      rcases h with ⟨location, hparse, hfault, rfl⟩
      refine ⟨location, rfl, ?_, Location.isAbsolute_of_parse hparse⟩
      simp only [Validate.storageFault] at hfault
      split at hfault
      · assumption
      · cases hfault
  | directoryPath =>
      rw [promisedBy, Bool.or_eq_true, beq_iff_eq, beq_iff_eq] at hkind
      rcases hkind with rfl | rfl
      all_goals
        rw [validate_of_isLocal rfl, Validate.localWord_eq_ok_iff] at h
        rcases h with ⟨-, -, path, hpath, rfl⟩
        exact ⟨path, rfl, Validate.endsInSlash_of_directory hpath⟩
  | directoryLocation =>
      rw [promisedBy, beq_iff_eq] at hkind
      cases hkind
      rw [validate_of_isStorage rfl, Validate.storage_eq_ok_iff] at h
      rcases h with ⟨location, -, hfault, rfl⟩
      refine ⟨location, rfl, ?_⟩
      simp only [Validate.storageFault] at hfault
      split at hfault
      · rename_i hdirectory
        rwa [Bool.or_eq_true, String.isEmpty_iff] at hdirectory
      · cases hfault

end Demand

namespace Operation

/-- What an operation expects of its first arguments. -/
def demands : Operation → List Demand
  | download => [.location, .word]
  | batchDownload => [.pattern, .directoryPath]
  | upload => [.word, .location]
  | batchUpload => [.word, .directoryLocation]
  | copy => [.location, .location]
  | batchCopy => [.pattern, .directoryLocation]
  | batchDelete => [.pattern]
  | delete | batchDeleteActual | list | size => [.location]
  | localCopy => [.word, .word]
  | batchLocalCopy => [.word, .directoryPath]
  | localDelete => [.word]
  | abort | listBuckets | shellExec => []

/-- Arguments meet the demands of an operation; a deletion of many keys takes any number of
locations. -/
structure Supplied (operation : Operation) (arguments : List Argument) : Prop where
  demanded : List.Forall₂ Demand.Met operation.demands (arguments.take operation.demands.length)
  locations : operation = .batchDeleteActual → ∀ argument ∈ arguments, argument.isStorage = true

/-- Kinds that promise what an operation demands. -/
def promised (operation : Operation) (kinds : List ArgumentKind) : Bool :=
  operation.demands.length ≤ kinds.length &&
    (List.zipWith Demand.promisedBy operation.demands kinds).all id &&
    (operation != .batchDeleteActual || kinds.all ArgumentKind.isStorage)

end Operation

namespace CommandSpec

variable {tree : FileTree}

theorem Checks.met {kinds : List ArgumentKind} {reference last : Option Argument}
    {words : List String} {arguments : List Argument}
    (h : Checks tree kinds reference words arguments last) {demands : List Demand}
    (hlength : demands.length ≤ kinds.length)
    (hpromised : (List.zipWith Demand.promisedBy demands kinds).all id = true) :
    List.Forall₂ Demand.Met demands (arguments.take demands.length) := by
  induction h generalizing demands with
  | nil =>
      cases demands with
      | nil => exact .nil
      | cons demand demands => cases hlength
  | cons hword _ ih =>
      cases demands with
      | nil => exact .nil
      | cons demand demands =>
          rw [List.zipWith_cons_cons, List.all_cons, Bool.and_eq_true] at hpromised
          exact .cons (Demand.met_of_validate _ hpromised.1 hword)
            (ih (Nat.le_of_succ_le_succ hlength) hpromised.2)

theorem Checks.isStorage {kinds : List ArgumentKind} {reference last : Option Argument}
    {words : List String} {arguments : List Argument}
    (h : Checks tree kinds reference words arguments last)
    (hkinds : kinds.all ArgumentKind.isStorage = true) :
    ∀ argument ∈ arguments, argument.isStorage = true := by
  induction h with
  | nil => exact fun _ hmem => absurd hmem List.not_mem_nil
  | cons hword _ ih =>
      rw [List.all_cons, Bool.and_eq_true] at hkinds
      refine List.forall_mem_cons.mpr ⟨?_, ih hkinds.2⟩
      exact Demand.met_of_validate .location hkinds.1 hword

theorem Checks.length {kinds : List ArgumentKind} {reference last : Option Argument}
    {words : List String} {arguments : List Argument}
    (h : Checks tree kinds reference words arguments last) : arguments.length = kinds.length := by
  induction h with
  | nil => rfl
  | cons _ _ ih => rw [List.length_cons, List.length_cons, ih]

/-- Words that are bound to a promising signature supply its operation. -/
theorem Binds.supplied {spec : CommandSpec} {words : List String} {arguments : List Argument}
    (h : Binds tree spec words arguments)
    (hpromised : spec.operation.promised spec.fixedKinds = true) :
    spec.operation.Supplied arguments := by
  rw [Operation.promised, Bool.and_eq_true, Bool.and_eq_true, decide_eq_true_eq, Bool.or_eq_true,
    bne_iff_ne] at hpromised
  rcases hpromised with ⟨⟨hlength, hzip⟩, hmany⟩
  cases h with
  | fixed _ hchecks =>
      refine ⟨hchecks.met hlength hzip, fun hoperation => hchecks.isStorage ?_⟩
      exact hmany.resolve_left (absurd hoperation)
  | @variadic front rest last _ hchecks hrest =>
      constructor
      · rw [List.take_append_of_le_length (by rw [hchecks.length]; exact hlength)]
        exact hchecks.met hlength hzip
      · intro hoperation
        have hkinds := hmany.resolve_left (absurd hoperation)
        refine List.forall_mem_append.mpr ⟨hchecks.isStorage hkinds, fun argument hmem => ?_⟩
        -- a further word is checked against the last fixed kind, and there is one
        have hlast : (spec.fixedKinds.getLast?.getD .uncheckedOneOrMore).isStorage = true := by
          rw [hoperation] at hlength
          cases hkind : spec.fixedKinds.getLast? with
          | none =>
              rw [List.getLast?_eq_none_iff.mp hkind] at hlength
              cases hlength
          | some kind => exact List.all_eq_true.mp hkinds kind (List.mem_of_getLast? hkind)
        rcases (List.forall₂_iff_get.mp hrest) with ⟨hsame, hword⟩
        rcases List.mem_iff_get.mp hmem with ⟨⟨n, hn⟩, rfl⟩
        exact Demand.met_of_validate .location hlast (hword n (hsame ▸ hn) hn)

end CommandSpec

namespace Parse

variable {tree : FileTree}

theorem standard_promised : ∀ spec ∈ CommandTable.standard.specs,
    spec.operation.promised spec.fixedKinds = true := by
  decide

/-- A task of a standard command has the arguments that its operation demands. -/
theorem supplied_of_segment {s : List Char} {task : Task}
    (h : segment tree .standard s = .ok (some task)) :
    task.operation.Supplied task.arguments := by
  rcases segment_eq_some_iff.mp h with ⟨-, -, keyword, words, -, hwords⟩
  rcases exists_spec_of_ofWords hwords with ⟨spec, hmem, -, -, hoperation, hread⟩
  rcases CommandSpec.read_eq_ok_iff.mp hread with ⟨rest, -, -, hbinds⟩
  rw [hoperation]
  exact hbinds.supplied (standard_promised spec hmem)

end Parse
end BulkTransfer
