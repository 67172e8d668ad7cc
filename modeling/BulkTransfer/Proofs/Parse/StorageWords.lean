import BulkTransfer.Proofs.Parse.Tasks

/-!
# Words that begin like a storage url

A word that begins with the scheme is a location if a bucket without wildcards follows, and
no kind that looks at the file system takes it.  So it becomes a storage argument in every
line.  Without such a bucket it is checked like any other word.
-/

namespace BulkTransfer

/-!
## Well-formed urls
-/

namespace Location

/-- What stands behind the scheme up to the next slash. -/
def bucketPart (rest : List Char) : List Char :=
  rest.takeWhile (· ≠ '/')

/-- What stands behind the scheme makes a location. -/
structure WellFormed (rest : List Char) : Prop where
  named : bucketPart rest ≠ []
  literal : ∀ c ∈ bucketPart rest, isWildcardChar c = false

variable {word : String} {rest : List Char}

theorem isLocation_iff_wellFormed (h : word.toList = scheme.toList ++ rest) :
    Validate.isLocation word = true ↔ WellFormed rest := by
  have hok : Validate.isLocation word =
      (!(bucketPart rest).isEmpty && !(bucketPart rest).any isWildcardChar) := by
    rw [Validate.isLocation, parse_of_toList rest h]
    exact Validate.isOk_ofRest rest
  rw [hok, Bool.and_eq_true, Bool.not_eq_true', Bool.not_eq_true', List.isEmpty_eq_false_iff,
    List.any_eq_false]
  constructor
  · rintro ⟨hnamed, hliteral⟩
    exact ⟨hnamed, fun c hc => Bool.eq_false_iff.mpr (hliteral c hc)⟩
  · rintro ⟨hnamed, hliteral⟩
    exact ⟨hnamed, fun c hc => Bool.eq_false_iff.mp (hliteral c hc)⟩

/-- A wildcard in the place of the bucket is a glob character of the word. -/
theorem hasGlobChar_of_bucketPart (h : word.toList = scheme.toList ++ rest) {c : Char}
    (hc : c ∈ bucketPart rest) (hwildcard : isWildcardChar c = true) :
    hasGlobChar word = true := by
  have hmem : c ∈ word.toList := by
    rw [h]
    exact List.mem_append_right _ ((List.takeWhile_sublist _).subset hc)
  cases hglob : hasGlobChar word with
  | true => rfl
  | false =>
      have hplain := hasWildcard_of_hasGlobChar hglob
      exact absurd hwildcard (List.any_eq_false.mp hplain c hmem)

theorem bucket_of_parse (h : word.toList = scheme.toList ++ rest) {location : Location}
    (hparse : parse word = .ok location) : location.bucket = String.ofList (bucketPart rest) := by
  rw [parse_of_toList rest h, ofRest] at hparse
  split at hparse
  · cases hparse
  · split at hparse
    · cases hparse
    · cases hparse
      rfl

end Location

/-!
## What the kinds make of them
-/

section Validation

open Location Validate

variable {tree : FileTree} {kind : ArgumentKind} {reference : Option Argument} {word : String}
  {rest : List Char}

/-- A local kind takes a word that begins with the scheme as it stands. -/
theorem localWord_of_scheme (h : word.toList = scheme.toList ++ rest)
    (basename : Option String) :
    localWord tree kind basename word =
      if isLocation word then .error .resemblesStorageUrl
      else if hasGlobChar word then .error .containsGlobCharacters
      else (localPath tree kind basename word).map Argument.plain := by
  have hempty : word.isEmpty = false := by
    rw [String.isEmpty_eq_false_iff, Ne, ← String.toList_inj, h]
    exact List.append_ne_nil_of_left_ne_nil (by decide) _
  have hhere : word ≠ "." := by
    rw [Ne, ← String.toList_inj, h]
    exact fun hsame => absurd (List.cons.inj hsame).1 (by decide)
  rw [localWord]
  simp only [hempty, Bool.false_and, Bool.false_eq_true, if_false, if_neg hhere]

/-- A location is refused by every kind that looks at the file system. -/
theorem validate_of_wellFormed (h : word.toList = scheme.toList ++ rest)
    (hkind : kind.isLocal = true ∨ kind = .glob) (hformed : WellFormed rest) :
    validate tree kind reference word = .error .resemblesStorageUrl := by
  have hlocation := (isLocation_iff_wellFormed h).mpr hformed
  rcases hkind with hlocal | rfl
  · rw [validate_of_isLocal hlocal, localWord_of_scheme h, if_pos hlocation]
  · exact if_pos hlocation

/-- A word that is no location is checked for glob characters, then as a path. -/
theorem validate_of_malformed (h : word.toList = scheme.toList ++ rest)
    (hkind : kind.isLocal = true) (hformed : ¬ WellFormed rest) :
    validate tree kind reference word =
      if hasGlobChar word then .error .containsGlobCharacters
      else (localPath tree kind (kind.basename reference) word).map Argument.plain := by
  rw [validate_of_isLocal hkind, localWord_of_scheme h,
    if_neg fun hlocation => hformed ((isLocation_iff_wellFormed h).mp hlocation)]

theorem validate_glob_of_malformed (h : word.toList = scheme.toList ++ rest)
    (hformed : ¬ WellFormed rest) (hglob : hasGlobChar word = false) :
    validate tree .glob reference word = .error .notAGlob := by
  show Validate.glob word = _
  rw [Validate.glob, if_neg fun hlocation => hformed ((isLocation_iff_wellFormed h).mp hlocation),
    hglob]
  rfl

theorem ArgumentKind.cases_of_checked (h : kind.isUnchecked = false) :
    kind.isStorage = true ∨ kind.isLocal = true ∨ kind = .glob := by
  cases kind with
  | unchecked | uncheckedOneOrMore => cases h
  | storageObject | storageSimpleObject | storageObjectOrDir | storageWildcardObject
  | storageDir => exact Or.inl rfl
  | localFileObject | localFileOrDir | optionalLocalFileOrDir | localDir | optionalLocalDir =>
      exact Or.inr (Or.inl rfl)
  | glob => exact Or.inr (Or.inr rfl)

/-- A location that is taken by a kind that checks its words becomes a location of its
bucket. -/
theorem storage_of_validate (h : word.toList = scheme.toList ++ rest)
    (hformed : WellFormed rest) (hkind : kind.isUnchecked = false) {argument : Argument}
    (hvalid : validate tree kind reference word = .ok argument) :
    ∃ location, argument = .storage location ∧
      location.bucket = String.ofList (bucketPart rest) := by
  have hstorage : kind.isStorage = true := by
    refine (ArgumentKind.cases_of_checked hkind).resolve_right fun hlocal => ?_
    rw [validate_of_wellFormed h hlocal hformed] at hvalid
    cases hvalid
  rw [validate_of_isStorage hstorage, storage_eq_ok_iff] at hvalid
  rcases hvalid with ⟨location, hparse, -, rfl⟩
  refine ⟨_, rfl, ?_⟩
  rw [← bucket_of_parse h hparse]
  rcases completeLocation_cases kind (kind.basename reference) location with
    hsame | ⟨base, -, -, -, hcompleted⟩
  · rw [hsame]
  · rw [hcompleted]
    rfl

/-- A word that is no location and holds a glob character is taken by the glob kind only. -/
theorem kind_of_validate (h : word.toList = scheme.toList ++ rest)
    (hformed : ¬ WellFormed rest) (hglob : hasGlobChar word = true)
    (hkind : kind.isUnchecked = false) {argument : Argument}
    (hvalid : validate tree kind reference word = .ok argument) : kind = .glob := by
  rcases ArgumentKind.cases_of_checked hkind with hstorage | hlocal | hpattern
  · rw [validate_of_isStorage hstorage, storage_eq_ok_iff] at hvalid
    rcases hvalid with ⟨location, hparse, -⟩
    have hlocation : isLocation word = true := by rw [isLocation, hparse]
    exact absurd ((isLocation_iff_wellFormed h).mp hlocation) hformed
  · rw [validate_of_malformed h hlocal hformed, if_pos hglob] at hvalid
    cases hvalid
  · exact hpattern

end Validation

/-!
## Lines
-/

namespace CommandSpec

/-- Whether a signature checks all its words. -/
def checksWords (spec : CommandSpec) : Bool :=
  spec.fixedKinds.all (fun kind => !kind.isUnchecked) &&
    !(spec.isVariadic && spec.fixedKinds.isEmpty)

/-- Whether patterns of files stand in the first place of a batch only. -/
def patternFirst (spec : CommandSpec) : Bool :=
  !spec.fixedKinds.contains .glob ||
    !spec.isVariadic && !spec.fixedKinds.tail.contains .glob &&
      (spec.operation == .batchLocalCopy || spec.operation == .batchUpload)

theorem standard_checksWords : ∀ spec ∈ CommandTable.standard.specs,
    spec.operation ≠ .abort → spec.operation ≠ .shellExec → spec.checksWords = true := by
  decide +kernel

theorem standard_patternFirst : ∀ spec ∈ CommandTable.standard.specs,
    spec.patternFirst = true := by
  decide +kernel

variable {spec : CommandSpec} {n i : Nat}

theorem kindAt_mem (h : spec.fixedKinds ≠ []) (i : Nat) : spec.kindAt i ∈ spec.fixedKinds := by
  by_cases hplace : i < spec.fixedKinds.length
  · exact List.mem_of_getElem? (kindAt_of_lt hplace)
  · rw [kindAt_of_le (Nat.le_of_not_lt hplace), List.getLast?_eq_some_getLast h, Option.getD_some]
    exact List.getLast_mem h

theorem isUnchecked_kindAt (hchecks : spec.checksWords = true)
    (harity : spec.acceptsArity n = true) (hi : i < n) :
    (spec.kindAt i).isUnchecked = false := by
  rw [checksWords, Bool.and_eq_true, Bool.not_eq_true'] at hchecks
  have hne : spec.fixedKinds ≠ [] := by
    cases hvariadic : spec.isVariadic with
    | false =>
        have hlt := lt_of_acceptsArity hvariadic harity hi
        exact List.ne_nil_of_length_pos (Nat.zero_lt_of_lt hlt)
    | true => simpa [hvariadic] using hchecks.2
  have hchecked := List.all_eq_true.mp hchecks.1 _ (kindAt_mem hne i)
  rwa [Bool.not_eq_true'] at hchecked

/-- A word that is checked as a pattern of files is the first one of a batch. -/
theorem place_of_glob (hfirst : spec.patternFirst = true)
    (harity : spec.acceptsArity n = true) (hi : i < n) (hkind : spec.kindAt i = .glob) :
    i = 0 ∧ (spec.operation = .batchLocalCopy ∨ spec.operation = .batchUpload) := by
  have hne : spec.fixedKinds ≠ [] := by
    intro hnil
    rw [kindAt, hnil] at hkind
    cases hkind
  have hmem : spec.fixedKinds.contains .glob = true :=
    List.contains_iff_mem.mpr (hkind ▸ kindAt_mem hne i)
  rw [patternFirst, hmem, Bool.not_true, Bool.false_or, Bool.and_eq_true, Bool.and_eq_true,
    Bool.not_eq_true', Bool.not_eq_true', Bool.or_eq_true, beq_iff_eq, beq_iff_eq] at hfirst
  rcases hfirst with ⟨⟨hfixed, htail⟩, hbatch⟩
  refine ⟨?_, hbatch⟩
  have hplace := kindAt_of_lt (lt_of_acceptsArity hfixed harity hi)
  rw [hkind] at hplace
  cases i with
  | zero => rfl
  | succ i =>
      rw [← List.getElem?_tail] at hplace
      rw [List.contains_iff_mem.mpr (List.mem_of_getElem? hplace)] at htail
      cases htail

end CommandSpec

open Location in
/-- A location is refused in the place of a path or of a pattern of files, whatever the file
system holds, and becomes a location in every line.  A word that begins with the scheme but
is no location is no path if it holds a glob character, as one with a wildcard in the place
of the bucket does, and no pattern if it holds none. -/
theorem storage_words_kept_apart :
    (∀ word rest, word.toList = scheme.toList ++ rest →
      ((∃ c ∈ bucketPart rest, isWildcardChar c = true) → hasGlobChar word = true) ∧
      ∀ (tree : FileTree) (reference : Option Argument),
        (WellFormed rest → ∀ kind : ArgumentKind, kind.isLocal = true ∨ kind = .glob →
          validate tree kind reference word = .error .resemblesStorageUrl) ∧
        (¬ WellFormed rest →
          (∀ kind : ArgumentKind, kind.isLocal = true → validate tree kind reference word =
            if hasGlobChar word then .error .containsGlobCharacters
            else (Validate.localPath tree kind (kind.basename reference) word).map .plain) ∧
          (hasGlobChar word = false →
            validate tree .glob reference word = .error .notAGlob))) ∧
    (∀ tree text job, Parse.line tree .standard text = .ok (some job) → ∀ task ∈ job.tasks,
      task.operation ≠ .abort → task.operation ≠ .shellExec →
      ∀ i word rest, task.words[i]? = some word → word.toList = scheme.toList ++ rest →
        (WellFormed rest → ∃ location, task.arguments[i]? = some (.storage location) ∧
          location.bucket = String.ofList (bucketPart rest)) ∧
        (¬ WellFormed rest → hasGlobChar word = true →
          i = 0 ∧ (task.operation = .batchLocalCopy ∨ task.operation = .batchUpload))) := by
  constructor
  · intro word rest hword
    refine ⟨fun ⟨c, hc, hwildcard⟩ => hasGlobChar_of_bucketPart hword hc hwildcard,
      fun tree reference => ⟨fun hformed kind hkind => ?_, fun hformed => ⟨?_, ?_⟩⟩⟩
    · exact validate_of_wellFormed hword hkind hformed
    · exact fun kind hkind => validate_of_malformed hword hkind hformed
    · exact validate_glob_of_malformed hword hformed
  · intro tree text job hline task hmem habort hshell i word rest hplace hword
    rcases Parse.exists_spec_of_line hline hmem with ⟨spec, hspec, hoperation, harity, hbinds⟩
    rw [hoperation] at habort hshell
    have hchecks := CommandSpec.standard_checksWords spec hspec habort hshell
    have hi : i < task.words.length := (List.getElem?_eq_some_iff.mp hplace).1
    have hkind := CommandSpec.isUnchecked_kindAt hchecks harity hi
    rcases hbinds.exists_argument harity hplace with ⟨reference, argument, hargument, hvalid⟩
    constructor
    · intro hformed
      rcases storage_of_validate hword hformed hkind hvalid with ⟨location, rfl, hbucket⟩
      exact ⟨location, hargument, hbucket⟩
    · intro hformed hglob
      have hpattern := kind_of_validate hword hformed hglob hkind hvalid
      rw [hoperation]
      exact CommandSpec.place_of_glob (CommandSpec.standard_patternFirst spec hspec) harity hi
        hpattern

open Location Parse in
theorem storage_words_kept_apart_upload :
    validate copyTree .localFileOrDir none "s3://b/k" = .error .resemblesStorageUrl ∧
    validate copyTree .localFileOrDir none "s3://b*/k" = .error .containsGlobCharacters ∧
    ∃ job, line copyTree .standard "cp foo s3://b/k" = .ok (some job) ∧
      ∃ location, job.task.arguments[1]? = some (.storage location) ∧ location.bucket = "b" := by
  have hurl : "s3://b/k".toList = scheme.toList ++ "b/k".toList := by decide +kernel
  have hwild : "s3://b*/k".toList = scheme.toList ++ "b*/k".toList := by decide +kernel
  have hformed : WellFormed "b/k".toList :=
    (isLocation_iff_wellFormed hurl).mp (by decide +kernel)
  have hmalformed : ¬ WellFormed "b*/k".toList := fun h =>
    absurd ((isLocation_iff_wellFormed hwild).mpr h) (by decide +kernel)
  have hglob : hasGlobChar "s3://b*/k" = true := by decide +kernel
  refine ⟨((storage_words_kept_apart.1 _ _ hurl).2 copyTree none).1 hformed _ (Or.inl rfl), ?_, ?_⟩
  · have hpath := (((storage_words_kept_apart.1 _ _ hwild).2 copyTree none).2 hmalformed).1
      .localFileOrDir rfl
    rwa [hglob, if_pos rfl] at hpath
  · let task : Task :=
      { source := "cp foo s3://b/k", keyword := "cp", operation := .upload,
        options := Options.none, arguments := [.plain "foo", .storage ⟨"b", "k"⟩] }
    have hline : line copyTree .standard "cp foo s3://b/k" = .ok (some (.ofTask task)) :=
      line_of_segment (by decide +kernel) (by decide +kernel) (by decide +kernel)
    have hwords : task.words[1]? = some "s3://b/k" := by decide +kernel
    have htasks : task ∈ (Job.ofTask task).tasks := List.mem_cons_self
    have hkept := storage_words_kept_apart.2 copyTree _ _ hline task htasks (by decide) (by decide)
      1 _ _ hwords hurl
    exact ⟨_, hline, hkept.1 hformed⟩

open Parse in
/-- A url without a bucket is a path like any other word, and one with a wildcard in the place
of the bucket is a pattern of files. -/
theorem malformed_urls_taken :
    validate copyTree .localFileOrDir none "s3:///k" = .ok (.plain "s3:///k") ∧
    validate copyTree .glob none "s3://b*/k" = .ok (.plain "s3://b*/k") ∧
    line copyTree .standard "cp foo s3:///k" =
      .ok (some (.ofTask (copyTask "cp foo s3:///k" "s3:///k"))) ∧
    line copyTree .standard "cp s3://b*/k out/" = .ok (some (.ofTask
      { source := "cp s3://b*/k out/", keyword := "cp", operation := .batchLocalCopy,
        options := Options.none, arguments := [.plain "s3://b*/k", .plain "out/"] })) := by
  refine ⟨by decide +kernel, by decide +kernel, ?_, ?_⟩
  · exact line_of_segment (by decide +kernel) (by decide +kernel) (by decide +kernel)
  · exact line_of_segment (by decide +kernel) (by decide +kernel) (by decide +kernel)

end BulkTransfer
