import BulkTransfer.Proofs.Command.Arguments
import BulkTransfer.Proofs.FileSystem.Paths

/-!
# Checking a checked argument again

A checked argument has a canonical text.  Checked once more against the same kind, the text
gives the argument that it belongs to; only a local destination that may be a directory can
be read differently the second time.
-/

namespace BulkTransfer

/-!
## Locations as they are written
-/

namespace Location

/-- A location that can be read from a text. -/
structure Written (location : Location) : Prop where
  bucket_ne_empty : location.bucket ≠ ""
  bucket_slashFree : '/' ∉ location.bucket.toList
  bucket_literal : hasWildcard location.bucket = false
  key_relative : Path.isAbsolute location.key = false

theorem written_of_parse {word : String} {location : Location}
    (h : parse word = .ok location) : location.Written := by
  have hkey := isAbsolute_of_parse h
  rw [parse] at h
  split at h
  · cases h
  · rename_i rest _
    simp only [ofRest] at h
    split at h
    · cases h
    · rename_i hbucket
      split at h
      · cases h
      · rename_i hwildcard
        cases h
        constructor
        · intro hempty
          rw [← String.toList_inj, String.toList_ofList, String.toList_empty] at hempty
          exact hbucket (List.isEmpty_iff.mpr hempty)
        · rw [String.toList_ofList]
          intro hmem
          have hslash := List.all_eq_true.mp (List.all_takeWhile (p := (· ≠ '/'))) '/' hmem
          simp at hslash
        · rw [hasWildcard, String.toList_ofList]
          exact Bool.eq_false_iff.mpr hwildcard
        · exact hkey

theorem parse_of_toList {word : String} (rest : List Char)
    (h : word.toList = scheme.toList ++ rest) : parse word = ofRest rest := by
  have hstart : List.isPrefixOf? scheme.toList word.toList = some rest :=
    List.isPrefixOf?_eq_some_iff_append_eq.mpr h.symm
  rw [parse, hstart]

theorem Written.parse_text {location : Location} (h : location.Written) :
    parse location.text = .ok location := by
  have hbucket : ∀ c ∈ location.bucket.toList, decide (c ≠ '/') = true := by
    intro c hc
    exact decide_eq_true fun hslash => h.bucket_slashFree (hslash ▸ hc)
  have hne : location.bucket.toList.isEmpty = false := by
    rw [List.isEmpty_eq_false_iff, Ne, ← String.toList_empty, String.toList_inj]
    exact h.bucket_ne_empty
  have hliteral : location.bucket.toList.any isWildcardChar = false := h.bucket_literal
  rw [parse_of_toList location.shortText.toList (by rw [text, String.toList_append]),
    shortText]
  cases hkey : location.key.isEmpty with
  | true =>
      have htake : location.bucket.toList.takeWhile (· ≠ '/') = location.bucket.toList :=
        List.takeWhile_eq_self_iff.mpr hbucket
      have hdrop : location.bucket.toList.dropWhile (· ≠ '/') = [] :=
        List.dropWhile_eq_nil_iff.mpr hbucket
      rw [if_pos rfl, ofRest, htake, hdrop]
      simp only [hne, hliteral, List.dropWhile_nil, Bool.false_eq_true, if_false,
        String.ofList_toList]
      have hnil : location.key = String.ofList [] := String.isEmpty_iff.mp hkey
      rw [← hnil]
  | false =>
      have htext : (location.bucket ++ "/" ++ location.key).toList =
          location.bucket.toList ++ '/' :: location.key.toList := by
        rw [String.toList_append, String.toList_append, List.append_assoc]
        rfl
      have htake : (location.bucket.toList ++ '/' :: location.key.toList).takeWhile (· ≠ '/') =
          location.bucket.toList := by
        rw [List.takeWhile_append_of_pos hbucket, List.takeWhile_cons_of_neg (by simp),
          List.append_nil]
      have hdrop : ((location.bucket.toList ++ '/' :: location.key.toList).dropWhile
          (· ≠ '/')).dropWhile (· = '/') = location.key.toList := by
        rw [List.dropWhile_append_of_pos hbucket, List.dropWhile_cons_of_neg (by simp),
          List.dropWhile_cons_of_pos (by simp)]
        cases hchars : location.key.toList with
        | nil => rfl
        | cons c key =>
            have hc := h.key_relative
            rw [Path.isAbsolute, hchars] at hc
            exact List.dropWhile_cons_of_neg (by simpa using hc)
      rw [if_neg Bool.false_ne_true, htext, ofRest, htake, hdrop]
      simp only [hne, hliteral, Bool.false_eq_true, if_false, String.ofList_toList]

/-- A name behind a written key. -/
theorem Written.withKey_append {location : Location} (h : location.Written) {base : String}
    (hbase : '/' ∉ base.toList) : (location.withKey (location.key ++ base)).Written where
  bucket_ne_empty := h.bucket_ne_empty
  bucket_slashFree := h.bucket_slashFree
  bucket_literal := h.bucket_literal
  key_relative := by
    have hkey := h.key_relative
    show Path.isAbsolute (location.key ++ base) = false
    rw [Path.isAbsolute, String.toList_append, List.head?_append]
    rw [Path.isAbsolute] at hkey
    cases hhead : location.key.toList.head? with
    | some c =>
        rw [hhead] at hkey
        exact hkey
    | none =>
        rw [Option.none_or, beq_eq_false_iff_ne]
        exact fun hslash => hbase (List.mem_of_head? hslash)

end Location

/-!
## References
-/

theorem Validate.isWildcard_of_storageFault {kind : ArgumentKind} {location : Location}
    (hkind : kind = .storageObject ∨ kind = .storageSimpleObject ∨ kind = .storageObjectOrDir)
    (h : storageFault kind location = none) : location.isWildcard = false := by
  cases hwildcard : location.isWildcard with
  | false => rfl
  | true =>
      rcases hkind with rfl | rfl | rfl
      all_goals simp only [storageFault, hwildcard, if_true, reduceCtorEq] at h

/-- What an argument is whose basename may be taken over. -/
inductive Argument.IsReference : Argument → Prop
  | object {location : Location} (h : location.isWildcard = false) :
      IsReference (.storage location)
  | file {path : String} (h : hasGlobChar path = false) : IsReference (.plain path)

theorem isReference_of_validate {tree : FileTree} {kind : ArgumentKind}
    {reference : Option Argument} {word : String} {argument : Argument}
    (hkind : kind.isReference = true)
    (h : validate tree kind reference word = .ok argument) : argument.IsReference := by
  have hobject : kind.isStorage = true →
      (∀ location, Validate.storageFault kind location = none → location.isWildcard = false) →
      (∀ location, Validate.completeLocation kind (kind.basename reference) location = location) →
      argument.IsReference := by
    intro hstorage hplain hsame
    rw [validate_of_isStorage hstorage, Validate.storage_eq_ok_iff] at h
    rcases h with ⟨location, -, hfault, rfl⟩
    rw [hsame]
    exact .object (hplain location hfault)
  cases kind with
  | storageObject | storageSimpleObject =>
      refine hobject rfl (fun location hfault => ?_) fun location => rfl
      exact Validate.isWildcard_of_storageFault (by simp) hfault
  | localFileObject =>
      rw [validate_of_isLocal rfl, Validate.localWord_eq_ok_iff] at h
      rcases h with ⟨-, hglob, path, hpath, rfl⟩
      rw [Validate.localPath, Validate.fileObject] at hpath
      split at hpath
      · cases hpath
      · split at hpath
        · cases hpath
        · cases hpath
          exact .file hglob
  | _ => cases hkind

/-- A basename is a name without wildcards. -/
structure Literal (base : String) : Prop where
  ne_empty : base ≠ ""
  slashFree : '/' ∉ base.toList
  plain : hasWildcard base = false

theorem hasWildcard_of_hasGlobChar {s : String} (h : hasGlobChar s = false) :
    hasWildcard s = false := by
  rw [hasGlobChar, List.any_eq_false] at h
  rw [hasWildcard, List.any_eq_false]
  intro c hc hwildcard
  rw [isWildcardChar, Bool.or_eq_true] at hwildcard
  refine h c hc ?_
  rw [isGlobChar]
  rcases hwildcard with hstar | hmark
  · rw [hstar]
    rfl
  · rw [hmark, Bool.or_true]
    rfl

theorem hasWildcard_ofList_of_subset {s : List Char} {t : String} (hst : s ⊆ t.toList)
    (h : hasWildcard t = false) : hasWildcard (String.ofList s) = false := by
  rw [hasWildcard, String.toList_ofList, List.any_eq_false]
  rw [hasWildcard, List.any_eq_false] at h
  exact fun c hc => h c (hst hc)

theorem literal_basename {location : Location} (h : location.isWildcard = false)
    (hne : location.basename ≠ "") : Literal location.basename where
  ne_empty := hne
  slashFree := by
    rw [Location.basename, String.toList_ofList, Text.afterLast, List.mem_reverse]
    intro hmem
    have hslash := List.all_eq_true.mp (List.all_takeWhile (p := (· ≠ '/'))) '/' hmem
    simp at hslash
  plain := by
    refine hasWildcard_ofList_of_subset (fun c hc => ?_) h
    rw [← Text.throughLast_append_afterLast '/' location.key.toList]
    exact List.mem_append_right _ hc

theorem literal_fileName {path name : String} (h : hasGlobChar path = false)
    (hname : Path.fileName path = some name) : Literal name := by
  rcases Path.mem_pieces_of_fileName hname with ⟨hpiece, hisName⟩
  refine ⟨hisName.ne_empty, hisName.slashFree, ?_⟩
  rw [Path.pieces, List.mem_map] at hpiece
  rcases hpiece with ⟨letters, hletters, rfl⟩
  refine hasWildcard_ofList_of_subset (fun c hc => ?_) (hasWildcard_of_hasGlobChar h)
  exact Text.mem_of_mem_splitOn hletters hc

theorem referenceBasename_storage (location : Location) :
    Validate.referenceBasename (some (.storage location)) =
      if location.basename.isEmpty then none else some location.basename := rfl

theorem referenceBasename_plain (path : String) :
    Validate.referenceBasename (some (.plain path)) =
      if ((Path.fileName path).getD "").isEmpty then none
      else some ((Path.fileName path).getD "") := rfl

/-- A basename that is taken over has no wildcards. -/
theorem literal_of_referenceBasename {reference : Option Argument}
    (h : ∀ argument ∈ reference, argument.IsReference) {base : String}
    (hbase : Validate.referenceBasename reference = some base) : Literal base := by
  cases reference with
  | none => cases hbase
  | some argument =>
      cases h argument rfl with
      | @object location hplain =>
          rw [referenceBasename_storage] at hbase
          split at hbase
          · cases hbase
          · rename_i hne
            cases hbase
            exact literal_basename hplain fun hempty => hne (String.isEmpty_iff.mpr hempty)
      | @file path hglob =>
          rw [referenceBasename_plain] at hbase
          split at hbase
          · cases hbase
          · rename_i hne
            cases hname : Path.fileName path with
            | none =>
                rw [hname] at hne
                exact absurd rfl hne
            | some name =>
                rw [hname] at hbase
                cases hbase
                exact literal_fileName hglob hname

/-!
## Fixed points
-/

namespace Validate

variable {kind : ArgumentKind} {basename : Option String} {word : String} {argument : Argument}

/-- Only a directory with a basename to take over is completed. -/
theorem completeLocation_cases (kind : ArgumentKind) (basename : Option String)
    (location : Location) :
    completeLocation kind basename location = location ∨
    ∃ base, kind = .storageObjectOrDir ∧ basename = some base ∧ location.isDirectory = true ∧
      completeLocation kind basename location = location.withKey (location.key ++ base) := by
  cases basename with
  | none => cases kind <;> exact Or.inl rfl
  | some base =>
      cases hdirectory : location.isDirectory with
      | false => cases kind <;> simp [completeLocation, hdirectory]
      | true => cases kind <;> simp [completeLocation, hdirectory]

theorem isDirectory_withKey_append {location : Location} {base : String} (h : Literal base) :
    (location.withKey (location.key ++ base)).isDirectory = false := by
  have hne : base.toList ≠ [] := fun hnil =>
    h.ne_empty (String.toList_inj.mp (hnil.trans String.toList_empty.symm))
  show ((location.key ++ base).isEmpty || (location.key ++ base).toList.getLast? == some '/') = false
  rw [String.toList_append, List.getLast?_append_of_ne_nil _ hne, Bool.or_eq_false_iff,
    beq_eq_false_iff_ne]
  constructor
  · rw [String.isEmpty_eq_false_iff, Ne, ← String.toList_inj, String.toList_append,
      String.toList_empty]
    exact List.append_ne_nil_of_right_ne_nil _ hne
  · exact fun hslash => h.slashFree (List.mem_of_getLast? hslash)

theorem isWildcard_withKey_append {location : Location} {base : String}
    (hlocation : location.isWildcard = false) (h : Literal base) :
    (location.withKey (location.key ++ base)).isWildcard = false := by
  have hbase := h.plain
  rw [Location.isWildcard, hasWildcard] at hlocation
  rw [hasWildcard] at hbase
  show hasWildcard (location.key ++ base) = false
  rw [hasWildcard, String.toList_append, List.any_append, hlocation, hbase]
  rfl

theorem storageFault_completeLocation {location : Location}
    (hbase : ∀ base ∈ basename, Literal base) (h : storageFault kind location = none) :
    storageFault kind (completeLocation kind basename location) = none := by
  rcases completeLocation_cases kind basename location with hsame | ⟨base, rfl, hbasename, -, hcompleted⟩
  · rw [hsame]
    exact h
  · have hplain := isWildcard_of_storageFault (Or.inr (Or.inr rfl)) h
    rw [hcompleted, storageFault]
    simp only [isWildcard_withKey_append hplain (hbase base hbasename), Bool.false_eq_true, if_false]

theorem completeLocation_idem {location : Location} (hbase : ∀ base ∈ basename, Literal base) :
    completeLocation kind basename (completeLocation kind basename location) =
      completeLocation kind basename location := by
  rcases completeLocation_cases kind basename location with hsame | ⟨base, rfl, hbasename, -, hcompleted⟩
  · rw [hsame, hsame]
  · rw [hcompleted, hbasename, completeLocation]
    simp only [isDirectory_withKey_append (hbase base hbasename), Bool.false_eq_true, if_false]

theorem written_completeLocation {location : Location} (h : location.Written)
    (hbase : ∀ base ∈ basename, Literal base) :
    (completeLocation kind basename location).Written := by
  rcases completeLocation_cases kind basename location with hsame | ⟨base, -, hbasename, -, hcompleted⟩
  · rw [hsame]
    exact h
  · rw [hcompleted]
    exact h.withKey_append (hbase base hbasename).slashFree

/-- A checked storage argument is checked with the same outcome. -/
theorem storage_text (hbase : ∀ base ∈ basename, Literal base)
    (h : storage kind basename word = .ok argument) :
    storage kind basename argument.text = .ok argument := by
  rw [storage_eq_ok_iff] at h
  rcases h with ⟨location, hparse, hfault, rfl⟩
  have hwritten : (completeLocation kind basename location).Written :=
    written_completeLocation (Location.written_of_parse hparse) hbase
  rw [storage_eq_ok_iff]
  refine ⟨completeLocation kind basename location, hwritten.parse_text,
    storageFault_completeLocation hbase hfault, ?_⟩
  rw [completeLocation_idem hbase]

/-!
### Local words
-/

theorem mem_slash_of_endsInSlash {path : String} (h : Path.endsInSlash path = true) :
    '/' ∈ path.toList := by
  rw [Path.endsInSlash, beq_iff_eq] at h
  exact List.mem_of_getLast? h

theorem pathOfWord_of_mem_slash {path : String} (h : '/' ∈ path.toList) :
    pathOfWord kind path = path := by
  rw [pathOfWord, if_neg, if_neg]
  · rintro rfl
    exact absurd h (by decide)
  · rw [Bool.and_eq_true, String.isEmpty_iff]
    rintro ⟨rfl, -⟩
    exact absurd h (by decide)

theorem pathOfWord_pathOfWord (kind : ArgumentKind) (word : String) :
    pathOfWord kind (pathOfWord kind word) = pathOfWord kind word := by
  by_cases hempty : (word.isEmpty && kind.isOptional) = true
  · have hpath : pathOfWord kind word = "./" := if_pos hempty
    rw [hpath]
    exact pathOfWord_of_mem_slash (by decide)
  · by_cases hhere : word = "."
    · have hpath : pathOfWord kind word = "./" := by rw [pathOfWord, if_neg hempty, if_pos hhere]
      rw [hpath]
      exact pathOfWord_of_mem_slash (by decide)
    · have hpath : pathOfWord kind word = word := by rw [pathOfWord, if_neg hempty, if_neg hhere]
      rw [hpath, hpath]

theorem isLocation_pathOfWord (h : isLocation word = false) :
    isLocation (pathOfWord kind word) = false := by
  rw [pathOfWord]
  split
  · decide
  · split
    · decide
    · exact h

/-- Whether a location can be read is decided by its bucket. -/
theorem isOk_ofRest (rest : List Char) :
    (match Location.ofRest rest with | .ok _ => true | .error _ => false) =
      (!(rest.takeWhile (· ≠ '/')).isEmpty && !(rest.takeWhile (· ≠ '/')).any isWildcardChar) := by
  simp only [Location.ofRest]
  cases (rest.takeWhile (· ≠ '/')).isEmpty with
  | true => rfl
  | false => cases (rest.takeWhile (· ≠ '/')).any isWildcardChar <;> rfl

/-- A slash does not make a path a location. -/
theorem isLocation_append_slash {path : String} (h : isLocation path = false) :
    isLocation (path ++ "/") = false := by
  have hbucket : ∀ rest : List Char, (rest ++ ['/']).takeWhile (· ≠ '/') =
      rest.takeWhile (· ≠ '/') := by
    intro rest
    induction rest with
    | nil => rfl
    | cons c rest ih =>
        rw [List.cons_append, List.takeWhile_cons, List.takeWhile_cons, ih]
  rw [isLocation, Location.parse]
  cases hstart : List.isPrefixOf? Location.scheme.toList (path ++ "/").toList with
  | none => rfl
  | some rest =>
      rw [List.isPrefixOf?_eq_some_iff_append_eq, String.toList_append] at hstart
      rcases List.eq_nil_or_concat rest with rfl | ⟨front, last, rfl⟩
      · rfl
      · rw [List.concat_eq_append, ← List.append_assoc] at hstart
        rcases List.append_inj' hstart rfl with ⟨hpath, hlast⟩
        have hslash : last = '/' := List.singleton_inj.mp hlast
        rw [isLocation, Location.parse_of_toList front hpath.symm] at h
        rw [hslash, List.concat_eq_append]
        refine (isOk_ofRest _).trans ?_
        rw [hbucket]
        exact (isOk_ofRest front).symm.trans h

theorem hasGlobChar_append_slash (path : String) :
    hasGlobChar (path ++ "/") = hasGlobChar path := by
  rw [hasGlobChar, String.toList_append, List.any_append]
  exact Bool.or_false _

theorem fileObject_eq_ok_iff {tree : FileTree} {path text : String} :
    fileObject tree path = .ok text ↔
      Path.endsInSlash path = false ∧ tree.isDirectory path = false ∧ text = path := by
  rw [fileObject]
  cases Path.endsInSlash path with
  | true => simp
  | false => cases tree.isDirectory path <;> simp [eq_comm]

/-- A checked directory is the path with a slash at its end. -/
theorem directory_cases {tree : FileTree} {path text : String}
    (h : directory tree path = .ok text) :
    (text = path ∨ text = path ++ "/") ∧ Path.endsInSlash text = true := by
  refine ⟨?_, endsInSlash_of_directory h⟩
  rw [directory] at h
  split at h
  · cases h
    exact Or.inl rfl
  · split at h
    · cases h
    · split at h
      · cases h
        exact Or.inr rfl
      · cases h
    · cases h
      exact Or.inr rfl

/-- A checked file or directory is the path, with a slash or with a basename behind a slash. -/
theorem fileOrDir_cases {tree : FileTree} {path text : String}
    (h : fileOrDir tree basename path = .ok text) :
    text = path ∨ text = path ++ "/" ∨
      ∃ base, basename = some base ∧ Path.endsInSlash path = true ∧ text = path ++ base := by
  rw [fileOrDir] at h
  split at h
  · rename_i hslash
    cases h
    cases basename with
    | none => exact Or.inl String.append_empty
    | some base => exact Or.inr (Or.inr ⟨base, rfl, hslash, rfl⟩)
  · split at h
    · cases h
    · split at h
      · cases h
        exact Or.inr (Or.inl rfl)
      · cases h
        exact Or.inl rfl
    · cases h
      exact Or.inl rfl

/-- The text of a checked file or directory goes beyond the path only behind a slash. -/
theorem mem_slash_of_fileOrDir {tree : FileTree} {path text : String}
    (h : fileOrDir tree basename path = .ok text) : text = path ∨ '/' ∈ text.toList := by
  rcases fileOrDir_cases h with hsame | rfl | ⟨base, -, hslash, rfl⟩
  · exact Or.inl hsame
  · exact Or.inr (mem_slash_of_endsInSlash (endsInSlash_append_slash path))
  · rw [String.toList_append]
    exact Or.inr (List.mem_append_left _ (mem_slash_of_endsInSlash hslash))

theorem append_ne_self {path behind : String} (h : behind ≠ "") : path ++ behind ≠ path := by
  intro hsame
  rw [← String.toList_inj, String.toList_append, List.append_right_eq_self] at hsame
  exact h (String.toList_inj.mp (hsame.trans String.toList_empty.symm))

/-- A path is a file or directory by itself if it ends in a slash that no name follows, or
leads to no directory. -/
theorem fileOrDir_eq_self_iff {tree : FileTree} {path : String}
    (hbase : ∀ base ∈ basename, base ≠ "") :
    fileOrDir tree basename path = .ok path ↔
      (Path.endsInSlash path = true → basename = none) ∧
      (Path.endsInSlash path = false → tree.isDirectory path = false ∧
        ∀ error, tree.stat path = .error error → error.isNotFound = true) := by
  rw [fileOrDir, entry, FileTree.isDirectory]
  cases Path.endsInSlash path with
  | true =>
      cases basename with
      | none => simp
      | some base =>
          have hne : path ++ base ≠ path := append_ne_self (hbase base rfl)
          simpa using hne
  | false =>
      cases tree.stat path with
      | error error => cases hmissing : error.isNotFound <;> simp [hmissing]
      | ok found =>
          rcases found with ⟨place, node⟩
          cases hnode : node.isDirectory with
          | false => simp [hnode]
          | true => simp [hnode]

end Validate

/-- A destination that stays what it is: it is no location and no pattern, it leads to no
directory, and no basename is put behind it. -/
structure Settled (tree : FileTree) (basename : Option String) (path : String) : Prop where
  noLocation : Validate.isLocation path = false
  noPattern : hasGlobChar path = false
  unnamed : Path.endsInSlash path = true → basename = none
  noDirectory : Path.endsInSlash path = false → tree.isDirectory path = false
  readable : Path.endsInSlash path = false →
    ∀ error, tree.stat path = .error error → error.isNotFound = true

section Validation

variable {tree : FileTree} {kind : ArgumentKind} {reference : Option Argument} {word : String}
  {argument : Argument}

/-- The kinds whose words may be read differently when they are read again. -/
def ArgumentKind.isFileOrDir (kind : ArgumentKind) : Bool :=
  kind = .localFileOrDir || kind = .optionalLocalFileOrDir

theorem validate_of_isFileOrDir (h : kind.isFileOrDir = true) :
    validate tree kind reference word =
      Validate.localWord tree kind (Validate.referenceBasename reference) word := by
  rw [ArgumentKind.isFileOrDir, Bool.or_eq_true, decide_eq_true_eq, decide_eq_true_eq] at h
  rcases h with rfl | rfl <;> rfl

theorem localPath_of_isFileOrDir (h : kind.isFileOrDir = true) {basename : Option String}
    {path : String} :
    Validate.localPath tree kind basename path = Validate.fileOrDir tree basename path := by
  rw [ArgumentKind.isFileOrDir, Bool.or_eq_true, decide_eq_true_eq, decide_eq_true_eq] at h
  rcases h with rfl | rfl <;> rfl

/-- The text of a checked file or directory is taken as a path as it is. -/
theorem pathOfWord_of_validate (hkind : kind.isFileOrDir = true)
    (h : validate tree kind reference word = .ok argument) :
    Validate.pathOfWord kind argument.text = argument.text ∧ argument = .plain argument.text := by
  rw [validate_of_isFileOrDir hkind, Validate.localWord_eq_ok_iff] at h
  rcases h with ⟨-, -, path, hpath, rfl⟩
  rw [localPath_of_isFileOrDir hkind] at hpath
  refine ⟨?_, rfl⟩
  rcases Validate.mem_slash_of_fileOrDir hpath with rfl | hslash
  · exact Validate.pathOfWord_pathOfWord kind word
  · exact Validate.pathOfWord_of_mem_slash hslash

/-- A checked file or directory is checked with the same outcome if and only if it is settled. -/
theorem validate_text_iff_settled (hkind : kind.isFileOrDir = true)
    (hreference : ∀ argument ∈ reference, argument.IsReference)
    (h : validate tree kind reference word = .ok argument) :
    validate tree kind reference argument.text = .ok argument ↔
      Settled tree (Validate.referenceBasename reference) argument.text := by
  rcases pathOfWord_of_validate hkind h with ⟨hpath, hplain⟩
  have hbase : ∀ base ∈ Validate.referenceBasename reference, base ≠ "" :=
    fun base hmem => (literal_of_referenceBasename hreference hmem).ne_empty
  rw [validate_of_isFileOrDir hkind, Validate.localWord_eq_ok_iff, hpath,
    localPath_of_isFileOrDir hkind]
  constructor
  · rintro ⟨hlocation, hpattern, path, hfile, hsame⟩
    have htext : argument.text = path := congrArg Argument.text hsame
    rw [← htext, Validate.fileOrDir_eq_self_iff hbase] at hfile
    exact ⟨hlocation, hpattern, hfile.1, fun hend => (hfile.2 hend).1,
      fun hend => (hfile.2 hend).2⟩
  · intro hsettled
    refine ⟨hsettled.noLocation, hsettled.noPattern, argument.text, ?_, hplain⟩
    rw [Validate.fileOrDir_eq_self_iff hbase]
    exact ⟨hsettled.unnamed, fun hend => ⟨hsettled.noDirectory hend, hsettled.readable hend⟩⟩

/-- A checked argument of any other kind is checked with the same outcome. -/
theorem validate_text (hkind : kind.isFileOrDir = false)
    (hreference : ∀ argument ∈ reference, argument.IsReference)
    (h : validate tree kind reference word = .ok argument) :
    validate tree kind reference argument.text = .ok argument := by
  have hstorage : kind.isStorage = true →
      validate tree kind reference argument.text = .ok argument := by
    intro hstorage
    rw [validate_of_isStorage hstorage] at h ⊢
    refine Validate.storage_text (fun base hbase => ?_) h
    rw [ArgumentKind.basename] at hbase
    split at hbase
    · exact literal_of_referenceBasename hreference hbase
    · cases hbase
  have hdirectory : kind = .localDir ∨ kind = .optionalLocalDir →
      validate tree kind reference argument.text = .ok argument := by
    intro hlocal
    have hislocal : kind.isLocal = true := by rcases hlocal with rfl | rfl <;> rfl
    have hlocalPath : ∀ path, Validate.localPath tree kind (kind.basename reference) path =
        Validate.directory tree path := by rcases hlocal with rfl | rfl <;> exact fun _ => rfl
    rw [validate_of_isLocal hislocal, Validate.localWord_eq_ok_iff, hlocalPath] at h
    rcases h with ⟨hlocation, hpattern, path, hpath, rfl⟩
    rcases Validate.directory_cases hpath with ⟨hpath, hslash⟩
    have htext : Validate.isLocation path = false ∧ hasGlobChar path = false := by
      rcases hpath with rfl | rfl
      · exact ⟨Validate.isLocation_pathOfWord hlocation, hpattern⟩
      · refine ⟨Validate.isLocation_append_slash (Validate.isLocation_pathOfWord hlocation), ?_⟩
        rw [Validate.hasGlobChar_append_slash, hpattern]
    have hsame : Validate.pathOfWord kind path = path :=
      Validate.pathOfWord_of_mem_slash (Validate.mem_slash_of_endsInSlash hslash)
    rw [validate_of_isLocal hislocal, Validate.localWord_eq_ok_iff, hlocalPath]
    refine ⟨htext.1, ?_, path, ?_, rfl⟩
    · exact (congrArg _ hsame).trans htext.2
    · show Validate.directory tree (Validate.pathOfWord kind path) = .ok path
      rw [hsame, Validate.directory, if_pos hslash]
  cases kind with
  | unchecked | uncheckedOneOrMore =>
      cases h
      rfl
  | storageObject | storageSimpleObject | storageObjectOrDir | storageWildcardObject
  | storageDir => exact hstorage rfl
  | localFileObject =>
      rw [validate_of_isLocal rfl, Validate.localWord_eq_ok_iff] at h ⊢
      rcases h with ⟨hlocation, hpattern, path, hpath, rfl⟩
      rcases Validate.fileObject_eq_ok_iff.mp hpath with ⟨hslash, hdirectory, rfl⟩
      have hsame := Validate.pathOfWord_pathOfWord .localFileObject word
      refine ⟨Validate.isLocation_pathOfWord hlocation, ?_, _, ?_, rfl⟩
      · exact (congrArg _ hsame).trans hpattern
      · exact (congrArg _ hsame).trans hpath
  | localDir => exact hdirectory (Or.inl rfl)
  | optionalLocalDir => exact hdirectory (Or.inr rfl)
  | glob =>
      rcases Validate.glob_eq_ok_iff.mp h with ⟨-, -, -, rfl⟩
      exact h
  | localFileOrDir | optionalLocalFileOrDir => cases hkind

end Validation

end BulkTransfer
