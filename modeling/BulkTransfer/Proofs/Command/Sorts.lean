import BulkTransfer.Proofs.Command.Canonical

/-!
# Which signature takes canonical words

The kinds tell apart five sorts of words.  Canonical words of one standard signature are
refused by every earlier signature of its keyword, be it for the number of the words or for
the sort of one of them.
-/

namespace BulkTransfer

/-!
## Sorts of words
-/

/-- What a word looks like. -/
inductive WordSort
  | location
  | wildcard
  | pattern
  /-- a local path with a slash at its end -/
  | directory
  | path
deriving DecidableEq, Repr

def WordSort.of (word : String) : WordSort :=
  match Location.parse word with
  | .ok place => if place.isWildcard then wildcard else location
  | .error _ =>
      if hasGlobChar word then pattern
      else if Path.endsInSlash word then directory
      else path

namespace ArgumentKind

/-- The sorts of the words that a kind takes. -/
def sorts : ArgumentKind → List WordSort
  | unchecked | uncheckedOneOrMore => [.location, .wildcard, .pattern, .directory, .path]
  | storageObject | storageSimpleObject | storageObjectOrDir => [.location]
  | storageWildcardObject => [.wildcard]
  | storageDir => [.location, .wildcard]
  | localFileObject => [.path]
  | localFileOrDir | optionalLocalFileOrDir | localDir | optionalLocalDir => [.directory, .path]
  | glob => [.pattern]

/-- The sorts of the texts that a kind gives. -/
def canonicalSorts : ArgumentKind → List WordSort
  | localDir | optionalLocalDir => [.directory]
  | kind => kind.sorts

end ArgumentKind

section Validation

variable {tree : FileTree} {kind : ArgumentKind} {reference : Option Argument} {word : String}
  {argument : Argument}

theorem WordSort.of_location {location : Location} (h : Location.parse word = .ok location) :
    WordSort.of word = if location.isWildcard then .wildcard else .location := by
  rw [WordSort.of, h]

theorem WordSort.of_local (h : Validate.isLocation word = false) :
    WordSort.of word =
      if hasGlobChar word then .pattern
      else if Path.endsInSlash word then .directory
      else .path := by
  rw [WordSort.of]
  rw [Validate.isLocation] at h
  cases hparse : Location.parse word with
  | ok location =>
      rw [hparse] at h
      cases h
  | error error => rfl

theorem WordSort.of_mem_local (h : Validate.isLocation word = false)
    (hpattern : hasGlobChar word = false) :
    WordSort.of word ∈ [WordSort.directory, WordSort.path] := by
  rw [of_local h, hpattern]
  cases Path.endsInSlash word <;> decide

theorem Validate.hasGlobChar_of_pathOfWord (h : hasGlobChar (pathOfWord kind word) = false) :
    hasGlobChar word = false := by
  rw [pathOfWord] at h
  split at h
  · rename_i hempty
    rw [Bool.and_eq_true, String.isEmpty_iff] at hempty
    rw [hempty.1]
    rfl
  · split at h
    · rename_i hhere
      rw [hhere]
      decide
    · exact h

theorem Validate.endsInSlash_of_pathOfWord
    (h : Path.endsInSlash (pathOfWord kind word) = false) : pathOfWord kind word = word := by
  rw [pathOfWord] at h ⊢
  split at h
  · exact absurd h (by decide)
  · rw [if_neg ‹_›]
    split at h
    · exact absurd h (by decide)
    · rw [if_neg ‹_›]

/-- A kind takes words of its sorts only. -/
theorem sort_mem_sorts (h : validate tree kind reference word = .ok argument) :
    WordSort.of word ∈ kind.sorts := by
  have hstorage : kind.isStorage = true → ∃ location, Location.parse word = .ok location ∧
      Validate.storageFault kind location = none := by
    intro hstorage
    rw [validate_of_isStorage hstorage, Validate.storage_eq_ok_iff] at h
    rcases h with ⟨location, hparse, hfault, -⟩
    exact ⟨location, hparse, hfault⟩
  have hlocal : kind.isLocal = true →
      WordSort.of word ∈ [WordSort.directory, WordSort.path] := by
    intro hlocal
    rw [validate_of_isLocal hlocal, Validate.localWord_eq_ok_iff] at h
    exact WordSort.of_mem_local h.1 (Validate.hasGlobChar_of_pathOfWord h.2.1)
  cases kind with
  | unchecked | uncheckedOneOrMore =>
      generalize WordSort.of word = sort
      cases sort <;> decide
  | storageObject | storageSimpleObject | storageObjectOrDir =>
      rcases hstorage rfl with ⟨location, hparse, hfault⟩
      rw [WordSort.of_location hparse, Validate.isWildcard_of_storageFault (by simp) hfault]
      decide
  | storageWildcardObject =>
      rcases hstorage rfl with ⟨location, hparse, hfault⟩
      rw [WordSort.of_location hparse]
      cases hwildcard : location.isWildcard with
      | true => decide
      | false =>
          simp only [Validate.storageFault, hwildcard, Bool.false_eq_true, if_false,
            reduceCtorEq] at hfault
  | storageDir =>
      rcases hstorage rfl with ⟨location, hparse, -⟩
      rw [WordSort.of_location hparse]
      cases location.isWildcard <;> decide
  | localFileObject =>
      rw [validate_of_isLocal rfl, Validate.localWord_eq_ok_iff] at h
      rcases h with ⟨hlocation, hpattern, path, hpath, -⟩
      rcases Validate.fileObject_eq_ok_iff.mp hpath with ⟨hslash, -, -⟩
      have hsame := Validate.endsInSlash_of_pathOfWord hslash
      rw [hsame] at hslash
      rw [WordSort.of_local hlocation, Validate.hasGlobChar_of_pathOfWord hpattern, hslash]
      decide
  | localFileOrDir | optionalLocalFileOrDir | localDir | optionalLocalDir => exact hlocal rfl
  | glob =>
      rcases Validate.glob_eq_ok_iff.mp h with ⟨hlocation, hpattern, -⟩
      rw [WordSort.of_local hlocation, hpattern]
      exact List.mem_cons_self

/-- A kind gives texts of its canonical sorts only. -/
theorem sort_mem_canonicalSorts
    (h : validate tree kind reference argument.text = .ok argument) :
    WordSort.of argument.text ∈ kind.canonicalSorts := by
  have hdirectory : kind.isLocal = true →
      (∀ path, Validate.localPath tree kind (kind.basename reference) path =
        Validate.directory tree path) → WordSort.of argument.text ∈ [WordSort.directory] := by
    intro hlocal hdirectory
    rw [validate_of_isLocal hlocal, Validate.localWord_eq_ok_iff, hdirectory] at h
    rcases h with ⟨hlocation, hpattern, path, hpath, hsame⟩
    have htext : argument.text = path := congrArg Argument.text hsame
    rw [WordSort.of_local hlocation, Validate.hasGlobChar_of_pathOfWord hpattern, htext,
      Validate.endsInSlash_of_directory hpath]
    decide
  cases kind with
  | localDir | optionalLocalDir => exact hdirectory rfl fun _ => rfl
  | _ => exact sort_mem_sorts h

/-- A checked text is the word itself or has a slash. -/
theorem text_of_validate (h : validate tree kind reference word = .ok argument) :
    argument.text = word ∨ '/' ∈ argument.text.toList := by
  have hword : Validate.pathOfWord kind word = word ∨
      '/' ∈ (Validate.pathOfWord kind word).toList := by
    cases hslash : Path.endsInSlash (Validate.pathOfWord kind word) with
    | true => exact Or.inr (Validate.mem_slash_of_endsInSlash hslash)
    | false => exact Or.inl (Validate.endsInSlash_of_pathOfWord hslash)
  have hlocal : kind.isLocal = true →
      (∀ path text, Validate.localPath tree kind (kind.basename reference) path = .ok text →
        text = path ∨ '/' ∈ text.toList) → argument.text = word ∨ '/' ∈ argument.text.toList := by
    intro hlocal hpath
    rw [validate_of_isLocal hlocal, Validate.localWord_eq_ok_iff] at h
    rcases h with ⟨-, -, path, hok, rfl⟩
    rcases hpath _ _ hok with rfl | hslash
    · exact hword
    · exact Or.inr hslash
  cases kind with
  | unchecked | uncheckedOneOrMore =>
      cases h
      exact Or.inl rfl
  | storageObject | storageSimpleObject | storageObjectOrDir | storageWildcardObject
  | storageDir =>
      rcases location_of_validate rfl h with ⟨location, rfl⟩
      refine Or.inr ?_
      show '/' ∈ (Location.scheme ++ location.shortText).toList
      rw [String.toList_append]
      exact List.mem_append_left _ (by decide)
  | localFileObject =>
      exact hlocal rfl fun path text hok => Or.inl (Validate.fileObject_eq_ok_iff.mp hok).2.2
  | localFileOrDir | optionalLocalFileOrDir =>
      exact hlocal rfl fun path text hok => Validate.mem_slash_of_fileOrDir hok
  | localDir | optionalLocalDir =>
      exact hlocal rfl fun path text hok =>
        Or.inr (Validate.mem_slash_of_endsInSlash (Validate.endsInSlash_of_directory hok))
  | glob =>
      rcases Validate.glob_eq_ok_iff.mp h with ⟨-, -, -, rfl⟩
      exact Or.inl rfl

end Validation

/-!
## Flags
-/

namespace CommandSpec

/-- No accepted flag stands in front. -/
def FlagFree (accepted : List Flag) (words : List String) : Prop :=
  ∀ word ∈ words.head?, ∀ flag ∈ accepted, flag.spelling ≠ some word

theorem takeFlags_eq_self {accepted : List Flag} {words : List String}
    (h : FlagFree accepted words) (options : Options) :
    takeFlags accepted options words = (options, words) := by
  cases words with
  | nil => rfl
  | cons word words =>
      have hnone : accepted.find? (fun flag => flag.spelling == some word) = none := by
        rw [List.find?_eq_none]
        intro flag hflag hspelling
        exact h word rfl flag hflag (beq_iff_eq.mp hspelling)
      rw [takeFlags, hnone]

theorem flagFree_takeFlags {accepted : List Flag} {words rest : List String}
    {options options' : Options} (h : takeFlags accepted options words = (options', rest)) :
    FlagFree accepted rest := by
  induction words generalizing options with
  | nil =>
      cases h
      exact fun _ hword => nomatch hword
  | cons word words ih =>
      rw [takeFlags] at h
      split at h
      · exact ih h
      · rename_i hnone
        cases h
        intro word' hword flag hflag hspelling
        cases hword
        exact List.find?_eq_none.mp hnone flag hflag (beq_iff_eq.mpr hspelling)

theorem takeFlags_isSuffix {accepted : List Flag} {words rest : List String}
    {options options' : Options} (h : takeFlags accepted options words = (options', rest)) :
    rest <:+ words := by
  induction words generalizing options with
  | nil =>
      cases h
      exact List.suffix_rfl
  | cons word words ih =>
      rw [takeFlags] at h
      split at h
      · exact (ih h).trans (List.suffix_cons _ _)
      · cases h
        exact List.suffix_rfl

/-- Flags that were taken are missing from the words behind them. -/
theorem length_takeFlags {accepted : List Flag} {words rest : List String}
    {options options' : Options} (h : takeFlags accepted options words = (options', rest)) :
    rest = words ∨ rest.length < words.length ∧ ∃ word ∈ words.head?, ∃ flag ∈ accepted,
      flag.spelling = some word := by
  induction words generalizing options with
  | nil =>
      cases h
      exact Or.inl rfl
  | cons word words ih =>
      rw [takeFlags] at h
      split at h
      · rename_i flag hflag
        refine Or.inr ⟨?_, word, rfl, flag, List.mem_of_find?_eq_some hflag, ?_⟩
        · rcases ih h with rfl | ⟨hlength, -⟩
          · exact Nat.lt_succ_self _
          · exact Nat.lt_succ_of_lt hlength
        · have hspelling := List.find?_some hflag
          exact beq_iff_eq.mp hspelling
      · cases h
        exact Or.inl rfl

theorem sort_of_flag {flag : Flag} {word : String} (h : flag.spelling = some word) :
    WordSort.of word = .path ∧ '/' ∉ word.toList := by
  cases flag with
  | deleteSource => cases h
  | _ =>
      cases h
      decide

/-!
## Passing over
-/

/-- Whether a kind refuses what another kind gives. -/
def parts (given wanted : ArgumentKind) : Bool :=
  given.canonicalSorts.all fun sort => !wanted.sorts.contains sort

/-- Whether a signature finds no flags among the canonical words of another one. -/
def leavesWords (spec other : CommandSpec) : Bool :=
  spec.operation.acceptedFlags.isEmpty ||
    !other.isVariadic &&
      ((List.range other.fixedKinds.length).all (fun n => !spec.acceptsArity n) ||
        other.fixedKinds.head?.any fun kind => !kind.canonicalSorts.contains .path)

/-- Whether a signature refuses the canonical words of another one. -/
def passesOver (spec other : CommandSpec) : Bool :=
  !other.isVariadic &&
    (!spec.acceptsArity other.fixedKinds.length ||
      (List.zipWith parts other.fixedKinds spec.fixedKinds).any id)

section Words

variable {tree : FileTree} {spec other : CommandSpec} {texts : List String}

theorem eq_of_leavesWords (h : spec.leavesWords other = true)
    (hlength : other.isVariadic = false → texts.length = other.fixedKinds.length)
    (hhead : ∀ kind ∈ other.fixedKinds.head?, ∀ text ∈ texts.head?,
      WordSort.of text ∈ kind.canonicalSorts)
    {options options' : Options} {rest : List String}
    (hflags : takeFlags spec.operation.acceptedFlags options texts = (options', rest))
    (harity : spec.acceptsArity rest.length = true) : rest = texts := by
  rcases length_takeFlags hflags with hsame | ⟨hless, text, htext, flag, hflag, hspelling⟩
  · exact hsame
  · exfalso
    rw [leavesWords, Bool.or_eq_true, Bool.and_eq_true, Bool.or_eq_true, Bool.not_eq_true',
      List.isEmpty_iff] at h
    rcases h with hnone | ⟨hfixed, harities | hsort⟩
    · rw [hnone] at hflag
      cases hflag
    · rw [hlength hfixed] at hless
      have hrefused := List.all_eq_true.mp harities rest.length (List.mem_range.mpr hless)
      rw [harity] at hrefused
      cases hrefused
    · cases hkind : other.fixedKinds.head? with
      | none =>
          rw [hkind] at hsort
          cases hsort
      | some kind =>
          have hmem := hhead kind hkind text htext
          rw [(sort_of_flag hspelling).1] at hmem
          rw [hkind, Option.any_some, List.contains_iff_mem.mpr hmem] at hsort
          cases hsort

/-- Words that are checked against kinds are of no sort that these kinds refuse. -/
theorem Checks.not_parts {kinds given : List ArgumentKind} {reference last : Option Argument}
    {arguments : List Argument} (h : Checks tree kinds reference texts arguments last)
    (hgiven : List.Forall₂ (fun kind text => WordSort.of text ∈ ArgumentKind.canonicalSorts kind)
      given texts) : (List.zipWith parts given kinds).any id = false := by
  induction h generalizing given with
  | nil => rw [List.zipWith_nil_right, List.any_nil]
  | @cons kind kinds reference last words argument arguments hword hrest ih =>
      cases hgiven with
      | nil => rfl
      | @cons kind' text given words hsort hgiven =>
          have hparts : parts kind' kind = false := by
            rw [parts, List.all_eq_false]
            refine ⟨WordSort.of text, hsort, ?_⟩
            have htaken : WordSort.of text ∈ kind.sorts := sort_mem_sorts hword
            rw [List.contains_iff_mem.mpr htaken]
            exact Bool.false_ne_true
          rw [List.zipWith_cons_cons, List.any_cons, ih hgiven, id, hparts]
          rfl

/-- A signature that passes over another one makes nothing of its canonical words. -/
theorem refuses_of_passesOver (hwords : spec.leavesWords other = true)
    (h : spec.passesOver other = true)
    (hgiven : List.Forall₂ (fun kind text => WordSort.of text ∈ ArgumentKind.canonicalSorts kind)
      other.fixedKinds texts) : spec.Refuses tree texts := by
  rintro ⟨options, arguments⟩ hread
  rcases read_eq_ok_iff.mp hread with ⟨rest, hflags, harity, hbinds⟩
  have hhead : ∀ kind ∈ other.fixedKinds.head?, ∀ text ∈ texts.head?,
      WordSort.of text ∈ kind.canonicalSorts := by
    intro kind hkind text htext
    generalize other.fixedKinds = kinds at hgiven hkind
    cases hgiven with
    | nil => cases hkind
    | cons hsort _ =>
        cases hkind
        cases htext
        exact hsort
  have hlength := hgiven.length_eq
  have hrest := eq_of_leavesWords hwords (fun _ => hlength.symm) hhead hflags harity
  subst hrest
  have hchecks : ∃ front last, Checks tree spec.fixedKinds none rest front last := by
    cases hbinds with
    | fixed _ hchecks => exact ⟨_, _, hchecks⟩
    | variadic _ hchecks _ => exact ⟨_, _, hchecks⟩
  rcases hchecks with ⟨front, last, hchecks⟩
  rw [passesOver, Bool.and_eq_true, Bool.or_eq_true] at h
  rcases h.2 with hrefused | hparts
  · rw [hlength, harity] at hrefused
    cases hrefused
  · rw [hchecks.not_parts hgiven] at hparts
    cases hparts

end Words

theorem standard_passesOver : CommandTable.standard.specs.Pairwise fun spec other =>
    spec.keyword = other.keyword → spec.passesOver other = true := by
  decide +kernel

theorem standard_leavesWords : ∀ spec ∈ CommandTable.standard.specs,
    ∀ other ∈ CommandTable.standard.specs, spec.keyword = other.keyword →
      spec.leavesWords other = true := by
  decide +kernel

end CommandSpec

end BulkTransfer
