import BulkTransfer.Proofs.Command.Rereading

/-!
# The characters of canonical texts

A word of a line holds no space and no operator and is no comment, and neither does or is
the canonical text of an argument that was made of such words.
-/

namespace BulkTransfer

open Text Chain

/-!
## Fragments of words
-/

/-- A text that can be part of a word. -/
structure Fragment (s : List Char) : Prop where
  spaceFree : ' ' ∉ s
  andFree : ¬ andWord <:+: s
  orFree : ¬ orWord <:+: s

/-- A text that can be a word of a line. -/
structure IsWord (s : List Char) : Prop extends Fragment s where
  ne_nil : s ≠ []
  uncommented : s.head? ≠ some '#'

namespace Fragment

variable {s t : List Char}

theorem of_isInfix (h : Fragment s) (hts : t <:+: s) : Fragment t where
  spaceFree := fun hmem => h.spaceFree (hts.subset hmem)
  andFree := fun hinner => h.andFree (hinner.trans hts)
  orFree := fun hinner => h.orFree (hinner.trans hts)

theorem append (hs : Fragment s) (ht : Fragment t)
    (h : s.getLast? = some '/' ∨ t.head? = some '/') : Fragment (s ++ t) where
  spaceFree := by
    rw [List.mem_append, not_or]
    exact ⟨hs.spaceFree, ht.spaceFree⟩
  andFree := by
    rw [andWord, pair_infix_append]
    rintro (hinner | hinner | ⟨hlast, hhead⟩)
    · exact hs.andFree hinner
    · exact ht.andFree hinner
    · rcases h with h | h
      · rw [h] at hlast
        cases hlast
      · rw [h] at hhead
        cases hhead
  orFree := by
    rw [orWord, pair_infix_append]
    rintro (hinner | hinner | ⟨hlast, hhead⟩)
    · exact hs.orFree hinner
    · exact ht.orFree hinner
    · rcases h with h | h
      · rw [h] at hlast
        cases hlast
      · rw [h] at hhead
        cases hhead

theorem slash : Fragment ['/'] := ⟨by decide, by decide, by decide⟩

theorem scheme : Fragment Location.scheme.toList := ⟨by decide, by decide, by decide⟩

end Fragment

namespace Location

/-- The bucket and the key are parts of the text that a location was read from. -/
theorem isInfix_of_parse {word : String} {location : Location}
    (h : parse word = .ok location) :
    location.bucket.toList <:+: word.toList ∧ location.key.toList <:+: word.toList := by
  rw [parse] at h
  split at h
  · cases h
  · rename_i rest hstart
    have hword := (List.isPrefixOf?_eq_some_iff_append_eq.mp hstart)
    have hrest : rest <:+: word.toList := by
      rw [← hword]
      exact (List.suffix_append _ _).isInfix
    simp only [ofRest] at h
    split at h
    · cases h
    · split at h
      · cases h
      · cases h
        rw [String.toList_ofList, String.toList_ofList]
        constructor
        · exact (List.takeWhile_prefix _).isInfix.trans hrest
        · exact ((List.dropWhile_suffix _).isInfix.trans (List.dropWhile_suffix _).isInfix).trans
            hrest

/-- The text of a location is put together from its bucket and key. -/
theorem fragment_text {location : Location} (hbucket : Fragment location.bucket.toList)
    (hkey : Fragment location.key.toList) : Fragment location.text.toList := by
  have hslash : Location.scheme.toList.getLast? = some '/' := by decide
  rw [text, shortText, String.toList_append]
  split
  · exact Fragment.scheme.append hbucket (Or.inl hslash)
  · rw [String.toList_append, String.toList_append]
    refine Fragment.scheme.append ?_ (Or.inl hslash)
    have hfront := hbucket.append Fragment.slash (Or.inr rfl)
    refine hfront.append hkey (Or.inl ?_)
    rw [List.getLast?_append]
    rfl

theorem key_isInfix_text (location : Location) : location.key.toList <:+: location.text.toList := by
  rw [text, shortText, String.toList_append]
  split
  · rename_i hempty
    rw [String.isEmpty_iff.mp hempty, String.toList_empty]
    exact List.nil_infix
  · rw [String.toList_append]
    exact ((List.suffix_append _ _).trans (List.suffix_append _ _)).isInfix

end Location

/-!
## Texts of arguments
-/

section Validation

variable {tree : FileTree} {kind : ArgumentKind} {reference : Option Argument} {word : String}
  {argument : Argument}

theorem fragment_of_referenceBasename
    (hreference : ∀ argument ∈ reference, argument.IsReference ∧ Fragment argument.text.toList)
    {base : String} (hbase : Validate.referenceBasename reference = some base) :
    Fragment base.toList := by
  cases reference with
  | none => cases hbase
  | some argument =>
      rcases hreference argument rfl with ⟨hargument, htext⟩
      cases hargument with
      | @object location _ =>
          rw [referenceBasename_storage] at hbase
          split at hbase
          · cases hbase
          · cases hbase
            rw [Location.basename, String.toList_ofList]
            have hbehind : afterLast '/' location.key.toList <:+ location.key.toList :=
              ⟨_, throughLast_append_afterLast '/' location.key.toList⟩
            exact htext.of_isInfix (hbehind.isInfix.trans location.key_isInfix_text)
      | @file path _ =>
          rw [referenceBasename_plain] at hbase
          split at hbase
          · cases hbase
          · rename_i hne
            cases hname : Path.fileName path with
            | none =>
                rw [hname] at hne
                exact absurd rfl hne
            | some name =>
                rw [hname] at hbase
                cases hbase
                have hpiece := (Path.mem_pieces_of_fileName hname).1
                rw [Path.pieces, List.mem_map] at hpiece
                rcases hpiece with ⟨letters, hletters, rfl⟩
                rw [Option.getD_some, String.toList_ofList]
                exact htext.of_isInfix (isInfix_of_mem_splitOn hletters)

/-- A path stays free when it is completed behind a slash. -/
theorem isWord_append {path behind : String} (hpath : IsWord path.toList)
    (hbehind : Fragment behind.toList)
    (hslash : path.toList.getLast? = some '/' ∨ behind.toList.head? = some '/') :
    IsWord (path ++ behind).toList := by
  rw [String.toList_append]
  refine ⟨hpath.toFragment.append hbehind hslash, List.append_ne_nil_of_left_ne_nil hpath.ne_nil _,
    ?_⟩
  rw [List.head?_append_of_ne_nil _ hpath.ne_nil]
  exact hpath.uncommented

theorem isWord_pathOfWord (hword : word ≠ "" ∨ kind.isOptional = true)
    (hletters : word ≠ "" → IsWord word.toList) :
    IsWord (Validate.pathOfWord kind word).toList := by
  have hhere : IsWord "./".toList := ⟨⟨by decide, by decide, by decide⟩, by decide, by decide⟩
  by_cases hempty : word = ""
  · have hoptional := hword.resolve_left (not_not_intro hempty)
    rw [Validate.pathOfWord, hempty, hoptional]
    exact hhere
  · rw [Validate.pathOfWord, if_neg]
    · split
      · exact hhere
      · exact hletters hempty
    · rw [Bool.and_eq_true, String.isEmpty_iff]
      exact fun h => hempty h.1

theorem isWord_location {location : Location} (hbucket : Fragment location.bucket.toList)
    (hkey : Fragment location.key.toList) : IsWord location.text.toList := by
  refine ⟨Location.fragment_text hbucket hkey, ?_, ?_⟩
  · rw [Location.text, String.toList_append]
    exact List.append_ne_nil_of_left_ne_nil (by decide) _
  · rw [Location.text, String.toList_append, List.head?_append_of_ne_nil _ (by decide)]
    decide

theorem fragment_of_basename
    (hreference : ∀ argument ∈ reference, argument.IsReference ∧ Fragment argument.text.toList)
    {base : String} (hbase : base ∈ kind.basename reference) : Fragment base.toList := by
  rw [ArgumentKind.basename] at hbase
  split at hbase
  · exact fragment_of_referenceBasename hreference hbase
  · cases hbase

theorem isWord_of_storage (hletters : word ≠ "" → IsWord word.toList)
    (hreference : ∀ argument ∈ reference, argument.IsReference ∧ Fragment argument.text.toList)
    (h : Validate.storage kind (kind.basename reference) word = .ok argument) :
    IsWord argument.text.toList := by
  rcases Validate.storage_eq_ok_iff.mp h with ⟨location, hparse, -, rfl⟩
  have hne : word ≠ "" := by
    rintro rfl
    cases hparse
  rcases Location.isInfix_of_parse hparse with ⟨hbucket, hkey⟩
  have hbucket := (hletters hne).toFragment.of_isInfix hbucket
  have hkey := (hletters hne).toFragment.of_isInfix hkey
  rcases Validate.completeLocation_cases kind (kind.basename reference) location with
    hsame | ⟨base, -, hbase, hdirectory, hcompleted⟩
  · rw [hsame]
    exact isWord_location hbucket hkey
  · have hbase := fragment_of_basename hreference hbase
    rw [hcompleted]
    refine isWord_location hbucket ?_
    show Fragment (location.key ++ base).toList
    rw [String.toList_append]
    rw [Location.isDirectory, Bool.or_eq_true, String.isEmpty_iff, beq_iff_eq] at hdirectory
    rcases hdirectory with hempty | hslash
    · rw [hempty, String.toList_empty, List.nil_append]
      exact hbase
    · exact hkey.append hbase (Or.inl hslash)

/-- The canonical text of a word of a line is such a word. -/
theorem isWord_of_validate (hword : word ≠ "" ∨ kind.isOptional = true)
    (hletters : word ≠ "" → IsWord word.toList)
    (hreference : ∀ argument ∈ reference, argument.IsReference ∧ Fragment argument.text.toList)
    (h : validate tree kind reference word = .ok argument) : IsWord argument.text.toList := by
  have hstorage : kind.isStorage = true → IsWord argument.text.toList := fun hstorage =>
    isWord_of_storage hletters hreference ((validate_of_isStorage hstorage).symm.trans h)
  have hpath := isWord_pathOfWord hword hletters
  have hlocal : kind.isLocal = true →
      (∀ text, Validate.localPath tree kind (kind.basename reference)
        (Validate.pathOfWord kind word) = .ok text → IsWord text.toList) →
      IsWord argument.text.toList := by
    intro hlocal htext
    rw [validate_of_isLocal hlocal, Validate.localWord_eq_ok_iff] at h
    rcases h with ⟨-, -, path, hok, rfl⟩
    exact htext path hok
  have hslash : IsWord (Validate.pathOfWord kind word ++ "/").toList :=
    isWord_append hpath Fragment.slash (Or.inr rfl)
  cases kind with
  | unchecked | uncheckedOneOrMore =>
      cases h
      exact hletters (hword.resolve_right Bool.false_ne_true)
  | storageObject | storageSimpleObject | storageObjectOrDir | storageWildcardObject
  | storageDir => exact hstorage rfl
  | localFileObject =>
      refine hlocal rfl fun text hok => ?_
      rcases Validate.fileObject_eq_ok_iff.mp hok with ⟨-, -, rfl⟩
      exact hpath
  | localFileOrDir | optionalLocalFileOrDir =>
      refine hlocal rfl fun text hok => ?_
      rcases Validate.fileOrDir_cases hok with rfl | rfl | ⟨base, hbase, hend, rfl⟩
      · exact hpath
      · exact hslash
      · rw [Path.endsInSlash, beq_iff_eq] at hend
        exact isWord_append hpath (fragment_of_basename hreference hbase) (Or.inl hend)
  | localDir | optionalLocalDir =>
      refine hlocal rfl fun text hok => ?_
      rcases (Validate.directory_cases hok).1 with rfl | rfl
      · exact hpath
      · exact hslash
  | glob =>
      rcases Validate.glob_eq_ok_iff.mp h with ⟨-, -, -, rfl⟩
      exact hletters (hword.resolve_right Bool.false_ne_true)

end Validation

/-!
## Texts of commands
-/

namespace CommandSpec

variable {tree : FileTree}

/-- The words of a command: none is missing but an optional one. -/
def Complete (kinds : List ArgumentKind) (words : List String) : Prop :=
  (∀ word ∈ words, IsWord word.toList) ∧
    (words.length < kinds.length → words.length + 1 = kinds.length ∧
      ∃ kind ∈ kinds.getLast?, kind.isOptional = true)

theorem Complete.tail {kind : ArgumentKind} {kinds : List ArgumentKind} {words : List String}
    (h : Complete (kind :: kinds) words) : Complete kinds words.tail := by
  constructor
  · exact fun word hword => h.1 word (List.mem_of_mem_tail hword)
  · intro hless
    cases words with
    | nil =>
        have hlength := (h.2 (Nat.succ_pos _)).1
        cases kinds with
        | nil => cases hless
        | cons next kinds => cases hlength
    | cons word words =>
        rcases h.2 (Nat.succ_lt_succ hless) with ⟨hlength, last, hlast, hoptional⟩
        have hkinds : kinds ≠ [] := by
          rintro rfl
          cases hless
        rw [List.getLast?_cons_of_ne_nil hkinds] at hlast
        exact ⟨Nat.succ.inj hlength, last, hlast, hoptional⟩

theorem Complete.head {kind : ArgumentKind} {kinds : List ArgumentKind} {words : List String}
    (h : Complete (kind :: kinds) words) :
    (words.headD "" ≠ "" ∨ kind.isOptional = true) ∧
      (words.headD "" ≠ "" → IsWord (words.headD "").toList) := by
  cases words with
  | nil =>
      rcases h.2 (Nat.succ_pos _) with ⟨hlength, last, hlast, hoptional⟩
      have hkinds : kinds = [] := List.length_eq_zero_iff.mp (Nat.succ.inj hlength.symm)
      rw [hkinds] at hlast
      cases hlast
      exact ⟨Or.inr hoptional, fun hne => absurd rfl hne⟩
  | cons word words =>
      have hword := h.1 word List.mem_cons_self
      refine ⟨Or.inl fun hempty => hword.ne_nil ?_, fun _ => hword⟩
      rw [show word = "" from hempty]
      rfl

theorem Checks.isWord {kinds : List ArgumentKind} {reference last : Option Argument}
    {words : List String} {arguments : List Argument}
    (h : Checks tree kinds reference words arguments last) (hwords : Complete kinds words)
    (hreference : ∀ argument ∈ reference, argument.IsReference ∧ Fragment argument.text.toList) :
    (∀ argument ∈ arguments, IsWord argument.text.toList) ∧
      ∀ argument ∈ last, argument.IsReference ∧ Fragment argument.text.toList := by
  induction h with
  | nil => exact ⟨fun _ hmem => absurd hmem List.not_mem_nil, hreference⟩
  | @cons kind kinds reference last words argument arguments hword _ ih =>
      have htext := isWord_of_validate hwords.head.1 hwords.head.2 hreference hword
      have hnext : ∀ other ∈ nextReference kind reference argument,
          other.IsReference ∧ Fragment other.text.toList := by
        intro other hother
        refine ⟨isReference_nextReference (fun a ha => (hreference a ha).1) hword other hother, ?_⟩
        rw [nextReference] at hother
        split at hother
        · cases hother
          exact htext.toFragment
        · exact (hreference other hother).2
      rcases ih hwords.tail hnext with ⟨harguments, hlast⟩
      exact ⟨List.forall_mem_cons.mpr ⟨htext, harguments⟩, hlast⟩

/-- A signature leaves out no word but an optional one. -/
theorem complete_of_acceptsArity {spec : CommandSpec} {words : List String}
    (harity : spec.acceptsArity words.length = true)
    (hwords : ∀ word ∈ words, IsWord word.toList) : Complete spec.fixedKinds words := by
  refine ⟨hwords, fun hless => ?_⟩
  have hleast := (acceptsArity_iff.mp harity).1
  cases hvariadic : spec.isVariadic with
  | true =>
      rw [fixedKinds_of_variadic hvariadic] at hless
      exact absurd hleast (Nat.not_le.mpr hless)
  | false =>
      rw [fixedKinds_of_fixed hvariadic] at hless ⊢
      rw [minArguments] at hleast
      cases hlast : spec.kinds.getLast? with
      | none =>
          rw [List.getLast?_eq_none_iff.mp hlast] at hless
          cases hless
      | some kind =>
          have hmarker : (kind == .uncheckedOneOrMore) = false := by
            rw [isVariadic, hlast] at hvariadic
            exact hvariadic
          simp only [hlast, hmarker, Bool.false_or] at hleast
          cases hoptional : kind.isOptional with
          | true =>
              rw [if_pos hoptional] at hleast
              exact ⟨by omega, kind, rfl, hoptional⟩
          | false =>
              rw [hoptional, if_neg Bool.false_ne_true] at hleast
              exact absurd hleast (Nat.not_le.mpr hless)

/-- The texts of the arguments that a signature makes of the words of a line. -/
theorem Binds.isWord {spec : CommandSpec} {words : List String} {arguments : List Argument}
    (h : Binds tree spec words arguments) (harity : spec.acceptsArity words.length = true)
    (hwords : ∀ word ∈ words, IsWord word.toList) :
    ∀ argument ∈ arguments, IsWord argument.text.toList := by
  have hnone : ∀ argument ∈ (none : Option Argument),
      argument.IsReference ∧ Fragment argument.text.toList := fun _ h => nomatch h
  have hcomplete := complete_of_acceptsArity harity hwords
  cases h with
  | fixed _ hchecks => exact (hchecks.isWord hcomplete hnone).1
  | @variadic front rest last _ hchecks hrest =>
      rcases hchecks.isWord hcomplete hnone with ⟨hfront, hlast⟩
      refine List.forall_mem_append.mpr ⟨hfront, fun argument hargument => ?_⟩
      rcases List.forall₂_iff_get.mp hrest with ⟨hsame, hword⟩
      rcases List.mem_iff_get.mp hargument with ⟨⟨n, hn⟩, rfl⟩
      have hn' : n < (words.drop spec.fixedKinds.length).length := hsame ▸ hn
      have hmem := hwords _ (List.mem_of_mem_drop (List.get_mem _ ⟨n, hn'⟩))
      refine isWord_of_validate (Or.inl fun hempty => hmem.ne_nil ?_) (fun _ => hmem) hlast
        (hword n hn' hn)
      rw [hempty]
      rfl

end CommandSpec

end BulkTransfer
