import BulkTransfer.Proofs.Command.Rereading

/-!
# Overloaded keywords

The signatures of one keyword rarely accept the same words.  Whatever flags each of them takes
off the front, two that accept are left with the same words; then a number of words or a sort
of word keeps them apart.  The exception is a source that could become a file as well as a
directory, because nothing is there yet.
-/

namespace BulkTransfer
namespace CommandSpec

variable {tree : FileTree} {words : List String}

/-- A signature makes arguments of some words. -/
def Accepts (tree : FileTree) (words : List String) (spec : CommandSpec) : Prop :=
  ∃ outcome, spec.read tree words = some (.ok outcome)

/-- The words behind the flags that a signature takes. -/
def wordsLeft (spec : CommandSpec) (words : List String) : List String :=
  (takeFlags spec.operation.acceptedFlags spec.impliedOptions words).2

theorem accepts_of_not_refuses {spec : CommandSpec} (h : ¬ spec.Refuses tree words) :
    spec.Accepts tree words := by
  rw [Refuses, not_forall] at h
  rcases h with ⟨outcome, houtcome⟩
  exact ⟨outcome, Classical.not_not.mp houtcome⟩

/-- What acceptance says of the words that are left. -/
theorem Accepts.checks {spec : CommandSpec} (h : spec.Accepts tree words) :
    spec.acceptsArity (spec.wordsLeft words).length = true ∧
      ∃ arguments last, Checks tree spec.fixedKinds none (spec.wordsLeft words) arguments last := by
  rcases h with ⟨⟨options, arguments⟩, hread⟩
  rcases read_eq_ok_iff.mp hread with ⟨rest, hflags, harity, hbinds⟩
  have hrest : spec.wordsLeft words = rest := congrArg Prod.snd hflags
  rw [hrest]
  constructor
  · exact harity
  · cases hbinds with
    | fixed _ hchecks | variadic _ hchecks _ => exact ⟨_, _, hchecks⟩

theorem isVariadic_eq_false_of_mem {spec : CommandSpec} {most : Nat}
    (h : most ∈ spec.maxArguments) : spec.isVariadic = false ∧ spec.kinds.length = most := by
  rw [maxArguments] at h
  split at h
  · cases h
  · rename_i hfixed
    exact ⟨Bool.eq_false_iff.mpr hfixed, Option.some.inj h⟩

theorem le_of_mem_maxArguments {spec : CommandSpec} {n most : Nat}
    (h : spec.acceptsArity n = true) (hmost : most ∈ spec.maxArguments) : n ≤ most := by
  rcases isVariadic_eq_false_of_mem hmost with ⟨hfixed, hlength⟩
  exact hlength ▸ (acceptsArity_iff.mp h).2 hfixed

/-- The first word is of a sort that the first kind takes. -/
theorem Checks.head_sort {kinds : List ArgumentKind} {reference last : Option Argument}
    {arguments : List Argument} (h : Checks tree kinds reference words arguments last) :
    ∀ kind ∈ kinds.head?, WordSort.of (words.headD "") ∈ kind.sorts := by
  cases h with
  | nil => exact fun _ hkind => nomatch hkind
  | cons hword _ =>
      intro kind hkind
      cases hkind
      exact sort_mem_sorts hword

/-- Whether no word is of a sort that both kinds take. -/
def separates (kind other : ArgumentKind) : Bool :=
  kind.sorts.all fun sort => !other.sorts.contains sort

/-- Words that are checked against two lists of kinds are separated by no place of the lists. -/
theorem Checks.not_separates {kinds others : List ArgumentKind}
    {reference reference' last last' : Option Argument} {arguments arguments' : List Argument}
    (h : Checks tree kinds reference words arguments last)
    (h' : Checks tree others reference' words arguments' last') :
    (List.zipWith separates kinds others).any id = false := by
  induction h generalizing others reference' arguments' with
  | nil => rw [List.zipWith_nil_left, List.any_nil]
  | @cons kind kinds reference last words argument arguments hword _ ih =>
      cases h' with
      | nil => rfl
      | @cons other others _ _ _ argument' arguments' hword' hrest' =>
          have hseparates : separates kind other = false := by
            rw [separates, List.all_eq_false]
            refine ⟨WordSort.of (words.headD ""), sort_mem_sorts hword, ?_⟩
            rw [List.contains_iff_mem.mpr (sort_mem_sorts hword')]
            exact Bool.false_ne_true
          rw [List.zipWith_cons_cons, List.any_cons, ih hrest', id, hseparates]
          rfl

/-!
## Words behind flags
-/

section Flags

variable {spec other : CommandSpec}

/-- The words are the flags that were taken with those that are left behind them. -/
theorem exists_taken (spec : CommandSpec) (words : List String) :
    ∃ taken, words = taken ++ spec.wordsLeft words ∧
      ∀ word ∈ taken, ∃ flag ∈ spec.operation.acceptedFlags, flag.spelling = some word := by
  rw [wordsLeft]
  generalize spec.impliedOptions = options
  induction words generalizing options with
  | nil => exact ⟨[], rfl, fun _ hword => absurd hword List.not_mem_nil⟩
  | cons word words ih =>
      rw [takeFlags]
      split
      · rename_i flag hflag
        rcases ih (options.insert flag) with ⟨taken, hwords, htaken⟩
        refine ⟨word :: taken, congrArg (List.cons word) hwords, ?_⟩
        rw [List.forall_mem_cons]
        have hspelling := List.find?_some hflag
        exact ⟨⟨flag, List.mem_of_find?_eq_some hflag, beq_iff_eq.mp hspelling⟩, htaken⟩
      · exact ⟨[], rfl, fun _ hword => absurd hword List.not_mem_nil⟩

theorem wordsLeft_isSuffix (spec : CommandSpec) (words : List String) :
    spec.wordsLeft words <:+ words := by
  rcases exists_taken spec words with ⟨taken, hwords, -⟩
  exact ⟨taken, hwords.symm⟩

theorem wordsLeft_eq_of_length
    (h : (spec.wordsLeft words).length = (other.wordsLeft words).length) :
    spec.wordsLeft words = other.wordsLeft words :=
  (List.suffix_of_suffix_length_le (wordsLeft_isSuffix spec words)
    (wordsLeft_isSuffix other words) h.le).eq_of_length h

/-- A signature that leaves more words than another one leaves a flag of that one in front. -/
theorem head_wordsLeft_of_lt
    (h : (other.wordsLeft words).length < (spec.wordsLeft words).length) :
    ∃ word ∈ (spec.wordsLeft words).head?, ∃ flag ∈ other.operation.acceptedFlags,
      flag.spelling = some word ∧ flag ∉ spec.operation.acceptedFlags := by
  have hfree : FlagFree spec.operation.acceptedFlags (spec.wordsLeft words) :=
    flagFree_takeFlags rfl
  rcases exists_taken spec words with ⟨taken, hwords, -⟩
  rcases exists_taken other words with ⟨taken', hwords', htaken'⟩
  rcases List.append_eq_append_iff.mp (hwords.symm.trans hwords') with
    ⟨middle, hfront, hleft⟩ | ⟨middle, -, hleft⟩
  · rw [hleft] at hfree ⊢
    cases middle with
    | nil =>
        rw [hleft] at h
        exact absurd h (lt_irrefl _)
    | cons word middle =>
        have hmem : word ∈ taken' := by
          rw [hfront]
          exact List.mem_append_right _ List.mem_cons_self
        rcases htaken' word hmem with ⟨flag, hflag, hspelling⟩
        exact ⟨word, rfl, flag, hflag, hspelling,
          fun haccepted => hfree word rfl flag haccepted hspelling⟩
  · rw [hleft, List.length_append] at h
    omega

/-- Whether a signature, if it accepts, is left with no more words than another one that
accepts: it takes all the flags of the other one, it begins with a kind that takes no flag for
an argument, or it has no more arguments. -/
def leavesNoMore (spec other : CommandSpec) : Bool :=
  other.operation.acceptedFlags.all spec.operation.acceptedFlags.contains ||
    spec.fixedKinds.head?.any (fun kind => !kind.sorts.contains .path) ||
    spec.maxArguments.any (fun most => most ≤ other.minArguments)

theorem length_le_of_leavesNoMore (h : spec.leavesNoMore other = true)
    (hspec : spec.Accepts tree words) (hother : other.Accepts tree words) :
    (spec.wordsLeft words).length ≤ (other.wordsLeft words).length := by
  by_contra hlonger
  rcases hspec.checks with ⟨harity, arguments, last, hchecks⟩
  rcases head_wordsLeft_of_lt (Nat.lt_of_not_le hlonger) with
    ⟨word, hword, flag, hflag, hspelling, hleft⟩
  rw [leavesNoMore, Bool.or_eq_true, Bool.or_eq_true] at h
  rcases h with (hflags | hkind) | hfewer
  · have haccepted := List.all_eq_true.mp hflags flag hflag
    exact hleft (List.contains_iff_mem.mp haccepted)
  · rcases (Option.any_eq_true _ _).mp hkind with ⟨kind, hhead, hpath⟩
    have hsort := hchecks.head_sort kind hhead
    rw [List.headD_eq_head?_getD, Option.mem_def.mp hword, Option.getD_some,
      (sort_of_flag hspelling).1] at hsort
    rw [List.contains_iff_mem.mpr hsort] at hpath
    cases hpath
  · rcases (Option.any_eq_true _ _).mp hfewer with ⟨most, hmost, hle⟩
    have hlength := le_of_mem_maxArguments harity hmost
    have hlength' := (acceptsArity_iff.mp hother.checks.1).1
    have hle' := of_decide_eq_true hle
    omega

/-- Two signatures that both accept are left with the same words. -/
theorem wordsLeft_eq (h : spec.leavesNoMore other = true) (h' : other.leavesNoMore spec = true)
    (hspec : spec.Accepts tree words) (hother : other.Accepts tree words) :
    spec.wordsLeft words = other.wordsLeft words :=
  wordsLeft_eq_of_length (le_antisymm (length_le_of_leavesNoMore h hspec hother)
    (length_le_of_leavesNoMore h' hother hspec))

/-- Whether two signatures accept no words together, for the number of the words or for the
sort of one of them. -/
def excludes (spec other : CommandSpec) : Bool :=
  spec.leavesNoMore other && other.leavesNoMore spec &&
    (spec.maxArguments.any (fun most => most < other.minArguments) ||
      other.maxArguments.any (fun most => most < spec.minArguments) ||
      (List.zipWith separates spec.fixedKinds other.fixedKinds).any id)

theorem not_accepts_of_excludes (h : spec.excludes other = true)
    (hspec : spec.Accepts tree words) (hother : other.Accepts tree words) : False := by
  rw [excludes, Bool.and_eq_true, Bool.and_eq_true, Bool.or_eq_true, Bool.or_eq_true] at h
  rcases h with ⟨⟨hleave, hleave'⟩, hapart⟩
  have hsame := wordsLeft_eq hleave hleave' hspec hother
  rcases hspec.checks with ⟨harity, arguments, last, hchecks⟩
  rcases hother.checks with ⟨harity', arguments', last', hchecks'⟩
  rw [← hsame] at harity' hchecks'
  have hleast := (acceptsArity_iff.mp harity).1
  have hleast' := (acceptsArity_iff.mp harity').1
  rcases hapart with (hfewer | hmore) | hseparates
  · rcases (Option.any_eq_true _ _).mp hfewer with ⟨most, hmost, hlt⟩
    have hle := le_of_mem_maxArguments harity hmost
    have hlt' := of_decide_eq_true hlt
    omega
  · rcases (Option.any_eq_true _ _).mp hmore with ⟨most, hmost, hlt⟩
    have hle := le_of_mem_maxArguments harity' hmost
    have hlt' := of_decide_eq_true hlt
    omega
  · rw [hchecks.not_separates hchecks'] at hseparates
    cases hseparates

end Flags

/-!
## Files and directories
-/

/-- Whether one signature takes a single file to a place and the other one a directory to a
place on the same side. -/
def isCounterpart (single directory : CommandSpec) : Bool :=
  single.keyword = directory.keyword &&
    match single.kinds, directory.kinds with
    | [.localFileObject, target], [.localDir, target'] =>
        target.isLocal && target'.isLocal || target.isStorage && target'.isStorage
    | _, _ => false

/-- A plain local path where there is nothing. -/
structure MissingPath (tree : FileTree) (path : String) : Prop where
  noLocation : Validate.isLocation path = false
  noPattern : hasGlobChar path = false
  missing : ∃ error, tree.stat path = .error error ∧ error.isNotFound = true

section Counterparts

variable {single directory : CommandSpec}

theorem kinds_of_isCounterpart (h : single.isCounterpart directory = true) :
    ∃ target target', single.kinds = [.localFileObject, target] ∧
      directory.kinds = [.localDir, target'] ∧
      (target.isLocal = true ∨ target.isStorage = true) ∧
      (target'.isLocal = true ∨ target'.isStorage = true) := by
  rw [isCounterpart, Bool.and_eq_true] at h
  have hkinds := h.2
  split at hkinds
  · rename_i target target' hsingle hdirectory
    rw [Bool.or_eq_true, Bool.and_eq_true, Bool.and_eq_true] at hkinds
    rcases hkinds with hlocal | hstorage
    · exact ⟨target, target', hsingle, hdirectory, Or.inl hlocal.1, Or.inl hlocal.2⟩
    · exact ⟨target, target', hsingle, hdirectory, Or.inr hstorage.1, Or.inr hstorage.2⟩
  · cases hkinds

/-- A signature for a single file is none for a directory. -/
theorem not_isCounterpart_left (h : single.isCounterpart directory = true)
    (other : CommandSpec) : other.isCounterpart single = false := by
  rcases kinds_of_isCounterpart h with ⟨target, -, hsingle, -⟩
  cases hother : other.isCounterpart single with
  | false => rfl
  | true =>
      rcases kinds_of_isCounterpart hother with ⟨-, target', -, hdirectory, -⟩
      rw [hsingle] at hdirectory
      cases hdirectory

/-- Whether exactly two words are accepted. -/
def takesTwo (spec : CommandSpec) : Bool :=
  spec.minArguments = 2 && spec.maxArguments = some 2

theorem fixedKinds_of_takesTwo {spec : CommandSpec} (h : spec.takesTwo = true) :
    spec.fixedKinds = spec.kinds := by
  rw [takesTwo, Bool.and_eq_true, decide_eq_true_eq, decide_eq_true_eq] at h
  exact fixedKinds_of_fixed (isVariadic_eq_false_of_mem h.2).1

theorem length_of_takesTwo {spec : CommandSpec} (h : spec.takesTwo = true)
    (haccepts : spec.Accepts tree words) : (spec.wordsLeft words).length = 2 := by
  rw [takesTwo, Bool.and_eq_true, decide_eq_true_eq, decide_eq_true_eq] at h
  have harity := haccepts.checks.1
  have hleast := (acceptsArity_iff.mp harity).1
  have hmost := le_of_mem_maxArguments harity h.2
  omega

/-- What can be a file and can become a directory is not there. -/
theorem missingPath_of_validate {reference reference' : Option Argument}
    {path : String} {argument argument' : Argument}
    (hfile : validate tree .localFileObject reference path = .ok argument)
    (hdirectory : validate tree .localDir reference' path = .ok argument') :
    MissingPath tree path := by
  rw [validate_of_isLocal rfl, Validate.localWord_eq_ok_iff] at hfile hdirectory
  rcases hfile with ⟨hlocation, hpattern, _, hok, -⟩
  rcases hdirectory with ⟨-, -, _, hok', -⟩
  rcases Validate.fileObject_eq_ok_iff.mp hok with ⟨hslash, hnone, -⟩
  have hpath := Validate.endsInSlash_of_pathOfWord hslash
  rw [hpath] at hpattern hslash hnone
  have hentry : Validate.directory tree path = Except.ok _ := (congrArg _ hpath.symm).trans hok'
  rw [FileTree.isDirectory] at hnone
  rw [Validate.directory, if_neg (Bool.not_eq_true _ ▸ hslash), Validate.entry] at hentry
  refine ⟨hlocation, hpattern, ?_⟩
  cases hstat : tree.stat path with
  | error error =>
      rw [hstat] at hentry
      cases hmissing : error.isNotFound with
      | true => exact ⟨error, rfl, hmissing⟩
      | false => simp only [hmissing, Bool.false_eq_true, if_false, reduceCtorEq] at hentry
  | ok found =>
      rw [hstat] at hnone hentry
      simp only [hnone, Bool.false_eq_true, if_false, reduceCtorEq] at hentry

/-- Counterparts that both accept are left with a missing source and a target. -/
theorem missing_source (h : single.isCounterpart directory = true)
    (htwo : single.takesTwo = true) (htwo' : directory.takesTwo = true)
    (hsingle : single.Accepts tree words) (hdirectory : directory.Accepts tree words) :
    ∃ source target, single.wordsLeft words = [source, target] ∧
      directory.wordsLeft words = [source, target] ∧ MissingPath tree source := by
  rcases kinds_of_isCounterpart h with ⟨target, target', hkinds, hkinds', -⟩
  have hlength := length_of_takesTwo htwo hsingle
  have hlength' := length_of_takesTwo htwo' hdirectory
  have hsame := wordsLeft_eq_of_length (hlength.trans hlength'.symm)
  rcases List.length_eq_two.mp hlength with ⟨source, destination, hwords⟩
  rcases hsingle.checks with ⟨-, arguments, last, hchecks⟩
  rcases hdirectory.checks with ⟨-, arguments', last', hchecks'⟩
  rw [fixedKinds_of_takesTwo htwo, hkinds, hwords] at hchecks
  rw [fixedKinds_of_takesTwo htwo', hkinds', ← hsame, hwords] at hchecks'
  refine ⟨source, destination, hwords, hsame.symm.trans hwords, ?_⟩
  cases hchecks with
  | cons hword _ =>
      cases hchecks' with
      | cons hword' _ => exact missingPath_of_validate hword hword'

end Counterparts

/-!
## Orders of the table
-/

section Tables

variable {table : CommandTable} {keyword : String} {spec other single directory : CommandSpec}

theorem standard_nodup : CommandTable.standard.specs.Nodup := by
  decide +kernel

theorem standard_excludes : ∀ spec ∈ CommandTable.standard.specs,
    ∀ other ∈ CommandTable.standard.specs, spec.keyword = other.keyword → spec ≠ other →
      spec.excludes other = true ∨ spec.isCounterpart other = true ∨
        other.isCounterpart spec = true := by
  decide +kernel

theorem standard_takesTwo : ∀ single ∈ CommandTable.standard.specs,
    ∀ directory ∈ CommandTable.standard.specs, single.isCounterpart directory = true →
      single.takesTwo = true ∧ directory.takesTwo = true := by
  decide +kernel

/-- No signature for directories stands in front of its counterpart for a single file. -/
def SinglesFirst (specs : List CommandSpec) : Prop :=
  specs.Pairwise fun earlier later => later.isCounterpart earlier = false

instance (specs : List CommandSpec) : Decidable (SinglesFirst specs) :=
  inferInstanceAs (Decidable (List.Pairwise _ _))

theorem standard_singlesFirst : SinglesFirst CommandTable.standard.specs := by
  decide +kernel

/-- Signatures of the standard table that accept the same words are counterparts. -/
theorem isCounterpart_of_accepts (hspec : spec ∈ CommandTable.standard.candidates keyword)
    (hother : other ∈ CommandTable.standard.candidates keyword) (hne : spec ≠ other)
    (haccepts : spec.Accepts tree words) (haccepts' : other.Accepts tree words) :
    spec.isCounterpart other = true ∨ other.isCounterpart spec = true := by
  rcases mem_candidates_iff.mp hspec with ⟨hmem, hkeyword⟩
  rcases mem_candidates_iff.mp hother with ⟨hmem', hkeyword'⟩
  rcases standard_excludes spec hmem other hmem' (hkeyword.trans hkeyword'.symm) hne with
    hexcludes | hcounterpart
  · exact (not_accepts_of_excludes hexcludes haccepts haccepts').elim
  · exact hcounterpart

theorem mem_candidates_of_perm (h : table.specs.Perm CommandTable.standard.specs) :
    spec ∈ table.candidates keyword ↔ spec ∈ CommandTable.standard.candidates keyword := by
  rw [mem_candidates_iff, mem_candidates_iff, h.mem_iff]

/-- In a table that keeps the counterparts in order, a signature that accepts is chosen unless
a signature for a single file accepts in its place. -/
theorem firstAccepted_of_accepts (hperm : table.specs.Perm CommandTable.standard.specs)
    (horder : SinglesFirst table.specs) (hmem : spec ∈ table.candidates keyword)
    {options : Options} {arguments : List Argument}
    (hread : spec.read tree words = some (.ok (options, arguments)))
    (halone : ∀ other ∈ table.candidates keyword, other.Accepts tree words →
      other.isCounterpart spec = false) :
    firstAccepted tree words (table.candidates keyword) none = .ok (spec, options, arguments) := by
  have hnodup : (table.candidates keyword).Nodup :=
    (hperm.nodup_iff.mpr standard_nodup).filter _
  have hsorted : SinglesFirst (table.candidates keyword) := horder.filter _
  rcases List.append_of_mem hmem with ⟨earlier, later, hspecs⟩
  rw [firstAccepted_eq_ok_iff]
  refine ⟨earlier, later, hspecs, fun other hother => ?_, hread⟩
  by_contra hrefuses
  have haccepts := accepts_of_not_refuses hrefuses
  have hcandidate : other ∈ table.candidates keyword := by
    rw [hspecs]
    exact List.mem_append_left _ hother
  rw [hspecs, List.nodup_append] at hnodup
  rw [hspecs, SinglesFirst, List.pairwise_append] at hsorted
  have hne : spec ≠ other := (hnodup.2.2 other hother spec List.mem_cons_self).symm
  rcases isCounterpart_of_accepts (mem_candidates_of_perm hperm |>.mp hmem)
    (mem_candidates_of_perm hperm |>.mp hcandidate) hne ⟨_, hread⟩ haccepts with hleft | hright
  · have horder' := hsorted.2.2 other hother spec List.mem_cons_self
    rw [hleft] at horder'
    cases horder'
  · rw [halone other hcandidate haccepts] at hright
    cases hright

/-- Every order of the standard table that keeps the counterparts in order makes the choices
of the standard table. -/
theorem firstAccepted_iff_of_perm (hperm : table.specs.Perm CommandTable.standard.specs)
    (horder : SinglesFirst table.specs) {outcome : CommandSpec × Options × List Argument} :
    firstAccepted tree words (table.candidates keyword) none = .ok outcome ↔
      firstAccepted tree words (CommandTable.standard.candidates keyword) none = .ok outcome := by
  -- a choice of one table is not outdone by a counterpart, so the other table chooses it too
  have hchosen : ∀ {table other : CommandTable},
      table.specs.Perm CommandTable.standard.specs → SinglesFirst table.specs →
      other.specs.Perm CommandTable.standard.specs → SinglesFirst other.specs →
      firstAccepted tree words (table.candidates keyword) none = .ok outcome →
      firstAccepted tree words (other.candidates keyword) none = .ok outcome := by
    intro table other hperm horder hperm' horder' hfirst
    rcases outcome with ⟨spec, options, arguments⟩
    rcases candidate_of_firstAccepted hfirst with ⟨hspec, hkeyword, hread⟩
    have hmem : spec ∈ table.candidates keyword := mem_candidates_iff.mpr ⟨hspec, hkeyword⟩
    have hmem' : spec ∈ other.candidates keyword :=
      (mem_candidates_of_perm hperm').mpr ((mem_candidates_of_perm hperm).mp hmem)
    refine firstAccepted_of_accepts hperm' horder' hmem' hread fun single hsingle haccepts => ?_
    cases hcounterpart : single.isCounterpart spec with
    | false => rfl
    | true =>
        have hsingle' : single ∈ table.candidates keyword :=
          (mem_candidates_of_perm hperm).mpr ((mem_candidates_of_perm hperm').mp hsingle)
        rcases haccepts with ⟨⟨options', arguments'⟩, hread'⟩
        have hother := firstAccepted_of_accepts hperm horder hsingle' hread'
          fun third _ _ => not_isCounterpart_left hcounterpart third
        rw [hfirst, Except.ok.injEq, Prod.mk.injEq] at hother
        have hself := not_isCounterpart_left hcounterpart single
        rw [hother.1, hself] at hcounterpart
        cases hcounterpart
  constructor
  · exact hchosen hperm horder (List.Perm.refl _) standard_singlesFirst
  · exact hchosen (List.Perm.refl _) standard_singlesFirst hperm horder

end Tables

end CommandSpec

namespace Parse

open CommandSpec

variable {tree : FileTree} {table : CommandTable}

/-- Orders of the standard table that keep the counterparts in order read the same tasks. -/
theorem segment_iff_of_perm (hperm : table.specs.Perm CommandTable.standard.specs)
    (horder : SinglesFirst table.specs) {s : List Char} {outcome : Option Task} :
    segment tree table s = .ok outcome ↔ segment tree .standard s = .ok outcome := by
  cases outcome with
  | none => rw [segment_eq_none_iff, segment_eq_none_iff]
  | some task =>
      simp only [segment_eq_some_iff, ofWords_eq_ok_iff, firstAccepted_iff_of_perm hperm horder]

/-- At most one signature of a keyword accepts given words, except that a signature for a
single file and its counterpart for a directory may both accept where the source is a local
path that is missing; then the one for the file is chosen.  So the order of the standard table
matters only in that it has the counterparts in order. -/
theorem standard_unambiguous (tree : FileTree) :
    (∀ keyword, (CommandTable.standard.candidates keyword).Nodup) ∧
    (∀ keyword words, ∀ spec ∈ CommandTable.standard.candidates keyword,
      ∀ other ∈ CommandTable.standard.candidates keyword, spec ≠ other →
        spec.Accepts tree words → other.Accepts tree words →
        ∃ single directory,
          (single = spec ∧ directory = other ∨ single = other ∧ directory = spec) ∧
          single.isCounterpart directory = true ∧
          (∃ source target, single.wordsLeft words = [source, target] ∧
            directory.wordsLeft words = [source, target] ∧ MissingPath tree source) ∧
          ∃ options arguments,
            firstAccepted tree words (CommandTable.standard.candidates keyword) none =
              .ok (single, options, arguments)) ∧
    ∀ table : CommandTable, table.specs.Perm CommandTable.standard.specs →
      SinglesFirst table.specs → ∀ s outcome,
        segment tree table s = .ok outcome ↔ segment tree .standard s = .ok outcome := by
  have hpair : ∀ keyword words, ∀ single ∈ CommandTable.standard.candidates keyword,
      ∀ directory ∈ CommandTable.standard.candidates keyword,
        single.isCounterpart directory = true →
        single.Accepts tree words → directory.Accepts tree words →
        (∃ source target, single.wordsLeft words = [source, target] ∧
          directory.wordsLeft words = [source, target] ∧ MissingPath tree source) ∧
        ∃ options arguments,
          firstAccepted tree words (CommandTable.standard.candidates keyword) none =
            .ok (single, options, arguments) := by
    intro keyword words single hsingle directory hdirectory hcounterpart haccepts haccepts'
    rcases standard_takesTwo single (mem_candidates_iff.mp hsingle).1 directory
      (mem_candidates_iff.mp hdirectory).1 hcounterpart with ⟨htwo, htwo'⟩
    constructor
    · exact missing_source hcounterpart htwo htwo' haccepts haccepts'
    · rcases haccepts with ⟨⟨options, arguments⟩, hread⟩
      refine ⟨options, arguments, firstAccepted_of_accepts (List.Perm.refl _)
        standard_singlesFirst hsingle hread fun other _ _ => ?_⟩
      exact not_isCounterpart_left hcounterpart other
  refine ⟨fun keyword => standard_nodup.filter _, ?_,
    fun table hperm horder s outcome => segment_iff_of_perm hperm horder⟩
  intro keyword words spec hspec other hother hne haccepts haccepts'
  rcases isCounterpart_of_accepts hspec hother hne haccepts haccepts' with hleft | hright
  · exact ⟨spec, other, Or.inl ⟨rfl, rfl⟩, hleft,
      hpair keyword words spec hspec other hother hleft haccepts haccepts'⟩
  · exact ⟨other, spec, Or.inr ⟨rfl, rfl⟩, hright,
      hpair keyword words other hother spec hspec hright haccepts' haccepts⟩

/-- With no files, a new name can be copied as a file and as a directory; the table that
begins with its last part is another order of the standard table. -/
theorem standard_unambiguous_new_name :
    (∃ single ∈ CommandTable.standard.candidates "cp",
      ∃ directory ∈ CommandTable.standard.candidates "cp", single ≠ directory ∧
        single.Accepts default ["-n", "new", "dst/"] ∧
        directory.Accepts default ["-n", "new", "dst/"] ∧
        ∃ source target, single.wordsLeft ["-n", "new", "dst/"] = [source, target] ∧
          MissingPath default source) ∧
    ∃ table : CommandTable, table.specs ≠ CommandTable.standard.specs ∧
      table.specs.Perm CommandTable.standard.specs ∧ SinglesFirst table.specs ∧
      ∃ task, segment default table "cp new dst/".toList = .ok (some task) ∧
        task.operation = .localCopy := by
  let single : CommandSpec :=
    { keyword := "cp", operation := .localCopy, kinds := [.localFileObject, .localFileOrDir] }
  let directory : CommandSpec :=
    { keyword := "cp", operation := .batchLocalCopy, kinds := [.localDir, .localDir] }
  let front := CommandTable.standardHead ++ CommandTable.transferSpecs "cp" Options.none ++
    CommandTable.transferSpecs "mv" (Options.none.insert .deleteSource)
  constructor
  · have hsingle : single ∈ CommandTable.standard.candidates "cp" := by decide +kernel
    have hdirectory : directory ∈ CommandTable.standard.candidates "cp" := by decide +kernel
    have hne : single ≠ directory := by decide +kernel
    have haccepts : single.Accepts default ["-n", "new", "dst/"] :=
      ⟨(Options.none.insert .ifNotExists, [.plain "new", .plain "dst/new"]), by decide +kernel⟩
    have haccepts' : directory.Accepts default ["-n", "new", "dst/"] :=
      ⟨(Options.none.insert .ifNotExists, [.plain "new/", .plain "dst/"]), by decide +kernel⟩
    refine ⟨single, hsingle, directory, hdirectory, hne, haccepts, haccepts', ?_⟩
    rcases (standard_unambiguous default).2.1 "cp" ["-n", "new", "dst/"] single hsingle directory
      hdirectory hne haccepts haccepts' with
      ⟨first, second, hpair, -, ⟨source, target, hfirst, hsecond, hmissing⟩, -⟩
    rcases hpair with ⟨rfl, rfl⟩ | ⟨rfl, rfl⟩
    · exact ⟨source, target, hfirst, hmissing⟩
    · exact ⟨source, target, hsecond, hmissing⟩
  · have hperm : (CommandTable.standardTail ++ front).Perm CommandTable.standard.specs :=
      List.perm_append_comm
    have horder : SinglesFirst (CommandTable.standardTail ++ front) := by decide +kernel
    have htask : segment default .standard "cp new dst/".toList = .ok (some
        { source := "cp new dst/", keyword := "cp", operation := .localCopy,
          options := Options.none, arguments := [.plain "new", .plain "dst/new"] }) := by
      decide +kernel
    have hsame := (standard_unambiguous default).2.2 ⟨CommandTable.standardTail ++ front⟩ hperm
      horder "cp new dst/".toList
    exact ⟨_, by decide +kernel, hperm, horder, _, (hsame _).mpr htask, by rfl⟩

end Parse
end BulkTransfer
