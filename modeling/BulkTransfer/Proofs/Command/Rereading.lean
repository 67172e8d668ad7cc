import BulkTransfer.Proofs.Command.Sorts

/-!
# Reading canonical words

A signature that made arguments of some words makes the same arguments of their canonical
texts, provided that a destination that may be a file or a directory is settled.
-/

namespace BulkTransfer
namespace CommandSpec

variable {tree : FileTree}

/-- Among arguments of some kinds, those that may be files or directories are settled. -/
def SettledArguments (tree : FileTree) :
    List ArgumentKind → Option Argument → List Argument → Prop
  | kind :: kinds, reference, argument :: arguments =>
      (kind.isFileOrDir = true →
        Settled tree (Validate.referenceBasename reference) argument.text) ∧
      SettledArguments tree kinds (nextReference kind reference argument) arguments
  | _, _, _ => True

theorem settledArguments_of_all {kinds : List ArgumentKind}
    (h : kinds.all (fun kind => !kind.isFileOrDir) = true) (reference : Option Argument)
    (arguments : List Argument) : SettledArguments tree kinds reference arguments := by
  induction kinds generalizing reference arguments with
  | nil => cases arguments <;> exact trivial
  | cons kind kinds ih =>
      rw [List.all_cons, Bool.and_eq_true, Bool.not_eq_true'] at h
      cases arguments with
      | nil => exact trivial
      | cons argument arguments =>
          refine ⟨fun hkind => ?_, ih h.2 _ _⟩
          rw [h.1] at hkind
          cases hkind

theorem isReference_nextReference {kind : ArgumentKind} {reference : Option Argument}
    {word : String} {argument : Argument}
    (hreference : ∀ argument ∈ reference, argument.IsReference)
    (h : validate tree kind reference word = .ok argument) :
    ∀ other ∈ nextReference kind reference argument, other.IsReference := by
  intro other hother
  rw [nextReference] at hother
  split at hother
  · rename_i hkind
    rw [Bool.and_eq_true] at hkind
    cases hother
    exact isReference_of_validate hkind.1 h
  · exact hreference other hother

theorem validate_text_iff {kind : ArgumentKind} {reference : Option Argument} {word : String}
    {argument : Argument} (hreference : ∀ argument ∈ reference, argument.IsReference)
    (h : validate tree kind reference word = .ok argument) :
    validate tree kind reference argument.text = .ok argument ↔
      (kind.isFileOrDir = true →
        Settled tree (Validate.referenceBasename reference) argument.text) := by
  cases hkind : kind.isFileOrDir with
  | true =>
      rw [validate_text_iff_settled hkind hreference h]
      exact ⟨fun hsettled _ => hsettled, fun hsettled => hsettled rfl⟩
  | false => exact iff_of_true (validate_text hkind hreference h) nofun

/-- Checked arguments are checked with the same outcome if and only if they are settled. -/
theorem Checks.texts_iff {kinds : List ArgumentKind} {reference last : Option Argument}
    {words : List String} {arguments : List Argument}
    (h : Checks tree kinds reference words arguments last)
    (hreference : ∀ argument ∈ reference, argument.IsReference) (others : List String) :
    Checks tree kinds reference (arguments.map Argument.text ++ others) arguments last ↔
      SettledArguments tree kinds reference arguments := by
  induction h with
  | nil reference words => exact iff_of_true (.nil _ _) trivial
  | @cons kind kinds reference last words argument arguments hword _ ih =>
      have hnext := ih (isReference_nextReference hreference hword)
      have hagain := validate_text_iff hreference hword
      constructor
      · intro h
        cases h with
        | cons hword' hrest' => exact ⟨hagain.mp hword', hnext.mp hrest'⟩
      · intro hsettled
        exact .cons (hagain.mpr hsettled.1) (hnext.mpr hsettled.2)

theorem Checks.last_isReference {kinds : List ArgumentKind} {reference last : Option Argument}
    {words : List String} {arguments : List Argument}
    (h : Checks tree kinds reference words arguments last)
    (hreference : ∀ argument ∈ reference, argument.IsReference) :
    ∀ argument ∈ last, argument.IsReference := by
  induction h with
  | nil => exact hreference
  | cons hword _ ih => exact ih (isReference_nextReference hreference hword)

theorem validate_texts {kind : ArgumentKind} {reference : Option Argument}
    {words : List String} {arguments : List Argument} (hkind : kind.isFileOrDir = false)
    (hreference : ∀ argument ∈ reference, argument.IsReference)
    (h : List.Forall₂ (fun word argument => validate tree kind reference word = .ok argument)
      words arguments) :
    List.Forall₂ (fun word argument => validate tree kind reference word = .ok argument)
      (arguments.map Argument.text) arguments := by
  induction h with
  | nil => exact .nil
  | cons hword _ ih => exact .cons (validate_text hkind hreference hword) ih

/-- Only a signature with a fixed number of words has a file or directory among them. -/
def regular (spec : CommandSpec) : Bool :=
  !spec.isVariadic || spec.fixedKinds.all fun kind => !kind.isFileOrDir

theorem Binds.texts {spec : CommandSpec} {words : List String} {arguments : List Argument}
    (hregular : spec.regular = true) (h : Binds tree spec words arguments)
    (hsettled : SettledArguments tree spec.fixedKinds none arguments) :
    Binds tree spec (arguments.map Argument.text) arguments := by
  have hnone : ∀ argument ∈ (none : Option Argument), argument.IsReference := fun _ h => nomatch h
  cases h with
  | fixed hfixed hchecks =>
      have htexts := (hchecks.texts_iff hnone []).mpr hsettled
      rw [List.append_nil] at htexts
      exact .fixed hfixed htexts
  | @variadic front rest last hvariadic hchecks hrest =>
      rw [regular, hvariadic, Bool.not_true, Bool.false_or] at hregular
      have hlast : (spec.fixedKinds.getLast?.getD .uncheckedOneOrMore).isFileOrDir = false := by
        cases hkind : spec.fixedKinds.getLast? with
        | none => rfl
        | some kind =>
            have hmem := List.all_eq_true.mp hregular kind (List.mem_of_getLast? hkind)
            rwa [Bool.not_eq_true'] at hmem
      have hdrop : (front.map Argument.text ++ rest.map Argument.text).drop
          spec.fixedKinds.length = rest.map Argument.text := by
        rw [← hchecks.length, ← List.length_map (f := Argument.text), List.drop_left]
      rw [List.map_append]
      refine .variadic hvariadic ((hchecks.texts_iff hnone _).mpr
        (settledArguments_of_all hregular none front)) ?_
      rw [hdrop]
      exact validate_texts hlast (hchecks.last_isReference hnone) hrest

/-!
## Whole signatures
-/

theorem acceptsArity_iff {spec : CommandSpec} {n : Nat} :
    spec.acceptsArity n = true ↔ spec.minArguments ≤ n ∧
      (spec.isVariadic = false → n ≤ spec.kinds.length) := by
  rw [acceptsArity, maxArguments, Bool.and_eq_true, decide_eq_true_eq]
  cases spec.isVariadic <;> simp

theorem fixedKinds_of_fixed {spec : CommandSpec} (h : spec.isVariadic = false) :
    spec.fixedKinds = spec.kinds := by
  rw [fixedKinds, h, if_neg Bool.false_ne_true]

theorem minArguments_le {spec : CommandSpec} : spec.minArguments ≤ spec.kinds.length := by
  rw [minArguments]
  split
  · split
    · exact Nat.sub_le _ _
    · exact Nat.le_refl _
  · exact Nat.zero_le _

/-- A signature of any number of words takes no fewer than it has kinds for. -/
theorem fixedKinds_of_variadic {spec : CommandSpec} (h : spec.isVariadic = true) :
    spec.fixedKinds.length = spec.minArguments := by
  have hlast := h
  rw [isVariadic, beq_iff_eq] at hlast
  rw [fixedKinds, if_pos h, minArguments, hlast, List.length_dropLast]
  rfl

/-- A signature takes as many words as it makes arguments. -/
theorem Binds.acceptsArity {spec : CommandSpec} {words : List String} {arguments : List Argument}
    (h : Binds tree spec words arguments) (harity : spec.acceptsArity words.length = true) :
    spec.acceptsArity arguments.length = true := by
  rw [acceptsArity_iff] at harity ⊢
  cases h with
  | fixed hfixed hchecks =>
      rw [hchecks.length, fixedKinds_of_fixed hfixed]
      exact ⟨minArguments_le, fun _ => Nat.le_refl _⟩
  | variadic hvariadic hchecks hrest =>
      have hfront := hchecks.length
      have hbehind := hrest.length_eq
      rw [List.length_drop] at hbehind
      have hleast := fixedKinds_of_variadic hvariadic
      have hwords := harity.1
      rw [List.length_append]
      refine ⟨by omega, fun hfixed => ?_⟩
      rw [hvariadic] at hfixed
      cases hfixed

theorem Binds.checks {spec : CommandSpec} {words : List String} {arguments : List Argument}
    (h : Binds tree spec words arguments) (hfixed : spec.isVariadic = false) :
    ∃ last, Checks tree spec.fixedKinds none words arguments last := by
  cases h with
  | fixed _ hchecks => exact ⟨_, hchecks⟩
  | variadic hvariadic _ _ =>
      rw [hfixed] at hvariadic
      cases hvariadic

theorem Binds.length {spec : CommandSpec} {words : List String} {arguments : List Argument}
    (h : Binds tree spec words arguments) (hfixed : spec.isVariadic = false) :
    arguments.length = spec.fixedKinds.length := by
  rcases h.checks hfixed with ⟨last, hchecks⟩
  exact hchecks.length

/-- The first argument comes from the first word. -/
theorem Binds.head {spec : CommandSpec} {words : List String} {arguments : List Argument}
    (h : Binds tree spec words arguments) : ∀ argument ∈ arguments.head?,
      ∃ kind reference, validate tree kind reference (words.headD "") = .ok argument := by
  intro argument hargument
  have hchecks : ∀ {kinds : List ArgumentKind} {front : List Argument} {last : Option Argument},
      Checks tree kinds none words front last → argument ∈ front.head? →
      ∃ kind reference, validate tree kind reference (words.headD "") = .ok argument := by
    intro kinds front last hchecks hfront
    cases hchecks with
    | nil => cases hfront
    | cons hword _ =>
        cases hfront
        exact ⟨_, _, hword⟩
  cases h with
  | fixed _ hfixed => exact hchecks hfixed hargument
  | @variadic front rest last _ hfront hrest =>
      cases front with
      | cons first front => exact hchecks hfront hargument
      | nil =>
          have hnil : spec.fixedKinds.length = 0 := hfront.length.symm
          rw [hnil, List.drop_zero] at hrest
          cases hrest with
          | nil => cases hargument
          | cons hword _ =>
              cases hargument
              exact ⟨_, _, hword⟩

/-- The canonical texts of a command begin with no flag. -/
theorem Binds.flagFree {spec : CommandSpec} {words : List String} {arguments : List Argument}
    (h : Binds tree spec words arguments) {accepted : List Flag} (hwords : FlagFree accepted words) :
    FlagFree accepted (arguments.map Argument.text) := by
  intro text htext flag hflag hspelling
  rw [List.head?_map, Option.mem_def, Option.map_eq_some_iff] at htext
  rcases htext with ⟨argument, hargument, rfl⟩
  rcases h.head argument hargument with ⟨kind, reference, hword⟩
  rcases text_of_validate hword with hsame | hslash
  · cases words with
    | nil =>
        have hempty : argument.text = "" := hsame
        rw [hempty] at hspelling
        exact absurd hspelling (by cases flag <;> decide)
    | cons word words => exact hwords word rfl flag hflag (hspelling.trans (congrArg some hsame))
  · exact (sort_of_flag hspelling).2 hslash

/-- A signature makes the same arguments of their canonical texts. -/
theorem read_texts {spec : CommandSpec} {words : List String} {options : Options}
    {arguments : List Argument} (hregular : spec.regular = true)
    (h : spec.read tree words = some (.ok (options, arguments)))
    (hsettled : SettledArguments tree spec.fixedKinds none arguments) :
    spec.read tree (arguments.map Argument.text) =
      some (.ok (spec.impliedOptions, arguments)) := by
  rcases read_eq_ok_iff.mp h with ⟨rest, hflags, harity, hbinds⟩
  have htexts := takeFlags_eq_self (hbinds.flagFree (flagFree_takeFlags hflags))
    spec.impliedOptions
  refine read_eq_ok_iff.mpr ⟨_, htexts, ?_, hbinds.texts hregular hsettled⟩
  rw [List.length_map]
  exact hbinds.acceptsArity harity

/-!
## The standard signatures
-/

/-- Whether a signature writes to a local file or directory behind a reference. -/
def hasDestination (spec : CommandSpec) : Bool :=
  match spec.fixedKinds with
  | [source, destination] =>
      source.isReference && !source.isFileOrDir && destination.isFileOrDir
  | _ => false

theorem standard_regular : ∀ spec ∈ CommandTable.standard.specs, spec.regular = true := by
  decide +kernel

theorem standard_hasDestination : ∀ spec ∈ CommandTable.standard.specs,
    if spec.operation = .localCopy ∨ spec.operation = .download then
      !spec.isVariadic && spec.hasDestination
    else spec.fixedKinds.all fun kind => !kind.isFileOrDir := by
  decide +kernel

end CommandSpec

/-- The destination of a transfer to a local file is settled. -/
def Task.Settled (tree : FileTree) (task : Task) : Prop :=
  task.operation = .localCopy ∨ task.operation = .download →
    ∀ source destination, task.arguments = [source, destination] →
      BulkTransfer.Settled tree (Validate.referenceBasename (some source)) destination.text

namespace CommandSpec

variable {tree : FileTree}

theorem settledArguments_iff {spec : CommandSpec} (hspec : spec ∈ CommandTable.standard.specs)
    {words : List String} {task : Task} (hoperation : task.operation = spec.operation)
    (hbinds : Binds tree spec words task.arguments) :
    SettledArguments tree spec.fixedKinds none task.arguments ↔ task.Settled tree := by
  have hstandard := standard_hasDestination spec hspec
  rw [← hoperation] at hstandard
  by_cases hlocal : task.operation = .localCopy ∨ task.operation = .download
  · rw [if_pos hlocal, Bool.and_eq_true, Bool.not_eq_true'] at hstandard
    rcases hstandard with ⟨hfixed, hkinds⟩
    rw [hasDestination] at hkinds
    split at hkinds
    · rename_i sourceKind destinationKind hspecKinds
      rw [Bool.and_eq_true, Bool.and_eq_true, Bool.not_eq_true'] at hkinds
      have hlength : task.arguments.length = 2 := by
        rw [hbinds.length hfixed, hspecKinds]
        rfl
      rcases List.length_eq_two.mp hlength with ⟨source, destination, harguments⟩
      have hreference : nextReference sourceKind none source = some source := by
        rw [nextReference, hkinds.1.1]
        rfl
      rw [hspecKinds, harguments, SettledArguments, SettledArguments, hreference]
      constructor
      · rintro ⟨-, hsettled, -⟩ _ source' destination' hsame
        rw [harguments] at hsame
        cases hsame
        exact hsettled hkinds.2
      · intro hsettled
        refine ⟨fun hsource => ?_, fun _ => hsettled hlocal source destination harguments, trivial⟩
        rw [hkinds.1.2] at hsource
        cases hsource
    · cases hkinds
  · rw [if_neg hlocal] at hstandard
    exact iff_of_true (settledArguments_of_all hstandard _ _) fun h => absurd h hlocal

/-!
## The first signature
-/

theorem Checks.sorts {kinds : List ArgumentKind} {reference last : Option Argument}
    {words : List String} {arguments : List Argument}
    (h : Checks tree kinds reference words arguments last)
    (hwords : words = arguments.map Argument.text) :
    List.Forall₂ (fun kind text => WordSort.of text ∈ ArgumentKind.canonicalSorts kind) kinds
      words := by
  induction h with
  | nil =>
      rw [hwords]
      exact .nil
  | cons hword _ ih =>
      rw [List.map_cons] at hwords
      subst hwords
      exact .cons (sort_mem_canonicalSorts hword) (ih rfl)

variable {spec : CommandSpec} {keyword : String} {words : List String} {options : Options}
  {arguments : List Argument}

/-- The signature that makes arguments of words is the first that takes their texts. -/
theorem firstAccepted_texts
    (h : firstAccepted tree words (CommandTable.standard.candidates keyword) none =
      .ok (spec, options, arguments))
    (hsettled : SettledArguments tree spec.fixedKinds none arguments) :
    firstAccepted tree (arguments.map Argument.text)
      (CommandTable.standard.candidates keyword) none =
        .ok (spec, spec.impliedOptions, arguments) := by
  rcases firstAccepted_eq_ok_iff.mp h with ⟨earlier, later, hspecs, -, hread⟩
  have hcandidate : ∀ other ∈ earlier ++ spec :: later,
      other ∈ CommandTable.standard.specs ∧ other.keyword = keyword := by
    intro other hmem
    rw [← hspecs] at hmem
    exact mem_candidates_iff.mp hmem
  have hspec := hcandidate spec (List.mem_append_right _ List.mem_cons_self)
  have hordered : (earlier ++ spec :: later).Pairwise fun other spec =>
      other.keyword = spec.keyword → other.passesOver spec = true := by
    rw [← hspecs]
    exact standard_passesOver.filter _
  have hregular := standard_regular spec hspec.1
  refine firstAccepted_eq_ok_iff.mpr
    ⟨earlier, later, hspecs, fun other hother => ?_, read_texts hregular hread hsettled⟩
  have hother' := hcandidate other (List.mem_append_left _ hother)
  have hkeyword : other.keyword = spec.keyword := hother'.2.trans hspec.2.symm
  have hpasses := (List.pairwise_append.mp hordered).2.2 other hother spec List.mem_cons_self
    hkeyword
  have hfixed : spec.isVariadic = false := by
    have hpasses' := hpasses
    rw [passesOver, Bool.and_eq_true, Bool.not_eq_true'] at hpasses'
    exact hpasses'.1
  rcases read_eq_ok_iff.mp hread with ⟨rest, -, -, hbinds⟩
  rcases (hbinds.texts hregular hsettled).checks hfixed with ⟨last, hchecks⟩
  exact refuses_of_passesOver (standard_leavesWords other hother'.1 spec hspec.1 hkeyword) hpasses
    (hchecks.sorts rfl)

theorem standard_head : ∀ spec ∈ CommandTable.standard.specs,
    ∀ kind ∈ spec.fixedKinds.head?, kind.isFileOrDir = false := by
  decide +kernel

/-- Arguments that are made of their own texts are settled. -/
theorem settled_of_read_texts (hspec : spec ∈ CommandTable.standard.specs)
    (hread : spec.read tree words = some (.ok (options, arguments))) {other : CommandSpec}
    (hother : other ∈ CommandTable.standard.specs) (hkeyword : other.keyword = spec.keyword)
    (hvariadic : spec.isVariadic = false) (hvariadic' : other.isVariadic = false)
    {options' : Options}
    (hagain : other.read tree (arguments.map Argument.text) = some (.ok (options', arguments))) :
    SettledArguments tree other.fixedKinds none arguments := by
  have hnone : ∀ argument ∈ (none : Option Argument), argument.IsReference := fun _ h => nomatch h
  rcases read_eq_ok_iff.mp hread with ⟨rest, -, -, hbinds⟩
  rcases read_eq_ok_iff.mp hagain with ⟨rest', hflags, harity, hbinds'⟩
  have hhead : ∀ kind ∈ spec.fixedKinds.head?, ∀ text ∈ (arguments.map Argument.text).head?,
      WordSort.of text ∈ kind.canonicalSorts := by
    intro kind hkind text htext
    have hlocal := standard_head spec hspec kind hkind
    rcases hbinds.checks hvariadic with ⟨last, hchecks⟩
    generalize spec.fixedKinds = kinds at hchecks hkind
    cases hchecks with
    | nil => cases hkind
    | cons hword _ =>
        cases hkind
        cases htext
        exact sort_mem_canonicalSorts (validate_text hlocal hnone hword)
  have hrest := eq_of_leavesWords (standard_leavesWords other hother spec hspec hkeyword)
    (fun hfixed => by rw [List.length_map, hbinds.length hfixed]) hhead hflags harity
  subst hrest
  rcases hbinds'.checks hvariadic' with ⟨last, hchecks⟩
  refine (hchecks.texts_iff hnone []).mp ?_
  rw [List.append_nil]
  exact hchecks

end CommandSpec
end BulkTransfer
