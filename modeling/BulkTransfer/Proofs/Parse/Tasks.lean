import BulkTransfer.Proofs.Parse.Renderings

/-!
# The words that a task was read from

A task keeps the segment that it was read from.  Behind the keyword and the flags of its
operation stand its words, and each of them was checked against the kind of its place.
-/

namespace BulkTransfer

open Text Chain

/-!
## Words and arguments
-/

namespace CommandSpec

variable {tree : FileTree}

/-- Whether a word is one of some flags. -/
def isFlag (accepted : List Flag) (word : String) : Bool :=
  accepted.any fun flag => flag.spelling == some word

/-- Which words are left behind the flags does not depend on the options. -/
theorem takeFlags_words (accepted : List Flag) (options : Options) (words : List String) :
    (takeFlags accepted options words).2 = words.dropWhile (isFlag accepted) := by
  induction words generalizing options with
  | nil => rfl
  | cons word words ih =>
      rw [takeFlags]
      split
      · rename_i flag hflag
        have hspelling := List.find?_some hflag
        have htaken : isFlag accepted word = true :=
          List.any_eq_true.mpr ⟨flag, List.mem_of_find?_eq_some hflag, hspelling⟩
        rw [ih, List.dropWhile_cons_of_pos htaken]
      · rename_i hnone
        have hleft : ¬ isFlag accepted word = true := by
          intro htaken
          rcases List.any_eq_true.mp htaken with ⟨flag, hflag, hspelling⟩
          exact List.find?_eq_none.mp hnone flag hflag hspelling
        rw [List.dropWhile_cons_of_neg hleft]

/-- A word is checked against the kind of its place. -/
theorem Checks.exists_argument {kinds : List ArgumentKind} {reference last : Option Argument}
    {words : List String} {arguments : List Argument}
    (h : Checks tree kinds reference words arguments last) {i : Nat} {kind : ArgumentKind}
    (hkind : kinds[i]? = some kind) {word : String} (hword : words[i]? = some word) :
    ∃ reference argument, arguments[i]? = some argument ∧
      validate tree kind reference word = .ok argument := by
  induction h generalizing i with
  | nil => cases hkind
  | @cons first kinds reference last words argument arguments hfirst _ ih =>
      cases i with
      | zero =>
          cases hkind
          rw [← List.head?_eq_getElem?] at hword
          rw [List.headD_eq_head?_getD, hword] at hfirst
          exact ⟨reference, argument, rfl, hfirst⟩
      | succ i =>
          rw [← List.getElem?_tail] at hword
          exact ih hkind hword

/-- The kind that the word in some place is checked against. -/
def kindAt (spec : CommandSpec) (i : Nat) : ArgumentKind :=
  spec.fixedKinds.getD i (spec.fixedKinds.getLast?.getD .uncheckedOneOrMore)

theorem kindAt_of_lt {spec : CommandSpec} {i : Nat} (h : i < spec.fixedKinds.length) :
    spec.fixedKinds[i]? = some (spec.kindAt i) := by
  rw [kindAt, List.getD_eq_getElem?_getD, List.getElem?_eq_getElem h, Option.getD_some]

theorem kindAt_of_le {spec : CommandSpec} {i : Nat} (h : spec.fixedKinds.length ≤ i) :
    spec.kindAt i = spec.fixedKinds.getLast?.getD .uncheckedOneOrMore := by
  rw [kindAt, List.getD_eq_getElem?_getD, List.getElem?_eq_none h, Option.getD_none]

theorem lt_of_acceptsArity {spec : CommandSpec} {n i : Nat} (hfixed : spec.isVariadic = false)
    (harity : spec.acceptsArity n = true) (hi : i < n) : i < spec.fixedKinds.length := by
  rw [fixedKinds_of_fixed hfixed]
  exact Nat.lt_of_lt_of_le hi ((acceptsArity_iff.mp harity).2 hfixed)

/-- Every word of a command becomes the argument in its place. -/
theorem Binds.exists_argument {spec : CommandSpec} {words : List String}
    {arguments : List Argument} (h : Binds tree spec words arguments)
    (harity : spec.acceptsArity words.length = true) {i : Nat} {word : String}
    (hword : words[i]? = some word) :
    ∃ reference argument, arguments[i]? = some argument ∧
      validate tree (spec.kindAt i) reference word = .ok argument := by
  have hi : i < words.length := (List.getElem?_eq_some_iff.mp hword).1
  cases h with
  | fixed hfixed hchecks =>
      exact hchecks.exists_argument (kindAt_of_lt (lt_of_acceptsArity hfixed harity hi)) hword
  | @variadic front rest last _ hchecks hrest =>
      by_cases hplace : i < spec.fixedKinds.length
      · rcases hchecks.exists_argument (kindAt_of_lt hplace) hword with
          ⟨reference, argument, hargument, hvalid⟩
        refine ⟨reference, argument, ?_, hvalid⟩
        rw [List.getElem?_append_left (by rw [hchecks.length]; exact hplace)]
        exact hargument
      · -- a further word stands that many places behind the last fixed one
        have hbehind := Nat.le_of_not_lt hplace
        have hdropped : (words.drop spec.fixedKinds.length)[i - spec.fixedKinds.length]? =
            some word := by
          rw [List.getElem?_drop, Nat.add_sub_cancel' hbehind, hword]
        rcases List.getElem?_eq_some_iff.mp hdropped with ⟨hlt, hget⟩
        rcases List.forall₂_iff_get.mp hrest with ⟨hsame, hvalid⟩
        have hlt' : i - spec.fixedKinds.length < rest.length := hsame ▸ hlt
        refine ⟨last, rest[i - spec.fixedKinds.length], ?_, ?_⟩
        · rw [List.getElem?_append_right (by rw [hchecks.length]; exact hbehind), hchecks.length,
            List.getElem?_eq_getElem hlt']
        · rw [kindAt_of_le hbehind, ← hget]
          exact hvalid _ hlt hlt'

end CommandSpec

/-!
## The words of a task
-/

/-- The words of a task as they are written, behind its keyword and its flags. -/
def Task.words (task : Task) : List String :=
  ((splitOn ' ' task.source.toList).tail.map String.ofList).dropWhile
    (CommandSpec.isFlag task.operation.acceptedFlags)

namespace Parse

variable {tree : FileTree} {table : CommandTable}

theorem source_of_ofWords {source keyword : String} {words : List String} {task : Task}
    (h : ofWords tree table source keyword words = .ok task) : task.source = source := by
  rcases ofWords_eq_ok_iff.mp h with ⟨spec, options, arguments, -, rfl⟩
  rfl

/-- The arguments of a task are its words, bound to a signature of its operation. -/
theorem exists_spec_of_segment {s : List Char} {task : Task}
    (h : segment tree table s = .ok (some task)) :
    ∃ spec ∈ table.specs, task.operation = spec.operation ∧
      spec.acceptsArity task.words.length = true ∧
      CommandSpec.Binds tree spec task.words task.arguments := by
  rcases segment_eq_some_iff.mp h with ⟨-, -, keyword, words, hsplit, hwords⟩
  rcases exists_spec_of_ofWords hwords with ⟨spec, hspec, -, -, hoperation, hread⟩
  rcases CommandSpec.read_eq_ok_iff.mp hread with ⟨rest, hflags, harity, hbinds⟩
  have hrest : task.words = rest := by
    rw [Task.words, source_of_ofWords hwords, String.toList_ofList, hsplit, List.tail_cons,
      hoperation, ← CommandSpec.takeFlags_words _ spec.impliedOptions, hflags]
  rw [hrest]
  exact ⟨spec, hspec, hoperation, harity, hbinds⟩

theorem exists_spec_of_line {text : String} {job : Job} {task : Task}
    (h : line tree table text = .ok (some job)) (hmem : task ∈ job.tasks) :
    ∃ spec ∈ table.specs, task.operation = spec.operation ∧
      spec.acceptsArity task.words.length = true ∧
      CommandSpec.Binds tree spec task.words task.arguments := by
  rcases exists_segment_of_mem_tasks (reads_of_line h) hmem with ⟨s, -, hsegment⟩
  exact exists_spec_of_segment hsegment

/-- No word of a standard command is empty. -/
theorem isWord_of_mem_words {text : String} {job : Job} {task : Task}
    (h : line tree .standard text = .ok (some job)) (hmem : task ∈ job.tasks) :
    ∀ word ∈ task.words, IsWord word.toList := by
  have hprepared := prepared_prepareChars text.toList
  rcases exists_segment_of_mem_tasks (reads_of_line h) hmem with ⟨s, hs, hsegment⟩
  rcases segment_eq_some_iff.mp hsegment with ⟨-, -, keyword, words, hsplit, hwords⟩
  have hwords' := isWord_of_segment hprepared
    (isInfix_of_spells (spells_split hprepared.toTrimmed) s hs)
    (short_split hprepared.toTrimmed s hs) hsegment hsplit
  intro word hword
  have hmem' := (List.dropWhile_suffix _).subset hword
  rw [source_of_ofWords hwords, String.toList_ofList, hsplit, List.tail_cons,
    List.mem_map] at hmem'
  rcases hmem' with ⟨letters, hletters, rfl⟩
  rw [String.toList_ofList]
  exact hwords' letters hletters

end Parse
end BulkTransfer
