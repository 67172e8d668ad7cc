import BulkTransfer.Proofs.Parse.Chains

/-!
# From segments to tasks

The first signature of a keyword that takes the words of a segment makes the task.  A
segment that is no comment either becomes a task or is refused.
-/

namespace BulkTransfer

open Text Chain

/-!
## The first signature
-/

namespace CommandSpec

variable {tree : FileTree} {words : List String}

/-- A signature makes nothing of some words. -/
def Refuses (tree : FileTree) (words : List String) (spec : CommandSpec) : Prop :=
  ∀ outcome, spec.read tree words ≠ some (.ok outcome)

theorem firstAccepted_eq_ok_iff {specs : List CommandSpec} {lastError : Option ValidationError}
    {spec : CommandSpec} {options : Options} {arguments : List Argument} :
    firstAccepted tree words specs lastError = .ok (spec, options, arguments) ↔
      ∃ earlier later, specs = earlier ++ spec :: later ∧
        (∀ other ∈ earlier, other.Refuses tree words) ∧
        spec.read tree words = some (.ok (options, arguments)) := by
  constructor
  · intro h
    induction specs generalizing lastError with
    | nil => cases h
    | cons first specs ih =>
        have hskip : ∀ lastError, first.Refuses tree words →
            firstAccepted tree words specs lastError = .ok (spec, options, arguments) →
            ∃ earlier later, first :: specs = earlier ++ spec :: later ∧
              (∀ other ∈ earlier, other.Refuses tree words) ∧
              spec.read tree words = some (.ok (options, arguments)) := by
          intro lastError hfirst h
          rcases ih h with ⟨earlier, later, hspecs, hearlier, hread⟩
          refine ⟨first :: earlier, later, by rw [hspecs, List.cons_append], ?_, hread⟩
          exact List.forall_mem_cons.mpr ⟨hfirst, hearlier⟩
        rw [firstAccepted] at h
        cases hread : first.read tree words with
        | none =>
            rw [hread] at h
            exact hskip _ (fun outcome hok => by rw [hread] at hok; cases hok) h
        | some outcome =>
            rw [hread] at h
            cases outcome with
            | error error =>
                exact hskip _ (fun outcome hok => by rw [hread] at hok; cases hok) h
            | ok outcome =>
                cases h
                exact ⟨[], specs, rfl, fun _ hmem => absurd hmem List.not_mem_nil, hread⟩
  · rintro ⟨earlier, later, rfl, hearlier, hread⟩
    induction earlier generalizing lastError with
    | nil => rw [List.nil_append, firstAccepted, hread]
    | cons first earlier ih =>
        rw [List.forall_mem_cons] at hearlier
        rw [List.cons_append, firstAccepted]
        cases hfirst : first.read tree words with
        | none => exact ih hearlier.2
        | some outcome =>
            cases outcome with
            | error error => exact ih hearlier.2
            | ok outcome => exact absurd hfirst (hearlier.1 outcome)

theorem mem_candidates_iff {table : CommandTable} {keyword : String} {spec : CommandSpec} :
    spec ∈ table.candidates keyword ↔ spec ∈ table.specs ∧ spec.keyword = keyword := by
  rw [CommandTable.candidates, List.mem_filter, beq_iff_eq]

/-- The signature that takes some words stands in the table under their keyword. -/
theorem candidate_of_firstAccepted {table : CommandTable} {keyword : String}
    {lastError : Option ValidationError} {spec : CommandSpec} {options : Options}
    {arguments : List Argument}
    (h : firstAccepted tree words (table.candidates keyword) lastError =
      .ok (spec, options, arguments)) :
    spec ∈ table.specs ∧ spec.keyword = keyword ∧
      spec.read tree words = some (.ok (options, arguments)) := by
  rcases firstAccepted_eq_ok_iff.mp h with ⟨earlier, later, hspecs, -, hread⟩
  have hmem : spec ∈ table.candidates keyword := by
    rw [hspecs]
    exact List.mem_append_right _ List.mem_cons_self
  rcases mem_candidates_iff.mp hmem with ⟨htable, hkeyword⟩
  exact ⟨htable, hkeyword, hread⟩

end CommandSpec

/-!
## Segments
-/

theorem Chain.hasOperator_eq_false_iff {s : List Char} :
    hasOperator s = false ↔ ¬ andWord <:+: s ∧ ¬ orWord <:+: s := by
  rw [hasOperator, Bool.or_eq_false_iff, contains_eq_false_iff, contains_eq_false_iff]

namespace Parse

variable {tree : FileTree} {table : CommandTable} {s : List Char} {task : Task}

theorem ofWords_eq_ok_iff {source keyword : String} {words : List String} :
    ofWords tree table source keyword words = .ok task ↔
      ∃ spec options arguments,
        CommandSpec.firstAccepted tree words (table.candidates keyword) none =
          .ok (spec, options, arguments) ∧
        task = { source := source, keyword := keyword, operation := spec.operation,
                 options := options, arguments := arguments } := by
  rw [ofWords]
  cases hfirst : CommandSpec.firstAccepted tree words (table.candidates keyword) none with
  | error lastError =>
      constructor
      · intro h
        cases hkeyword : table.hasKeyword keyword with
        | true => simp only [hkeyword, if_true, reduceCtorEq] at h
        | false => simp only [hkeyword, Bool.false_eq_true, if_false, reduceCtorEq] at h
      · rintro ⟨_, _, _, h, -⟩
        cases h
  | ok outcome =>
      rcases outcome with ⟨spec, options, arguments⟩
      constructor
      · intro h
        cases h
        exact ⟨spec, options, arguments, rfl, rfl⟩
      · rintro ⟨_, _, _, h, rfl⟩
        cases h
        rfl

theorem segment_eq_none_iff :
    segment tree table s = .ok none ↔ s = [] ∨ s.head? = some '#' := by
  rw [segment]
  split
  · rename_i hnone
    rw [Bool.or_eq_true, List.isEmpty_iff, beq_iff_eq] at hnone
    exact ⟨fun _ => hnone, fun _ => rfl⟩
  · rename_i hsome
    rw [Bool.or_eq_true, List.isEmpty_iff, beq_iff_eq] at hsome
    refine ⟨fun h => ?_, fun h => absurd h hsome⟩
    split at h
    · cases h
    · split at h
      · rename_i hpieces
        exact absurd (List.map_eq_nil_iff.mp hpieces) (splitOn_ne_nil ' ' s)
      · rename_i keyword words _
        cases hwords : ofWords tree table (String.ofList s) keyword words with
        | error error => rw [hwords] at h; cases h
        | ok task => rw [hwords] at h; cases h

theorem segment_eq_some_iff :
    segment tree table s = .ok (some task) ↔
      Plain s ∧ s.head? ≠ some '#' ∧ ∃ keyword words, splitOn ' ' s = keyword :: words ∧
        ofWords tree table (String.ofList s) (String.ofList keyword) (words.map String.ofList) =
          .ok task := by
  rw [segment]
  by_cases hnone : s = [] ∨ s.head? = some '#'
  · rw [if_pos (by rwa [Bool.or_eq_true, List.isEmpty_iff, beq_iff_eq])]
    constructor
    · intro h
      cases h
    · rintro ⟨hplain, hcomment, -⟩
      exact absurd hnone (not_or.mpr ⟨hplain.ne_nil, hcomment⟩)
  · rw [if_neg (by rwa [Bool.or_eq_true, List.isEmpty_iff, beq_iff_eq])]
    rw [not_or] at hnone
    cases hoperator : hasOperator s with
    | true =>
        rw [if_pos rfl]
        constructor
        · intro h
          cases h
        · rintro ⟨hplain, -⟩
          rw [hasOperator_eq_false_iff.mpr ⟨hplain.andFree, hplain.orFree⟩] at hoperator
          cases hoperator
    | false =>
        rw [if_neg Bool.false_ne_true]
        rw [hasOperator_eq_false_iff] at hoperator
        have hplain : Plain s := ⟨hnone.1, hoperator.1, hoperator.2⟩
        cases hpieces : splitOn ' ' s with
        | nil => exact absurd hpieces (splitOn_ne_nil ' ' s)
        | cons keyword words =>
            rw [List.map_cons]
            show Except.map some (ofWords tree table (String.ofList s) (String.ofList keyword)
              (words.map String.ofList)) = .ok (some task) ↔ _
            constructor
            · intro h
              cases hwords : ofWords tree table (String.ofList s) (String.ofList keyword)
                  (words.map String.ofList) with
              | error error => rw [hwords] at h; cases h
              | ok found =>
                  rw [hwords] at h
                  cases h
                  exact ⟨hplain, hnone.2, keyword, words, rfl, hwords⟩
            · rintro ⟨-, -, _, _, hsame, hwords⟩
              cases hsame
              rw [hwords]
              rfl

theorem plain_of_segment (h : segment tree table s = .ok (some task)) : Plain s :=
  (segment_eq_some_iff.mp h).1

/-- The signature that makes a task stands in the table under the task's keyword. -/
theorem exists_spec_of_ofWords {source keyword : String} {words : List String}
    (h : ofWords tree table source keyword words = .ok task) :
    ∃ spec ∈ table.specs, spec.keyword = keyword ∧ task.keyword = keyword ∧
      task.operation = spec.operation ∧
      spec.read tree words = some (.ok (task.options, task.arguments)) := by
  rcases ofWords_eq_ok_iff.mp h with ⟨spec, options, arguments, hfirst, rfl⟩
  rcases CommandSpec.candidate_of_firstAccepted hfirst with ⟨hspec, hkeyword, hread⟩
  exact ⟨spec, hspec, hkeyword, rfl, rfl, hread⟩

/-!
## The standard keywords
-/

theorem standard_keyword_head : ∀ spec ∈ CommandTable.standard.specs,
    ∃ c, spec.keyword.toList.head? = some c ∧ c ≠ '&' ∧ c ≠ '|' ∧ c ≠ '#' := by
  have hheads : ∀ spec ∈ CommandTable.standard.specs,
      spec.keyword.toList.head?.any (fun c => c ≠ '&' ∧ c ≠ '|' ∧ c ≠ '#') = true := by
    decide +kernel
  intro spec hspec
  rcases (Option.any_eq_true _ _).mp (hheads spec hspec) with ⟨c, hc, hfree⟩
  exact ⟨c, hc, of_decide_eq_true hfree⟩

/-- A segment that is read with the standard table begins with no operator character. -/
theorem head?_of_segment_standard (h : segment tree .standard s = .ok (some task)) :
    s.head? ≠ some '&' ∧ s.head? ≠ some '|' := by
  rcases segment_eq_some_iff.mp h with ⟨hplain, -, keyword, words, hpieces, hwords⟩
  rcases exists_spec_of_ofWords hwords with ⟨spec, hmem, hkeyword, -⟩
  rcases standard_keyword_head spec hmem with ⟨c, hhead, hand, hor, -⟩
  rw [hkeyword, String.toList_ofList] at hhead
  rw [(pair_infix_of_head_splitOn hpieces).1 hhead]
  exact ⟨fun h => hand (Option.some.inj h), fun h => hor (Option.some.inj h)⟩

end Parse
end BulkTransfer
