import BulkTransfer.Job.Parse
import BulkTransfer.Proofs.Parse.Prepared

/-!
# Preparing a line

Preparing keeps the words of a line in front of its comment, with one space between
neighbours.  What one step has removed no later step brings back: behind a removed comment and
removed outer blanks, single spaces make neither a new comment nor a new outer blank.  So a
prepared line is prepared already, and it is read as the line itself is.
-/

namespace BulkTransfer
namespace Chain

open Text

/-!
## Words
-/

/-- The words between spaces. -/
def words (s : List Char) : List (List Char) :=
  (splitOn ' ' s).filter fun word => !word.isEmpty

theorem collapseSpaces_eq (s : List Char) : collapseSpaces s = joinWith ' ' (words s) := rfl

theorem not_mem_of_mem_words {s word : List Char} (h : word ∈ words s) : ' ' ∉ word :=
  not_mem_of_mem_splitOn (List.mem_filter.mp h).1

/-- A text with single spaces is cut into its words, unless it has none. -/
theorem splitOn_collapseSpaces {s : List Char} (h : collapseSpaces s ≠ []) :
    splitOn ' ' (collapseSpaces s) = words s := by
  have hne : words s ≠ [] := by
    intro hnil
    rw [collapseSpaces_eq, hnil] at h
    exact h rfl
  exact splitOn_joinWith hne fun word => not_mem_of_mem_words

theorem words_collapseSpaces (s : List Char) : words (collapseSpaces s) = words s := by
  by_cases h : collapseSpaces s = []
  · cases hwords : words s with
    | nil =>
        rw [h]
        rfl
    | cons word rest =>
        have hword : word ∈ words s := by rw [hwords]; exact List.mem_cons_self
        have hinner : word <:+: joinWith ' ' (words s) := isInfix_of_mem_joinWith hword
        rw [← collapseSpaces_eq, h, List.infix_nil] at hinner
        have hkept := (List.mem_filter.mp hword).2
        rw [hinner] at hkept
        cases hkept
  · rw [words, splitOn_collapseSpaces h, words, List.filter_filter]
    simp only [Bool.and_self]

/-!
## Comments
-/

/-- A text is cut where a word occurs first. -/
theorem exists_behind (word s : List Char) :
    ∃ behind, s = before word s ++ behind ∧ (behind = [] ∨ word <+: behind) := by
  induction s with
  | nil => exact ⟨[], rfl, .inl rfl⟩
  | cons c s ih =>
      rw [before]
      split
      · rename_i hstart
        exact ⟨c :: s, rfl, .inr (List.isPrefixOf_iff_prefix.mp hstart)⟩
      · rcases ih with ⟨behind, hcut, hbehind⟩
        exact ⟨behind, by rw [List.cons_append, ← hcut], hbehind⟩

/-!
## Lines
-/

theorem prepareChars_prepareChars (line : List Char) :
    prepareChars (prepareChars line) = prepareChars line :=
  prepareChars_eq_self (prepared_prepareChars line)

theorem toList_prepare (line : String) : (prepare line).toList = prepareChars line.toList :=
  String.toList_ofList

/-- A prepared line is prepared already.  It has no two neighbouring spaces, no comment and no
blank at its ends, and consists of the words in front of the first ` #` of the line, outer blanks
removed.  It is read as the line itself is. -/
theorem preparing_settles (line : String) :
    prepare (prepare line) = prepare line ∧
    (¬ [' ', ' '] <:+: (prepare line).toList ∧ ¬ [' ', '#'] <:+: (prepare line).toList ∧
      Trimmed (prepare line).toList) ∧
    (∃ front behind left middle right,
      line.toList = front ++ behind ∧ ¬ [' ', '#'] <:+: front ∧
      (behind = [] ∨ [' ', '#'] <+: behind) ∧
      front = left ++ middle ++ right ∧ (∀ c ∈ left ++ right, isBlank c = true) ∧
      Trimmed middle ∧
      words (prepare line).toList = words middle ∧
      (prepare line).toList = joinWith ' ' (words middle) ∧
      ((prepare line).toList ≠ [] → splitOn ' ' (prepare line).toList = words middle)) ∧
    ∀ tree table, Parse.line tree table (prepare line) = Parse.line tree table line := by
  have hprepared := prepared_prepareChars line.toList
  have hagain := prepareChars_prepareChars line.toList
  rw [toList_prepare]
  refine ⟨?_, ⟨hprepared.single, hprepared.uncommented, hprepared.toTrimmed⟩, ?_, ?_⟩
  · rw [prepare, toList_prepare, hagain, prepare]
  · rcases exists_behind " #".toList line.toList with ⟨behind, hcut, hbehind⟩
    rcases exists_trim (before " #".toList line.toList) with ⟨left, right, htrim, hblank⟩
    exact ⟨_, behind, left, _, right, hcut, not_pair_infix_before ' ' '#' line.toList, hbehind,
      htrim, hblank, trimmed_trim _, words_collapseSpaces _, rfl, splitOn_collapseSpaces⟩
  · intro tree table
    rw [Parse.line, Parse.line, toList_prepare, hagain]

end Chain
end BulkTransfer
