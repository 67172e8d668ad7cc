import Mathlib.Data.List.DropRight
import BulkTransfer.Job.Chain
import BulkTransfer.Proofs.Text.Words

/-!
# Prepared lines

A prepared line has no blank at either end, single spaces between its words and no
comment.  Preparing gives such a line, and leaves one that is prepared as it is.
-/

namespace BulkTransfer
namespace Text

/-!
## Trimmed text
-/

/-- A text that neither starts nor ends with a blank. -/
structure Trimmed (s : List Char) : Prop where
  front : ∀ c, s.head? = some c → isBlank c = false
  back : ∀ c, s.getLast? = some c → isBlank c = false

theorem trim_isPrefix (s : List Char) : trim s <+: trimLeft s :=
  List.rdropWhile_prefix isBlank _

theorem trim_isInfix (s : List Char) : trim s <:+: s := by
  have hleft : trimLeft s <:+ s := List.dropWhile_suffix isBlank
  exact (trim_isPrefix s).isInfix.trans hleft.isInfix

/-- Only blanks are removed, and only at the ends. -/
theorem exists_trim (s : List Char) :
    ∃ left right, s = left ++ trim s ++ right ∧ ∀ c ∈ left ++ right, isBlank c = true := by
  have hleft : s.takeWhile isBlank ++ trimLeft s = s := List.takeWhile_append_dropWhile
  have hright : trim s ++ (trimLeft s).rtakeWhile isBlank = trimLeft s :=
    List.rdropWhile_append_rtakeWhile
  refine ⟨s.takeWhile isBlank, (trimLeft s).rtakeWhile isBlank, ?_, ?_⟩
  · rw [List.append_assoc, hright, hleft]
  · intro c hc
    rcases List.mem_append.mp hc with hc | hc
    · exact List.mem_takeWhile_imp hc
    · exact List.mem_rtakeWhile_imp hc

theorem front_trimLeft {s : List Char} {c : Char} (h : (trimLeft s).head? = some c) :
    isBlank c = false := by
  have hnot := List.head?_dropWhile_not isBlank s
  change (s.dropWhile isBlank).head? = some c at h
  rw [h] at hnot
  simpa using hnot

theorem back_trimRight {s : List Char} {c : Char} (h : (trimRight s).getLast? = some c) :
    isBlank c = false := by
  rw [trimRight, List.getLast?_reverse] at h
  exact front_trimLeft h

theorem trimmed_trim (s : List Char) : Trimmed (trim s) := by
  constructor
  · intro c hc
    rcases trim_isPrefix s with ⟨t, ht⟩
    have hhead : (trimLeft s).head? = some c := by
      rw [← ht, List.head?_append, hc]
      rfl
    exact front_trimLeft hhead
  · intro c hc
    exact back_trimRight hc

theorem Trimmed.trimLeft_eq {s : List Char} (h : Trimmed s) : trimLeft s = s := by
  cases s with
  | nil => rfl
  | cons c s => exact trimLeft_eq_self_of_head (h.front c rfl)

theorem Trimmed.reverse {s : List Char} (h : Trimmed s) : Trimmed s.reverse := by
  constructor
  · intro c hc
    rw [List.head?_reverse] at hc
    exact h.back c hc
  · intro c hc
    rw [List.getLast?_reverse] at hc
    exact h.front c hc

theorem Trimmed.trim_eq {s : List Char} (h : Trimmed s) : trim s = s := by
  have hreverse : s.reverse.dropWhile isBlank = s.reverse := h.reverse.trimLeft_eq
  rw [trim, h.trimLeft_eq, trimRight, hreverse, List.reverse_reverse]

theorem isBlank_space : isBlank ' ' = true := by decide

theorem Trimmed.ne_space {s : List Char} (h : Trimmed s) :
    s.head? ≠ some ' ' ∧ s.getLast? ≠ some ' ' := by
  constructor
  · intro hhead
    exact absurd (h.front ' ' hhead) (by rw [isBlank_space]; exact Bool.noConfusion)
  · intro hlast
    exact absurd (h.back ' ' hlast) (by rw [isBlank_space]; exact Bool.noConfusion)

/-!
## Words with single spaces
-/

theorem head?_joinWith {sep : Char} {word : List Char} (words : List (List Char))
    (h : word ≠ []) : (joinWith sep (word :: words)).head? = word.head? := by
  cases words with
  | nil => rfl
  | cons next rest =>
      rw [joinWith, List.head?_append]
      cases word with
      | nil => exact absurd rfl h
      | cons c word => rfl

theorem getLast?_joinWith {sep : Char} {word : List Char} (words : List (List Char))
    (h : word ≠ []) : (joinWith sep (words ++ [word])).getLast? = word.getLast? := by
  induction words with
  | nil => rfl
  | cons first words ih =>
      have hne : words ++ [word] ≠ [] := by simp
      have hjoin : joinWith sep (words ++ [word]) ≠ [] := by
        intro hnil
        rw [hnil] at ih
        exact h (List.getLast?_eq_none_iff.mp ih.symm)
      rw [List.cons_append, joinWith_cons sep first hne, List.getLast?_append,
        List.getLast?_cons_of_ne_nil hjoin, ih]
      cases hlast : word.getLast? with
      | none => exact absurd (List.getLast?_eq_none_iff.mp hlast) h
      | some c => rfl

/-- Behind a separator stands the beginning of a word. -/
theorem not_pair_infix_joinWith {sep y : Char} {words : List (List Char)}
    (hfree : ∀ word ∈ words, sep ∉ word) (hne : ∀ word ∈ words, word ≠ [])
    (hy : ∀ word ∈ words.tail, word.head? ≠ some y) : ¬ [sep, y] <:+: joinWith sep words := by
  induction words with
  | nil =>
      rw [joinWith, List.infix_nil]
      exact List.cons_ne_nil _ _
  | cons word words ih =>
      rw [List.forall_mem_cons] at hfree hne
      cases words with
      | nil => exact not_pair_infix_of_not_mem hfree.1
      | cons next rest =>
          have hnext : next ≠ [] := hne.2 next List.mem_cons_self
          have htail : ¬ [sep, y] <:+: joinWith sep (next :: rest) :=
            ih hfree.2 hne.2 fun w hw => hy w (List.mem_cons_of_mem _ hw)
          rw [joinWith_cons sep word (List.cons_ne_nil _ _), pair_infix_append,
            List.infix_cons_iff, pair_prefix_cons, head?_joinWith rest hnext]
          rintro (hword | (hmeet | hrest) | hlast)
          · exact not_pair_infix_of_not_mem hfree.1 hword
          · exact hy next List.mem_cons_self hmeet.2
          · exact htail hrest
          · exact hfree.1 (List.mem_of_getLast? hlast.1)

theorem exists_last_piece {sep c : Char} {s : List Char} (h : s.getLast? = some c)
    (hc : c ≠ sep) : ∃ front last, splitOn sep s = front ++ [last] ∧ last.getLast? = some c := by
  induction s with
  | nil => cases h
  | cons d s ih =>
      cases s with
      | nil =>
          rw [List.getLast?_singleton, Option.some.injEq] at h
          rw [h]
          refine ⟨[], [c], ?_, rfl⟩
          rw [splitOn_cons, splitOn_nil, consPiece, if_neg hc]
          rfl
      | cons e s =>
          rw [List.getLast?_cons_cons] at h
          rcases ih h with ⟨front, last, hsplit, hlast⟩
          rw [splitOn_cons, hsplit]
          cases front with
          | nil =>
              rw [List.nil_append, consPiece]
              split
              · exact ⟨[[]], last, rfl, hlast⟩
              · refine ⟨[], d :: last, rfl, ?_⟩
                cases last with
                | nil => cases hlast
                | cons a last => rwa [List.getLast?_cons_cons]
          | cons first front =>
              rw [List.cons_append, consPiece]
              split
              · exact ⟨[] :: first :: front, last, rfl, hlast⟩
              · exact ⟨(d :: first) :: front, last, rfl, hlast⟩

theorem splitOn_cons_of_ne {sep c : Char} (s : List Char) (hc : c ≠ sep) :
    ∃ first rest, splitOn sep s = first :: rest ∧ splitOn sep (c :: s) = (c :: first) :: rest := by
  cases h : splitOn sep s with
  | nil => exact absurd h (splitOn_ne_nil sep s)
  | cons first rest => exact ⟨first, rest, rfl, by rw [splitOn_cons, h, consPiece, if_neg hc]⟩

/-- Single separators inside a text leave no piece empty but perhaps the first. -/
theorem ne_nil_of_mem_rest {sep : Char} {s first : List Char} {rest : List (List Char)}
    (hdouble : ¬ [sep, sep] <:+: s) (hlast : s.getLast? ≠ some sep)
    (h : splitOn sep s = first :: rest) : ∀ piece ∈ rest, piece ≠ [] := by
  induction s generalizing first rest with
  | nil =>
      rw [splitOn_nil, List.cons.injEq] at h
      rw [← h.2]
      exact fun _ hmem => absurd hmem List.not_mem_nil
  | cons c s ih =>
      rw [List.infix_cons_iff, not_or, pair_prefix_cons] at hdouble
      have hlast' : s.getLast? ≠ some sep := by
        cases s with
        | nil => exact Option.some_ne_none _ ∘ Eq.symm
        | cons d s => rwa [List.getLast?_cons_cons] at hlast
      by_cases hc : c = sep
      · cases hpieces : splitOn sep s with
        | nil => exact absurd hpieces (splitOn_ne_nil sep s)
        | cons first' rest' =>
            rw [splitOn_cons, hpieces, consPiece, if_pos hc, List.cons.injEq] at h
            rw [← h.2]
            intro piece hmem
            rcases List.mem_cons.mp hmem with rfl | hmem
            · cases s with
              | nil =>
                  rw [hc] at hlast
                  exact absurd rfl hlast
              | cons d s =>
                  have hd : d ≠ sep := fun hd => hdouble.1 ⟨hc.symm, by rw [hd]; rfl⟩
                  rcases splitOn_cons_of_ne s hd with ⟨first'', rest'', -, hsplit⟩
                  rw [hsplit, List.cons.injEq] at hpieces
                  rw [← hpieces.1]
                  exact List.cons_ne_nil _ _
            · exact ih hdouble.2 hlast' hpieces piece hmem
      · rcases splitOn_cons_of_ne s hc with ⟨first', rest', hpieces, hsplit⟩
        rw [hsplit, List.cons.injEq] at h
        rw [← h.2]
        exact ih hdouble.2 hlast' hpieces

end Text

namespace Chain

open Text

/-!
## Preparing
-/

/-- A line without comment, outer blanks and repeated spaces. -/
structure Prepared (s : List Char) : Prop extends Trimmed s where
  single : ¬ [' ', ' '] <:+: s
  uncommented : ¬ [' ', '#'] <:+: s

theorem prepared_nil : Prepared [] where
  front := fun _ h => by cases h
  back := fun _ h => by cases h
  single := fun h => List.cons_ne_nil _ _ (List.infix_nil.mp h)
  uncommented := fun h => List.cons_ne_nil _ _ (List.infix_nil.mp h)

theorem prepared_collapseSpaces {s : List Char} (h : Trimmed s) (hcomment : ¬ [' ', '#'] <:+: s) :
    Prepared (collapseSpaces s) := by
  cases s with
  | nil => exact prepared_nil
  | cons c s =>
      have hc : c ≠ ' ' := fun hc => h.ne_space.1 (by rw [hc]; rfl)
      rcases splitOn_cons_of_ne s hc with ⟨first, rest, -, hsplit⟩
      have hwords : (splitOn ' ' (c :: s)).filter (fun word => !word.isEmpty) =
          (c :: first) :: rest.filter fun word => !word.isEmpty := by
        rw [hsplit]
        rfl
      have hfree : ∀ word ∈ (splitOn ' ' (c :: s)).filter (fun word => !word.isEmpty),
          ' ' ∉ word := by
        intro word hmem
        exact not_mem_of_mem_splitOn (List.mem_filter.mp hmem).1
      have hne : ∀ word ∈ (splitOn ' ' (c :: s)).filter (fun word => !word.isEmpty),
          word ≠ [] := by
        intro word hmem hnil
        have hkept := (List.mem_filter.mp hmem).2
        rw [hnil] at hkept
        cases hkept
      have htail : ∀ word ∈ ((splitOn ' ' (c :: s)).filter fun word => !word.isEmpty).tail,
          word ∈ rest := by
        intro word hmem
        rw [hwords, List.tail_cons] at hmem
        exact (List.mem_filter.mp hmem).1
      constructor
      · constructor
        · intro d hd
          rw [collapseSpaces, hwords, head?_joinWith _ (List.cons_ne_nil _ _)] at hd
          exact h.front d hd
        · intro d hd
          rcases hlast : (c :: s).getLast? with _ | e
          · cases List.getLast?_eq_none_iff.mp hlast
          · have he : e ≠ ' ' := fun he => h.ne_space.2 (by rw [hlast, he])
            rcases exists_last_piece hlast he with ⟨front, last, hpieces, hend⟩
            have hlastne : last ≠ [] := fun hnil => by rw [hnil] at hend; cases hend
            have hkept : (front ++ [last]).filter (fun word => !word.isEmpty) =
                front.filter (fun word => !word.isEmpty) ++ [last] := by
              rw [List.filter_append]
              cases last with
              | nil => exact absurd rfl hlastne
              | cons a last => rfl
            rw [collapseSpaces, hpieces, hkept, getLast?_joinWith _ hlastne, hend,
              Option.some.injEq] at hd
            rw [← hd]
            exact h.back e hlast
      · refine not_pair_infix_joinWith hfree hne fun word hmem hhead => ?_
        exact hfree word (List.mem_of_mem_tail hmem) (List.mem_of_head? hhead)
      · refine not_pair_infix_joinWith hfree hne fun word hmem hhead => ?_
        exact hcomment ((pair_infix_of_head_splitOn hsplit).2 word (htail word hmem) hhead)

theorem prepared_prepareChars (line : List Char) : Prepared (prepareChars line) := by
  refine prepared_collapseSpaces (trimmed_trim _) fun hcomment => ?_
  exact not_pair_infix_before ' ' '#' line (hcomment.trans (trim_isInfix _))

theorem collapseSpaces_eq_self {s : List Char} (h : Prepared s) : collapseSpaces s = s := by
  cases s with
  | nil => rfl
  | cons c s =>
      have hspace := h.toTrimmed.ne_space
      have hc : c ≠ ' ' := fun hc => hspace.1 (by rw [hc]; rfl)
      rcases splitOn_cons_of_ne s hc with ⟨first, rest, -, hsplit⟩
      have hne : ∀ piece ∈ splitOn ' ' (c :: s), piece ≠ [] := by
        rw [hsplit, List.forall_mem_cons]
        exact ⟨List.cons_ne_nil _ _, ne_nil_of_mem_rest h.single hspace.2 hsplit⟩
      have hall : (splitOn ' ' (c :: s)).filter (fun word => !word.isEmpty) =
          splitOn ' ' (c :: s) := by
        rw [List.filter_eq_self]
        intro piece hmem
        cases piece with
        | nil => exact absurd rfl (hne [] hmem)
        | cons a piece => rfl
      rw [collapseSpaces, hall, joinWith_splitOn]

theorem prepareChars_eq_self {s : List Char} (h : Prepared s) : prepareChars s = s := by
  have hbefore : before " #".toList s = s := before_eq_self h.uncommented
  rw [prepareChars, hbefore, h.toTrimmed.trim_eq, collapseSpaces_eq_self h]

/-- Preparing adds no character but spaces. -/
theorem mem_of_mem_prepareChars {c : Char} {line : List Char} (h : c ∈ prepareChars line) :
    c = ' ' ∨ c ∈ line := by
  rcases mem_of_mem_joinWith h with h | ⟨word, hword, hc⟩
  · exact Or.inl h
  · have htrim : c ∈ trim (before " #".toList line) :=
      mem_of_mem_splitOn (List.mem_filter.mp hword).1 hc
    exact Or.inr ((before_isPrefix _ _).subset ((trim_isInfix _).subset htrim))

end Chain
end BulkTransfer
