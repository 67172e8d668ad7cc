import Mathlib.Data.List.Infix
import BulkTransfer.Text.Blank
import BulkTransfer.Text.Segment

/-!
# Words in a text

A word of two characters that occurs in a joined text occurs in one of its parts or
where they meet.  The pieces between separators hold no separator, and what stands
behind a separator in the text begins the next piece.
-/

namespace BulkTransfer
namespace Text

/-!
## Occurrences
-/

theorem contains_eq_true_iff {word s : List Char} : contains word s = true ↔ word <:+: s := by
  induction s with
  | nil => rw [contains, List.isEmpty_iff, List.infix_nil]
  | cons c s ih =>
      rw [contains, Bool.or_eq_true, ih, List.isPrefixOf_iff_prefix, List.infix_cons_iff]

theorem contains_eq_false_iff {word s : List Char} :
    contains word s = false ↔ ¬ word <:+: s := by
  rw [← contains_eq_true_iff, Bool.not_eq_true]

theorem pair_prefix_cons {x y c : Char} {s : List Char} :
    [x, y] <+: c :: s ↔ x = c ∧ s.head? = some y := by
  cases s with
  | nil =>
      rw [List.cons_prefix_cons, List.prefix_nil]
      simp
  | cons d s =>
      rw [List.cons_prefix_cons, List.cons_prefix_cons]
      simp [eq_comm]

/-- Two neighbours in a joined text are neighbours in a part, or meet where it is joined. -/
theorem pair_infix_append {x y : Char} {s t : List Char} :
    [x, y] <:+: s ++ t ↔
      [x, y] <:+: s ∨ [x, y] <:+: t ∨ (s.getLast? = some x ∧ t.head? = some y) := by
  induction s with
  | nil => simp
  | cons c s ih =>
      rw [List.cons_append, List.infix_cons_iff, List.infix_cons_iff, ih, pair_prefix_cons,
        pair_prefix_cons]
      cases s with
      | nil =>
          have hcomm : x = c ↔ c = x := eq_comm
          simp only [List.nil_append, List.head?_nil, List.getLast?_nil, List.infix_nil,
            List.getLast?_singleton, Option.some.injEq, hcomm]
          simp [or_comm]
      | cons d s =>
          rw [List.getLast?_cons_cons, List.cons_append]
          simp only [List.head?_cons]
          tauto

theorem not_pair_infix_of_not_mem {x y : Char} {s : List Char} (h : x ∉ s) :
    ¬ [x, y] <:+: s :=
  fun hinner => h (hinner.subset List.mem_cons_self)

/-- The only occurrence of a doubled character in a text is the one that its parts leave. -/
theorem double_position {x : Char} {s t front behind : List Char} (hs : ¬ [x, x] <:+: s)
    (ht : ¬ [x, x] <:+: t) (hlast : s.getLast? ≠ some x) (hhead : t.head? ≠ some x)
    (h : s ++ [x, x] ++ t = front ++ [x, x] ++ behind) : front = s := by
  induction front generalizing s with
  | nil =>
      cases s with
      | nil => rfl
      | cons c s =>
          cases s with
          | nil =>
              simp only [List.nil_append, List.cons_append, List.cons.injEq] at h
              exact absurd (by rw [h.1]; rfl) hlast
          | cons d s =>
              simp only [List.nil_append, List.cons_append, List.cons.injEq] at h
              exact absurd ⟨[], s, by rw [h.1, h.2.1]; rfl⟩ hs
  | cons c front ih =>
      cases s with
      | nil =>
          exfalso
          simp only [List.nil_append, List.cons_append, List.cons.injEq] at h
          cases front with
          | nil =>
              simp only [List.nil_append, List.cons_append, List.cons.injEq] at h
              exact hhead (by rw [h.2.2]; rfl)
          | cons d front =>
              simp only [List.cons_append, List.cons.injEq] at h
              exact ht ⟨front, behind, by rw [h.2.2]⟩
      | cons d s =>
          simp only [List.cons_append, List.cons.injEq] at h
          have hs' : ¬ [x, x] <:+: s := fun hinner => hs (List.infix_cons hinner)
          have hlast' : s.getLast? ≠ some x := by
            cases s with
            | nil => simp
            | cons e s => rwa [List.getLast?_cons_cons] at hlast
          have htail : s ++ [x, x] ++ t = front ++ [x, x] ++ behind := by
            simpa using h.2
          rw [h.1, ih hs' hlast' htail]

/-- A word of the front part does not stand in front of a word of the back part. -/
theorem not_before {word word' s t front middle behind : List Char} (hs : ¬ word <:+: s)
    (ht : ¬ word' <:+: t) : s ++ t ≠ (front ++ word) ++ (middle ++ (word' ++ behind)) := by
  intro h
  rcases List.append_eq_append_iff.mp h with ⟨extra, -, hrest⟩ | ⟨extra, hextra, -⟩
  · refine ht ?_
    rw [hrest]
    exact (List.prefix_append _ _).isInfix.trans ((List.suffix_append _ _).isInfix.trans
      (List.suffix_append _ _).isInfix)
  · refine hs ?_
    rw [hextra]
    exact (List.suffix_append _ _).isInfix.trans (List.prefix_append _ _).isInfix

/-- A doubled character that its parts leave once does not occur a second time behind
the first. -/
theorem not_double_apart {x : Char} {s t front middle behind : List Char}
    (hs : ¬ [x, x] <:+: s) (ht : ¬ [x, x] <:+: t) (hhead : t.head? ≠ some x) :
    s ++ ([x, x] ++ t) ≠ (front ++ [x, x]) ++ (middle ++ ([x, x] ++ behind)) := by
  intro h
  rcases List.append_eq_append_iff.mp h with ⟨extra, hfront, hrest⟩ | ⟨extra, hextra, -⟩
  · have hlater : [x, x] <:+: middle ++ ([x, x] ++ behind) :=
      (List.prefix_append _ _).isInfix.trans (List.suffix_append _ _).isInfix
    cases extra with
    | nil =>
        rw [List.append_nil] at hfront
        exact hs (hfront ▸ (List.suffix_append _ _).isInfix)
    | cons c extra =>
        have htail : x :: t = extra ++ (middle ++ ([x, x] ++ behind)) := (List.cons.inj hrest).2
        have hinner : [x, x] <:+: x :: t := by
          rw [htail]
          exact hlater.trans (List.suffix_append _ _).isInfix
        rcases List.infix_cons_iff.mp hinner with hstart | hinner
        · exact hhead (pair_prefix_cons.mp hstart).2
        · exact ht hinner
  · refine hs ?_
    rw [hextra]
    exact (List.suffix_append _ _).isInfix.trans (List.prefix_append _ _).isInfix

theorem not_pair_infix_append {x y : Char} {s t : List Char} (hs : ¬ [x, y] <:+: s)
    (ht : ¬ [x, y] <:+: t) (h : t.head? ≠ some y) : ¬ [x, y] <:+: s ++ t := by
  rw [pair_infix_append]
  rintro (hinner | hinner | ⟨-, hhead⟩)
  · exact hs hinner
  · exact ht hinner
  · exact h hhead

/-- What stands in front of the first occurrence of a word. -/
theorem before_isPrefix (word s : List Char) : before word s <+: s := by
  induction s with
  | nil => exact List.prefix_rfl
  | cons c s ih =>
      rw [before]
      split
      · exact List.nil_prefix
      · exact List.cons_prefix_cons.mpr ⟨rfl, ih⟩

theorem not_pair_infix_before (x y : Char) (s : List Char) : ¬ [x, y] <:+: before [x, y] s := by
  induction s with
  | nil =>
      rw [before, List.infix_nil]
      exact List.cons_ne_nil _ _
  | cons c s ih =>
      rw [before]
      split
      · rw [List.infix_nil]
        exact List.cons_ne_nil _ _
      · rename_i hstart
        rw [List.infix_cons_iff]
        rintro (hfront | hinner)
        · have hwhole : [x, y] <+: c :: s :=
            hfront.trans (List.cons_prefix_cons.mpr ⟨rfl, before_isPrefix _ s⟩)
          exact hstart (List.isPrefixOf_iff_prefix.mpr hwhole)
        · exact ih hinner

theorem before_eq_self {word s : List Char} (h : ¬ word <:+: s) : before word s = s := by
  induction s with
  | nil => rfl
  | cons c s ih =>
      rw [List.infix_cons_iff, not_or] at h
      rw [before, if_neg, ih h.2]
      rw [List.isPrefixOf_iff_prefix]
      exact h.1

/-!
## Pieces
-/

theorem splitOn_of_not_mem {sep : Char} {s : List Char} (h : sep ∉ s) : splitOn sep s = [s] := by
  induction s with
  | nil => rfl
  | cons c s ih =>
      rw [List.mem_cons, not_or] at h
      rw [splitOn_cons, ih h.2, consPiece, if_neg (Ne.symm h.1)]

theorem splitOn_append (sep : Char) (s t : List Char) :
    splitOn sep (s ++ sep :: t) = splitOn sep s ++ splitOn sep t := by
  induction s with
  | nil =>
      rw [List.nil_append, splitOn_cons]
      cases hpieces : splitOn sep t with
      | nil => exact absurd hpieces (splitOn_ne_nil sep t)
      | cons piece pieces =>
          rw [consPiece, if_pos rfl]
          rfl
  | cons c s ih =>
      rw [List.cons_append, splitOn_cons, ih, splitOn_cons]
      cases hpieces : splitOn sep s with
      | nil => exact absurd hpieces (splitOn_ne_nil sep s)
      | cons piece pieces =>
          by_cases hc : c = sep
          · simp only [List.cons_append, consPiece, if_pos hc]
          · simp only [List.cons_append, consPiece, if_neg hc]

theorem splitOn_append_sep {sep : Char} {s : List Char} (t : List Char) (h : sep ∉ s) :
    splitOn sep (s ++ sep :: t) = s :: splitOn sep t := by
  rw [splitOn_append, splitOn_of_not_mem h, List.singleton_append]

theorem joinWith_cons (sep : Char) (piece : List Char) {pieces : List (List Char)}
    (h : pieces ≠ []) : joinWith sep (piece :: pieces) = piece ++ sep :: joinWith sep pieces := by
  cases pieces with
  | nil => exact absurd rfl h
  | cons next rest => rfl

/-- Texts in a row share a piece: the last one of the first and the first one of the second. -/
theorem joinWith_append (sep : Char) (front : List (List Char)) (last first : List Char)
    (rest : List (List Char)) :
    joinWith sep (front ++ [last]) ++ joinWith sep (first :: rest) =
      joinWith sep (front ++ (last ++ first) :: rest) := by
  induction front with
  | nil =>
      cases rest with
      | nil => rfl
      | cons next rest =>
          rw [List.nil_append, List.nil_append, joinWith_cons sep first (List.cons_ne_nil _ _),
            joinWith_cons sep (last ++ first) (List.cons_ne_nil _ _), List.append_assoc]
          rfl
  | cons piece front ih =>
      rw [List.cons_append, List.cons_append, joinWith_cons sep piece (by simp),
        joinWith_cons sep piece (by simp), List.append_assoc, List.cons_append, ih]

theorem splitOn_joinWith {sep : Char} {pieces : List (List Char)} (hne : pieces ≠ [])
    (h : ∀ piece ∈ pieces, sep ∉ piece) : splitOn sep (joinWith sep pieces) = pieces := by
  induction pieces with
  | nil => exact absurd rfl hne
  | cons piece pieces ih =>
      rw [List.forall_mem_cons] at h
      by_cases hpieces : pieces = []
      · rw [hpieces]
        exact splitOn_of_not_mem h.1
      · rw [joinWith_cons sep piece hpieces, splitOn_append_sep _ h.1, ih hpieces h.2]

theorem not_mem_of_mem_splitOn {sep : Char} {s piece : List Char} (h : piece ∈ splitOn sep s) :
    sep ∉ piece := by
  induction s generalizing piece with
  | nil =>
      rw [splitOn_nil, List.mem_singleton] at h
      rw [h]
      exact List.not_mem_nil
  | cons c s ih =>
      rw [splitOn_cons] at h
      cases hpieces : splitOn sep s with
      | nil => exact absurd hpieces (splitOn_ne_nil sep s)
      | cons first rest =>
          rw [hpieces] at h ih
          have hfirst : sep ∉ first := ih List.mem_cons_self
          have hrest : ∀ {piece}, piece ∈ rest → sep ∉ piece :=
            fun hmem => ih (List.mem_cons_of_mem _ hmem)
          rw [consPiece] at h
          split at h
          · rcases List.mem_cons.mp h with rfl | h
            · exact List.not_mem_nil
            · rcases List.mem_cons.mp h with rfl | h
              · exact hfirst
              · exact hrest h
          · rename_i hc
            rcases List.mem_cons.mp h with rfl | h
            · rw [List.mem_cons, not_or]
              exact ⟨Ne.symm hc, hfirst⟩
            · exact hrest h

/-- What a piece begins with stands in front of the text or behind a separator. -/
theorem pair_infix_of_head_splitOn {sep y : Char} {s first : List Char} {rest : List (List Char)}
    (h : splitOn sep s = first :: rest) :
    (first.head? = some y → s.head? = some y) ∧
      ∀ piece ∈ rest, piece.head? = some y → [sep, y] <:+: s := by
  induction s generalizing first rest with
  | nil =>
      rw [splitOn_nil, List.cons.injEq] at h
      rw [← h.1, ← h.2]
      exact ⟨id, fun _ hmem => absurd hmem List.not_mem_nil⟩
  | cons c s ih =>
      rw [splitOn_cons] at h
      cases hpieces : splitOn sep s with
      | nil => exact absurd hpieces (splitOn_ne_nil sep s)
      | cons first' rest' =>
          rcases ih hpieces with ⟨hfirst, hrest⟩
          rw [hpieces, consPiece] at h
          split at h
          · rename_i hc
            rw [List.cons.injEq] at h
            rw [← h.1, ← h.2]
            constructor
            · intro hhead
              cases hhead
            · intro piece hmem hhead
              rcases List.mem_cons.mp hmem with rfl | hmem
              · exact List.infix_cons_iff.mpr
                  (Or.inl (pair_prefix_cons.mpr ⟨hc.symm, hfirst hhead⟩))
              · exact List.infix_cons (hrest piece hmem hhead)
          · rw [List.cons.injEq] at h
            rw [← h.1, ← h.2]
            exact ⟨id, fun piece hmem hhead => List.infix_cons (hrest piece hmem hhead)⟩

theorem mem_of_mem_joinWith {sep c : Char} {pieces : List (List Char)}
    (h : c ∈ joinWith sep pieces) : c = sep ∨ ∃ piece ∈ pieces, c ∈ piece := by
  induction pieces with
  | nil => cases h
  | cons piece pieces ih =>
      by_cases hpieces : pieces = []
      · rw [hpieces] at h
        exact Or.inr ⟨piece, List.mem_cons_self, h⟩
      · rw [joinWith_cons sep piece hpieces, List.mem_append, List.mem_cons] at h
        rcases h with h | h | h
        · exact Or.inr ⟨piece, List.mem_cons_self, h⟩
        · exact Or.inl h
        · rcases ih h with h | ⟨piece', hmem, h⟩
          · exact Or.inl h
          · exact Or.inr ⟨piece', List.mem_cons_of_mem _ hmem, h⟩

theorem isInfix_of_mem_joinWith {sep : Char} {pieces : List (List Char)} {piece : List Char}
    (h : piece ∈ pieces) : piece <:+: joinWith sep pieces := by
  induction pieces with
  | nil => cases h
  | cons first rest ih =>
      by_cases hrest : rest = []
      · rw [hrest, List.mem_singleton] at h
        rw [hrest, h]
        exact List.infix_rfl
      · rw [joinWith_cons sep first hrest]
        rcases List.mem_cons.mp h with rfl | h
        · exact (List.prefix_append _ _).isInfix
        · exact (ih h).trans ((List.suffix_cons _ _).trans (List.suffix_append _ _)).isInfix

theorem isInfix_of_mem_splitOn {sep : Char} {s piece : List Char} (h : piece ∈ splitOn sep s) :
    piece <:+: s := by
  have hjoin : piece <:+: joinWith sep (splitOn sep s) := isInfix_of_mem_joinWith h
  rwa [joinWith_splitOn] at hjoin

theorem mem_of_mem_splitOn {sep c : Char} {s piece : List Char} (h : piece ∈ splitOn sep s)
    (hc : c ∈ piece) : c ∈ s :=
  (isInfix_of_mem_splitOn h).subset hc

/-- Texts with a separator between them, as lists of characters. -/
theorem toList_intercalate {sep : Char} {between : String} (h : between.toList = [sep])
    (words : List String) :
    (between.intercalate words).toList = joinWith sep (words.map String.toList) := by
  induction words with
  | nil => rfl
  | cons word words ih =>
      cases words with
      | nil => rw [String.intercalate_singleton]; rfl
      | cons next rest =>
          rw [String.intercalate_cons_cons, String.toList_append, String.toList_append, ih, h,
            List.append_assoc]
          rfl

end Text
end BulkTransfer
