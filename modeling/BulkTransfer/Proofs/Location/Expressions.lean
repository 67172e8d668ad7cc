import BulkTransfer.Location.Expression
import BulkTransfer.Proofs.Location.Matching
import Mathlib.Data.List.TakeWhile

/-!
# Expressions and patterns

The expression of a location finds something in a key exactly if the location accepts the
key.  Reading the expression gives one piece for each character of the pattern, between the
two anchors; a literal character is read as itself because it has been escaped.  Between the
anchors the pieces take up the whole key, by the rules of the relation for patterns.
-/

namespace BulkTransfer
namespace Expression

/-!
## Reading what has been written
-/

/-- What a character of a pattern stands for. -/
def pieceOf (c : Char) : Piece :=
  if c = '?' then .any else if c = '*' then .run else .one c

theorem read_escaped {c : Char} (hc : isMeta c = true) (rest : List Char) :
    read ('\\' :: c :: rest) = (read rest).map (.one c :: ·) :=
  show (if isMeta c then (read rest).map (.one c :: ·) else none) = _ from if_pos hc

theorem read_plain {c : Char} (hc : isMeta c = false) (rest : List Char) :
    read (c :: rest) = (read rest).map (.one c :: ·) := by
  have hne : ∀ d, isMeta d = true → c ≠ d := by
    rintro d hd rfl
    rw [hc] at hd
    cases hd
  rw [read.eq_def]
  dsimp only
  rw [if_neg (hne '^' rfl), if_neg (hne '$' rfl), if_neg (hne '.' rfl), if_neg (hne '\\' rfl),
    if_neg (Bool.eq_false_iff.mp hc)]

theorem read_any {rest : List Char} (hrest : rest.head? ≠ some '*') :
    read ('.' :: rest) = (read rest).map (.any :: ·) := by
  cases rest with
  | nil => rfl
  | cons c rest =>
      have hc : c ≠ '*' := fun h => hrest (congrArg some h)
      show (if c = '*' then (read rest).map (.run :: ·) else (read (c :: rest)).map (.any :: ·)) = _
      rw [if_neg hc]

theorem read_run (rest : List Char) : read ('.' :: '*' :: rest) = (read rest).map (.run :: ·) :=
  rfl

theorem read_start (rest : List Char) : read ('^' :: rest) = (read rest).map (.start :: ·) := by
  cases rest <;> rfl

theorem escape_singleton (c : Char) : escape [c] = if isMeta c then ['\\', c] else [c] := by
  rw [escape, List.flatMap_singleton]

/-- No character of a pattern is written so that it repeats what is in front of it. -/
theorem head?_ofPatternChar (c : Char) (rest : List Char) :
    (ofPatternChar c ++ rest).head? ≠ some '*' := by
  rw [ofPatternChar]
  split
  · exact fun h => nomatch h
  · split
    · exact fun h => nomatch h
    · rename_i hstar
      rw [escape_singleton]
      split
      · exact fun h => nomatch h
      · intro h
        exact hstar (Option.some.inj h)

theorem read_ofPatternChar (c : Char) {rest : List Char} (hrest : rest.head? ≠ some '*') :
    read (ofPatternChar c ++ rest) = (read rest).map (pieceOf c :: ·) := by
  rw [ofPatternChar, pieceOf]
  split
  · exact read_any hrest
  · split
    · exact read_run rest
    · rw [escape_singleton]
      split
      · rename_i hmeta
        exact read_escaped hmeta rest
      · rename_i hmeta
        exact read_plain (Bool.eq_false_iff.mpr hmeta) rest

theorem head?_pattern (pattern : List Char) :
    (pattern.flatMap ofPatternChar ++ ['$']).head? ≠ some '*' := by
  cases pattern with
  | nil => exact fun h => nomatch h
  | cons c pattern =>
      rw [List.flatMap_cons, List.append_assoc]
      exact head?_ofPatternChar c _

theorem read_pattern (pattern : List Char) :
    read (pattern.flatMap ofPatternChar ++ ['$']) = some (pattern.map pieceOf ++ [.stop]) := by
  induction pattern with
  | nil => rfl
  | cons c pattern ih =>
      rw [List.flatMap_cons, List.append_assoc, read_ofPatternChar c (head?_pattern pattern), ih]
      rfl

/-!
## What the pieces take up
-/

theorem pieceOf_literal {c : Char} (hc : isWildcardChar c = false) : pieceOf c = .one c := by
  rw [isWildcardChar, Bool.or_eq_false_iff, decide_eq_false_iff_not, decide_eq_false_iff_not] at hc
  rw [pieceOf, if_neg hc.2, if_neg hc.1]

theorem spans_of_derives {pattern s : List Char} (h : Wildcard.Derives pattern s)
    (front : List Char) : Spans (pattern.map pieceOf ++ [.stop]) front s [] := by
  induction h generalizing front with
  | nil => exact .stop [] front (.nil front [])
  | run run pattern s hrun hs ih => exact .run run _ front s [] hrun (ih _)
  | any c pattern s hc hs ih => exact .any c _ front s [] hc (ih _)
  | literal c pattern s hc hs ih =>
      rw [List.map_cons, pieceOf_literal hc]
      exact .one c _ front s [] (ih _)

theorem derives_of_spans {pattern front s behind : List Char}
    (h : Spans (pattern.map pieceOf ++ [.stop]) front s behind) :
    behind = [] ∧ Wildcard.Derives pattern s := by
  induction pattern generalizing front s with
  | nil =>
      cases h
      exact ⟨rfl, .nil⟩
  | cons p pattern ih =>
      rw [List.map_cons, List.cons_append] at h
      by_cases hquestion : p = '?'
      · rw [hquestion] at h ⊢
        cases h with
        | any c _ _ s _ hc hs => exact ⟨(ih hs).1, .any c pattern s hc (ih hs).2⟩
      · by_cases hstar : p = '*'
        · rw [hstar] at h ⊢
          cases h with
          | run run _ _ s _ hrun hs => exact ⟨(ih hs).1, .run run pattern s hrun (ih hs).2⟩
        · have hliteral : isWildcardChar p = false := by
            rw [isWildcardChar, decide_eq_false hstar, decide_eq_false hquestion]
            rfl
          rw [pieceOf_literal hliteral] at h
          cases h with
          | one _ _ _ s _ hs => exact ⟨(ih hs).1, .literal p pattern s hliteral (ih hs).2⟩

/-- An anchored expression finds the texts that its pattern stands for. -/
theorem finds_iff_derives (pattern s : List Char) :
    Finds ('^' :: pattern.flatMap ofPatternChar ++ ['$']) s ↔ Wildcard.Derives pattern s := by
  have hread : read ('^' :: pattern.flatMap ofPatternChar ++ ['$']) =
      some (.start :: pattern.map pieceOf ++ [.stop]) := by
    rw [List.cons_append, read_start, read_pattern]
    rfl
  constructor
  · rintro ⟨pieces, front, found, behind, hpieces, hs, hspans⟩
    rw [hread] at hpieces
    cases hpieces
    cases hspans with
    | start _ _ _ hfound =>
        rcases derives_of_spans hfound with ⟨rfl, hderives⟩
        rwa [hs, List.nil_append, List.append_nil]
  · intro h
    exact ⟨_, [], s, [], hread, by rw [List.nil_append, List.append_nil],
      .start _ s [] (spans_of_derives h [])⟩

end Expression

namespace Wildcard

/-- Characters in front of the first wildcard stand for themselves. -/
theorem derives_literal_append_iff {front pattern s : List Char}
    (hfront : ∀ c ∈ front, isWildcardChar c = false) :
    Derives (front ++ pattern) s ↔ ∃ rest, s = front ++ rest ∧ Derives pattern rest := by
  constructor
  · intro h
    rcases h.literal_prefix hfront with ⟨rest, rfl⟩
    refine ⟨rest, rfl, ?_⟩
    induction front with
    | nil => exact h
    | cons c front ih =>
        rw [List.forall_mem_cons] at hfront
        rw [List.cons_append, List.cons_append, derives_cons_cons_iff] at h
        · exact ih hfront.2 h.2
        · rintro rfl
          cases hfront.1
  · rintro ⟨rest, rfl, h⟩
    induction front with
    | nil => exact h
    | cons c front ih =>
        rw [List.forall_mem_cons] at hfront
        exact .literal c _ _ hfront.1 (ih hfront.2)

theorem derives_star_nil_iff {s : List Char} : Derives ['*'] s ↔ '\n' ∉ s := by
  rw [derives_star_iff]
  constructor
  · rintro ⟨front, behind, rfl, hfront, hbehind⟩
    cases hbehind
    rwa [List.append_nil]
  · exact fun h => ⟨s, [], (List.append_nil s).symm, h, .nil⟩

end Wildcard

namespace Location

variable {location : Location} {key : String}

/-!
## Keys that a location stands for
-/

theorem isWildcardChar_of_mem_key (h : location.isWildcard = false) :
    ∀ c ∈ location.key.toList, isWildcardChar c = false := by
  rw [isWildcard, hasWildcard, List.any_eq_false] at h
  exact fun c hc => Bool.eq_false_iff.mpr (h c hc)

theorem all_ne_iff {c : Char} {s : List Char} : s.all (· ≠ c) = true ↔ c ∉ s := by
  simp only [List.all_eq_true, decide_eq_true_eq]
  constructor
  · exact fun h hc => h c hc rfl
  · exact fun h d hd heq => h (heq ▸ hd)

theorem accepts_plain_iff (h : location.isWildcard = false) (key : String) :
    location.accepts key = true ↔
      ∃ rest, key.toList = location.key.toList ++ rest ∧ '\n' ∉ rest := by
  rw [accepts, if_neg (Bool.eq_false_iff.mp h)]
  constructor
  · intro haccepts
    split at haccepts
    · rename_i rest hrest
      exact ⟨rest, (List.append_eq_of_isPrefixOf?_eq_some hrest).symm, all_ne_iff.mp haccepts⟩
    · cases haccepts
  · rintro ⟨rest, hkey, hrest⟩
    rw [List.isPrefixOf?_eq_some_iff_append_eq.mpr hkey.symm]
    exact all_ne_iff.mpr hrest

theorem accepts_wildcard_iff (h : location.isWildcard = true) (key : String) :
    location.accepts key = true ↔ Wildcard.Derives location.key.toList key.toList := by
  rw [accepts, if_pos h, Wildcard.isMatch_iff_derives]

theorem derives_pattern_iff (location : Location) (key : String) :
    Wildcard.Derives location.pattern key.toList ↔ location.accepts key = true := by
  rw [pattern]
  cases hwildcard : location.isWildcard with
  | true => rw [if_pos rfl, accepts_wildcard_iff hwildcard]
  | false =>
      rw [if_neg Bool.false_ne_true, accepts_plain_iff hwildcard,
        Wildcard.derives_literal_append_iff (isWildcardChar_of_mem_key hwildcard)]
      simp only [Wildcard.derives_star_nil_iff]

theorem escape_literalKey (location : Location) :
    Expression.escape location.literalKey.toList =
      location.literalKey.toList.flatMap Expression.ofPatternChar := by
  rw [Expression.escape]
  apply List.flatMap_congr
  intro c hc
  rw [literalKey, String.toList_ofList] at hc
  have hliteral := List.all_eq_true.mp List.all_takeWhile c hc
  rw [Bool.not_eq_true', isWildcardChar, Bool.or_eq_false_iff, decide_eq_false_iff_not,
    decide_eq_false_iff_not] at hliteral
  rw [Expression.ofPatternChar, if_neg hliteral.2, if_neg hliteral.1, Expression.escape_singleton]

theorem isEmpty_wild (location : Location) :
    (location.key.toList.dropWhile fun c => !isWildcardChar c).isEmpty = !location.isWildcard := by
  rw [Bool.eq_iff_iff, List.isEmpty_iff, List.dropWhile_eq_nil_iff, isWildcard, hasWildcard,
    Bool.not_eq_true', List.any_eq_false]
  simp only [Bool.not_eq_true', Bool.not_eq_true]

/-- The expression of a location is the anchored one for its pattern. -/
theorem toList_expression (location : Location) :
    location.expression.toList =
      '^' :: location.pattern.flatMap Expression.ofPatternChar ++ ['$'] := by
  have hkey : location.literalKey.toList ++
      location.key.toList.dropWhile (fun c => !isWildcardChar c) = location.key.toList := by
    rw [literalKey, String.toList_ofList, List.takeWhile_append_dropWhile]
  have hwild := isEmpty_wild location
  rw [expression, String.toList_ofList, escape_literalKey, pattern]
  cases hwildcard : location.isWildcard with
  | true =>
      rw [hwildcard, Bool.not_true] at hwild
      rw [hwild, if_neg Bool.false_ne_true, if_pos rfl, List.cons_append, ← List.flatMap_append,
        hkey]
  | false =>
      rw [hwildcard, Bool.not_false] at hwild
      rw [List.isEmpty_iff.mp hwild, List.append_nil] at hkey
      rw [hwild, hkey, if_pos rfl, if_neg Bool.false_ne_true, List.flatMap_append, List.cons_append]
      rfl

/-!
## Which keys match
-/

/-- A location accepts the keys in which its expression finds something.  Without wildcard
these are its own key with a text behind it that has no line break, and with wildcards those
that its key stands for.  Such a key starts with the literal part of the location's key; what
a destination keeps of it for a wildcard is all but the directory that this part names. -/
theorem accepted_keys (location : Location) (key : String) :
    (location.accepts key = true ↔ Expression.Finds location.expression.toList key.toList) ∧
    (location.isWildcard = false →
      (location.accepts key = true ↔
        ∃ rest, key.toList = location.key.toList ++ rest ∧ '\n' ∉ rest)) ∧
    (location.isWildcard = true →
      (location.accepts key = true ↔ Wildcard.Derives location.key.toList key.toList)) ∧
    (location.accepts key = true →
      location.literalKey.toList <+: key.toList ∧
        (location.isWildcard = true →
          key.toList = Text.throughLast '/' location.literalKey.toList ++
            (location.relativeKey key).toList)) := by
  refine ⟨?_, fun h => accepts_plain_iff h key, fun h => accepts_wildcard_iff h key, ?_⟩
  · rw [toList_expression, Expression.finds_iff_derives, derives_pattern_iff]
  · intro haccepts
    have hfront := literalKey_prefix_of_accepts haccepts
    refine ⟨hfront, ?_⟩
    intro hwildcard
    rcases hfront with ⟨rest, hrest⟩
    rw [relativeKey, List.isPrefixOf?_eq_some_iff_append_eq.mpr hrest]
    dsimp only
    rw [if_pos hwildcard, String.toList_ofList, ← List.append_assoc,
      Text.throughLast_append_afterLast, hrest]

/-- A literal that would mean something in the expression, and what is kept of a key. -/
theorem accepted_keys_escaped :
    ({ bucket := "b", key := "x/a.b/c-?/d*" } : Location).expression = "^x/a\\.b/c\\-./d.*$" ∧
      Expression.Finds
        ({ bucket := "b", key := "x/a.b/c-?/d*" } : Location).expression.toList
        "x/a.b/c-1/d/e".toList ∧
      "x/a.b/c-1/d/e".toList = "x/a.b/".toList ++
        (({ bucket := "b", key := "x/a.b/c-?/d*" } : Location).relativeKey
          "x/a.b/c-1/d/e").toList ∧
      ¬ Expression.Finds
        ({ bucket := "b", key := "x/a.b/c-?/d*" } : Location).expression.toList
        "x/a_b/c-1/d/e".toList := by
  have hsome := accepted_keys { bucket := "b", key := "x/a.b/c-?/d*" } "x/a.b/c-1/d/e"
  have hnone := accepted_keys { bucket := "b", key := "x/a.b/c-?/d*" } "x/a_b/c-1/d/e"
  refine ⟨by decide, hsome.1.mp (by decide), (hsome.2.2.2 (by decide)).2 (by decide), ?_⟩
  rw [← hnone.1]
  decide

end Location
end BulkTransfer
