import BulkTransfer.FileSystem.Path
import BulkTransfer.Location.Wildcard
import BulkTransfer.Proofs.Text.Words

/-!
# What the matcher computes

The matcher goes through the pattern from the right and keeps an answer for every suffix of
the text.  The answer for a suffix does not depend on the text in front of it, so the matcher
obeys one equation for each kind of pattern character, and these are the rules of the
relation that it decides.
-/

namespace BulkTransfer

namespace Wildcard

/-!
## Equations of the matcher
-/

theorem extend_nil (p : Char) (rest : List Bool) :
    extend p [] rest = if p = '*' then rest else [false] :=
  rfl

theorem extend_cons_cons (p c : Char) (s : List Char) (b : Bool) (rest : List Bool) :
    extend p (c :: s) (b :: rest) =
      (if p = '*' then b || (decide (c ≠ '\n') && (extend p s rest).headD false)
        else stepMatches p c && rest.headD false) :: extend p s rest :=
  rfl

theorem suffixes_cons_left (p : Char) (pattern s : List Char) :
    suffixes (p :: pattern) s = extend p s (suffixes pattern s) :=
  rfl

theorem isMatch_cons (p : Char) (pattern s : List Char) :
    isMatch (p :: pattern) s = (extend p s (suffixes pattern s)).headD false :=
  rfl

/-- The answers for the suffixes of a text are those for the suffixes of its tail, behind one
for the whole text. -/
theorem suffixes_cons (pattern : List Char) (c : Char) (s : List Char) :
    suffixes pattern (c :: s) = isMatch pattern (c :: s) :: suffixes pattern s := by
  have hrest : ∃ b, suffixes pattern (c :: s) = b :: suffixes pattern s := by
    induction pattern with
    | nil => exact ⟨false, rfl⟩
    | cons p pattern ih =>
        rcases ih with ⟨b, hb⟩
        rw [suffixes_cons_left, hb, extend_cons_cons]
        exact ⟨_, rfl⟩
  rcases hrest with ⟨b, hb⟩
  have hmatch : isMatch pattern (c :: s) = (suffixes pattern (c :: s)).headD false := rfl
  rw [hmatch, hb]
  rfl

theorem isMatch_nil (s : List Char) : isMatch [] s = s.isEmpty := by
  cases s <;> rfl

theorem isMatch_cons_nil (p : Char) (pattern : List Char) :
    isMatch (p :: pattern) [] = (decide (p = '*') && isMatch pattern []) := by
  rw [isMatch_cons, extend_nil]
  split
  · rename_i hp
    rw [decide_eq_true hp, Bool.true_and]
    rfl
  · rename_i hp
    rw [decide_eq_false hp, Bool.false_and]
    rfl

/-- A star stands for nothing, or for one more character. -/
theorem isMatch_star_cons (pattern : List Char) (c : Char) (s : List Char) :
    isMatch ('*' :: pattern) (c :: s) =
      (isMatch pattern (c :: s) || (decide (c ≠ '\n') && isMatch ('*' :: pattern) s)) := by
  rw [isMatch_cons, suffixes_cons, extend_cons_cons, if_pos rfl]
  rfl

/-- Every other pattern character stands for one character. -/
theorem isMatch_cons_cons {p : Char} (hp : p ≠ '*') (pattern : List Char) (c : Char)
    (s : List Char) :
    isMatch (p :: pattern) (c :: s) = (stepMatches p c && isMatch pattern s) := by
  rw [isMatch_cons, suffixes_cons, extend_cons_cons, if_neg hp]
  rfl

/-!
## The matcher decides the relation
-/

theorem derives_star_iff {pattern s : List Char} :
    Derives ('*' :: pattern) s ↔
      ∃ front behind, s = front ++ behind ∧ '\n' ∉ front ∧ Derives pattern behind := by
  constructor
  · intro h
    cases h with
    | run front pattern behind hfront hbehind => exact ⟨front, behind, rfl, hfront, hbehind⟩
    | literal c pattern s hliteral => cases hliteral
  · rintro ⟨front, behind, rfl, hfront, hbehind⟩
    exact .run front pattern behind hfront hbehind

theorem derives_star_cons_iff {pattern s : List Char} {c : Char} :
    Derives ('*' :: pattern) (c :: s) ↔
      Derives pattern (c :: s) ∨ c ≠ '\n' ∧ Derives ('*' :: pattern) s := by
  rw [derives_star_iff, derives_star_iff]
  constructor
  · rintro ⟨front, behind, hs, hfront, hbehind⟩
    cases front with
    | nil =>
        rw [List.nil_append] at hs
        exact Or.inl (hs ▸ hbehind)
    | cons d front =>
        rw [List.cons_append, List.cons.injEq] at hs
        rw [List.mem_cons, not_or] at hfront
        refine Or.inr ⟨?_, front, behind, hs.2, hfront.2, hbehind⟩
        rw [hs.1]
        exact Ne.symm hfront.1
  · rintro (h | ⟨hc, front, behind, rfl, hfront, hbehind⟩)
    · exact ⟨[], c :: s, rfl, List.not_mem_nil, h⟩
    · refine ⟨c :: front, behind, rfl, ?_, hbehind⟩
      rw [List.mem_cons, not_or]
      exact ⟨Ne.symm hc, hfront⟩

theorem derives_cons_cons_iff {p c : Char} {pattern s : List Char} (hp : p ≠ '*') :
    Derives (p :: pattern) (c :: s) ↔ stepMatches p c = true ∧ Derives pattern s := by
  rw [stepMatches]
  constructor
  · intro h
    generalize htext : c :: s = text at h
    cases h with
    | run => exact absurd rfl hp
    | any _ _ _ hc hs =>
        cases htext
        rw [if_pos rfl]
        exact ⟨decide_eq_true hc, hs⟩
    | literal _ _ _ hliteral hs =>
        cases htext
        have hquestion : p ≠ '?' := by
          rintro rfl
          cases hliteral
        rw [if_neg hquestion]
        exact ⟨decide_eq_true rfl, hs⟩
  · rintro ⟨hstep, hs⟩
    split at hstep
    · rename_i hquestion
      rw [hquestion]
      exact .any c pattern s (of_decide_eq_true hstep) hs
    · rename_i hquestion
      cases of_decide_eq_true hstep
      refine .literal p pattern s ?_ hs
      rw [isWildcardChar, decide_eq_false hp, decide_eq_false hquestion]
      rfl

theorem not_derives_cons_nil {p : Char} {pattern : List Char} (hp : p ≠ '*') :
    ¬ Derives (p :: pattern) [] := by
  intro h
  generalize hs : ([] : List Char) = s at h
  cases h with
  | run => exact hp rfl
  | any | literal => cases hs

/-- The matcher accepts exactly the texts that a pattern stands for. -/
theorem isMatch_iff_derives (pattern s : List Char) :
    isMatch pattern s = true ↔ Derives pattern s := by
  induction pattern generalizing s with
  | nil =>
      rw [isMatch_nil, List.isEmpty_iff]
      constructor
      · rintro rfl
        exact .nil
      · intro h
        cases h
        rfl
  | cons p pattern ih =>
      by_cases hp : p = '*'
      · subst hp
        -- a star that takes a character is left with the same pattern and a shorter text
        induction s with
        | nil =>
            rw [isMatch_cons_nil, decide_eq_true rfl, Bool.true_and, ih, derives_star_iff]
            constructor
            · exact fun h => ⟨[], [], rfl, List.not_mem_nil, h⟩
            · rintro ⟨front, behind, hs, -, hbehind⟩
              rw [(List.nil_eq_append_iff.mp hs).2] at hbehind
              exact hbehind
        | cons c s ihs =>
            rw [isMatch_star_cons, Bool.or_eq_true, Bool.and_eq_true, decide_eq_true_eq, ih, ihs,
              derives_star_cons_iff]
      · cases s with
        | nil =>
            rw [isMatch_cons_nil, decide_eq_false hp, Bool.false_and]
            exact ⟨fun h => (by cases h), fun h => absurd h (not_derives_cons_nil hp)⟩
        | cons c s =>
            rw [isMatch_cons_cons hp, Bool.and_eq_true, ih, derives_cons_cons_iff hp]

/-- A text that a pattern stands for starts with the characters in front of the first
wildcard. -/
theorem Derives.literal_prefix {front pattern s : List Char}
    (hfront : ∀ c ∈ front, isWildcardChar c = false) (h : Derives (front ++ pattern) s) :
    front <+: s := by
  induction front generalizing s with
  | nil => exact List.nil_prefix
  | cons c front ih =>
      rw [List.forall_mem_cons] at hfront
      rw [List.cons_append] at h
      cases h with
      | run => cases hfront.1
      | any => cases hfront.1
      | literal _ _ s _ hs => exact (List.cons_prefix_cons.mpr ⟨rfl, ih hfront.2 hs⟩)

/-- Stars stand for every text without a line break. -/
theorem derives_replicate_star {count : Nat} {s : List Char} (hcount : count ≠ 0)
    (hs : '\n' ∉ s) : Derives (List.replicate count '*') s := by
  cases count with
  | zero => exact absurd rfl hcount
  | succ count =>
      have hnil : Derives (List.replicate count '*') [] := by
        induction count with
        | zero => exact .nil
        | succ count ih => exact .run [] _ [] List.not_mem_nil (ih (Nat.succ_ne_zero _))
      rw [← List.append_nil s]
      exact .run s _ [] hs hnil

end Wildcard

namespace Location

/-!
## Accepted keys
-/

/-- An accepted key starts with the literal part of the location's key. -/
theorem literalKey_prefix_of_accepts {location : Location} {key : String}
    (h : location.accepts key = true) : location.literalKey.toList <+: key.toList := by
  have htake : location.literalKey.toList =
      location.key.toList.takeWhile fun c => !isWildcardChar c := String.toList_ofList
  rw [accepts] at h
  split at h
  · rw [Wildcard.isMatch_iff_derives,
      ← List.takeWhile_append_dropWhile (p := fun c => !isWildcardChar c)
        (l := location.key.toList)] at h
    rw [htake]
    refine h.literal_prefix fun c hc => ?_
    have hall := List.all_eq_true.mp List.all_takeWhile c hc
    rwa [Bool.not_eq_true'] at hall
  · split at h
    · rename_i rest hrest
      rw [htake]
      exact (List.takeWhile_prefix _).trans
        ⟨rest, List.append_eq_of_isPrefixOf?_eq_some hrest⟩
    · cases h

/-- The literal part of a key that is no absolute path is none either. -/
theorem isAbsolute_literalKey {location : Location}
    (h : Path.isAbsolute location.key = false) : Path.isAbsolute location.literalKey = false := by
  rw [Path.isAbsolute] at h ⊢
  rw [literalKey, String.toList_ofList]
  cases hkey : location.key.toList with
  | nil => rfl
  | cons c key =>
      rw [hkey] at h
      rw [List.takeWhile_cons]
      split
      · exact h
      · rfl

end Location
end BulkTransfer
