import BulkTransfer.Job.Parse
import BulkTransfer.Proofs.Parse.Shapes

/-!
# Lines and chains

A line is read as a chain of at most three segments.  A line that becomes a job is
spelled by its chain, with blanks around the operators, and a chain of trimmed segments
is what its spelling is cut into.
-/

namespace BulkTransfer
namespace Chain

open Text

/-!
## Spellings
-/

/-- The end of a line from an operator on, if there is a segment behind it. -/
inductive Continued (operator : List Char) : Option (List Char) → List Char → Prop
  | absent : Continued operator none []
  | present {front back : List Char} (segment : List Char) :
      (∀ c ∈ front, isBlank c = true) → (∀ c ∈ back, isBlank c = true) →
        Continued operator (some segment) (front ++ (operator ++ (back ++ segment)))

/-- The segments of a chain make up a text, with any blanks around the operators. -/
def Spells (chain : Chain) (s : List Char) : Prop :=
  ∃ success failure, Continued andWord chain.onSuccess success ∧
    Continued orWord chain.onFailure failure ∧ s = chain.first ++ (success ++ failure)

/-- The segments of a chain in their order. -/
def parts (chain : Chain) : List (List Char) :=
  chain.first :: (chain.onSuccess.toList ++ chain.onFailure.toList)

/-- The text of a chain, with one space on either side of an operator. -/
def spelling (chain : Chain) : List Char :=
  chain.first ++ (chain.onSuccess.elim [] (' ' :: '&' :: '&' :: ' ' :: ·) ++
    chain.onFailure.elim [] (' ' :: '|' :: '|' :: ' ' :: ·))

/-- A segment that can be read: it is not empty and holds no operator. -/
structure Plain (s : List Char) : Prop where
  ne_nil : s ≠ []
  andFree : ¬ andWord <:+: s
  orFree : ¬ orWord <:+: s

/-!
## What a line is cut into
-/

theorem Fits.blanks_inv {shape : List Piece} {found : List (List Char)} {s : List Char}
    (h : Fits (.blanks :: shape) found s) :
    ∃ run rest, s = run ++ rest ∧ (∀ c ∈ run, isBlank c = true) ∧ Fits shape found rest := by
  cases h with
  | blanks hrun h => exact ⟨_, _, rfl, hrun, h⟩

theorem Fits.segment_inv {shape : List Piece} {found : List (List Char)} {s : List Char}
    (h : Fits (.segment :: shape) found s) :
    ∃ segment others rest, found = segment :: others ∧ s = segment ++ rest ∧ segment ≠ [] ∧
      '\n' ∉ segment ∧ Fits shape others rest := by
  cases h with
  | segment hne hline h => exact ⟨_, _, _, rfl, rfl, hne, hline, h⟩

theorem Fits.word_inv {shape : List Piece} {found : List (List Char)} {s word : List Char}
    (h : Fits (.word word :: shape) found s) :
    ∃ rest, s = word ++ rest ∧ Fits shape found rest := by
  cases h with
  | word h => exact ⟨_, rfl, h⟩

theorem Fits.nil_inv {found : List (List Char)} {s : List Char} (h : Fits [] found s) :
    found = [] ∧ s = [] := by
  cases h with
  | nil => exact ⟨rfl, rfl⟩

theorem Fits.operator_inv {shape : List Piece} {found : List (List Char)} {s word : List Char}
    (h : Fits (.blanks :: .word word :: .blanks :: shape) found s) :
    ∃ front back rest, s = front ++ (word ++ (back ++ rest)) ∧ (∀ c ∈ front, isBlank c = true) ∧
      (∀ c ∈ back, isBlank c = true) ∧ Fits shape found rest := by
  rcases h.blanks_inv with ⟨front, behind, hs, hfront, hword⟩
  rcases hword.word_inv with ⟨behind', hbehind, hblanks⟩
  rcases hblanks.blanks_inv with ⟨back, rest, hbehind', hback, hrest⟩
  rw [hbehind, hbehind'] at hs
  exact ⟨front, back, rest, hs, hfront, hback, hrest⟩

theorem Fits.last_inv {found : List (List Char)} {s : List Char}
    (h : Fits [.segment, .blanks] found s) :
    ∃ segment run, found = [segment] ∧ s = segment ++ run ∧ segment ≠ [] ∧
      ∀ c ∈ run, isBlank c = true := by
  rcases h.segment_inv with ⟨segment, others, rest, rfl, rfl, hne, -, h⟩
  rcases h.blanks_inv with ⟨run, _, rfl, hrun, h⟩
  rcases h.nil_inv with ⟨rfl, rfl⟩
  exact ⟨segment, run, rfl, by rw [List.append_nil], hne, hrun⟩

theorem eq_nil_of_blank_front {run s : List Char} (h : Trimmed (run ++ s))
    (hrun : ∀ c ∈ run, isBlank c = true) : run = [] := by
  cases run with
  | nil => rfl
  | cons c run =>
      have hblank := hrun c List.mem_cons_self
      rw [h.front c rfl] at hblank
      cases hblank

theorem eq_nil_of_blank_back {s run : List Char} (h : Trimmed (s ++ run))
    (hrun : ∀ c ∈ run, isBlank c = true) : run = [] := by
  refine List.reverse_eq_nil_iff.mp ?_
  refine eq_nil_of_blank_front (s := s.reverse) ?_ fun c hc => hrun c (List.mem_reverse.mp hc)
  rw [← List.reverse_append]
  exact h.reverse

/-- A trimmed text around one operator, without outer blanks. -/
theorem fits_pairShape {operator s : List Char} {found : List (List Char)} (htrim : Trimmed s)
    (h : Fits (pairShape operator) found s) :
    ∃ first next front back, found = [first, next] ∧ first ≠ [] ∧
      s = first ++ (front ++ (operator ++ (back ++ next))) ∧
      (∀ c ∈ front, isBlank c = true) ∧ ∀ c ∈ back, isBlank c = true := by
  rcases Fits.blanks_inv h with ⟨run, _, rfl, hrun, h⟩
  rcases h.segment_inv with ⟨first, _, _, rfl, rfl, hne, -, h⟩
  rcases h.operator_inv with ⟨front, back, _, rfl, hfront, hback, h⟩
  rcases h.last_inv with ⟨next, run', rfl, rfl, -, hrun'⟩
  have hrun := eq_nil_of_blank_front htrim hrun
  have hrun' : run' = [] := by
    refine eq_nil_of_blank_back (s := run ++ (first ++ (front ++ (operator ++ (back ++ next)))))
      ?_ hrun'
    simpa using htrim
  rw [hrun, hrun', List.append_nil]
  exact ⟨first, next, front, back, rfl, hne, rfl, hfront, hback⟩

/-- A trimmed text around both operators, without outer blanks. -/
theorem fits_bothShape {s : List Char} {found : List (List Char)} (htrim : Trimmed s)
    (h : Fits bothShape found s) :
    ∃ first next fallback front back front' back', found = [first, next, fallback] ∧
      first ≠ [] ∧
      s = first ++ (front ++ (andWord ++ (back ++ (next ++
        (front' ++ (orWord ++ (back' ++ fallback))))))) ∧
      (∀ c ∈ front, isBlank c = true) ∧ (∀ c ∈ back, isBlank c = true) ∧
      (∀ c ∈ front', isBlank c = true) ∧ ∀ c ∈ back', isBlank c = true := by
  rcases Fits.blanks_inv h with ⟨run, _, rfl, hrun, h⟩
  rcases h.segment_inv with ⟨first, _, _, rfl, rfl, hne, -, h⟩
  rcases h.operator_inv with ⟨front, back, _, rfl, hfront, hback, h⟩
  rcases h.segment_inv with ⟨next, _, _, rfl, rfl, -, -, h⟩
  rcases h.operator_inv with ⟨front', back', _, rfl, hfront', hback', h⟩
  rcases h.last_inv with ⟨fallback, run', rfl, rfl, -, hrun'⟩
  have hrun := eq_nil_of_blank_front htrim hrun
  have hrun' : run' = [] := by
    refine eq_nil_of_blank_back (s := run ++ (first ++ (front ++ (andWord ++ (back ++ (next ++
      (front' ++ (orWord ++ (back' ++ fallback))))))))) ?_ hrun'
    simpa using htrim
  rw [hrun, hrun', List.append_nil]
  exact ⟨first, next, fallback, front, back, front', back', rfl, hne, rfl, hfront, hback,
    hfront', hback'⟩

/-- The ways in which a trimmed text is cut. -/
inductive Cuts (s : List Char) : Chain → Prop
  | both {first next fallback : List Char} :
      segments bothShape s = some [first, next, fallback] →
        Cuts s { first := first, onSuccess := some next, onFailure := some fallback }
  | success {first next : List Char} :
      segments (pairShape andWord) s = some [first, next] →
        Cuts s { first := first, onSuccess := some next }
  | failure {first fallback : List Char} :
      segments (pairShape andWord) s = none →
      segments (pairShape orWord) s = some [first, fallback] →
        Cuts s { first := first, onFailure := some fallback }
  | whole :
      segments (pairShape andWord) s = none →
      segments (pairShape orWord) s = none →
        Cuts s { first := s }

theorem cuts_split {s : List Char} (h : Trimmed s) : Cuts s (split s) := by
  rw [split, cut_eq_segments, cut_eq_segments, cut_eq_segments]
  cases hboth : segments bothShape s with
  | some found =>
      rcases fits_bothShape h (fits_of_segments hboth) with ⟨_, _, _, _, _, _, _, rfl, -⟩
      exact Cuts.both hboth
  | none =>
      cases hand : segments (pairShape andWord) s with
      | some found =>
          rcases fits_pairShape h (fits_of_segments hand) with ⟨_, _, _, _, rfl, -⟩
          exact Cuts.success hand
      | none =>
          cases hor : segments (pairShape orWord) s with
          | some found =>
              rcases fits_pairShape h (fits_of_segments hor) with ⟨_, _, _, _, rfl, -⟩
              exact Cuts.failure hand hor
          | none => exact Cuts.whole hand hor

/-- A trimmed text is spelled by the chain that it is cut into. -/
theorem spells_split {s : List Char} (h : Trimmed s) : (split s).Spells s := by
  have hcuts := cuts_split h
  generalize split s = chain at hcuts ⊢
  cases hcuts with
  | both hboth =>
      rcases fits_bothShape h (fits_of_segments hboth) with
        ⟨_, _, _, front, back, front', back', hfound, -, hs, hfront, hback, hfront',
          hback'⟩
      cases hfound
      refine ⟨_, _, .present _ hfront hback, .present _ hfront' hback', ?_⟩
      simpa using hs
  | success hand =>
      rcases fits_pairShape h (fits_of_segments hand) with
        ⟨first, next, front, back, hfound, -, hs, hfront, hback⟩
      cases hfound
      refine ⟨_, _, .present _ hfront hback, .absent, ?_⟩
      rw [List.append_nil]
      exact hs
  | failure _ hor =>
      rcases fits_pairShape h (fits_of_segments hor) with
        ⟨first, fallback, front, back, hfound, -, hs, hfront, hback⟩
      cases hfound
      exact ⟨_, _, .absent, .present _ hfront hback, hs⟩
  | whole => exact ⟨[], [], .absent, .absent, (List.append_nil s).symm⟩

theorem first_split_ne_nil {s : List Char} (h : Trimmed s) (hs : s ≠ []) :
    (split s).first ≠ [] := by
  have hcuts := cuts_split h
  generalize split s = chain at hcuts ⊢
  cases hcuts with
  | both hboth =>
      rcases fits_bothShape h (fits_of_segments hboth) with ⟨_, _, _, _, _, _, _, hfound, hne, -⟩
      cases hfound
      exact hne
  | success hpair | failure _ hpair =>
      rcases fits_pairShape h (fits_of_segments hpair) with ⟨_, _, _, _, hfound, hne, -⟩
      cases hfound
      exact hne
  | whole => exact hs

theorem Spells.head?_first {chain : Chain} {s : List Char} (h : chain.Spells s)
    (hne : chain.first ≠ []) : chain.first.head? = s.head? := by
  rcases h with ⟨success, failure, -, -, rfl⟩
  cases hfirst : chain.first with
  | nil => exact absurd hfirst hne
  | cons c first => rfl

/-!
## What a spelling is cut into
-/

/-- An operator that stands behind a trimmed segment is not found any earlier. -/
theorem segments_early {x : Char} {shape : List Piece} {other t : List Char}
    (hx : isBlank x = false) (hne : other ≠ [])
    (hback : ∀ c, other.getLast? = some c → isBlank c = false) (hfree : ¬ [x, x] <:+: other) :
    segments (.blanks :: .word [x, x] :: shape) (other ++ ' ' :: t) = none := by
  cases hsegments : segments (.blanks :: .word [x, x] :: shape) (other ++ ' ' :: t) with
  | none => rfl
  | some found =>
      exfalso
      rcases (fits_of_segments hsegments).blanks_inv with ⟨run, rest, hs, hrun, h⟩
      rcases h.word_inv with ⟨rest, rfl, -⟩
      rcases List.append_eq_append_iff.mp hs with ⟨extra, hrun', -⟩ | ⟨extra, hother, hrest⟩
      · cases hlast : other.getLast? with
        | none => exact hne (List.getLast?_eq_none_iff.mp hlast)
        | some c =>
            have hmem : c ∈ run := by
              rw [hrun']
              exact List.mem_append_left _ (List.mem_of_getLast? hlast)
            have hblank := hrun c hmem
            rw [hback c hlast] at hblank
            cases hblank
      · cases extra with
        | nil =>
            rw [List.nil_append, List.cons_append, List.cons.injEq] at hrest
            rw [hrest.1, isBlank_space] at hx
            cases hx
        | cons a extra =>
            cases extra with
            | nil =>
                simp only [List.cons_append, List.nil_append, List.cons.injEq] at hrest
                rw [hrest.2.1, isBlank_space] at hx
                cases hx
            | cons b extra =>
                simp only [List.cons_append, List.nil_append, List.cons.injEq] at hrest
                refine hfree ⟨run, extra, ?_⟩
                rw [hother, ← hrest.1, ← hrest.2.1, List.append_assoc]
                rfl

theorem segments_operator {x : Char} {shape : List Piece} {t : List Char}
    (hx : isBlank x = false) (hfront : ∀ c, t.head? = some c → isBlank c = false)
    (h : (segments shape t).isSome = true) :
    segments (.blanks :: .word [x, x] :: .blanks :: shape) (' ' :: x :: x :: ' ' :: t) =
      segments shape t := by
  have hblank : segments (.blanks :: shape) (' ' :: t) = segments shape t :=
    behindBlanks_space hfront h
  have hword : segments (.word [x, x] :: .blanks :: shape) (x :: x :: ' ' :: t) =
      segments shape t := by
    have hstart : List.isPrefixOf? [x, x] (x :: x :: ' ' :: t) = some (' ' :: t) :=
      List.isPrefixOf?_eq_some_iff_append_eq.mpr rfl
    rw [segments, hstart]
    exact hblank
  rw [← hword]
  refine behindBlanks_space (fun c hc => ?_) (by rw [hword, h])
  cases hc
  exact hx

/-- A trimmed segment in front of an operator is found as a whole. -/
theorem segments_operand {x : Char} (shape : List Piece) {s t : List Char}
    (hx : isBlank x = false) (hs : s ≠ []) (htrim : Trimmed s) (hline : '\n' ∉ s)
    (hfree : ¬ [x, x] <:+: s) (hfront : ∀ c, t.head? = some c → isBlank c = false)
    (h : (segments shape t).isSome = true) :
    segments (.segment :: .blanks :: .word [x, x] :: .blanks :: shape)
        (s ++ ' ' :: x :: x :: ' ' :: t) = (segments shape t).map (s :: ·) := by
  have hbehind := segments_operator hx hfront h
  rw [← hbehind]
  refine behindSegment_append hs hline (by rw [hbehind, h]) fun front other hsplit _ hother => ?_
  refine segments_early hx hother (fun c hc => htrim.back c ?_) fun hinner => hfree ?_
  · rw [hsplit, List.getLast?_append, hc]
    rfl
  · rw [hsplit]
    exact hinner.trans (List.suffix_append _ _).isInfix

theorem segments_last {s : List Char} (hs : s ≠ []) (htrim : Trimmed s) (hline : '\n' ∉ s) :
    segments [.segment, .blanks] s = some [s] := by
  have hshort : ∀ front other, s = front ++ other → front ≠ [] → other ≠ [] →
      segments [.blanks] (other ++ []) = none := by
    intro front other hsplit _ hother
    cases hsegments : segments [.blanks] (other ++ []) with
    | none => rfl
    | some found =>
        exfalso
        rcases (fits_of_segments hsegments).blanks_inv with ⟨run, _, hrun', hrun, h⟩
        rcases h.nil_inv with ⟨-, rfl⟩
        rw [List.append_nil, List.append_nil] at hrun'
        rw [hsplit, hrun'] at htrim
        exact hother (hrun' ▸ eq_nil_of_blank_back htrim hrun)
  have hsegment : behindSegment (segments [.blanks]) (s ++ []) = some [s] :=
    behindSegment_append hs hline rfl hshort
  rw [List.append_nil] at hsegment
  exact hsegment

theorem isBlank_ampersand : isBlank '&' = false := by decide

theorem isBlank_bar : isBlank '|' = false := by decide

/-- A segment as it stands in a spelling. -/
structure Spelled (s : List Char) : Prop extends Plain s, Trimmed s where
  oneLine : '\n' ∉ s

theorem segments_bothShape {s next fallback : List Char} (hs : Spelled s) (hnext : Spelled next)
    (hfallback : Spelled fallback) :
    segments bothShape
        (s ++ ' ' :: '&' :: '&' :: ' ' :: (next ++ ' ' :: '|' :: '|' :: ' ' :: fallback)) =
      some [s, next, fallback] := by
  have hlast := segments_last hfallback.ne_nil hfallback.toTrimmed hfallback.oneLine
  have hpair := segments_operand (s := next) [.segment, .blanks] isBlank_bar
    hnext.ne_nil hnext.toTrimmed hnext.oneLine hnext.orFree hfallback.front (by rw [hlast]; rfl)
  rw [hlast] at hpair
  have hfront : ∀ c, (next ++ ' ' :: '|' :: '|' :: ' ' :: fallback).head? = some c →
      isBlank c = false := by
    intro c hc
    rw [List.head?_append_of_ne_nil _ hnext.ne_nil] at hc
    exact hnext.front c hc
  have hboth := segments_operand (s := s) _ isBlank_ampersand hs.ne_nil hs.toTrimmed hs.oneLine
    hs.andFree hfront (by rw [hpair]; rfl)
  rw [hpair] at hboth
  refine Eq.trans (behindBlanks_of_front _ fun c hc => ?_) hboth
  rw [List.head?_append_of_ne_nil _ hs.ne_nil] at hc
  exact hs.front c hc

theorem segments_pairShape {x : Char} {s next : List Char} (hx : isBlank x = false)
    (hs : Spelled s) (hfree : ¬ [x, x] <:+: s) (hnext : Spelled next) :
    segments (pairShape [x, x]) (s ++ ' ' :: x :: x :: ' ' :: next) = some [s, next] := by
  have hlast := segments_last hnext.ne_nil hnext.toTrimmed hnext.oneLine
  have hpair := segments_operand (s := s) [.segment, .blanks] hx hs.ne_nil
    hs.toTrimmed hs.oneLine hfree hnext.front (by rw [hlast]; rfl)
  rw [hlast] at hpair
  refine Eq.trans (behindBlanks_of_front _ fun c hc => ?_) hpair
  rw [List.head?_append_of_ne_nil _ hs.ne_nil] at hc
  exact hs.front c hc

/-- An operator does not occur in a spelling without it. -/
theorem not_infix_around {x y : Char} {s next : List Char} (hxy : x ≠ y) (hx : x ≠ ' ')
    (hs : ¬ [x, x] <:+: s) (hnext : ¬ [x, x] <:+: next) :
    ¬ [x, x] <:+: s ++ ' ' :: y :: y :: ' ' :: next := by
  have hspace : ∀ {t : List Char}, ¬ [x, x] <:+: t → ¬ [x, x] <:+: ' ' :: t := by
    intro t ht hinner
    rcases List.infix_cons_iff.mp hinner with hstart | hinner
    · exact hx (pair_prefix_cons.mp hstart).1
    · exact ht hinner
  have hother : ∀ {t : List Char}, ¬ [x, x] <:+: t → ¬ [x, x] <:+: y :: t := by
    intro t ht hinner
    rcases List.infix_cons_iff.mp hinner with hstart | hinner
    · exact hxy (pair_prefix_cons.mp hstart).1
    · exact ht hinner
  rw [pair_infix_append]
  rintro (hinner | hinner | ⟨-, hhead⟩)
  · exact hs hinner
  · exact hspace (hother (hother (hspace hnext))) hinner
  · cases hhead
    exact hx rfl

/-- The spelling of a chain is cut into that chain. -/
theorem split_spelling {chain : Chain} (h : ∀ s ∈ chain.parts, Spelled s) :
    split chain.spelling = chain := by
  rcases chain with ⟨first, next, fallback⟩
  have hfirst : Spelled first := h first List.mem_cons_self
  rw [split, cut_eq_segments, cut_eq_segments, cut_eq_segments, spelling]
  cases next with
  | some next =>
      have hnext : Spelled next := h next (List.mem_cons_of_mem _ List.mem_cons_self)
      cases fallback with
      | some fallback =>
          have hfallback : Spelled fallback := h fallback (by simp [parts])
          have hboth := segments_bothShape hfirst hnext hfallback
          simp only [Option.elim_some, List.cons_append, hboth]
      | none =>
          have hnone : segments bothShape (first ++ ' ' :: '&' :: '&' :: ' ' :: next) = none :=
            segments_eq_none_of_not_isInfix bothShape orWord (by simp [bothShape])
              (not_infix_around (by decide) (by decide) hfirst.orFree hnext.orFree)
          have hpair : segments (pairShape andWord) (first ++ ' ' :: '&' :: '&' :: ' ' :: next) =
              some [first, next] :=
            segments_pairShape isBlank_ampersand hfirst hfirst.andFree hnext
          simp only [Option.elim_some, Option.elim_none, List.append_nil, hnone, hpair]
  | none =>
      cases fallback with
      | some fallback =>
          have hfallback : Spelled fallback := h fallback (by simp [parts])
          have hfree : ¬ andWord <:+: first ++ ' ' :: '|' :: '|' :: ' ' :: fallback :=
            not_infix_around (by decide) (by decide) hfirst.andFree hfallback.andFree
          have hboth := segments_eq_none_of_not_isInfix bothShape andWord
            (by simp [bothShape]) hfree
          have hand := segments_eq_none_of_not_isInfix (pairShape andWord) andWord
            (by simp [pairShape]) hfree
          have hor : segments (pairShape orWord) (first ++ ' ' :: '|' :: '|' :: ' ' :: fallback) =
              some [first, fallback] :=
            segments_pairShape isBlank_bar hfirst hfirst.orFree hfallback
          simp only [Option.elim_some, Option.elim_none, List.nil_append, hboth, hand, hor]
      | none =>
          have hboth := segments_eq_none_of_not_isInfix bothShape andWord
            (by simp [bothShape]) hfirst.andFree
          have hand := segments_eq_none_of_not_isInfix (pairShape andWord) andWord
            (by simp [pairShape]) hfirst.andFree
          have hor := segments_eq_none_of_not_isInfix (pairShape orWord) orWord
            (by simp [pairShape]) hfirst.orFree
          simp only [Option.elim_none, List.append_nil, hboth, hand, hor]

end Chain
end BulkTransfer
