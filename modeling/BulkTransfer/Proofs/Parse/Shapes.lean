import BulkTransfer.Proofs.Parse.Prepared

/-!
# Texts of a shape

A shape is a simple pattern, and a text has it if the text can be put together from
runs of blanks, segments and words in its order.  Cutting finds segments whenever the
text has the shape, and no segment that it finds could have ended earlier.
-/

namespace BulkTransfer
namespace Chain

open Text

/-- A text of a shape, with the segments in it. -/
inductive Fits : List Piece → List (List Char) → List Char → Prop
  | nil : Fits [] [] []
  | blanks {run s : List Char} {shape : List Piece} {parts : List (List Char)} :
      (∀ c ∈ run, isBlank c = true) → Fits shape parts s →
        Fits (.blanks :: shape) parts (run ++ s)
  | segment {segment s : List Char} {shape : List Piece} {parts : List (List Char)} :
      segment ≠ [] → '\n' ∉ segment → Fits shape parts s →
        Fits (.segment :: shape) (segment :: parts) (segment ++ s)
  | word {word s : List Char} {shape : List Piece} {parts : List (List Char)} :
      Fits shape parts s → Fits (.word word :: shape) parts (word ++ s)

/-!
## Blanks
-/

theorem behindBlanks_inv {α : Type} {next : List Char → Option α} {s : List Char} {a : α}
    (h : behindBlanks next s = some a) :
    ∃ run rest, s = run ++ rest ∧ (∀ c ∈ run, isBlank c = true) ∧ next rest = some a := by
  induction s with
  | nil => exact ⟨[], [], rfl, fun _ hmem => absurd hmem List.not_mem_nil, h⟩
  | cons c s ih =>
      rw [behindBlanks] at h
      split at h
      · rename_i hc
        rcases Option.or_eq_some_iff.mp h with h | ⟨-, h⟩
        · rcases ih h with ⟨run, rest, hs, hrun, hnext⟩
          refine ⟨c :: run, rest, by rw [hs]; rfl, ?_, hnext⟩
          rw [List.forall_mem_cons]
          exact ⟨hc, hrun⟩
        · exact ⟨[], c :: s, rfl, fun _ hmem => absurd hmem List.not_mem_nil, h⟩
      · exact ⟨[], c :: s, rfl, fun _ hmem => absurd hmem List.not_mem_nil, h⟩

theorem isSome_behindBlanks {α : Type} {next : List Char → Option α} {run rest : List Char}
    (hrun : ∀ c ∈ run, isBlank c = true) (h : (next rest).isSome = true) :
    (behindBlanks next (run ++ rest)).isSome = true := by
  induction run with
  | nil =>
      cases rest with
      | nil => exact h
      | cons c rest =>
          rw [List.nil_append, behindBlanks]
          split
          · rw [Option.isSome_or, h, Bool.or_true]
          · exact h
  | cons c run ih =>
      rw [List.forall_mem_cons] at hrun
      rw [List.cons_append, behindBlanks, if_pos hrun.1, Option.isSome_or, ih hrun.2,
        Bool.true_or]

theorem behindBlanks_of_front {α : Type} (next : List Char → Option α) {s : List Char}
    (h : ∀ c, s.head? = some c → isBlank c = false) : behindBlanks next s = next s := by
  cases s with
  | nil => rfl
  | cons c s =>
      rw [behindBlanks, if_neg]
      rw [h c rfl]
      exact Bool.noConfusion

theorem behindBlanks_space {α : Type} {next : List Char → Option α} {s : List Char}
    (hfront : ∀ c, s.head? = some c → isBlank c = false) (h : (next s).isSome = true) :
    behindBlanks next (' ' :: s) = next s := by
  rw [behindBlanks, if_pos isBlank_space, behindBlanks_of_front next hfront]
  exact Option.or_of_isSome h

/-!
## Segments
-/

/-- A segment that is found is the shortest behind which the rest is found too. -/
theorem behindSegment_inv {next : List Char → Option (List (List Char))} {s : List Char}
    {parts : List (List Char)} (h : behindSegment next s = some parts) :
    ∃ segment rest behind, parts = segment :: rest ∧ s = segment ++ behind ∧ segment ≠ [] ∧
      '\n' ∉ segment ∧ next behind = some rest ∧
      ∀ front other, segment = front ++ other → front ≠ [] → other ≠ [] →
        next (other ++ behind) = none := by
  induction s generalizing parts with
  | nil => cases h
  | cons c s ih =>
      rw [behindSegment] at h
      split at h
      · cases h
      · rename_i hc
        cases hnext : next s with
        | some rest =>
            rw [hnext] at h
            cases h
            refine ⟨[c], rest, s, rfl, rfl, List.cons_ne_nil _ _, ?_, hnext, ?_⟩
            · rw [List.mem_singleton]
              exact Ne.symm hc
            · intro front other hsplit hfront hother
              rcases List.singleton_eq_append_iff.mp hsplit with ⟨hnil, -⟩ | ⟨-, hnil⟩
              · exact absurd hnil hfront
              · exact absurd hnil hother
        | none =>
            rw [hnext, Option.map_none, Option.none_or] at h
            rcases Option.map_eq_some_iff.mp h with ⟨found, hfound, hparts⟩
            rcases ih hfound with ⟨segment, rest, behind, hsegments, hs, -, hline, hrest, hshort⟩
            rw [hsegments, lengthen] at hparts
            refine ⟨c :: segment, rest, behind, hparts.symm, by rw [hs]; rfl,
              List.cons_ne_nil _ _, ?_, hrest, ?_⟩
            · rw [List.mem_cons, not_or]
              exact ⟨Ne.symm hc, hline⟩
            · intro front other hsplit hfront hother
              cases front with
              | nil => exact absurd rfl hfront
              | cons d front =>
                  rw [List.cons_append, List.cons.injEq] at hsplit
                  cases front with
                  | nil =>
                      rw [List.nil_append] at hsplit
                      rw [← hsplit.2, ← hs]
                      exact hnext
                  | cons e front =>
                      exact hshort (e :: front) other hsplit.2 (List.cons_ne_nil _ _) hother

theorem isSome_behindSegment {next : List Char → Option (List (List Char))}
    {segment behind : List Char} (hne : segment ≠ []) (hline : '\n' ∉ segment)
    (h : (next behind).isSome = true) :
    (behindSegment next (segment ++ behind)).isSome = true := by
  induction segment with
  | nil => exact absurd rfl hne
  | cons c segment ih =>
      rw [List.mem_cons, not_or] at hline
      rw [List.cons_append, behindSegment, if_neg (Ne.symm hline.1), Option.isSome_or]
      cases segment with
      | nil => rw [List.nil_append, Option.isSome_map, h, Bool.true_or]
      | cons d segment =>
          rw [Option.isSome_map, Option.isSome_map, ih (List.cons_ne_nil _ _) hline.2,
            Bool.or_true]

/-- The shortest segment behind which the rest is found is found. -/
theorem behindSegment_append {next : List Char → Option (List (List Char))}
    {segment behind : List Char} (hne : segment ≠ []) (hline : '\n' ∉ segment)
    (h : (next behind).isSome = true)
    (hshort : ∀ front other, segment = front ++ other → front ≠ [] → other ≠ [] →
      next (other ++ behind) = none) :
    behindSegment next (segment ++ behind) = (next behind).map (segment :: ·) := by
  induction segment with
  | nil => exact absurd rfl hne
  | cons c segment ih =>
      rw [List.mem_cons, not_or] at hline
      rw [List.cons_append, behindSegment, if_neg (Ne.symm hline.1)]
      cases segment with
      | nil =>
          rw [List.nil_append]
          exact Option.or_of_isSome (by rw [Option.isSome_map, h])
      | cons d segment =>
          have hlater := hshort [c] (d :: segment) rfl (List.cons_ne_nil _ _)
            (List.cons_ne_nil _ _)
          have hsegment := ih (List.cons_ne_nil _ _) hline.2 fun front other hsplit hfront hother =>
            hshort (c :: front) other (by rw [hsplit]; rfl) (List.cons_ne_nil _ _) hother
          rw [hlater, Option.map_none, Option.none_or, hsegment, Option.map_map]
          rfl

/-!
## Cutting and shapes
-/

theorem fits_of_segments {shape : List Piece} {s : List Char} {parts : List (List Char)}
    (h : segments shape s = some parts) : Fits shape parts s := by
  induction shape generalizing s parts with
  | nil =>
      rw [segments] at h
      split at h
      · rename_i hs
        rw [List.isEmpty_iff.mp hs]
        cases h
        exact Fits.nil
      · cases h
  | cons piece shape ih =>
      cases piece with
      | blanks =>
          rcases behindBlanks_inv h with ⟨run, rest, hs, hrun, hrest⟩
          rw [hs]
          exact Fits.blanks hrun (ih hrest)
      | segment =>
          rcases behindSegment_inv h with ⟨segment, rest, behind, hparts, hs, hne, hline, hrest, -⟩
          rw [hparts, hs]
          exact Fits.segment hne hline (ih hrest)
      | word word =>
          rcases Option.bind_eq_some_iff.mp h with ⟨rest, hstart, hrest⟩
          rw [← List.append_eq_of_isPrefixOf?_eq_some hstart]
          exact Fits.word (ih hrest)

theorem Fits.isSome_segments {shape : List Piece} {parts : List (List Char)} {s : List Char}
    (h : Fits shape parts s) : (segments shape s).isSome = true := by
  induction h with
  | nil => rfl
  | blanks hrun _ ih => exact isSome_behindBlanks hrun ih
  | segment hne hline _ ih => exact isSome_behindSegment hne hline ih
  | word _ ih =>
      rw [segments, List.isPrefixOf?_eq_some_iff_append_eq.mpr rfl]
      exact ih

theorem Fits.word_isInfix {shape : List Piece} {parts : List (List Char)} {s word : List Char}
    (h : Fits shape parts s) (hword : .word word ∈ shape) : word <:+: s := by
  induction h with
  | nil => cases hword
  | blanks _ _ ih | segment _ _ _ ih =>
      rcases List.mem_cons.mp hword with hword | hword
      · cases hword
      · exact (ih hword).trans (List.suffix_append _ _).isInfix
  | word _ ih =>
      rcases List.mem_cons.mp hword with hword | hword
      · cases hword
        exact (List.prefix_append _ _).isInfix
      · exact (ih hword).trans (List.suffix_append _ _).isInfix

theorem segments_eq_none_of_not_isInfix (shape : List Piece) (word : List Char)
    {s : List Char} (hword : .word word ∈ shape) (h : ¬ word <:+: s) : segments shape s = none := by
  cases hsegments : segments shape s with
  | none => rfl
  | some parts => exact absurd ((fits_of_segments hsegments).word_isInfix hword) h

end Chain
end BulkTransfer
