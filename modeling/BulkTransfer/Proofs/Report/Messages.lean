import Mathlib.Logic.Function.Iterate
import BulkTransfer.Proofs.Parse.Prepared
import BulkTransfer.Report.Message

/-!
# Messages on one line

Halving the spaces of a text again and again makes it shorter until no two spaces are
neighbours, and no round changes what the text is with one space for every run.  So a message
on one line is the message with one space for every run of line breaks, tabs and spaces, without
the blanks at its ends, and nothing is left to do on it.
-/

namespace BulkTransfer
namespace Report

open Text

/-!
## Runs
-/

/-- Whether a character is a line break, a tab or a space. -/
def isGap (c : Char) : Bool :=
  c == '\n' || c == '\t' || c == ' '

/-- One space for every longest run of line breaks, tabs and spaces. -/
def spacedRuns : List Char → List Char
  | [] => []
  | c :: s => if isGap c then ' ' :: spacedRuns (s.dropWhile isGap) else c :: spacedRuns s
termination_by s => s.length
decreasing_by
  · exact Nat.lt_succ_of_le (List.dropWhile_suffix isGap).length_le
  · exact Nat.lt_succ_self s.length

/-- A text without its first character if that is a space. -/
def withoutSpace : List Char → List Char
  | ' ' :: s => s
  | s => s

theorem isGap_space : isGap ' ' = true := by decide

theorem ne_space_of_not_isGap {c : Char} (h : isGap c = false) : c ≠ ' ' := by
  rintro rfl
  exact Bool.noConfusion (isGap_space.symm.trans h)

theorem withoutSpace_cons {c : Char} (s : List Char) (h : c ≠ ' ') :
    withoutSpace (c :: s) = c :: s := by
  rw [withoutSpace]
  rintro t heq
  exact h (List.cons.inj heq).1

@[simp] theorem spacedRuns_nil : spacedRuns [] = [] := by
  rw [spacedRuns]

theorem spacedRuns_cons_of_not_gap {c : Char} (s : List Char) (h : isGap c = false) :
    spacedRuns (c :: s) = c :: spacedRuns s := by
  rw [spacedRuns, h, if_neg Bool.false_ne_true]

/-- A run goes on with the text behind it, whose own run it takes in. -/
theorem spacedRuns_cons_of_gap {c : Char} (s : List Char) (h : isGap c = true) :
    spacedRuns (c :: s) = ' ' :: withoutSpace (spacedRuns s) := by
  rw [spacedRuns, if_pos h]
  cases s with
  | nil =>
      rw [List.dropWhile_nil, spacedRuns_nil]
      rfl
  | cons d s =>
      cases hd : isGap d with
      | true => rw [List.dropWhile_cons_of_pos hd, spacedRuns, if_pos hd, withoutSpace]
      | false =>
          rw [List.dropWhile_cons_of_neg (ne_true_of_eq_false hd),
            spacedRuns_cons_of_not_gap s hd, withoutSpace_cons _ (ne_space_of_not_isGap hd)]

theorem spacedRuns_cons_congr {s t : List Char} (h : spacedRuns s = spacedRuns t) (c : Char) :
    spacedRuns (c :: s) = spacedRuns (c :: t) := by
  cases hc : isGap c with
  | true => rw [spacedRuns_cons_of_gap s hc, spacedRuns_cons_of_gap t hc, h]
  | false => rw [spacedRuns_cons_of_not_gap s hc, spacedRuns_cons_of_not_gap t hc, h]

/-- A character more in a run changes nothing. -/
theorem spacedRuns_cons_cons {c d : Char} (s : List Char) (hc : isGap c = true)
    (hd : isGap d = true) : spacedRuns (c :: d :: s) = spacedRuns (d :: s) := by
  rw [spacedRuns_cons_of_gap (d :: s) hc, spacedRuns_cons_of_gap s hd, withoutSpace]

theorem filter_withoutSpace (s : List Char) :
    (withoutSpace s).filter (!isGap ·) = s.filter (!isGap ·) := by
  fun_cases withoutSpace s with
  | case1 s => rw [List.filter_cons_of_neg (by decide)]
  | case2 => rfl

/-- Everything but line breaks, tabs and spaces is kept, in its order. -/
theorem filter_spacedRuns (s : List Char) :
    (spacedRuns s).filter (!isGap ·) = s.filter (!isGap ·) := by
  induction s with
  | nil => rw [spacedRuns_nil]
  | cons c s ih =>
      cases hc : isGap c with
      | true =>
          rw [spacedRuns_cons_of_gap s hc, List.filter_cons_of_neg (by decide),
            List.filter_cons_of_neg (by rw [hc]; decide), filter_withoutSpace, ih]
      | false => rw [spacedRuns_cons_of_not_gap s hc, List.filter_cons, List.filter_cons, ih]

/-!
## Rounds
-/

theorem isGap_spaced (c : Char) : isGap (spaced c) = isGap c := by
  rw [spaced]
  split
  · rename_i h
    rcases h with rfl | rfl <;> rfl
  · rfl

theorem eq_space_of_isGap_spaced {c : Char} (h : isGap (spaced c) = true) : spaced c = ' ' := by
  rw [spaced] at h ⊢
  split
  · rfl
  · rename_i hother
    rw [if_neg hother, isGap, Bool.or_eq_true, Bool.or_eq_true, beq_iff_eq, beq_iff_eq,
      beq_iff_eq] at h
    exact h.resolve_left hother

theorem spaced_eq_self {c : Char} (h : isGap c = true → c = ' ') : spaced c = c := by
  rw [spaced, if_neg]
  rintro (rfl | rfl)
  · exact absurd (h rfl) (by decide)
  · exact absurd (h rfl) (by decide)

theorem spacedRuns_map_spaced (s : List Char) : spacedRuns (s.map spaced) = spacedRuns s := by
  induction s with
  | nil => rfl
  | cons c s ih =>
      rw [List.map_cons]
      cases hc : isGap c with
      | true =>
          rw [spacedRuns_cons_of_gap s hc, spacedRuns_cons_of_gap _ ((isGap_spaced c).trans hc),
            ih]
      | false =>
          have hself : spaced c = c := spaced_eq_self fun hgap => by
            rw [hc] at hgap
            cases hgap
          rw [hself, spacedRuns_cons_of_not_gap s hc, spacedRuns_cons_of_not_gap _ hc, ih]

theorem spacedRuns_halveSpaces (s : List Char) : spacedRuns (halveSpaces s) = spacedRuns s := by
  fun_induction halveSpaces s with
  | case1 s ih => rw [spacedRuns_cons_congr ih, spacedRuns_cons_cons s isGap_space isGap_space]
  | case2 c s hpair ih => exact spacedRuns_cons_congr ih c
  | case3 => rfl

theorem halveSpaces_subset (s : List Char) : halveSpaces s ⊆ s := by
  fun_induction halveSpaces s with
  | case1 s ih => exact List.cons_subset_cons _ (List.subset_cons_of_subset _ ih)
  | case2 c s hpair ih => exact List.cons_subset_cons c ih
  | case3 => exact List.Subset.refl _

/-- Where spaces are alone there is no run to replace. -/
theorem spacedRuns_eq_self {s : List Char} (hgap : ∀ c ∈ s, isGap c = true → c = ' ')
    (hsingle : ¬ twoSpaces <:+: s) : spacedRuns s = s := by
  induction s with
  | nil => exact spacedRuns_nil
  | cons c s ih =>
      rw [List.forall_mem_cons] at hgap
      rw [List.infix_cons_iff, not_or, twoSpaces, pair_prefix_cons] at hsingle
      have hrest := ih hgap.2 hsingle.2
      cases hc : isGap c with
      | false => rw [spacedRuns_cons_of_not_gap s hc, hrest]
      | true =>
          have hspace := hgap.1 hc
          rw [spacedRuns_cons_of_gap s hc, hrest, hspace]
          cases s with
          | nil => rfl
          | cons d s =>
              have hd : d ≠ ' ' := fun hd => hsingle.1 ⟨hspace.symm, by rw [hd]; rfl⟩
              rw [withoutSpace_cons s hd]

theorem not_twoSpaces_infix_squeeze (s : List Char) : ¬ twoSpaces <:+: squeeze s := by
  fun_induction squeeze s with
  | case1 s hdouble ih => exact ih
  | case2 s hsingle => exact fun h => hsingle (contains_eq_true_iff.mpr h)

theorem squeeze_eq_self {s : List Char} (h : ¬ twoSpaces <:+: s) : squeeze s = s := by
  rw [squeeze, dif_neg]
  exact fun hdouble => h (contains_eq_true_iff.mp hdouble)

/-- The loop ends behind a number of rounds, each of which has found a pair. -/
theorem exists_rounds (s : List Char) :
    ∃ rounds ≤ s.length, squeeze s = halveSpaces^[rounds] s ∧
      ∀ k < rounds, twoSpaces <:+: halveSpaces^[k] s := by
  fun_induction squeeze s with
  | case1 s hdouble ih =>
      rcases ih with ⟨rounds, hle, heq, hpairs⟩
      have hlt := length_halveSpaces_lt hdouble
      refine ⟨rounds + 1, by omega, ?_, ?_⟩
      · rw [heq, Function.iterate_succ_apply]
      · intro k hk
        cases k with
        | zero => exact contains_eq_true_iff.mp hdouble
        | succ k =>
            rw [Function.iterate_succ_apply]
            exact hpairs k (Nat.lt_of_succ_lt_succ hk)
  | case2 s hsingle =>
      exact ⟨0, Nat.zero_le _, rfl, fun k hk => absurd hk (Nat.not_lt_zero k)⟩

theorem squeeze_subset (s : List Char) : squeeze s ⊆ s := by
  fun_induction squeeze s with
  | case1 s hdouble ih => exact List.Subset.trans ih (halveSpaces_subset s)
  | case2 s hsingle => exact List.Subset.refl _

theorem spacedRuns_squeeze (s : List Char) : spacedRuns (squeeze s) = spacedRuns s := by
  fun_induction squeeze s with
  | case1 s hdouble ih => rw [ih, spacedRuns_halveSpaces]
  | case2 s hsingle => rfl

theorem isGap_of_mem_map_spaced {c : Char} {s : List Char} (h : c ∈ s.map spaced)
    (hgap : isGap c = true) : c = ' ' := by
  rcases List.mem_map.mp h with ⟨d, -, rfl⟩
  exact eq_space_of_isGap_spaced hgap

/-- Pair by pair the whole run of spaces is replaced. -/
theorem squeeze_map_spaced (s : List Char) : squeeze (s.map spaced) = spacedRuns s := by
  have hgap : ∀ c ∈ squeeze (s.map spaced), isGap c = true → c = ' ' :=
    fun c hc => isGap_of_mem_map_spaced (squeeze_subset _ hc)
  calc
    squeeze (s.map spaced) = spacedRuns (squeeze (s.map spaced)) :=
      (spacedRuns_eq_self hgap (not_twoSpaces_infix_squeeze _)).symm
    _ = spacedRuns (s.map spaced) := spacedRuns_squeeze _
    _ = spacedRuns s := spacedRuns_map_spaced s

/-!
## Messages
-/

theorem flatten_eq (s : List Char) : flatten s = trim (spacedRuns s) := by
  rw [flatten, squeeze_map_spaced]

/-- What is left in a message on one line of its line breaks, tabs and spaces. -/
theorem isGap_of_mem_flatten {c : Char} {s : List Char} (h : c ∈ flatten s)
    (hgap : isGap c = true) : c = ' ' :=
  isGap_of_mem_map_spaced (squeeze_subset _ ((trim_isInfix _).subset h)) hgap

theorem not_twoSpaces_infix_flatten (s : List Char) : ¬ twoSpaces <:+: flatten s :=
  fun h => not_twoSpaces_infix_squeeze _ (h.trans (trim_isInfix _))

theorem flatten_flatten (s : List Char) : flatten (flatten s) = flatten s := by
  have hself : (flatten s).map spaced = (flatten s).map id :=
    List.map_congr_left fun c hc => spaced_eq_self (isGap_of_mem_flatten hc)
  have htrim : Trimmed (flatten s) := trimmed_trim _
  rw [flatten, hself, List.map_id, squeeze_eq_self (not_twoSpaces_infix_flatten s), htrim.trim_eq]

/-- The pairs of spaces of every message are gone behind a number of rounds.  What is left has no
line break and no tab, no two neighbouring spaces and no blank at its ends, and shown on one
line it stays as it is.  Up to blanks at its ends it is the message with one space for every
longest run of line breaks, tabs and spaces, so that all other characters are kept in their
order. -/
theorem oneLine_settles (message : String) :
    (∃ rounds ≤ message.toList.length,
      (∀ k < rounds, twoSpaces <:+: halveSpaces^[k] (message.toList.map spaced)) ∧
      ¬ twoSpaces <:+: halveSpaces^[rounds] (message.toList.map spaced) ∧
      (oneLine message).toList = trim (halveSpaces^[rounds] (message.toList.map spaced))) ∧
    ('\n' ∉ (oneLine message).toList ∧ '\t' ∉ (oneLine message).toList ∧
      ¬ twoSpaces <:+: (oneLine message).toList ∧ Trimmed (oneLine message).toList) ∧
    oneLine (oneLine message) = oneLine message ∧
    ∃ left right, spacedRuns message.toList = left ++ (oneLine message).toList ++ right ∧
      (∀ c ∈ left ++ right, isBlank c = true) ∧
      (left ++ (oneLine message).toList ++ right).filter (!isGap ·) =
        message.toList.filter (!isGap ·) := by
  simp only [oneLine, String.toList_ofList]
  refine ⟨?_, ⟨?_, ?_, not_twoSpaces_infix_flatten _, trimmed_trim _⟩, ?_, ?_⟩
  · rcases exists_rounds (message.toList.map spaced) with ⟨rounds, hle, hrounds, hpairs⟩
    rw [List.length_map] at hle
    exact ⟨rounds, hle, hpairs, hrounds ▸ not_twoSpaces_infix_squeeze _, hrounds ▸ rfl⟩
  · exact fun h => absurd (isGap_of_mem_flatten h rfl) (by decide)
  · exact fun h => absurd (isGap_of_mem_flatten h rfl) (by decide)
  · rw [flatten_flatten]
  · rcases exists_trim (spacedRuns message.toList) with ⟨left, right, hruns, hblank⟩
    rw [← flatten_eq] at hruns
    exact ⟨left, right, hruns, hblank, by rw [← hruns, filter_spacedRuns]⟩

end Report
end BulkTransfer
