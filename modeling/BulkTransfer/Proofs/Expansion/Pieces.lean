import BulkTransfer.Expand

/-!
# Lists cut into pieces

A list is cut into full pieces, behind which less than one piece is left.  What is left is a
piece of its own if it is kept and not empty.
-/

namespace BulkTransfer
namespace Expand

/-- Full pieces of a list, behind which less than one piece is left. -/
structure Divided {α : Type} (size : Nat) (pieces : List (List α)) (left whole : List α) :
    Prop where
  full : ∀ piece ∈ pieces, piece.length = size
  short : left.length < size
  joined : pieces.flatten ++ left = whole

/-- A list cut into pieces of a given size, of which only the last may be shorter. -/
structure CutInto {α : Type} (size : Nat) (pieces : List (List α)) (whole : List α) : Prop where
  joined : pieces.flatten = whole
  sizes : ∀ piece ∈ pieces, 1 ≤ piece.length ∧ piece.length ≤ size
  full : ∀ piece ∈ pieces.dropLast, piece.length = size

variable {α : Type} {size : Nat}

theorem Divided.cons {cut : List (List α)} {piece left whole : List α}
    (hfull : piece.length = size) (h : Divided size cut left whole) :
    Divided size (piece :: cut) left (piece ++ whole) where
  full := List.forall_mem_cons.mpr ⟨hfull, h.full⟩
  short := h.short
  joined := by rw [List.flatten_cons, List.append_assoc, h.joined]

/-- Cutting gives the full pieces and, if it is kept and not empty, what is left. -/
theorem exists_divided {current : List α} (hcurrent : current.length < size) (rest : List α) :
    ∃ full left, Divided size full left (current ++ rest) ∧ ∀ keepLast,
      pieces size keepLast current rest =
        full ++ if keepLast && !left.isEmpty then [left] else [] := by
  induction rest generalizing current with
  | nil =>
      refine ⟨[], current, ⟨fun _ hmem => absurd hmem List.not_mem_nil, hcurrent, ?_⟩,
        fun keepLast => rfl⟩
      exact (List.append_nil current).symm
  | cons a rest ih =>
      have hlength : (current ++ [a]).length = current.length + 1 := List.length_append
      have hassoc : current ++ a :: rest = (current ++ [a]) ++ rest := by
        rw [List.append_assoc, List.singleton_append]
      by_cases hshort : current.length + 1 < size
      · rcases ih (hlength ▸ hshort) with ⟨full, left, hdivided, hpieces⟩
        refine ⟨full, left, hassoc ▸ hdivided, fun keepLast => ?_⟩
        rw [pieces, if_pos hshort, hpieces]
      · rcases ih (show ([] : List α).length < size from Nat.zero_lt_of_lt hcurrent) with
          ⟨full, left, hdivided, hpieces⟩
        have hfull : (current ++ [a]).length = size := by
          rw [hlength]
          exact Nat.le_antisymm hcurrent (Nat.le_of_not_lt hshort)
        refine ⟨(current ++ [a]) :: full, left, hassoc ▸ hdivided.cons hfull, fun keepLast => ?_⟩
        rw [pieces, if_neg hshort, hpieces, List.cons_append]

/-- Full pieces and what is left of a list, if anything, are a cut of the whole list. -/
theorem Divided.cutInto {cut : List (List α)} {left whole : List α}
    (h : Divided size cut left whole) :
    CutInto size (cut ++ if !left.isEmpty then [left] else []) whole := by
  have hsize : 0 < size := Nat.zero_lt_of_lt h.short
  have hfull : ∀ piece ∈ cut, 1 ≤ piece.length ∧ piece.length ≤ size := by
    intro piece hmem
    rw [h.full piece hmem]
    exact ⟨hsize, Nat.le_refl size⟩
  cases left with
  | nil =>
      have hjoined := h.joined
      rw [List.append_nil] at hjoined
      show CutInto size (cut ++ []) whole
      rw [List.append_nil]
      exact ⟨hjoined, hfull, fun piece hmem => h.full piece (List.dropLast_subset _ hmem)⟩
  | cons a left =>
      show CutInto size (cut ++ [a :: left]) whole
      constructor
      · rw [List.flatten_append, List.flatten_singleton, h.joined]
      · intro piece hmem
        rcases List.mem_append.mp hmem with hmem | hmem
        · exact hfull piece hmem
        · cases List.mem_singleton.mp hmem
          exact ⟨Nat.succ_pos _, Nat.le_of_lt h.short⟩
      · rw [List.dropLast_concat]
        exact h.full

theorem cutInto_pieces (hsize : 0 < size) (whole : List α) :
    CutInto size (pieces size true [] whole) whole := by
  rcases exists_divided (show ([] : List α).length < size from hsize) whole with
    ⟨full, left, hdivided, hpieces⟩
  rw [hpieces]
  exact hdivided.cutInto

theorem flatten_pieces (hsize : 0 < size) (whole : List α) :
    (pieces size true [] whole).flatten = whole :=
  (cutInto_pieces hsize whole).joined

/-- A piece is not empty, and its members are members of the list. -/
theorem mem_pieces (hsize : 0 < size) {keepLast : Bool} {whole piece : List α}
    (h : piece ∈ pieces size keepLast [] whole) : piece ≠ [] ∧ ∀ a ∈ piece, a ∈ whole := by
  rcases exists_divided (show ([] : List α).length < size from hsize) whole with
    ⟨full, left, hdivided, hpieces⟩
  have hcut : piece ∈ full ++ if !left.isEmpty then [left] else [] := by
    rw [hpieces] at h
    cases keepLast with
    | true => exact h
    | false =>
        rw [Bool.false_and, if_neg Bool.false_ne_true, List.append_nil] at h
        exact List.mem_append_left _ h
  refine ⟨List.ne_nil_of_length_pos (hdivided.cutInto.sizes piece hcut).1, fun a ha => ?_⟩
  have hjoined := List.mem_flatten_of_mem hcut ha
  rw [hdivided.cutInto.joined] at hjoined
  exact hjoined

end Expand
end BulkTransfer
