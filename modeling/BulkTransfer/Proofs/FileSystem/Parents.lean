import BulkTransfer.Proofs.FileSystem.Operations
import BulkTransfer.Proofs.FileSystem.Paths

/-!
# Directories above a path

The path above another one is its text up to a slash, so its names are the first names of
the other.  Directories are made above a path one behind the other; the first one that is
made was vacant in the tree before.
-/

namespace BulkTransfer

namespace Path

/-!
## The text above a path
-/

/-- What is dropped at the end of a text starts with a slash. -/
theorem dropTrailing_cases (s : List Char) :
    dropTrailing s = s ∨ ∃ behind, s.reverse = (dropTrailing s).reverse ++ '/' :: behind := by
  fun_induction dropTrailing s with
  | case1 rest ih =>
      right
      rcases ih with hsame | ⟨behind, hbehind⟩
      · exact ⟨[], by rw [hsame, List.reverse_cons]⟩
      · exact ⟨behind ++ ['/'], by rw [List.reverse_cons, hbehind]; simp⟩
  | case2 rest ih =>
      right
      rcases ih with hsame | ⟨behind, hbehind⟩
      · exact ⟨['.'], by rw [hsame]; simp⟩
      · exact ⟨behind ++ ['/', '.'], by rw [List.reverse_cons, List.reverse_cons, hbehind]; simp⟩
  | case3 => exact Or.inl rfl

/-- The text up to the last slash, without slashes and dots at its end. -/
theorem dropTrailing_dropWhile_cases (s : List Char) :
    dropTrailing (s.dropWhile (· ≠ '/')) = [] ∨
      ∃ behind, s.reverse = (dropTrailing (s.dropWhile (· ≠ '/'))).reverse ++ '/' :: behind := by
  have hsplit := List.takeWhile_append_dropWhile (p := (· ≠ '/')) (l := s)
  have hhead := List.head?_dropWhile_not (· ≠ '/') s
  cases hdrop : s.dropWhile (· ≠ '/') with
  | nil => exact Or.inl rfl
  | cons c tail =>
      rw [hdrop, List.head?_cons] at hhead
      have hslash : c = '/' := by simpa using hhead
      have htail : ∃ behind, ('/' :: tail).reverse = (dropTrailing tail).reverse ++ '/' :: behind := by
        rcases dropTrailing_cases tail with hsame | ⟨behind, hbehind⟩
        · exact ⟨[], by rw [hsame, List.reverse_cons]⟩
        · exact ⟨behind ++ ['/'], by rw [List.reverse_cons, hbehind]; simp⟩
      rcases htail with ⟨behind, hbehind⟩
      right
      refine ⟨behind ++ (s.takeWhile (· ≠ '/')).reverse, ?_⟩
      rw [hslash] at hdrop
      rw [hslash, dropTrailing, ← List.cons_append, ← List.append_assoc, ← hbehind, ← hdrop,
        ← List.reverse_append, hsplit]

/-- A path continues the one above it behind a slash, unless nothing is above it. -/
theorem parent_cases {path above : String} (h : parent path = some above) :
    above = "" ∨ isAbsolute path = true ∧ above = "/" ∨
      ∃ behind, path.toList = above.toList ++ '/' :: behind := by
  rw [parent] at h
  split at h
  · cases h
  · cases h
  · dsimp only at h
    rcases dropTrailing_dropWhile_cases (dropTrailing path.toList.reverse) with
      hnone | ⟨behind, hbehind⟩
    · rw [hnone, List.isEmpty_nil, Bool.true_and] at h
      split at h
      · rename_i habsolute
        cases h
        exact Or.inr (Or.inl ⟨habsolute, rfl⟩)
      · cases h
        exact Or.inl rfl
    · split at h
      · rename_i habsolute
        rw [Bool.and_eq_true] at habsolute
        cases h
        exact Or.inr (Or.inl ⟨habsolute.2, rfl⟩)
      · cases h
        right
        right
        rw [String.toList_ofList]
        rcases dropTrailing_cases path.toList.reverse with hsame | ⟨dropped, hdropped⟩
        · rw [hsame, List.reverse_reverse] at hbehind
          rw [hsame]
          exact ⟨behind, hbehind⟩
        · rw [List.reverse_reverse, hbehind, List.append_assoc, List.cons_append] at hdropped
          exact ⟨_, hdropped⟩

end Path

namespace FileTree

/-- A path whose names are the first ones of another path. -/
structure IsFront (front path : String) : Prop where
  isAbsolute_eq : Path.isAbsolute front = Path.isAbsolute path
  namesOf_isPrefix : namesOf front <+: namesOf path

theorem IsFront.refl (path : String) : IsFront path path :=
  ⟨rfl, List.prefix_rfl⟩

theorem IsFront.trans {front middle path : String} (h : IsFront front middle)
    (h' : IsFront middle path) : IsFront front path :=
  ⟨h.isAbsolute_eq.trans h'.isAbsolute_eq, h.namesOf_isPrefix.trans h'.namesOf_isPrefix⟩

theorem isFront_parent {path above : String} (h : Path.parent path = some above)
    (hne : above.isEmpty = false) : IsFront above path := by
  rcases Path.parent_cases h with rfl | ⟨habsolute, rfl⟩ | ⟨behind, hpath⟩
  · cases hne
  · exact ⟨habsolute.symm, List.nil_prefix⟩
  · constructor
    · rw [Path.isAbsolute, Path.isAbsolute, hpath]
      cases hchars : above.toList with
      | nil =>
          rw [String.toList_eq_nil_iff] at hchars
          rw [hchars] at hne
          cases hne
      | cons c chars => rfl
    · rw [namesOf, namesOf, Path.pieces, Path.pieces, hpath, Text.splitOn_append, List.map_append,
        List.filter_append]
      exact List.prefix_append _ _

end FileTree

/-!
## Directories that are made
-/

namespace Disk

variable {disk : Disk}

theorem makeDirectory_tree (path : String) (disk : Disk) :
    (makeDirectory path disk).2.tree = disk.tree ∨
      ∃ directory name, disk.tree.resolve false path = .ok (.vacant directory name) := by
  rcases hmake : makeDirectory path disk with ⟨outcome, later⟩
  cases outcome with
  | error error => exact Or.inl (DiskM.change_eq_error hmake)
  | ok value =>
      right
      have hchange := DiskM.change_eq_ok hmake
      cases htree : disk.tree.makeDirectory path with
      | error error =>
          rw [htree] at hchange
          cases hchange
      | ok later =>
          rcases FileTree.makeDirectory_eq_ok htree with ⟨directory, name, hresolve, -⟩
          exact ⟨directory, name, hresolve⟩

/-- Directories are made where a path above was vacant, or the tree stays as it is. -/
theorem makeDirectories_tree (depth : Nat) (path : String) (disk : Disk) :
    (makeDirectories depth path disk).2.tree = disk.tree ∨
      ∃ front directory name, FileTree.IsFront front path ∧
        disk.tree.resolve false front = .ok (.vacant directory name) := by
  induction depth generalizing disk path with
  | zero => exact Or.inl rfl
  | succ depth ih =>
      rcases makeDirectory_tree path disk with hsame | ⟨directory, name, hresolve⟩
      · rcases hall : makeDirectories (depth + 1) path disk with ⟨outcome, later⟩
        rcases makeDirectories_cases hall with
          ⟨first, hfirst, -⟩ | ⟨cause, between, above, hfirst, habove, hne, hdeeper⟩ <;>
          rw [hfirst] at hsame
        · exact Or.inl hsame
        · have hfront := FileTree.isFront_parent habove hne
          have hdeep := ih above between
          rw [hsame] at hdeep
          rcases hdeep with hstill | ⟨front, directory, name, hfront', hresolve⟩
          · rcases hdeeper with ⟨error, -, hdeep⟩ | ⟨deeper, last, hdeep, hlast, -⟩ <;>
              rw [hdeep] at hstill
            · exact Or.inl hstill
            · have hagain := makeDirectory_tree path deeper
              rw [hlast, hstill] at hagain
              rcases hagain with hagain | ⟨directory, name, hresolve⟩
              · exact Or.inl hagain
              · exact Or.inr ⟨path, directory, name, .refl path, hresolve⟩
          · exact Or.inr ⟨front, directory, name, hfront'.trans hfront, hresolve⟩
      · exact Or.inr ⟨path, directory, name, .refl path, hresolve⟩

end Disk

theorem FileCopy.makeParent_tree (path : String) (disk : Disk) :
    (FileCopy.makeParent path disk).2.tree = disk.tree ∨
      ∃ front directory name, FileTree.IsFront front path ∧
        disk.tree.resolve false front = .ok (.vacant directory name) := by
  rw [FileCopy.makeParent]
  cases hparent : Path.parent path with
  | none => exact Or.inl rfl
  | some above =>
      dsimp only
      by_cases hempty : above.isEmpty = true
      · rw [if_pos hempty]
        exact Or.inl rfl
      · rw [if_neg hempty]
        rcases Disk.makeDirectories_tree ((Path.parts above).length + 1) above disk with
          hsame | ⟨front, directory, name, hfront, hresolve⟩
        · exact Or.inl hsame
        · have habove := FileTree.isFront_parent hparent (Bool.eq_false_iff.mpr hempty)
          exact Or.inr ⟨front, directory, name, hfront.trans habove, hresolve⟩

end BulkTransfer
