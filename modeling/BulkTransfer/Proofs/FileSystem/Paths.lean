import BulkTransfer.FileSystem.Path
import BulkTransfer.Proofs.Text.Words

/-!
# Names in written paths

A path behind another one has the pieces of both.  Names that are joined with slashes are
found again as the pieces of the text and as the parts of the path.
-/

namespace BulkTransfer

open Text

/-- A text that can be the name of an entry of a directory. -/
structure IsName (name : String) : Prop where
  ne_empty : name ≠ ""
  ne_here : name ≠ "."
  ne_up : name ≠ ".."
  slashFree : '/' ∉ name.toList

instance (name : String) : Decidable (IsName name) :=
  decidable_of_iff (name ≠ "" ∧ name ≠ "." ∧ name ≠ ".." ∧ '/' ∉ name.toList)
    ⟨fun ⟨hempty, hhere, hup, hfree⟩ => ⟨hempty, hhere, hup, hfree⟩,
      fun h => ⟨h.ne_empty, h.ne_here, h.ne_up, h.slashFree⟩⟩

/-- Names with slashes between them. -/
def joinNames (names : List String) : String :=
  "/".intercalate names

theorem toList_joinNames (names : List String) :
    (joinNames names).toList = joinWith '/' (names.map String.toList) :=
  toList_intercalate (by decide) names

namespace Path

/-- The pieces of joined names are the names. -/
theorem pieces_joinNames {names : List String} (hne : names ≠ [])
    (h : ∀ name ∈ names, '/' ∉ name.toList) : pieces (joinNames names) = names := by
  have hfree : ∀ piece ∈ names.map String.toList, '/' ∉ piece := by
    intro piece hmem
    rcases List.mem_map.mp hmem with ⟨name, hname, rfl⟩
    exact h name hname
  rw [pieces, toList_joinNames, splitOn_joinWith (by simpa using hne) hfree, List.map_map]
  have hid : String.ofList ∘ String.toList = id := funext fun _ => String.ofList_toList
  rw [hid, List.map_id]

/-- Different lists of names are joined to different paths. -/
theorem joinNames_inj {names names' : List String} (hne : names ≠ [])
    (hnames : ∀ name ∈ names, IsName name) (hne' : names' ≠ [])
    (hnames' : ∀ name ∈ names', IsName name) (h : joinNames names = joinNames names') :
    names = names' := by
  have hpieces := congrArg pieces h
  rwa [pieces_joinNames hne fun name hmem => (hnames name hmem).slashFree,
    pieces_joinNames hne' fun name hmem => (hnames' name hmem).slashFree] at hpieces

theorem joinNames_pieces (path : String) : joinNames (pieces path) = path := by
  have hid : String.toList ∘ String.ofList = id := funext fun _ => String.toList_ofList
  rw [← String.toList_inj, toList_joinNames, pieces, List.map_map, hid, List.map_id,
    joinWith_splitOn]

theorem slashFree_of_mem_pieces {path piece : String} (h : piece ∈ pieces path) :
    '/' ∉ piece.toList := by
  rw [pieces, List.mem_map] at h
  rcases h with ⟨letters, hmem, rfl⟩
  rw [String.toList_ofList]
  exact not_mem_of_mem_splitOn hmem

theorem pieces_ne_nil (path : String) : pieces path ≠ [] := by
  rw [pieces, Ne, List.map_eq_nil_iff]
  exact splitOn_ne_nil '/' path.toList

/-- A piece that stands for a name. -/
theorem partOfPiece_eq_name {piece word : String} (hfree : '/' ∉ piece.toList)
    (h : partOfPiece piece = some (.name word)) : word = piece ∧ IsName piece := by
  rw [partOfPiece] at h
  split at h
  · cases h
  · rename_i hempty
    split at h
    · cases h
    · rename_i hup
      cases h
      rw [not_or] at hempty
      exact ⟨rfl, hempty.1, hempty.2, hup, hfree⟩

/-- The basename of a path is one of its pieces. -/
theorem mem_pieces_of_fileName {path name : String} (h : fileName path = some name) :
    name ∈ pieces path ∧ IsName name := by
  rw [fileName] at h
  split at h
  · rename_i word hlast
    cases h
    have hmem : PathPart.name name ∈ parts path := List.mem_of_getLast? hlast
    simp only [parts, List.mem_append, List.mem_filterMap] at hmem
    rcases hmem with hfront | ⟨piece, hpiece, hpart⟩
    · split at hfront
      · simp only [List.mem_singleton, reduceCtorEq] at hfront
      · split at hfront
        · simp only [List.mem_singleton, reduceCtorEq] at hfront
        · cases hfront
    · rcases partOfPiece_eq_name (slashFree_of_mem_pieces hpiece) hpart with ⟨rfl, hname⟩
      exact ⟨hpiece, hname⟩
  · cases h

/-- Names behind a text: the first of them goes on in its last piece. -/
theorem pieces_append_joinNames (base first : String) {rest : List String}
    (h : ∀ name ∈ first :: rest, '/' ∉ name.toList) :
    ∃ last, '/' ∉ last.toList ∧
      pieces (base ++ joinNames (first :: rest)) =
        (pieces base).dropLast ++ (last ++ first) :: rest := by
  rcases List.eq_nil_or_concat (pieces base) with hnil | ⟨front, last, hpieces⟩
  · exact absurd hnil (pieces_ne_nil base)
  · rw [List.concat_eq_append] at hpieces
    have hfree : ∀ piece ∈ front ++ [last], '/' ∉ piece.toList := by
      rw [← hpieces]
      exact fun piece hmem => slashFree_of_mem_pieces hmem
    have hlast := hfree last (List.mem_append_right _ List.mem_cons_self)
    have htext : base ++ joinNames (first :: rest) =
        joinNames (front ++ (last ++ first) :: rest) := by
      rw [← String.toList_inj, String.toList_append, ← joinNames_pieces base, hpieces,
        toList_joinNames, toList_joinNames, toList_joinNames]
      simp only [List.map_append, List.map_cons, List.map_nil, String.toList_append]
      exact joinWith_append '/' _ _ _ _
    refine ⟨last, hlast, ?_⟩
    rw [htext, hpieces, List.dropLast_concat]
    refine pieces_joinNames (by simp) fun name hmem => ?_
    rcases List.mem_append.mp hmem with hmem | hmem
    · exact hfree name (List.mem_append_left _ hmem)
    · rcases List.mem_cons.mp hmem with rfl | hmem
      · rw [String.toList_append, List.mem_append, not_or]
        exact ⟨hlast, h first List.mem_cons_self⟩
      · exact h name (List.mem_cons_of_mem _ hmem)

/-!
## Joined paths
-/

/-- The pieces of a path behind another; an empty piece at the end of the first is lost. -/
theorem pieces_join {base path : String} (hbase : base ≠ "") (hpath : isAbsolute path = false) :
    ∃ front last, pieces base = front ++ last ∧ (last = [] ∨ last = [""]) ∧ front ≠ [] ∧
      pieces (join base path) = front ++ pieces path := by
  have hempty : base.isEmpty = false := by rwa [String.isEmpty_eq_false_iff]
  rw [join, if_neg (by rw [hpath]; exact Bool.false_ne_true), hempty, Bool.false_or]
  cases hslash : endsInSlash base with
  | true =>
      rw [if_pos rfl]
      rw [endsInSlash, beq_iff_eq, List.getLast?_eq_some_iff] at hslash
      rcases hslash with ⟨shorter, hshorter⟩
      refine ⟨(splitOn '/' shorter).map String.ofList, [""], ?_, Or.inr rfl, ?_, ?_⟩
      · rw [pieces, hshorter, splitOn_append, List.map_append]
        rfl
      · rw [Ne, List.map_eq_nil_iff]
        exact splitOn_ne_nil '/' shorter
      · rw [pieces, String.toList_append, hshorter, List.append_assoc, List.singleton_append,
          splitOn_append, List.map_append]
        rfl
  | false =>
      rw [if_neg Bool.false_ne_true]
      refine ⟨pieces base, [], (List.append_nil _).symm, Or.inl rfl, pieces_ne_nil base, ?_⟩
      rw [pieces, String.toList_append, String.toList_append, List.append_assoc]
      show (splitOn '/' (base.toList ++ '/' :: path.toList)).map String.ofList = _
      rw [splitOn_append, List.map_append]
      rfl

theorem isAbsolute_join {base path : String} (hbase : base ≠ "")
    (hpath : isAbsolute path = false) : isAbsolute (join base path) = isAbsolute base := by
  have hempty : base.isEmpty = false := by rwa [String.isEmpty_eq_false_iff]
  have hne : base.toList ≠ [] := fun hnil =>
    hbase (String.toList_inj.mp (hnil.trans String.toList_empty.symm))
  rw [join, if_neg (by rw [hpath]; exact Bool.false_ne_true), hempty, Bool.false_or]
  split
  · rw [isAbsolute, String.toList_append, List.head?_append_of_ne_nil _ hne, isAbsolute]
  · rw [isAbsolute, String.toList_append, String.toList_append, List.append_assoc,
      List.head?_append_of_ne_nil _ hne, isAbsolute]

/-- Relative paths are joined to a relative one. -/
theorem isAbsolute_join_of_relative {base path : String} (hbase : isAbsolute base = false)
    (hpath : isAbsolute path = false) : isAbsolute (join base path) = false := by
  by_cases hempty : base = ""
  · rw [hempty, join, if_neg (by rw [hpath]; exact Bool.false_ne_true)]
    show isAbsolute ("" ++ path) = false
    rwa [String.empty_append]
  · rw [isAbsolute_join hempty hpath, hbase]

theorem parts_join {base path : String} (hbase : base ≠ "") (hpath : isAbsolute path = false) :
    parts (join base path) = parts base ++ (pieces path).filterMap partOfPiece := by
  rcases pieces_join hbase hpath with ⟨front, last, hpieces, hlast, hfront, hjoin⟩
  have hnone : last.filterMap partOfPiece = [] := by
    rcases hlast with rfl | rfl
    · rfl
    · rfl
  have hhead : (front ++ pieces path).head? = (front ++ last).head? := by
    rw [List.head?_append_of_ne_nil _ hfront, List.head?_append_of_ne_nil _ hfront]
  simp only [parts, isAbsolute_join hbase hpath, hjoin, hpieces, hhead, List.filterMap_append,
    hnone, List.append_nil, List.append_assoc]

theorem joinParts_names (names : List String) :
    joinParts (names.map PathPart.name) = joinNames names := by
  rw [joinParts, List.map_map]
  exact congrArg _ ((List.map_congr_left fun _ _ => rfl).trans (List.map_id names))

end Path
end BulkTransfer
