import BulkTransfer.Expand
import BulkTransfer.Proofs.Store.Objects

/-!
# Names below a destination

What a batch puts behind its destination are names of entries, with slashes between them:
the names behind the directory that a walk starts at, or the last of them.
-/

namespace BulkTransfer

open Text

/-!
## Walks
-/

namespace FileTree

/-- Every entry has a name, which is neither a path nor a dot. -/
def Named (tree : FileTree) : Prop :=
  ∀ (place : Place) (node : Node), tree.nodes[place]? = some node → ∀ name ∈ place, IsName name

variable {tree : FileTree}

theorem named_of_entries (h : ∀ entry ∈ tree.nodes.toList, ∀ name ∈ entry.1, IsName name) :
    tree.Named := fun _ _ hnode =>
  h _ (Std.TreeMap.mem_toList_iff_getElem?_eq_some.mpr hnode)

theorem mem_walkBelow {start names : List String} {node : Node}
    (h : (names, node) ∈ tree.walkBelow start) :
    names ≠ [] ∧ tree.nodes[start ++ names]? = some node := by
  rw [walkBelow, List.mem_filterMap] at h
  rcases h with ⟨⟨place, node'⟩, hmem, hentry⟩
  rw [Std.TreeMap.mem_toList_iff_getElem?_eq_some] at hmem
  cases hstart : List.isPrefixOf? start place with
  | none => simp only [hstart, reduceCtorEq] at hentry
  | some rest =>
      have hplace := List.append_eq_of_isPrefixOf?_eq_some hstart
      cases rest with
      | nil => simp only [hstart, reduceCtorEq] at hentry
      | cons name rest =>
          simp only [hstart, Option.some.injEq, Prod.mk.injEq] at hentry
          rw [← hentry.1, ← hentry.2, hplace]
          exact ⟨List.cons_ne_nil _ _, hmem⟩

theorem eventOf_eq_file_iff {below : List String × Node} {names : List String} {node : Node} :
    eventOf below = some (.file names node) ↔ below = (names, node) ∧ node.isFile = true := by
  constructor
  · rcases below with ⟨names', node'⟩
    intro h
    cases node' with
    | file content modified =>
        cases h
        exact ⟨rfl, rfl⟩
    | directory | closed | link => cases h
  · rintro ⟨rfl, hfile⟩
    cases node with
    | file content modified => rfl
    | directory | closed | link => cases hfile

theorem names_of_walk {start : String} {names : List String} {node : Node}
    (htree : tree.Named) (h : WalkEvent.file names node ∈ tree.walk start) :
    names ≠ [] ∧ ∀ name ∈ names, IsName name := by
  rw [walk] at h
  split at h
  · rename_i place _
    rcases List.mem_filterMap.mp h with ⟨below, hmem, hevent⟩
    rcases eventOf_eq_file_iff.mp hevent with ⟨rfl, -⟩
    rcases mem_walkBelow hmem with ⟨hne, hnode⟩
    exact ⟨hne, fun name hname => htree _ _ hnode name (List.mem_append_right _ hname)⟩
  · rw [List.mem_singleton] at h
    cases h
  · cases h

/-- A walk that comes to something starts at a path that can be looked up. -/
theorem usable_of_mem_walk {start : String} {event : WalkEvent} (h : event ∈ tree.walk start) :
    IsUsable start := by
  rw [walk] at h
  split at h
  · rename_i place hstat
    exact (resolve_eq_ok_iff.mp (stat_eq_ok_iff.mp hstat).1).1
  · rename_i place hstat
    exact (resolve_eq_ok_iff.mp (stat_eq_ok_iff.mp hstat).1).1
  · cases h

end FileTree

/-!
## Keys
-/

theorem throughLast_cases (s : List Char) :
    throughLast '/' s = [] ∨ ∃ front, throughLast '/' s = front ++ ['/'] := by
  rw [throughLast]
  cases hrest : s.reverse.dropWhile (· ≠ '/') with
  | nil => exact Or.inl rfl
  | cons c rest =>
      have hc := List.head?_dropWhile_not (· ≠ '/') s.reverse
      rw [hrest, List.head?_cons] at hc
      have hslash : c = '/' := by simpa using hc
      exact Or.inr ⟨rest.reverse, by rw [List.reverse_cons, hslash]⟩

theorem afterLast_append {front name : List Char} (hname : '/' ∉ name)
    (hfront : front = [] ∨ ∃ shorter, front = shorter ++ ['/']) :
    afterLast '/' (front ++ name) = name := by
  have hall : ∀ c ∈ name.reverse, decide (c ≠ '/') = true := by
    intro c hc
    rw [decide_eq_true_eq]
    intro hslash
    exact hname (hslash ▸ List.mem_reverse.mp hc)
  have hnone : front.reverse.takeWhile (· ≠ '/') = [] := by
    rcases hfront with rfl | ⟨shorter, rfl⟩
    · rfl
    · rw [List.reverse_append]
      rfl
  rw [afterLast, List.reverse_append, List.takeWhile_append_of_pos hall, hnone, List.append_nil,
    List.reverse_reverse]

namespace Path

theorem text_filterMap_partOfPiece {pieces : List String}
    (h : ∀ piece ∈ pieces, piece ≠ "" ∧ piece ≠ ".") :
    (pieces.filterMap partOfPiece).map PathPart.text = pieces := by
  induction pieces with
  | nil => rfl
  | cons piece pieces ih =>
      rw [List.forall_mem_cons] at h
      have hpart : (partOfPiece piece).map PathPart.text = some piece := by
        rw [partOfPiece, if_neg (not_or.mpr h.1)]
        split
        · rename_i hup
          rw [hup]
          rfl
        · rfl
      cases hsome : partOfPiece piece with
      | none => rw [hsome] at hpart; cases hpart
      | some part =>
          rw [hsome, Option.map_some, Option.some.injEq] at hpart
          rw [List.filterMap_cons_some hsome, List.map_cons, hpart, ih h.2]

theorem text_of_partOfPiece {piece text : String} {part : PathPart}
    (hfree : '/' ∉ piece.toList) (h : partOfPiece piece = some part) (htext : part.text = text) :
    text ≠ "" ∧ text ≠ "." ∧ '/' ∉ text.toList := by
  rw [partOfPiece] at h
  split at h
  · cases h
  · rename_i hempty
    rw [not_or] at hempty
    split at h
    · cases h
      rw [← htext]
      decide
    · cases h
      rw [← htext]
      exact ⟨hempty.1, hempty.2, hfree⟩

end Path

namespace Store

/-- The key of a found object is the directory part of the prefix and names behind it. -/
theorem key_eq_of_keyFrom? {bucketDir directory key : String} {names : List String}
    (hbucket : bucketDir ≠ "") (habsolute : Path.isAbsolute directory = false)
    (hdirectory : directory.toList = [] ∨ ∃ front, directory.toList = front ++ ['/'])
    (hne : names ≠ []) (hnames : ∀ name ∈ names, IsName name)
    (hkey : keyFrom? bucketDir (Path.join bucketDir directory) names = some key)
    (hstart : directory.toList <+: key.toList) : key = directory ++ joinNames names := by
  rw [keyFrom?, Path.below, Path.parts_join hbucket habsolute, List.append_assoc] at hkey
  rcases Option.map_eq_some_iff.mp hkey with ⟨parts, hparts, hjoined⟩
  have hparts := List.append_eq_of_isPrefixOf?_eq_some hparts
  rw [List.append_cancel_left hparts] at hjoined
  rcases hdirectory with hnil | ⟨front, hfront⟩
  · have hempty : directory = "" := String.toList_inj.mp (hnil.trans String.toList_empty.symm)
    rw [← hjoined, hempty]
    show Path.joinParts (names.map PathPart.name) = "" ++ joinNames names
    rw [Path.joinParts_names, String.empty_append]
  · let pieces := (splitOn '/' front).map String.ofList
    let texts := (pieces.filterMap Path.partOfPiece).map PathPart.text
    have hdirectoryPieces : Path.pieces directory = pieces ++ [""] := by
      rw [Path.pieces, hfront, splitOn_append, List.map_append]
      rfl
    have hkeyNames : key = joinNames (texts ++ names) := by
      rw [← hjoined, hdirectoryPieces, List.filterMap_append]
      show Path.joinParts (pieces.filterMap Path.partOfPiece ++ [] ++ names.map PathPart.name) = _
      rw [List.append_nil, Path.joinParts, List.map_append, List.map_map]
      exact congrArg (fun names' => joinNames (texts ++ names')) (List.map_id names)
    have htexts : ∀ text ∈ texts ++ names, text ≠ "" ∧ text ≠ "." ∧ '/' ∉ text.toList := by
      intro text hmem
      rcases List.mem_append.mp hmem with hmem | hmem
      · rcases List.mem_map.mp hmem with ⟨part, hpart, htext⟩
        rcases List.mem_filterMap.mp hpart with ⟨piece, hpiece, hsome⟩
        have hmem' : piece ∈ Path.pieces directory := by
          rw [hdirectoryPieces]
          exact List.mem_append_left _ hpiece
        exact Path.text_of_partOfPiece (Path.slashFree_of_mem_pieces hmem') hsome htext
      · have hname := hnames text hmem
        exact ⟨hname.ne_empty, hname.ne_here, hname.slashFree⟩
    -- the pieces of the directory are the first pieces of the key, so none of them was lost
    rcases hstart with ⟨rest, hrest⟩
    have hkeyPieces : texts ++ names = pieces ++ (splitOn '/' rest).map String.ofList := by
      rw [← Path.pieces_joinNames (List.append_ne_nil_of_right_ne_nil _ hne)
        (fun text hmem => (htexts text hmem).2.2), ← hkeyNames, Path.pieces, ← hrest, hfront,
        List.append_assoc, List.singleton_append, splitOn_append, List.map_append]
    have hsame : texts = pieces := by
      refine Path.text_filterMap_partOfPiece fun piece hmem => ?_
      have hmem' : piece ∈ texts ++ names := by
        rw [hkeyPieces]
        exact List.mem_append_left _ hmem
      exact ⟨(htexts piece hmem').1, (htexts piece hmem').2.1⟩
    rw [hsame] at hkeyPieces
    have hnamesRest : names = (splitOn '/' rest).map String.ofList :=
      List.append_cancel_left hkeyPieces
    have hrestNames : rest = (joinNames names).toList := by
      have hjoin := Path.joinNames_pieces (String.ofList rest)
      rw [Path.pieces, String.toList_ofList, ← hnamesRest] at hjoin
      rw [hjoin, String.toList_ofList]
    rw [← String.toList_inj, String.toList_append, ← hrest, hrestNames]

variable {tree : FileTree}

/-- A fault of a listing is one of its walk. -/
theorem fault_mem_walk_iff {bucketDir keyPrefix : String} {error : JobError} :
    .fault error ∈ walk tree bucketDir keyPrefix ↔
      ∃ names error',
        .fault names error' ∈ tree.walk (Path.join bucketDir (directoryPart keyPrefix)) ∧
          error = .io (FileTree.faultText (FileTree.pathBelow
            (Path.join bucketDir (directoryPart keyPrefix)) names) error') := by
  rw [walk, List.mem_filterMap]
  constructor
  · rintro ⟨event, hmem, hevent⟩
    cases event with
    | fault names error' =>
        cases hevent
        exact ⟨names, error', hmem, rfl⟩
    | file names node =>
        rw [foundOf] at hevent
        split at hevent
        · split at hevent <;> cases hevent
        · cases hevent
  · rintro ⟨names, error', hmem, rfl⟩
    exact ⟨_, hmem, rfl⟩

/-- The names of a found object behind the directory part of the prefix. -/
theorem names_of_walk {bucketDir keyPrefix key : String} {node : Node} (htree : tree.Named)
    (hbucket : bucketDir ≠ "") (habsolute : Path.isAbsolute keyPrefix = false)
    (h : Found.object key node ∈ walk tree bucketDir keyPrefix) :
    keyPrefix.toList <+: key.toList ∧ ∃ names, names ≠ [] ∧ (∀ name ∈ names, IsName name) ∧
      key = directoryPart keyPrefix ++ joinNames names := by
  rw [walk, List.mem_filterMap] at h
  rcases h with ⟨event, hmem, hevent⟩
  cases event with
  | fault names error => cases hevent
  | file names node' =>
      rw [foundOf] at hevent
      cases hkey : keyFrom? bucketDir (Path.join bucketDir (directoryPart keyPrefix)) names with
      | none => simp only [hkey, reduceCtorEq] at hevent
      | some key' =>
          simp only [hkey] at hevent
          split at hevent
          · rename_i hstart
            cases hevent
            rw [List.isPrefixOf_iff_prefix] at hstart
            have hdirectory : (directoryPart keyPrefix).toList = throughLast '/' keyPrefix.toList :=
              String.toList_ofList
            have hfront : (directoryPart keyPrefix).toList <+: keyPrefix.toList := by
              rw [hdirectory]
              exact ⟨_, throughLast_append_afterLast '/' keyPrefix.toList⟩
            have habsolute' : Path.isAbsolute (directoryPart keyPrefix) = false := by
              rcases hfront with ⟨rest, hrest⟩
              rw [Path.isAbsolute, ← hrest] at habsolute
              rw [Path.isAbsolute]
              cases hchars : (directoryPart keyPrefix).toList with
              | nil => rfl
              | cons c chars => rwa [hchars] at habsolute
            rcases FileTree.names_of_walk htree hmem with ⟨hne, hnames⟩
            refine ⟨hstart, names, hne, hnames, ?_⟩
            exact key_eq_of_keyFrom? hbucket habsolute' (hdirectory ▸ throughLast_cases _) hne
              hnames hkey (hfront.trans hstart)
          · cases hevent

theorem found_of_mem_untilFault {info : String → Node → ObjectInfo} {found : List Found}
    {object : ObjectInfo} (h : object ∈ (untilFault info found).1) :
    ∃ key node, Found.object key node ∈ found ∧ object = info key node := by
  induction found with
  | nil => cases h
  | cons first found ih =>
      cases first with
      | fault error => cases h
      | object key node =>
          rcases List.mem_cons.mp h with hobject | h
          · exact ⟨key, node, List.mem_cons_self, hobject⟩
          · rcases ih h with ⟨key', node', hmem, hobject⟩
            exact ⟨key', node', List.mem_cons_of_mem _ hmem, hobject⟩

/-- The objects of a listing by the names behind the directory part of the prefix. -/
theorem names_of_stream {store : Store} {bucket keyPrefix : String}
    {objects : List ObjectInfo} {fault : Option JobError} (htree : tree.Named)
    (habsolute : Path.isAbsolute keyPrefix = false)
    (h : (store.stream bucket keyPrefix { tree := tree }).1 = .ok (objects, fault)) :
    ∀ object ∈ objects, keyPrefix.toList <+: object.key.toList ∧
      ∃ names, names ≠ [] ∧ (∀ name ∈ names, IsName name) ∧
        object.key = directoryPart keyPrefix ++ joinNames names := by
  intro object hmem
  rw [stream, DiskM.bind_apply] at h
  rcases hbucket : store.existingBucket bucket { tree := tree } with ⟨outcome, disk⟩
  rw [hbucket] at h
  cases outcome with
  | error error => cases h
  | ok path =>
      rcases existingBucket_eq_ok hbucket with ⟨⟨hname, -⟩, rfl, hsame⟩
      have hobjects : (store.walkObjects bucket (store.bucketPath bucket) keyPrefix disk.tree) =
          (objects, fault) := Except.ok.inj h
      rw [hsame, walkObjects] at hobjects
      have hmem' : object ∈ (untilFault (store.walkInfo tree bucket)
          (walk tree (store.bucketPath bucket) keyPrefix)).1 := by
        rw [hobjects]
        exact hmem
      rcases found_of_mem_untilFault hmem' with ⟨key, node, hfound, rfl⟩
      exact names_of_walk htree (bucketPath_ne_empty store hname) habsolute hfound

end Store

/-!
## Names of objects
-/

theorem joinNames_append_singleton {front : List String} (hfront : front ≠ []) (name : String) :
    joinNames (front ++ [name]) = joinNames front ++ "/" ++ name :=
  String.intercalate_append_of_ne_nil hfront (List.cons_ne_nil _ _)

/-- What a key has behind the directory of the prefix is the names behind it. -/
theorem objectName_parents {source : Location} {key : String} {names : List String}
    (hwildcard : source.isWildcard = true) (hstart : source.literalKey.toList <+: key.toList)
    (hkey : key = Store.directoryPart source.literalKey ++ joinNames names) :
    Expand.objectName source true key = joinNames names := by
  have hdirectory : (Store.directoryPart source.literalKey).toList =
      throughLast '/' source.literalKey.toList := String.toList_ofList
  rcases hstart with ⟨rest, hrest⟩
  have hsome : List.isPrefixOf? source.literalKey.toList key.toList = some rest :=
    List.isPrefixOf?_eq_some_iff_append_eq.mpr hrest
  have hchars : afterLast '/' source.literalKey.toList ++ rest = (joinNames names).toList := by
    have hsame : throughLast '/' source.literalKey.toList ++
        (afterLast '/' source.literalKey.toList ++ rest) =
          throughLast '/' source.literalKey.toList ++ (joinNames names).toList := by
      rw [← List.append_assoc, throughLast_append_afterLast, hrest, hkey,
        String.toList_append, hdirectory]
    exact List.append_cancel_left hsame
  rw [Expand.objectName, if_pos rfl, Location.relativeKey, hsome]
  simp only [hwildcard, if_true]
  rw [hchars, String.ofList_toList]

/-- The name of an object consists of names of entries, with the directories in front of it
or without. -/
theorem names_of_objectName {source : Location} (parents : Bool) {key : String}
    {names : List String} (hwildcard : source.isWildcard = true)
    (hstart : source.literalKey.toList <+: key.toList) (hne : names ≠ [])
    (hnames : ∀ name ∈ names, IsName name)
    (hkey : key = Store.directoryPart source.literalKey ++ joinNames names) :
    ∃ names', names' ≠ [] ∧ (∀ name ∈ names', IsName name) ∧
      Expand.objectName source parents key = joinNames names' := by
  have hdirectory : (Store.directoryPart source.literalKey).toList =
      throughLast '/' source.literalKey.toList := String.toList_ofList
  cases parents with
  | true => exact ⟨names, hne, hnames, objectName_parents hwildcard hstart hkey⟩
  | false =>
      rcases List.eq_nil_or_concat names with hnil | ⟨front, name, rfl⟩
      · exact absurd hnil hne
      · have hname : IsName name := hnames name (by simp)
        refine ⟨[name], List.cons_ne_nil _ _, by simpa using hname, ?_⟩
        have hlast : ∃ chars, key.toList = chars ++ name.toList ∧
            (chars = [] ∨ ∃ shorter, chars = shorter ++ ['/']) := by
          rw [hkey, List.concat_eq_append]
          by_cases hfront : front = []
          · refine ⟨(Store.directoryPart source.literalKey).toList, ?_,
              hdirectory ▸ throughLast_cases _⟩
            rw [hfront, String.toList_append]
            rfl
          · refine ⟨(Store.directoryPart source.literalKey).toList ++ (joinNames front).toList ++
              ['/'], ?_, Or.inr ⟨_, rfl⟩⟩
            rw [joinNames_append_singleton hfront, String.toList_append, String.toList_append,
              String.toList_append]
            simp
        rcases hlast with ⟨chars, hchars, hcases⟩
        rw [Expand.objectName, if_neg Bool.false_ne_true, hchars,
          afterLast_append hname.slashFree hcases, String.ofList_toList]
        rfl

end BulkTransfer
