import BulkTransfer.Proofs.Expansion.Names

/-!
# What a walk of a bucket finds

A walk starts at the directory part of a prefix.  Where no link is below the root of the store
and no double dot is in the directory part, it stays in the bucket: it finds the files whose
keys start with the prefix, each under its own key, and nothing else.
-/

namespace BulkTransfer

open Text

namespace FileTree

variable {tree : FileTree}

/-!
## Names that never lead upwards
-/

/-- Without links and double dots, names lead to the place behind their start, or nowhere. -/
theorem follow_place {place : Place} {names : List String} (hlinkless : tree.Linkless place)
    (hup : ".." ∉ names) :
    (∃ errno, tree.follow true place names = .blocked errno) ∨
      ∃ resolved, tree.follow true place names = .arrived resolved ∧
        resolved.place = place ++ names.filter (· ≠ ".") := by
  have hfollows := follows tree true place names
  generalize tree.follow true place names = progress at hfollows ⊢
  induction hfollows with
  | here directory => exact Or.inr ⟨_, rfl, (List.append_nil directory).symm⟩
  | stay _ ih => exact ih hlinkless (List.not_mem_of_not_mem_cons hup)
  | up => exact absurd List.mem_cons_self hup
  | @enter place name rest progress hname hnode _ ih =>
      rw [List.filter_cons_of_pos (by simpa using hname.ne_here), List.append_cons]
      exact ih (hlinkless.behind [name]) (List.not_mem_of_not_mem_cons hup)
  | missing hname | found hname =>
      rw [List.filter_cons_of_pos (by simpa using hname.ne_here)]
      exact Or.inr ⟨_, rfl, rfl⟩
  | long | lost | closed | file => exact Or.inl ⟨_, rfl⟩
  | link hname hnode => exact absurd hnode (hlinkless [_] _)

/-- A path that continues another one without a double dot leads below it. -/
theorem Roots.place_of_stat {base path : String} {root place : Place} {names : List String}
    {node : Node} (hroot : tree.Roots base root) (hnames : namesOf path = namesOf base ++ names)
    (habsolute : Path.isAbsolute path = Path.isAbsolute base) (hup : ".." ∉ names)
    (h : tree.stat path = .ok (place, node)) : place = root ++ names.filter (· ≠ ".") := by
  have hlinks := (FileTree.resolve_eq_ok_iff.mp (FileTree.stat_eq_ok_iff.mp h).1).2
  have hfollow : tree.follow true (startOf path tree.workingDirectory) (namesOf path) =
      tree.follow true root names := by
    rw [hnames, startOf, habsolute]
    exact follow_append hroot.arrives true names
  rw [linkLimit, followLinks, hfollow] at hlinks
  rcases follow_place hroot.linkless hup with
    ⟨errno, hblocked⟩ | ⟨resolved, harrived, hplace⟩
  · rw [hblocked] at hlinks
    cases hlinks
  · rw [harrived] at hlinks
    cases hlinks
    exact hplace

/-!
## Names that can be followed
-/

/-- Where nothing is closed and the names are short, an entry is reached by its names. -/
theorem Sound.opens (hsound : tree.Sound) {place : Place} {names : List String} {node : Node}
    (hopen : ∀ front, tree.node? (place ++ front) ≠ some .closed)
    (hshort : ∀ name ∈ names, name.utf8ByteSize ≤ longestName)
    (h : tree.node? (place ++ names) = some node) : tree.Opens place names := by
  induction names generalizing place with
  | nil => trivial
  | cons name rest ih =>
      have hassoc : ∀ behind, place ++ name :: behind = place ++ [name] ++ behind := by
        intro behind
        rw [List.append_assoc, List.singleton_append]
      rw [List.forall_mem_cons] at hshort
      rw [hassoc] at h
      refine ⟨hshort.1, fun hrest => ?_, ih (fun front => ?_) hshort.2 h⟩
      · rcases hsound.holdsEntries hrest h with ⟨above, habove, hdirectory⟩
        cases above with
        | directory => exact habove
        | closed => exact absurd habove (hopen [name])
        | file | link => cases hdirectory
      · rw [← hassoc]
        exact hopen (name :: front)

/-- The names in front of others lead to a directory. -/
theorem Opens.directory {place : Place} {front rest : List String}
    (h : tree.Opens place (front ++ rest)) (hfront : front ≠ []) (hrest : rest ≠ []) :
    tree.Opens place front ∧ tree.node? (place ++ front) = some .directory := by
  induction front generalizing place with
  | nil => exact absurd rfl hfront
  | cons name front ih =>
      rcases h with ⟨hshort, hdirectory, hopens⟩
      have hnode := hdirectory (List.append_ne_nil_of_right_ne_nil front hrest)
      by_cases hnil : front = []
      · rw [hnil]
        exact ⟨⟨hshort, fun h => absurd rfl h, trivial⟩, hnode⟩
      · rcases ih hopens hnil with ⟨hopens', hlast⟩
        rw [List.append_assoc, List.singleton_append] at hlast
        exact ⟨⟨hshort, fun _ => hnode, hopens'⟩, hlast⟩

/-- Whatever a usable path starts with is usable. -/
theorem IsUsable.start {start rest : String} (h : IsUsable (start ++ rest)) (hne : start ≠ "") :
    IsUsable start := by
  constructor
  · have hnul := h.nulFree
    rw [String.toList_append] at hnul
    simp only [List.contains_eq_mem, List.mem_append, decide_eq_false_iff_not, not_or] at hnul ⊢
    exact hnul.1
  · rwa [String.isEmpty_eq_false_iff]
  · have hshort := h.short
    rw [String.utf8ByteSize_append] at hshort
    exact Nat.lt_of_le_of_lt (Nat.le_add_right _ _) hshort

/-!
## Events of a walk
-/

theorem mem_walkBelow_iff {start names : List String} {node : Node} :
    (names, node) ∈ tree.walkBelow start ↔
      names ≠ [] ∧ tree.node? (start ++ names) = some node := by
  constructor
  · intro h
    rcases mem_walkBelow h with ⟨hne, hnode⟩
    rw [node?_of_ne_nil _ (List.append_ne_nil_of_right_ne_nil _ hne)]
    exact ⟨hne, hnode⟩
  · rintro ⟨hne, hnode⟩
    rw [node?_of_ne_nil _ (List.append_ne_nil_of_right_ne_nil _ hne)] at hnode
    rw [walkBelow, List.mem_filterMap]
    refine ⟨(start ++ names, node), Std.TreeMap.mem_toList_iff_getElem?_eq_some.mpr hnode, ?_⟩
    have hbelow : List.isPrefixOf? start (start ++ names) = some names :=
      List.isPrefixOf?_eq_some_iff_append_eq.mpr rfl
    dsimp only
    rw [hbelow]
    cases names with
    | nil => exact absurd rfl hne
    | cons name names => rfl

theorem eq_closed_of_eventOf {below : List String × Node} {names : List String} {error : IoError}
    (h : eventOf below = some (.fault names error)) : below = (names, .closed) := by
  rcases below with ⟨names', node⟩
  cases node with
  | closed =>
      cases h
      rfl
  | file | directory | link => cases h

theorem file_mem_walk_iff {start : String} {names : List String} {node : Node} :
    .file names node ∈ tree.walk start ↔
      ∃ place, tree.stat start = .ok (place, .directory) ∧ names ≠ [] ∧
        tree.node? (place ++ names) = some node ∧ node.isFile = true := by
  constructor
  · intro h
    rw [walk] at h
    split at h
    · rename_i place hstat
      rcases List.mem_filterMap.mp h with ⟨below, hmem, hevent⟩
      rcases eventOf_eq_file_iff.mp hevent with ⟨rfl, hfile⟩
      rcases mem_walkBelow_iff.mp hmem with ⟨hne, hnode⟩
      exact ⟨place, hstat, hne, hnode, hfile⟩
    · cases List.mem_singleton.mp h
    · cases h
  · rintro ⟨place, hstat, hne, hnode, hfile⟩
    rw [walk, hstat]
    exact List.mem_filterMap.mpr ⟨(names, node), mem_walkBelow_iff.mpr ⟨hne, hnode⟩,
      eventOf_eq_file_iff.mpr ⟨rfl, hfile⟩⟩

/-- A fault of a walk is at a directory that may not be read. -/
theorem Sound.closed_of_fault (hsound : tree.Sound) {start : String} {names : List String}
    {error : IoError} (h : .fault names error ∈ tree.walk start) :
    ∃ place node, tree.stat start = .ok (place, node) ∧
      tree.node? (place ++ names) = some .closed := by
  rw [walk] at h
  split at h
  · rename_i place hstat
    rcases List.mem_filterMap.mp h with ⟨below, hmem, hevent⟩
    cases eq_closed_of_eventOf hevent
    exact ⟨place, _, hstat, (mem_walkBelow_iff.mp hmem).2⟩
  · rename_i place hstat
    cases List.mem_singleton.mp h
    refine ⟨place, _, hstat, ?_⟩
    rw [List.append_nil]
    rcases hsound.resolve (FileTree.stat_eq_ok_iff.mp hstat).1 with hnode | ⟨hclosed, -⟩
    · exact hnode
    · cases hclosed
  · cases h

/-- Names behind a common front are in the order of what is behind it. -/
theorem compare_append (front names names' : List String) :
    compare (front ++ names) (front ++ names') = compare names names' := by
  induction front with
  | nil => rfl
  | cons name front ih =>
      have hself : compare name name = .eq := Std.ReflCmp.compare_self
      show List.compareLex compare (name :: (front ++ names)) (name :: (front ++ names')) = _
      rw [List.compareLex_cons_cons, hself]
      exact ih

/-- A walk comes to the entries in the order of their names. -/
theorem ordered_walkBelow (tree : FileTree) (start : Place) :
    (tree.walkBelow start).Pairwise fun below other => compare below.1 other.1 = .lt := by
  rw [walkBelow, List.pairwise_filterMap]
  refine Std.TreeMap.ordered_keys_toList.imp ?_
  intro entry entry' hordered below hbelow below' hbelow'
  split at hbelow
  · rename_i name names hplace
    cases hbelow
    split at hbelow'
    · rename_i name' names' hplace'
      cases hbelow'
      rw [← List.append_eq_of_isPrefixOf?_eq_some hplace,
        ← List.append_eq_of_isPrefixOf?_eq_some hplace', compare_append] at hordered
      exact hordered
    · cases hbelow'
  · cases hbelow

theorem ordered_walk (tree : FileTree) (start : String) :
    (tree.walk start).Pairwise fun event other => ∀ names names' node node',
      event = .file names node → other = .file names' node' → compare names names' = .lt := by
  rw [walk]
  split
  · rename_i place _
    rw [List.pairwise_filterMap]
    refine (ordered_walkBelow tree place).imp ?_
    rintro below below' hordered event hevent other hother names names' node node' rfl rfl
    rwa [(eventOf_eq_file_iff.mp hevent).1, (eventOf_eq_file_iff.mp hother).1] at hordered
  · exact List.pairwise_singleton _ _
  · exact List.Pairwise.nil

end FileTree

namespace Store

variable {store : Store} {tree : FileTree} {root : Place} {bucket keyPrefix key : String}
  {node : Node}

/-!
## The directory part of a prefix
-/

/-- The names in the directory part of a prefix, be they dots or empty. -/
def frontNames (keyPrefix : String) : List String :=
  (Path.pieces (directoryPart keyPrefix)).dropLast

theorem pieces_directoryPart (keyPrefix behind : String) :
    Path.pieces (directoryPart keyPrefix ++ behind) =
      frontNames keyPrefix ++ Path.pieces behind := by
  have hchars : (directoryPart keyPrefix).toList = throughLast '/' keyPrefix.toList :=
    String.toList_ofList
  rw [frontNames]
  rcases throughLast_cases keyPrefix.toList with hnil | ⟨front, hfront⟩
  · have hempty : directoryPart keyPrefix = "" :=
      String.toList_inj.mp ((hchars.trans hnil).trans String.toList_empty.symm)
    rw [hempty, String.empty_append]
    rfl
  · rw [Path.pieces, Path.pieces, String.toList_append, hchars, hfront, splitOn_append,
      List.append_assoc, List.singleton_append, splitOn_append, List.map_append, List.map_append]
    show _ = (_ ++ [String.ofList []]).dropLast ++ _
    rw [List.dropLast_concat]
    rfl

/-- A key that starts with a prefix starts with the prefix's directory part. -/
theorem exists_behind (h : keyPrefix.toList <+: key.toList) :
    ∃ behind, key = directoryPart keyPrefix ++ behind := by
  rcases h with ⟨rest, hrest⟩
  refine ⟨String.ofList (afterLast '/' keyPrefix.toList ++ rest), ?_⟩
  rw [← String.toList_inj, String.toList_append, directoryPart, String.toList_ofList,
    String.toList_ofList, ← List.append_assoc, throughLast_append_afterLast, hrest]

theorem isAbsolute_directoryPart (h : Path.isAbsolute keyPrefix = false) :
    Path.isAbsolute (directoryPart keyPrefix) = false := by
  rcases exists_behind (List.prefix_refl keyPrefix.toList) with ⟨behind, hbehind⟩
  rw [Path.isAbsolute, hbehind, String.toList_append] at h
  rw [Path.isAbsolute]
  cases hchars : (directoryPart keyPrefix).toList with
  | nil => rfl
  | cons c chars => rwa [hchars] at h

theorem join_append {base front behind : String} (hfront : Path.isAbsolute front = false)
    (h : Path.isAbsolute (front ++ behind) = false) :
    Path.join base (front ++ behind) = Path.join base front ++ behind := by
  simp only [Path.join, h, hfront, Bool.false_eq_true, if_false]
  split <;> simp only [String.append_assoc]

/-- The names from the root to where a walk starts. -/
theorem namesOf_start (store : Store) (hbucket : isBucketName bucket = true)
    (habsolute : Path.isAbsolute keyPrefix = false) :
    FileTree.namesOf (Path.join (store.bucketPath bucket) (directoryPart keyPrefix)) =
        FileTree.namesOf store.root ++ bucket :: (frontNames keyPrefix).filter (!·.isEmpty) ∧
      Path.isAbsolute (Path.join (store.bucketPath bucket) (directoryPart keyPrefix)) =
        Path.isAbsolute store.root := by
  have hcontinues := continues_bucketPath store hbucket
  have hrelative := isAbsolute_directoryPart habsolute
  have hpieces := pieces_directoryPart keyPrefix ""
  rw [String.append_empty] at hpieces
  constructor
  · have hfront : FileTree.namesOf (directoryPart keyPrefix) =
        (frontNames keyPrefix).filter (!·.isEmpty) := by
      rw [FileTree.namesOf, hpieces, List.filter_append]
      exact List.append_nil _
    rw [FileTree.namesOf_join hrelative, hcontinues.namesOf_eq, hfront, List.append_assoc,
      List.singleton_append]
  · rw [FileTree.isAbsolute_join_eq hrelative, hcontinues.isAbsolute_eq]

/-- Where the directory part has proper names only, these lead to where a walk starts. -/
theorem continues_start (store : Store) (hbucket : isBucketName bucket = true)
    (habsolute : Path.isAbsolute keyPrefix = false)
    (hplain : ∀ name ∈ frontNames keyPrefix, name ≠ "" ∧ FileTree.IsPlain name) :
    FileTree.Continues store.root
      (Path.join (store.bucketPath bucket) (directoryPart keyPrefix))
      (bucket :: frontNames keyPrefix) := by
  have hfilter : (frontNames keyPrefix).filter (!·.isEmpty) = frontNames keyPrefix := by
    rw [List.filter_eq_self]
    intro name hmem
    simpa using (hplain name hmem).1
  rcases namesOf_start store hbucket habsolute with ⟨hnames, hsame⟩
  rw [hfilter] at hnames
  refine ⟨hnames, hsame, List.cons_ne_nil _ _, ?_⟩
  rw [List.forall_mem_cons]
  exact ⟨plain_of_isBucket (isBucket_of_isBucketName hbucket),
    fun name hmem => (hplain name hmem).2⟩

/-- A walk can start at the directory part of a key that can be looked up. -/
theorem usable_start {behind : String} (hbucket : isBucketName bucket = true)
    (habsolute : Path.isAbsolute keyPrefix = false)
    (hkey : isObjectKey (directoryPart keyPrefix ++ behind) = true)
    (hplain : ∀ name ∈ frontNames keyPrefix, name ≠ "" ∧ FileTree.IsPlain name)
    (husable : FileTree.IsUsable
      (store.filePath { bucket := bucket, key := directoryPart keyPrefix ++ behind })) :
    FileTree.IsUsable (Path.join (store.bucketPath bucket) (directoryPart keyPrefix)) := by
  have hjoin : store.filePath { bucket := bucket, key := directoryPart keyPrefix ++ behind } =
      Path.join (store.bucketPath bucket) (directoryPart keyPrefix) ++ behind :=
    join_append (isAbsolute_directoryPart habsolute) (isAbsolute_of_isObjectKey hkey)
  rw [hjoin] at husable
  refine husable.start fun hempty => ?_
  have hnames := (continues_start store hbucket habsolute hplain).namesOf_eq
  rw [hempty] at hnames
  exact absurd hnames.symm (List.append_ne_nil_of_right_ne_nil _ (List.cons_ne_nil _ _))

/-- Without a double dot a walk starts in its bucket. -/
theorem start_of_stat {place : Place} (hroot : tree.Roots store.root root)
    (hbucket : isBucketName bucket = true) (habsolute : Path.isAbsolute keyPrefix = false)
    (hup : ".." ∉ Path.pieces (directoryPart keyPrefix))
    (h : tree.stat (Path.join (store.bucketPath bucket) (directoryPart keyPrefix)) =
      .ok (place, node)) :
    place = root ++ bucket ::
      ((frontNames keyPrefix).filter (!·.isEmpty)).filter (· ≠ ".") := by
  rcases namesOf_start store hbucket habsolute with ⟨hnames, hsame⟩
  have hplain := plain_of_isBucket (isBucket_of_isBucketName hbucket)
  have hup' : ".." ∉ bucket :: (frontNames keyPrefix).filter (!·.isEmpty) := by
    rw [List.mem_cons, not_or]
    refine ⟨Ne.symm hplain.ne_up, fun hmem => hup ?_⟩
    exact List.dropLast_subset _ (List.mem_filter.mp hmem).1
  rw [hroot.place_of_stat hnames hsame hup' h,
    List.filter_cons_of_pos (by simpa using hplain.ne_here)]

/-!
## Keys
-/

/-- The names that a directory part contributes to keys: neither dots nor empty ones. -/
def partTexts (directory : String) : List String :=
  ((Path.pieces directory).filterMap Path.partOfPiece).map PathPart.text

theorem text_of_mem_partTexts {directory text : String} (h : text ∈ partTexts directory) :
    text ≠ "" ∧ text ≠ "." ∧ '/' ∉ text.toList := by
  rcases List.mem_map.mp h with ⟨part, hpart, htext⟩
  rcases List.mem_filterMap.mp hpart with ⟨piece, hpiece, hsome⟩
  exact Path.text_of_partOfPiece (Path.slashFree_of_mem_pieces hpiece) hsome htext

theorem partTexts_directoryPart
    (hplain : ∀ name ∈ frontNames keyPrefix, name ≠ "" ∧ FileTree.IsPlain name) :
    partTexts (directoryPart keyPrefix) = frontNames keyPrefix := by
  have hpieces := pieces_directoryPart keyPrefix ""
  rw [String.append_empty] at hpieces
  rw [partTexts, hpieces, List.filterMap_append]
  show (_ ++ []).map PathPart.text = _
  rw [List.append_nil]
  exact Path.text_filterMap_partOfPiece fun name hmem =>
    ⟨(hplain name hmem).1, (hplain name hmem).2.ne_here⟩

theorem pieces_joinNames_partTexts (directory : String) {names : List String} (hne : names ≠ [])
    (hnames : ∀ name ∈ names, IsName name) :
    Path.pieces (joinNames (partTexts directory ++ names)) = partTexts directory ++ names := by
  refine Path.pieces_joinNames (List.append_ne_nil_of_right_ne_nil _ hne) fun text hmem => ?_
  rcases List.mem_append.mp hmem with hmem | hmem
  · exact (text_of_mem_partTexts hmem).2.2
  · exact (hnames text hmem).slashFree

/-- What the walk calls a file: the names of the directory part and those behind them. -/
theorem keyFrom?_join {bucketDir directory : String} (hbucket : bucketDir ≠ "")
    (habsolute : Path.isAbsolute directory = false) (names : List String) :
    keyFrom? bucketDir (Path.join bucketDir directory) names =
      some (joinNames (partTexts directory ++ names)) := by
  have hbelow : Path.below (Path.parts bucketDir)
      (Path.parts (Path.join bucketDir directory) ++ names.map PathPart.name) =
        some ((Path.pieces directory).filterMap Path.partOfPiece ++ names.map PathPart.name) := by
    rw [Path.parts_join hbucket habsolute, List.append_assoc, Path.below]
    exact List.isPrefixOf?_eq_some_iff_append_eq.mpr rfl
  have htexts : (names.map PathPart.name).map PathPart.text = names := by
    rw [List.map_map]
    exact List.map_id names
  rw [keyFrom?, hbelow, Option.map_some, Path.joinParts, List.map_append, htexts]
  rfl

theorem foundOf_eq_object_iff {bucketDir start : String} {event : WalkEvent} :
    foundOf bucketDir start keyPrefix event = some (.object key node) ↔
      ∃ names, event = .file names node ∧ keyFrom? bucketDir start names = some key ∧
        keyPrefix.toList <+: key.toList := by
  constructor
  · intro h
    cases event with
    | fault names error => cases h
    | file names node' =>
        rw [foundOf] at h
        split at h
        · rename_i key' hkey
          split at h
          · rename_i hstart
            cases h
            exact ⟨names, rfl, hkey, List.isPrefixOf_iff_prefix.mp hstart⟩
          · cases h
        · cases h
  · rintro ⟨names, rfl, hkey, hstart⟩
    rw [foundOf, hkey]
    exact if_pos (List.isPrefixOf_iff_prefix.mpr hstart)

theorem object_mem_walk_iff {bucketDir : String} :
    .object key node ∈ walk tree bucketDir keyPrefix ↔
      ∃ names, .file names node ∈ tree.walk (Path.join bucketDir (directoryPart keyPrefix)) ∧
        keyFrom? bucketDir (Path.join bucketDir (directoryPart keyPrefix)) names = some key ∧
        keyPrefix.toList <+: key.toList := by
  rw [walk, List.mem_filterMap]
  constructor
  · rintro ⟨event, hmem, hevent⟩
    rcases foundOf_eq_object_iff.mp hevent with ⟨names, rfl, hkey, hstart⟩
    exact ⟨names, hmem, hkey, hstart⟩
  · rintro ⟨names, hmem, hkey, hstart⟩
    exact ⟨_, hmem, foundOf_eq_object_iff.mpr ⟨names, rfl, hkey, hstart⟩⟩

/-- The directory part of the key of a found object has no dots and no empty names. -/
theorem plain_frontNames {names : List String} (hne : names ≠ [])
    (hnames : ∀ name ∈ names, IsName name)
    (h : joinNames (partTexts (directoryPart keyPrefix) ++ names) =
      directoryPart keyPrefix ++ joinNames names) :
    ∀ name ∈ frontNames keyPrefix, name ≠ "" ∧ name ≠ "." := by
  have hpieces := congrArg Path.pieces h
  rw [pieces_joinNames_partTexts _ hne hnames, pieces_directoryPart,
    Path.pieces_joinNames hne fun name hmem => (hnames name hmem).slashFree] at hpieces
  intro name hmem
  rw [← List.append_cancel_right hpieces] at hmem
  rcases text_of_mem_partTexts hmem with ⟨hempty, hhere, -⟩
  exact ⟨hempty, hhere⟩

/-!
## Found objects are files of the bucket
-/

section Bucket

variable (hroot : tree.Roots store.root root) (hbucket : isBucketName bucket = true)
  (habsolute : Path.isAbsolute keyPrefix = false)
include hroot hbucket habsolute

/-- A found object is the file of its key. -/
theorem file_of_mem_walk (hnamed : tree.Named)
    (hup : ".." ∉ Path.pieces (directoryPart keyPrefix))
    (h : .object key node ∈ walk tree (store.bucketPath bucket) keyPrefix) :
    keyPrefix.toList <+: key.toList ∧ node.isFile = true ∧
      tree.node? (root ++ bucket :: Path.pieces key) = some node := by
  have hne := bucketPath_ne_empty store hbucket
  rcases object_mem_walk_iff.mp h with ⟨names, hmem, hkey, hstart⟩
  rcases FileTree.names_of_walk hnamed hmem with ⟨hnil, hnames⟩
  rcases FileTree.file_mem_walk_iff.mp hmem with ⟨place, hstat, -, hnode, hfile⟩
  have hdirectory : (directoryPart keyPrefix).toList = throughLast '/' keyPrefix.toList :=
    String.toList_ofList
  have hfront : (directoryPart keyPrefix).toList <+: key.toList := by
    rcases exists_behind hstart with ⟨behind, rfl⟩
    rw [String.toList_append]
    exact List.prefix_append _ _
  have hrelative := isAbsolute_directoryPart habsolute
  have hjoined : key = directoryPart keyPrefix ++ joinNames names :=
    key_eq_of_keyFrom? hne hrelative (hdirectory ▸ throughLast_cases _) hnil hnames hkey hfront
  rw [keyFrom?_join hne hrelative, Option.some.injEq] at hkey
  have hplain := plain_frontNames hnil hnames (hkey.trans hjoined)
  have hall : ((frontNames keyPrefix).filter (!·.isEmpty)).filter (· ≠ ".") =
      frontNames keyPrefix := by
    rw [List.filter_filter, List.filter_eq_self]
    intro name hname
    simpa using (hplain name hname).symm
  have hplace := start_of_stat hroot hbucket habsolute hup hstat
  rw [hall] at hplace
  refine ⟨hstart, hfile, ?_⟩
  rw [hjoined, pieces_directoryPart,
    Path.pieces_joinNames hnil fun name hname => (hnames name hname).slashFree, ← hnode, hplace,
    List.append_assoc, List.cons_append]

/-- A file of the bucket whose key starts with the prefix is found. -/
theorem mem_walk_of_file (hkey : isObjectKey key = true)
    (hstart : keyPrefix.toList <+: key.toList)
    (husable : FileTree.IsUsable (store.filePath { bucket := bucket, key := key }))
    (hopens : tree.Opens root (bucket :: Path.pieces key))
    (hnode : tree.node? (root ++ bucket :: Path.pieces key) = some node)
    (hfile : node.isFile = true) :
    .object key node ∈ walk tree (store.bucketPath bucket) keyPrefix := by
  rcases exists_behind hstart with ⟨behind, rfl⟩
  have hpieces := pieces_directoryPart keyPrefix behind
  have hplain : ∀ name ∈ frontNames keyPrefix, name ≠ "" ∧ FileTree.IsPlain name := by
    intro name hmem
    refine pieces_of_isObjectKey hkey name ?_
    rw [hpieces]
    exact List.mem_append_left _ hmem
  rw [hpieces, ← List.cons_append] at hopens hnode
  -- the names of the key lead through the directory that the walk starts in
  rcases hopens.directory (List.cons_ne_nil _ _) (Path.pieces_ne_nil behind) with
    ⟨hfront, hdirectory⟩
  have hstat : tree.stat (Path.join (store.bucketPath bucket) (directoryPart keyPrefix)) =
      .ok (root ++ bucket :: frontNames keyPrefix, .directory) :=
    (hroot.stat_eq_ok_iff (continues_start store hbucket habsolute hplain)).mpr
      ⟨usable_start hbucket habsolute hkey hplain husable, hfront, rfl, hdirectory, fun _ => rfl⟩
  rw [← List.append_assoc] at hnode
  refine object_mem_walk_iff.mpr ⟨Path.pieces behind, FileTree.file_mem_walk_iff.mpr
    ⟨_, hstat, Path.pieces_ne_nil behind, hnode, hfile⟩, ?_, hstart⟩
  rw [keyFrom?_join (bucketPath_ne_empty store hbucket) (isAbsolute_directoryPart habsolute),
    partTexts_directoryPart hplain, ← hpieces, Path.joinNames_pieces]

/-- Where nothing in the bucket is closed, a walk ends without a fault. -/
theorem not_fault_mem_walk (hsound : tree.Sound)
    (hup : ".." ∉ Path.pieces (directoryPart keyPrefix))
    (hopen : ∀ names, tree.node? (root ++ bucket :: names) ≠ some .closed) (error : JobError) :
    .fault error ∉ walk tree (store.bucketPath bucket) keyPrefix := by
  intro h
  rcases fault_mem_walk_iff.mp h with ⟨names, error', hmem, -⟩
  rcases hsound.closed_of_fault hmem with ⟨place, node, hstat, hclosed⟩
  rw [start_of_stat hroot hbucket habsolute hup hstat, List.append_assoc,
    List.cons_append] at hclosed
  exact hopen _ hclosed

end Bucket

/-- A walk comes to one key before another: by the names of their directories and their own. -/
def Before (key other : String) : Prop :=
  compare (Path.pieces key) (Path.pieces other) = .lt

theorem Before.ne {other : String} (h : Before key other) : key ≠ other := by
  rintro rfl
  have hself : compare (Path.pieces key) (Path.pieces key) = .eq := Std.ReflCmp.compare_self
  rw [Before, hself] at h
  cases h

/-- Objects are found in the order of the names in their keys. -/
theorem ordered_found {bucketDir : String} (hnamed : tree.Named) (hbucket : bucketDir ≠ "")
    (habsolute : Path.isAbsolute keyPrefix = false) :
    (walk tree bucketDir keyPrefix).Pairwise fun found other => ∀ key key' node node',
      found = .object key node → other = .object key' node' → Before key key' := by
  have hrelative := isAbsolute_directoryPart habsolute
  rw [walk, List.pairwise_filterMap]
  refine (FileTree.ordered_walk tree _).imp_of_mem ?_
  intro event event' hmem hmem' hordered found hfound other hother key key' node node' hkey hkey'
  rw [hkey] at hfound
  rw [hkey'] at hother
  rcases foundOf_eq_object_iff.mp hfound with ⟨names, rfl, hjoined, -⟩
  rcases foundOf_eq_object_iff.mp hother with ⟨names', rfl, hjoined', -⟩
  rcases FileTree.names_of_walk hnamed hmem with ⟨hne, hnames⟩
  rcases FileTree.names_of_walk hnamed hmem' with ⟨hne', hnames'⟩
  rw [keyFrom?_join hbucket hrelative, Option.some.injEq] at hjoined hjoined'
  rw [Before, ← hjoined, ← hjoined', pieces_joinNames_partTexts _ hne hnames,
    pieces_joinNames_partTexts _ hne' hnames', FileTree.compare_append]
  exact hordered names names' node node' rfl rfl

end Store
end BulkTransfer
