import Mathlib.Data.List.Nodup
import BulkTransfer.Proofs.Expansion.Matches
import BulkTransfer.Proofs.Store.Listings

/-!
# Listings that fold

A bucket can be listed in three ways: as a whole, folded at the first slash behind the prefix,
or as a stream.  All of them go through the same walk, so where it meets no directory that may
not be read they agree: the folded listing shows each object of the whole one either itself or
by exactly one of its prefixes, and the stream has the same objects in another order.
-/

namespace BulkTransfer

open Text

/-!
## Trees that can be read
-/

/-- Whether an entry is no closed directory. -/
def Node.isOpen : Node → Bool
  | .closed => false
  | .file _ _ | .directory | .link _ => true

namespace FileTree

/-- A walk from a path meets no directory that may not be read. -/
def Readable (tree : FileTree) (path : String) : Prop :=
  ∀ place node, tree.stat path = .ok (place, node) →
    node ≠ .closed ∧ ∀ names, tree.node? (place ++ names) ≠ some .closed

variable {tree : FileTree} {path : String}

theorem Readable.no_fault (h : tree.Readable path) (names : List String) (error : IoError) :
    .fault names error ∉ tree.walk path := by
  intro hmem
  rw [walk] at hmem
  split at hmem
  · rename_i place hstat
    rcases List.mem_filterMap.mp hmem with ⟨below, hbelow, hevent⟩
    cases eq_closed_of_eventOf hevent
    exact (h place _ hstat).2 names (mem_walkBelow_iff.mp hbelow).2
  · rename_i place hstat
    exact (h place _ hstat).1 rfl
  · cases hmem

theorem readable_of_entries {place : Place} (hstat : tree.stat path = .ok (place, .directory))
    (h : ∀ entry ∈ tree.nodes.toList, entry.2.isOpen = true) : tree.Readable path := by
  intro place' node hplace
  rw [hstat] at hplace
  cases hplace
  refine ⟨nofun, fun names hclosed => ?_⟩
  have hne : place ++ names ≠ [] := by
    intro hnil
    rw [hnil] at hclosed
    cases hclosed
  cases h _ (mem_toList_of_node? hne hclosed)

end FileTree

namespace Store

variable {store : Store} {tree : FileTree} {bucket keyPrefix key folded : String}

/-!
## Keys that are folded
-/

/-- A key is folded at the first slash behind the prefix. -/
def FoldsInto (keyPrefix key folded : String) : Prop :=
  ∃ name rest : String, '/' ∉ name.toList ∧ key = keyPrefix ++ name ++ "/" ++ rest ∧
    folded = keyPrefix ++ name ++ "/"

/-- Whether a key has no slash behind the prefix. -/
def isLeaf (keyPrefix key : String) : Bool :=
  !(key.toList.drop keyPrefix.toList.length).contains '/'

/-- The text in front of the first slash. -/
theorem takeWhile_slash {name rest : List Char} (h : '/' ∉ name) :
    (name ++ '/' :: rest).takeWhile (· ≠ '/') = name := by
  have hall : ∀ c ∈ name, decide (c ≠ '/') = true := by
    intro c hc
    rw [decide_eq_true_eq]
    rintro rfl
    exact h hc
  rw [List.takeWhile_append_of_pos hall, List.takeWhile_cons_of_neg (by decide), List.append_nil]

theorem toList_folding (keyPrefix name rest : String) :
    (keyPrefix ++ name ++ "/" ++ rest).toList =
      keyPrefix.toList ++ (name.toList ++ '/' :: rest.toList) := by
  rw [String.toList_append, String.toList_append, String.toList_append, List.append_assoc,
    List.append_assoc]
  rfl

theorem foldedPrefix?_eq_some_iff :
    foldedPrefix? keyPrefix key = some folded ↔ FoldsInto keyPrefix key folded := by
  constructor
  · intro h
    rw [foldedPrefix?] at h
    split at h
    · rename_i rest hrest
      split at h
      · rename_i hslash
        rw [List.contains_iff_mem] at hslash
        rcases List.eq_append_cons_of_mem hslash with ⟨name, behind, rfl, hname⟩
        rw [takeWhile_slash hname, Option.some.injEq] at h
        refine ⟨String.ofList name, String.ofList behind, by rwa [String.toList_ofList], ?_, h.symm⟩
        rw [← String.toList_inj, toList_folding, String.toList_ofList, String.toList_ofList,
          List.append_eq_of_isPrefixOf?_eq_some hrest]
      · cases h
    · cases h
  · rintro ⟨name, rest, hname, rfl, rfl⟩
    have hrest : List.isPrefixOf? keyPrefix.toList
        (keyPrefix ++ name ++ "/" ++ rest).toList = some (name.toList ++ '/' :: rest.toList) :=
      List.isPrefixOf?_eq_some_iff_append_eq.mpr (toList_folding keyPrefix name rest).symm
    have hslash : (name.toList ++ '/' :: rest.toList).contains '/' = true := by
      rw [List.contains_iff_mem]
      exact List.mem_append_right _ List.mem_cons_self
    rw [foldedPrefix?, hrest]
    dsimp only
    rw [if_pos hslash, takeWhile_slash hname, String.ofList_toList]

/-- The keys that are not folded are those without a slash behind the prefix. -/
theorem isNone_foldedPrefix? (h : keyPrefix.toList <+: key.toList) :
    (foldedPrefix? keyPrefix key).isNone = isLeaf keyPrefix key := by
  rcases h with ⟨rest, hrest⟩
  have hsome : List.isPrefixOf? keyPrefix.toList key.toList = some rest :=
    List.isPrefixOf?_eq_some_iff_append_eq.mpr hrest
  rw [foldedPrefix?, hsome, isLeaf, ← hrest, List.drop_left]
  dsimp only
  cases rest.contains '/' <;> rfl

theorem isPrefix_toList_iff {front text : String} :
    front.toList <+: text.toList ↔ ∃ rest : String, text = front ++ rest := by
  constructor
  · rintro ⟨rest, hrest⟩
    refine ⟨String.ofList rest, ?_⟩
    rw [← String.toList_inj, ← hrest, String.toList_append, String.toList_ofList]
  · rintro ⟨rest, rfl⟩
    rw [String.toList_append]
    exact List.prefix_append _ _

/-- A key that starts with a prefix that something is folded into is folded into it as well. -/
theorem FoldsInto.of_prefix {key' : String} (h : FoldsInto keyPrefix key' folded)
    (hstart : folded.toList <+: key.toList) : FoldsInto keyPrefix key folded := by
  rcases h with ⟨name, -, hname, -, rfl⟩
  rcases isPrefix_toList_iff.mp hstart with ⟨rest, hrest⟩
  exact ⟨name, rest, hname, hrest, rfl⟩

theorem FoldsInto.isPrefix (h : FoldsInto keyPrefix key folded) :
    folded.toList <+: key.toList := by
  rcases h with ⟨name, rest, -, hkey, rfl⟩
  exact isPrefix_toList_iff.mpr ⟨rest, hkey⟩

/-- What is folded into the prefix of a key is what starts with that prefix. -/
theorem FoldsInto.isPrefix_iff {key' folded' : String} (h : FoldsInto keyPrefix key folded)
    (h' : FoldsInto keyPrefix key' folded') : folded'.toList <+: key.toList ↔ folded' = folded := by
  constructor
  · intro hstart
    have hsame := foldedPrefix?_eq_some_iff.mpr (h'.of_prefix hstart)
    rw [foldedPrefix?_eq_some_iff.mpr h, Option.some.injEq] at hsame
    exact hsame.symm
  · rintro rfl
    exact h.isPrefix

/-!
## Absolute prefixes
-/

/-- The path of a bucket has a part, the name of the bucket. -/
theorem parts_bucketPath_ne_nil (store : Store) (hbucket : isBucketName bucket = true) :
    Path.parts (store.bucketPath bucket) ≠ [] := by
  have hnames := (continues_bucketPath store hbucket).namesOf_eq
  have hname := isBucket_of_isBucketName hbucket
  have hplain := plain_of_isBucket hname
  have hmem : bucket ∈ FileTree.namesOf (store.bucketPath bucket) := by
    rw [hnames]
    exact List.mem_append_right _ List.mem_cons_self
  have hpart : Path.partOfPiece bucket = some (.name bucket) := by
    rw [Path.partOfPiece, if_neg (not_or.mpr ⟨hname.ne_empty, hplain.ne_here⟩),
      if_neg hplain.ne_up]
  have hinner : .name bucket ∈ Path.innerParts (store.bucketPath bucket) :=
    List.mem_filterMap.mpr ⟨bucket, (List.mem_filter.mp hmem).1, hpart⟩
  exact List.ne_nil_of_mem ((Path.innerParts_suffix _).subset hinner)

/-- No key starts with a slash. -/
theorem isAbsolute_of_keyFrom? {bucketDir start : String} {names : List String}
    (hbucket : Path.parts bucketDir ≠ []) (hnames : ∀ name ∈ names, IsName name)
    (h : keyFrom? bucketDir start names = some key) : Path.isAbsolute key = false := by
  rw [keyFrom?, Path.below] at h
  rcases Option.map_eq_some_iff.mp h with ⟨parts, hparts, rfl⟩
  have happend := List.append_eq_of_isPrefixOf?_eq_some hparts
  refine Path.isAbsolute_joinNames fun text hmem => ?_
  rcases List.mem_map.mp hmem with ⟨part, hpart, rfl⟩
  rcases List.mem_append.mp (Path.mem_innerParts_of_append hbucket happend hpart) with
    hinner | hname
  · rcases Path.mem_innerParts hinner with rfl | ⟨word, rfl, hword⟩
    · exact ⟨by decide, by decide⟩
    · exact ⟨hword.ne_empty, hword.slashFree⟩
  · rcases List.mem_map.mp hname with ⟨name, hmem', rfl⟩
    exact ⟨(hnames name hmem').ne_empty, (hnames name hmem').slashFree⟩

/-- Nothing is found for an absolute prefix. -/
theorem isAbsolute_of_mem_walk {node : Node} (hnamed : tree.Named)
    (hbucket : isBucketName bucket = true)
    (h : .object key node ∈ walk tree (store.bucketPath bucket) keyPrefix) :
    Path.isAbsolute keyPrefix = false := by
  rcases object_mem_walk_iff.mp h with ⟨names, hmem, hkey, hstart⟩
  have hrelative := isAbsolute_of_keyFrom? (parts_bucketPath_ne_nil store hbucket)
    (FileTree.names_of_walk hnamed hmem).2 hkey
  rcases hstart with ⟨rest, hrest⟩
  rw [Path.isAbsolute, ← hrest] at hrelative
  rw [Path.isAbsolute]
  cases hchars : keyPrefix.toList with
  | nil => rfl
  | cons c chars => rwa [hchars] at hrelative

/-- Only a relative prefix has objects. -/
theorem relative_of_stream (hnamed : tree.Named) {objects : List ObjectInfo}
    {fault : Option JobError}
    (h : (store.stream bucket keyPrefix { tree := tree }).1 = .ok (objects, fault)) :
    Path.isAbsolute keyPrefix = false ∨ objects = [] := by
  rcases hasBucket_of_stream h with ⟨hbucket, huntil⟩
  rw [or_iff_not_imp_right]
  intro hne
  rcases List.exists_mem_of_ne_nil objects hne with ⟨object, hmem⟩
  have hmem : object ∈ (untilFault (store.walkInfo tree bucket)
      (walk tree (store.bucketPath bucket) keyPrefix)).1 := by rwa [huntil]
  rcases found_of_mem_untilFault hmem with ⟨key, node, hfound, -⟩
  exact isAbsolute_of_mem_walk hnamed hbucket.1 hfound

section Streamed

variable (hnamed : tree.Named) {objects : List ObjectInfo} {fault : Option JobError}
  (h : (store.stream bucket keyPrefix { tree := tree }).1 = .ok (objects, fault))
include hnamed h

/-- Whatever the prefix, the streamed objects have different keys. -/
theorem nodup_of_stream : (objects.map ObjectInfo.key).Nodup := by
  rcases relative_of_stream hnamed h with hrelative | rfl
  · exact nodup_of_ordered (ordered_of_stream hnamed hrelative h)
  · exact List.nodup_nil

/-- Whatever the prefix, the keys of streamed objects are its directory part and names. -/
theorem found_of_stream {object : ObjectInfo} (hmem : object ∈ objects) :
    keyPrefix.toList <+: object.key.toList ∧
      ∃ names, names ≠ [] ∧ (∀ name ∈ names, IsName name) ∧
        object.key = directoryPart keyPrefix ++ joinNames names := by
  rcases relative_of_stream hnamed h with hrelative | rfl
  · exact names_of_stream hnamed hrelative h object hmem
  · cases hmem

end Streamed

/-!
## Folded and whole listings
-/

/-- Objects that are left out do not change the order of the others. -/
theorem filter_sortObjects {objects : List ObjectInfo} (shown : ObjectInfo → Bool)
    (h : (objects.map ObjectInfo.key).Nodup) :
    (sortObjects objects).filter shown = sortObjects (objects.filter shown) := by
  have hperm : (sortObjects objects).Perm objects := List.mergeSort_perm _ _
  have hshown : ((objects.filter shown).map ObjectInfo.key).Nodup :=
    h.sublist (List.filter_sublist.map _)
  exact eq_of_increasing ((hperm.filter shown).trans (List.mergeSort_perm _ _).symm)
    ((pairwise_sortObjects h).filter shown) (pairwise_sortObjects hshown)

section Folded

variable {objects : List ObjectInfo} {whole delimited : Listing}
  (hkeys : (objects.map ObjectInfo.key).Nodup)
  (hstart : ∀ object ∈ objects, keyPrefix.toList <+: object.key.toList)
  (hwhole : Shows false keyPrefix objects whole)
  (hdelimited : Shows true keyPrefix objects delimited)

include hwhole in
theorem Shows.perm : objects.Perm whole.objects := by
  have hall : ∀ object ∈ objects, (shownPrefix? false keyPrefix object.key).isNone = true :=
    fun object _ => rfl
  rw [hwhole.objects_eq, List.filter_eq_self.mpr hall]
  exact (List.mergeSort_perm _ _).symm

include hkeys hwhole in
theorem Shows.sorted :
    whole.objects.Pairwise fun object other => object.key < other.key := by
  rw [hwhole.objects_eq]
  exact pairwise_sortObjects (hkeys.sublist (List.filter_sublist.map _))

include hkeys hstart hwhole hdelimited in
/-- A folded listing shows the objects without a slash behind the prefix. -/
theorem Shows.leaves :
    delimited.objects = whole.objects.filter fun object => isLeaf keyPrefix object.key := by
  have hleaf : ∀ object ∈ objects,
      (shownPrefix? true keyPrefix object.key).isNone = isLeaf keyPrefix object.key :=
    fun object hmem => isNone_foldedPrefix? (hstart object hmem)
  have hall : ∀ object ∈ objects, (shownPrefix? false keyPrefix object.key).isNone = true :=
    fun object _ => rfl
  rw [hdelimited.objects_eq, hwhole.objects_eq, List.filter_congr hleaf,
    List.filter_eq_self.mpr hall, filter_sortObjects _ hkeys]

include hwhole hdelimited in
/-- The prefixes of a folded listing are those that objects are folded into. -/
theorem Shows.folds (folded : String) :
    folded ∈ delimited.prefixes ↔
      ∃ object ∈ whole.objects, FoldsInto keyPrefix object.key folded := by
  rw [hdelimited.folded]
  refine exists_congr fun object => ?_
  rw [hwhole.perm.mem_iff]
  exact and_congr_right fun _ => foldedPrefix?_eq_some_iff

include hkeys hstart hwhole hdelimited in
/-- A folded listing shows every object once: itself, or by one prefix of its key. -/
theorem Shows.once {object : ObjectInfo} (hmem : object ∈ whole.objects) :
    delimited.objects.count object +
      delimited.prefixes.countP (fun folded => folded.toList.isPrefixOf object.key.toList) = 1 := by
  have hleaves := Shows.leaves hkeys hstart hwhole hdelimited
  have hfolds := Shows.folds hwhole hdelimited
  have hobject := hwhole.perm.mem_iff.mpr hmem
  have hleaf := isNone_foldedPrefix? (hstart object hobject)
  have hnodup := nodup_of_increasing (Shows.sorted hkeys hwhole)
  cases hfolded : foldedPrefix? keyPrefix object.key with
  | none =>
      rw [hfolded] at hleaf
      have hcount : delimited.objects.count object = 1 := by
        rw [hleaves]
        exact List.count_eq_one_of_mem (hnodup.filter _) (List.mem_filter.mpr ⟨hmem, hleaf.symm⟩)
      have hnone : delimited.prefixes.countP
          (fun folded => folded.toList.isPrefixOf object.key.toList) = 0 := by
        rw [List.countP_eq_zero]
        intro folded hprefix hbefore
        rcases (hfolds folded).mp hprefix with ⟨other, -, hother⟩
        have hsome := foldedPrefix?_eq_some_iff.mpr
          (hother.of_prefix (List.isPrefixOf_iff_prefix.mp hbefore))
        rw [hfolded] at hsome
        cases hsome
      rw [hcount, hnone]
  | some folded =>
      have hinto := foldedPrefix?_eq_some_iff.mp hfolded
      rw [hfolded] at hleaf
      have hcount : delimited.objects.count object = 0 := by
        rw [hleaves, List.count_eq_zero, List.mem_filter, ← hleaf]
        rintro ⟨-, hfalse⟩
        cases hfalse
      have hone : delimited.prefixes.countP
          (fun folded => folded.toList.isPrefixOf object.key.toList) =
            delimited.prefixes.count folded := by
        refine List.countP_congr fun folded' hprefix => ?_
        rcases (hfolds folded').mp hprefix with ⟨other, -, hother⟩
        rw [List.isPrefixOf_iff_prefix, hinto.isPrefix_iff hother, beq_iff_eq]
      have hdistinct : delimited.prefixes.Nodup := by
        refine hdelimited.increasing.imp fun hlt hsame => ?_
        rw [hsame] at hlt
        exact String.lt_irrefl _ hlt
      rw [hcount, hone, List.count_eq_one_of_mem hdistinct ((hfolds folded).mpr ⟨object, hmem, hinto⟩)]

end Folded

/-- What the three ways to list a prefix have to do with each other. -/
structure Agree (keyPrefix : String) (whole delimited : Listing) (streamed : List ObjectInfo) :
    Prop where
  unfolded : whole.prefixes = []
  sorted : whole.objects.Pairwise fun object other => object.key < other.key
  leaves : delimited.objects = whole.objects.filter fun object => isLeaf keyPrefix object.key
  increasing : delimited.prefixes.Pairwise (· < ·)
  folds : ∀ folded, folded ∈ delimited.prefixes ↔
    ∃ object ∈ whole.objects, FoldsInto keyPrefix object.key folded
  once : ∀ object ∈ whole.objects, delimited.objects.count object +
    delimited.prefixes.countP (fun folded => folded.toList.isPrefixOf object.key.toList) = 1
  streamed : streamed.Perm whole.objects

/-- A bucket that can be read is listed in three ways that agree, whatever the prefix: the
folded listing shows the objects without a slash behind the prefix, and in place of the others
the distinct prefixes through their first slash, so that every object is shown once; the stream
has the same objects, with what is known about them, in another order. -/
theorem listings_fold (store : Store) (tree : FileTree) (bucket keyPrefix : String)
    (hnamed : tree.Named) (hbucket : store.HasBucket tree bucket)
    (hreadable : tree.Readable (Path.join (store.bucketPath bucket) (directoryPart keyPrefix))) :
    ∃ whole delimited streamed,
      (store.list bucket keyPrefix false { tree := tree }).1 = .ok whole ∧
      (store.list bucket keyPrefix true { tree := tree }).1 = .ok delimited ∧
      (store.stream bucket keyPrefix { tree := tree }).1 = .ok (streamed, none) ∧
      Agree keyPrefix whole delimited streamed := by
  have hfault : (store.walkObjects bucket (store.bucketPath bucket) keyPrefix tree).2 = none :=
    untilFault_of_no_fault fun error hmem => by
      rcases fault_mem_walk_iff.mp hmem with ⟨names, error', hevent, -⟩
      exact hreadable.no_fault names error' hevent
  rcases hobjects : store.walkObjects bucket (store.bucketPath bucket) keyPrefix tree with
    ⟨objects, fault⟩
  rw [hobjects] at hfault
  cases hfault
  have hstream : (store.stream bucket keyPrefix { tree := tree }).1 = .ok (objects, none) := by
    rw [stream_of_hasBucket hbucket, hobjects]
  rcases list_of_stream false hstream with ⟨whole, hwhole, hshows⟩
  rcases list_of_stream true hstream with ⟨delimited, hdelimited, hshows'⟩
  have hkeys := nodup_of_stream hnamed hstream
  have hstart : ∀ object ∈ objects, keyPrefix.toList <+: object.key.toList :=
    fun object hmem => (found_of_stream hnamed hstream hmem).1
  refine ⟨whole, delimited, objects, hwhole, hdelimited, hstream, ?_⟩
  constructor
  · refine List.eq_nil_iff_forall_not_mem.mpr fun folded hmem => ?_
    rcases (hshows.folded folded).mp hmem with ⟨object, -, hfolded⟩
    cases hfolded
  · exact hshows.sorted hkeys
  · exact Shows.leaves hkeys hstart hshows hshows'
  · exact hshows'.increasing
  · exact Shows.folds hshows hshows'
  · exact fun object hmem => Shows.once hkeys hstart hshows hshows' hmem
  · exact hshows.perm

/-- A bucket with a directory and an object whose names start alike. -/
def nestedBucket : FileTree :=
  (((twoBuckets.put ["store", "b", "log"] .directory).put ["store", "b", "log", "a"]
    (.file "1".toUTF8 3)).put ["store", "b", "log", "c"] (.file "2".toUTF8 4)).put
      ["store", "b", "long"] (.file "3".toUTF8 5)

theorem named_nestedBucket : nestedBucket.Named :=
  FileTree.named_of_entries (by decide +kernel)

theorem readable_nestedBucket :
    nestedBucket.Readable (Path.join (sampleStore.bucketPath "b") (directoryPart "lo")) := by
  have hstat : nestedBucket.stat (Path.join (sampleStore.bucketPath "b") (directoryPart "lo")) =
      .ok (["store", "b"], .directory) := rfl
  exact FileTree.readable_of_entries hstat (by decide +kernel)

/-- A prefix that ends inside of a name: one object is shown, two are folded. -/
theorem listings_fold_nested :
    nestedBucket.Named ∧ sampleStore.HasBucket nestedBucket "b" ∧
    nestedBucket.Readable (Path.join (sampleStore.bucketPath "b") (directoryPart "lo")) ∧
    ∃ whole delimited streamed,
      (sampleStore.list "b" "lo" false { tree := nestedBucket }).1 = .ok whole ∧
      (sampleStore.list "b" "lo" true { tree := nestedBucket }).1 = .ok delimited ∧
      (sampleStore.stream "b" "lo" { tree := nestedBucket }).1 = .ok (streamed, none) ∧
      Agree "lo" whole delimited streamed ∧
      streamed.map ObjectInfo.key = ["log/a", "log/c", "long"] ∧ "log/" ∈ delimited.prefixes := by
  have hbucket : sampleStore.HasBucket nestedBucket "b" :=
    ⟨by decide, ["store", "b"], .directory, rfl, rfl⟩
  rcases listings_fold sampleStore nestedBucket "b" "lo" named_nestedBucket hbucket
    readable_nestedBucket with ⟨whole, delimited, streamed, hwhole, hdelimited, hstream, hagree⟩
  have hkeys : (sampleStore.stream "b" "lo" { tree := nestedBucket }).1.map
      (fun found => found.1.map ObjectInfo.key) = .ok ["log/a", "log/c", "long"] := by
    decide +kernel
  rw [hstream] at hkeys
  have hkeys : streamed.map ObjectInfo.key = ["log/a", "log/c", "long"] := Except.ok.inj hkeys
  refine ⟨named_nestedBucket, hbucket, readable_nestedBucket, whole, delimited, streamed, hwhole, hdelimited,
    hstream, hagree, hkeys, (hagree.folds "log/").mpr ?_⟩
  have hmem : "log/a" ∈ streamed.map ObjectInfo.key := by
    rw [hkeys]
    exact List.mem_cons_self
  rcases List.mem_map.mp hmem with ⟨object, hobject, hkey⟩
  exact ⟨object, hagree.streamed.mem_iff.mp hobject, "g", "a", by decide, hkey, by decide⟩

end Store
end BulkTransfer
