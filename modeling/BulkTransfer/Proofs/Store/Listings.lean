import BulkTransfer.Proofs.Command.Arguments
import BulkTransfer.Proofs.Location.Matching
import BulkTransfer.Proofs.Store.Calls
import BulkTransfer.Proofs.Store.Walks

/-!
# Listings and objects

A listing walks directories, while an object is looked up by the path of its key.  In a store
of regular files and directories the two agree: a listing shows the objects that can be looked
up, each once and by increasing key.  Only a prefix that leads upwards shows anything else.
-/

namespace BulkTransfer

open DiskM (bind_apply bind_eq_ok_iff)

namespace Store

variable {store : Store} {tree : FileTree} {root : Place} {bucket keyPrefix : String}
  {location : Location} {info : ObjectInfo}

/-!
## Objects in front of the first fault
-/

section UntilFault

variable {infoOf : String → Node → ObjectInfo} {found : List Found}

theorem untilFault_of_no_fault (h : ∀ error, .fault error ∉ found) :
    (untilFault infoOf found).2 = none := by
  induction found with
  | nil => rfl
  | cons first found ih =>
      cases first with
      | fault error => exact absurd List.mem_cons_self (h error)
      | object key node =>
          exact ih fun error hmem => h error (List.mem_cons_of_mem _ hmem)

theorem mem_untilFault_of_no_fault (h : ∀ error, .fault error ∉ found) {key : String}
    {node : Node} (hmem : .object key node ∈ found) :
    infoOf key node ∈ (untilFault infoOf found).1 := by
  induction found with
  | nil => cases hmem
  | cons first found ih =>
      have hrest : ∀ error, .fault error ∉ found := fun error hmem =>
        h error (List.mem_cons_of_mem _ hmem)
      cases first with
      | fault error => exact absurd List.mem_cons_self (h error)
      | object key' node' =>
          rcases List.mem_cons.mp hmem with hfirst | hmem
          · cases hfirst
            exact List.mem_cons_self
          · exact List.mem_cons_of_mem _ (ih hrest hmem)

theorem pairwise_untilFault {R : String → String → Prop}
    (hkey : ∀ key node, (infoOf key node).key = key)
    (h : found.Pairwise fun first other => ∀ key key' node node',
      first = .object key node → other = .object key' node' → R key key') :
    (untilFault infoOf found).1.Pairwise fun object other => R object.key other.key := by
  induction found with
  | nil => exact .nil
  | cons first found ih =>
      rcases List.pairwise_cons.mp h with ⟨hfirst, hrest⟩
      cases first with
      | fault error => exact .nil
      | object key node =>
          show (infoOf key node :: (untilFault infoOf found).1).Pairwise _
          refine List.pairwise_cons.mpr ⟨fun object hobject => ?_, ih hrest⟩
          rcases found_of_mem_untilFault hobject with ⟨key', node', hfound, rfl⟩
          rw [hkey, hkey]
          exact hfirst _ hfound key key' node node' rfl rfl

end UntilFault

/-!
## What a walk gathers
-/

/-- What is gathered from objects: the files that a listing shows, with what is known about
them, and the prefixes that it shows in place of the others. -/
structure Gathers (infoOf : String → Node → ObjectInfo) (delimited : Bool) (keyPrefix : String)
    (objects : List ObjectInfo) (gathered : Gathered) : Prop where
  shown : gathered.objects.map (fun file => infoOf file.1 file.2) =
    objects.filter fun object => (shownPrefix? delimited keyPrefix object.key).isNone
  folded : ∀ folded, folded ∈ gathered.prefixes ↔
    ∃ object ∈ objects, shownPrefix? delimited keyPrefix object.key = some folded

section Gathering

variable {infoOf : String → Node → ObjectInfo} {delimited : Bool} {found : List Found}

theorem Gathers.nil : Gathers infoOf delimited keyPrefix [] {} := by
  refine ⟨rfl, fun folded => ⟨fun hmem => ?_, ?_⟩⟩
  · exact absurd hmem Std.TreeSet.not_mem_emptyc
  · rintro ⟨object, hmem, -⟩
    cases hmem

theorem Gathers.add (hkey : ∀ key node, (infoOf key node).key = key) {objects : List ObjectInfo}
    {gathered : Gathered} (h : Gathers infoOf delimited keyPrefix objects gathered)
    (key : String) (node : Node) :
    Gathers infoOf delimited keyPrefix (infoOf key node :: objects)
      (gathered.add delimited keyPrefix key node) := by
  rw [Gathered.add]
  cases hshown : shownPrefix? delimited keyPrefix key with
  | none =>
      constructor
      · rw [List.map_cons, h.shown, List.filter_cons_of_pos (by rw [hkey, hshown]; rfl)]
      · intro folded
        rw [h.folded, List.exists_mem_cons_iff, hkey, hshown]
        simp only [reduceCtorEq, false_or]
  | some shown =>
      constructor
      · rw [h.shown, List.filter_cons_of_neg (by rw [hkey, hshown]; exact Bool.false_ne_true)]
      · intro folded
        rw [Std.TreeSet.mem_insert, Std.LawfulEqCmp.compare_eq_iff_eq, h.folded,
          List.exists_mem_cons_iff, hkey, hshown, Option.some.injEq]

theorem gather_of_no_fault (delimited : Bool) (keyPrefix : String)
    (hkey : ∀ key node, (infoOf key node).key = key)
    {objects : List ObjectInfo} (h : untilFault infoOf found = (objects, none)) :
    ∃ gathered, gather delimited keyPrefix found = .ok gathered ∧
      Gathers infoOf delimited keyPrefix objects gathered := by
  induction found generalizing objects with
  | nil =>
      cases h
      exact ⟨_, rfl, .nil⟩
  | cons first found ih =>
      cases first with
      | fault error => cases h
      | object key node =>
          rw [untilFault] at h
          rcases huntil : untilFault infoOf found with ⟨others, fault⟩
          rw [huntil] at h
          cases h
          rcases ih huntil with ⟨gathered, hgather, hgathers⟩
          rw [gather, hgather]
          exact ⟨_, rfl, hgathers.add hkey key node⟩

/-- Gathering stops at the first fault. -/
theorem gather_of_fault {objects : List ObjectInfo} {error : JobError}
    (h : untilFault infoOf found = (objects, some error)) :
    gather delimited keyPrefix found = .error error := by
  induction found generalizing objects with
  | nil => cases h
  | cons first found ih =>
      cases first with
      | fault error' =>
          cases h
          rfl
      | object key node =>
          rw [untilFault] at h
          rcases huntil : untilFault infoOf found with ⟨others, fault⟩
          rw [huntil] at h
          cases h
          rw [gather, ih huntil]
          rfl

end Gathering

theorem describe_of_tree (store : Store) (tree : FileTree) (bucket : String)
    (files : List (String × Node)) :
    store.describe bucket files { tree := tree } =
      (.ok (files.map fun file => store.walkInfo tree bucket file.1 file.2), { tree := tree }) := by
  induction files with
  | nil => rfl
  | cons file files ih =>
      rcases file with ⟨key, node⟩
      have hquiet : Disk.Quiet { tree := tree } := fun fault hfault =>
        absurd hfault List.not_mem_nil
      rw [describe, bind_apply, readClass_of_quiet hquiet]
      dsimp only
      rw [bind_apply]
      dsimp only [List.tail_nil]
      rw [ih]
      rfl

/-!
## Sorted listings
-/

/-- Objects by increasing key. -/
def sortObjects (objects : List ObjectInfo) : List ObjectInfo :=
  objects.mergeSort fun a b => !decide (b.key < a.key)

/-- Files are sorted as what is known about them. -/
theorem map_sortFiles {infoOf : String → Node → ObjectInfo}
    (hkey : ∀ key node, (infoOf key node).key = key) (files : List (String × Node)) :
    (sortFiles files).map (fun file => infoOf file.1 file.2) =
      sortObjects (files.map fun file => infoOf file.1 file.2) := by
  refine List.map_mergeSort fun file _ other _ => ?_
  rw [hkey, hkey]

theorem mem_sortObjects {objects : List ObjectInfo} :
    info ∈ sortObjects objects ↔ info ∈ objects :=
  List.mem_mergeSort

/-- Objects with different keys are sorted strictly. -/
theorem pairwise_sortObjects {objects : List ObjectInfo}
    (h : (objects.map ObjectInfo.key).Nodup) :
    (sortObjects objects).Pairwise fun object other => object.key < other.key := by
  have hsorted : (sortObjects objects).Pairwise fun object other =>
      (!decide (other.key < object.key)) = true := by
    refine List.pairwise_mergeSort (fun a b c hab hbc => ?_) (fun a b => ?_) objects
    · simp only [Bool.not_eq_true', decide_eq_false_iff_not, String.not_lt] at hab hbc ⊢
      exact String.le_trans hab hbc
    · simp only [Bool.or_eq_true, Bool.not_eq_true', decide_eq_false_iff_not, String.not_lt]
      exact String.le_total a.key b.key
  have hdistinct : (sortObjects objects).Pairwise fun object other =>
      object.key ≠ other.key := by
    have hperm : (sortObjects objects).Perm objects := List.mergeSort_perm _ _
    exact List.pairwise_map.mp ((hperm.map ObjectInfo.key).nodup_iff.mpr h)
  refine (hsorted.and hdistinct).imp fun ⟨hle, hne⟩ => ?_
  simp only [Bool.not_eq_true', decide_eq_false_iff_not, String.not_lt] at hle
  exact String.not_le.mp fun hge => hne (String.le_antisymm hle hge)

theorem nodup_of_increasing {objects : List ObjectInfo}
    (h : objects.Pairwise fun object other => object.key < other.key) : objects.Nodup := by
  refine h.imp fun hlt hsame => ?_
  rw [hsame] at hlt
  exact String.lt_irrefl _ hlt

/-- Sorted lists of objects with the same members are the same. -/
theorem eq_of_increasing {objects others : List ObjectInfo} (hperm : objects.Perm others)
    (hobjects : objects.Pairwise fun object other => object.key < other.key)
    (hothers : others.Pairwise fun object other => object.key < other.key) :
    objects = others :=
  hperm.eq_of_pairwise (fun _ _ _ _ hlt hgt => absurd hgt (String.lt_asymm hlt)) hobjects hothers

theorem stream_of_hasBucket (h : store.HasBucket tree bucket) (keyPrefix : String) :
    store.stream bucket keyPrefix { tree := tree } =
      (.ok (store.walkObjects bucket (store.bucketPath bucket) keyPrefix tree),
        { tree := tree }) := by
  rw [stream, bind_apply, existingBucket_of_hasBucket h]
  rfl

/-- What a listing shows of objects: those that it does not fold, sorted, and the prefixes of
the others, each once and in order. -/
structure Shows (delimited : Bool) (keyPrefix : String) (objects : List ObjectInfo)
    (listing : Listing) : Prop where
  objects_eq : listing.objects = sortObjects
    (objects.filter fun object => (shownPrefix? delimited keyPrefix object.key).isNone)
  increasing : listing.prefixes.Pairwise (· < ·)
  folded : ∀ folded, folded ∈ listing.prefixes ↔
    ∃ object ∈ objects, shownPrefix? delimited keyPrefix object.key = some folded

section Listed

variable (delimited : Bool)

/-- A listing fails as its stream does. -/
theorem list_of_stream_error {error : JobError}
    (h : (store.stream bucket keyPrefix { tree := tree }).1 = .error error) :
    (store.list bucket keyPrefix delimited { tree := tree }).1 = .error error := by
  rw [stream, bind_apply] at h
  rcases hfound : store.existingBucket bucket { tree := tree } with ⟨outcome, disk⟩
  rw [hfound] at h
  cases outcome with
  | ok path => cases h
  | error error' =>
      cases h
      rw [list, bind_apply, hfound]

theorem hasBucket_of_stream {streamed : List ObjectInfo × Option JobError}
    (h : (store.stream bucket keyPrefix { tree := tree }).1 = .ok streamed) :
    store.HasBucket tree bucket ∧
      untilFault (store.walkInfo tree bucket) (walk tree (store.bucketPath bucket) keyPrefix) =
        streamed := by
  rcases hfound : store.existingBucket bucket { tree := tree } with ⟨outcome, disk⟩
  cases outcome with
  | error error =>
      rw [stream, bind_apply, hfound] at h
      cases h
  | ok path =>
      have hbucket := (existingBucket_eq_ok hfound).1
      rw [stream_of_hasBucket hbucket] at h
      exact ⟨hbucket, Except.ok.inj h⟩

/-- What a listing makes of what it gathers. -/
theorem list_of_hasBucket (h : store.HasBucket tree bucket) :
    (store.list bucket keyPrefix delimited { tree := tree }).1 =
      (gather delimited keyPrefix (walk tree (store.bucketPath bucket) keyPrefix)).map
        fun gathered =>
          { objects := (sortFiles gathered.objects).map fun file =>
              store.walkInfo tree bucket file.1 file.2,
            prefixes := gathered.prefixes.toList } := by
  rw [list, bind_apply, existingBucket_of_hasBucket h]
  dsimp only
  rw [bind_apply, DiskM.view]
  dsimp only
  rw [bind_apply, DiskM.ofExcept]
  cases gather delimited keyPrefix (walk tree (store.bucketPath bucket) keyPrefix) with
  | error error => rfl
  | ok gathered =>
      dsimp only
      rw [bind_apply, describe_of_tree]
      rfl

theorem list_of_stream_fault {objects : List ObjectInfo} {fault : JobError}
    (h : (store.stream bucket keyPrefix { tree := tree }).1 = .ok (objects, some fault)) :
    (store.list bucket keyPrefix delimited { tree := tree }).1 = .error fault := by
  rcases hasBucket_of_stream h with ⟨hbucket, huntil⟩
  rw [list_of_hasBucket delimited hbucket, gather_of_fault huntil]
  rfl

/-- A listing shows the objects of a stream that ends without a fault. -/
theorem list_of_stream {objects : List ObjectInfo}
    (h : (store.stream bucket keyPrefix { tree := tree }).1 = .ok (objects, none)) :
    ∃ listing, (store.list bucket keyPrefix delimited { tree := tree }).1 = .ok listing ∧
      Shows delimited keyPrefix objects listing := by
  rcases hasBucket_of_stream h with ⟨hbucket, huntil⟩
  rcases gather_of_no_fault delimited keyPrefix (fun key node => rfl) huntil with ⟨gathered, hgather, hgathers⟩
  rw [list_of_hasBucket delimited hbucket, hgather]
  refine ⟨_, rfl, ?_, ?_, fun folded => ?_⟩
  · rw [← hgathers.shown]
    exact map_sortFiles (fun key node => rfl) _
  · have hordered : gathered.prefixes.toList.Pairwise fun a b => compare a b = .lt :=
      Std.TreeSet.ordered_toList
    exact hordered.imp compareOfLessAndEq_eq_lt.mp
  · rw [Std.TreeSet.mem_toList, hgathers.folded]

end Listed

theorem fst_list (store : Store) (bucket keyPrefix : String) (tree : FileTree) :
    (store.list bucket keyPrefix false { tree := tree }).1 =
      match (store.stream bucket keyPrefix { tree := tree }).1 with
      | .ok (objects, none) => .ok { objects := sortObjects objects, prefixes := [] }
      | .ok (_, some fault) => .error fault
      | .error error => .error error := by
  rcases hstream : (store.stream bucket keyPrefix { tree := tree }).1 with
    error | ⟨objects, _ | fault⟩
  · exact list_of_stream_error false hstream
  · rcases list_of_stream false hstream with ⟨listing, hlist, hshows⟩
    have hall : ∀ object ∈ objects, (shownPrefix? false keyPrefix object.key).isNone = true :=
      fun object _ => rfl
    have hnone : listing.prefixes = [] := by
      refine List.eq_nil_iff_forall_not_mem.mpr fun folded hmem => ?_
      rcases (hshows.folded folded).mp hmem with ⟨object, -, hfolded⟩
      cases hfolded
    dsimp only
    rw [hlist, ← List.filter_eq_self.mpr hall, ← hshows.objects_eq, ← hnone]
  · exact list_of_stream_fault false hstream

/-- There is a listing exactly if the stream of objects ends without a fault. -/
theorem list_eq_ok_iff {listing : Listing} :
    (store.list bucket keyPrefix false { tree := tree }).1 = .ok listing ↔
      ∃ objects, (store.stream bucket keyPrefix { tree := tree }).1 = .ok (objects, none) ∧
        listing = { objects := sortObjects objects, prefixes := [] } := by
  rw [fst_list]
  constructor
  · intro h
    split at h
    · rename_i objects hstream
      rw [Except.ok.injEq] at h
      exact ⟨objects, hstream, h.symm⟩
    · cases h
    · cases h
  · rintro ⟨objects, hstream, rfl⟩
    rw [hstream]

theorem list_eq_error_iff {error : JobError} :
    (store.list bucket keyPrefix false { tree := tree }).1 = .error error ↔
      (store.stream bucket keyPrefix { tree := tree }).1 = .error error ∨
        ∃ objects, (store.stream bucket keyPrefix { tree := tree }).1 = .ok (objects, some error) := by
  rw [fst_list]
  constructor
  · intro h
    split at h
    · cases h
    · rename_i objects fault hstream
      rw [Except.error.injEq] at h
      exact Or.inr ⟨objects, h ▸ hstream⟩
    · rename_i error' hstream
      rw [Except.error.injEq] at h
      exact Or.inl (h ▸ hstream)
  · rintro (hstream | ⟨objects, hstream⟩)
    · rw [hstream]
    · rw [hstream]

/-- Objects are streamed in walk order. -/
theorem ordered_of_stream (hnamed : tree.Named) (habsolute : Path.isAbsolute keyPrefix = false)
    {objects : List ObjectInfo} {fault : Option JobError}
    (h : (store.stream bucket keyPrefix { tree := tree }).1 = .ok (objects, fault)) :
    objects.Pairwise fun object other => Before object.key other.key := by
  rw [stream, bind_apply] at h
  rcases hbucket : store.existingBucket bucket { tree := tree } with ⟨outcome, disk⟩
  rw [hbucket] at h
  cases outcome with
  | error error => cases h
  | ok path =>
      rcases existingBucket_eq_ok hbucket with ⟨⟨hname, -⟩, rfl, hsame⟩
      have hsame : disk.tree = tree := hsame
      have hobjects : store.walkObjects bucket (store.bucketPath bucket) keyPrefix disk.tree =
          (objects, fault) := Except.ok.inj h
      have hordered : (store.walkObjects bucket (store.bucketPath bucket) keyPrefix tree).1.Pairwise
          fun object other => Before object.key other.key :=
        pairwise_untilFault (fun key node => rfl)
          (ordered_found hnamed (bucketPath_ne_empty store hname) habsolute)
      rwa [← hsame, hobjects] at hordered

theorem nodup_of_ordered {objects : List ObjectInfo}
    (h : objects.Pairwise fun object other => Before object.key other.key) :
    (objects.map ObjectInfo.key).Nodup :=
  List.pairwise_map.mpr (h.imp Before.ne)

/-- Every listing of objects is strictly sorted. -/
theorem pairwise_of_list (hnamed : tree.Named) (habsolute : Path.isAbsolute keyPrefix = false)
    {listing : Listing}
    (h : (store.list bucket keyPrefix false { tree := tree }).1 = .ok listing) :
    listing.objects.Pairwise fun object other => object.key < other.key := by
  rcases list_eq_ok_iff.mp h with ⟨objects, hstream, rfl⟩
  exact pairwise_sortObjects (nodup_of_ordered (ordered_of_stream hnamed habsolute hstream))

/-!
## Looking up an object
-/

/-- The path of a file does not end in a slash. -/
theorem endsInSlash_filePath (store : Store) (hvalid : IsValid location) :
    Path.endsInSlash (store.filePath location) = false := by
  rw [Path.endsInSlash, beq_eq_false_iff_ne]
  intro hlast
  have hpieces := pieces_of_isObjectKey hvalid.key
  have hne : location.key.toList ≠ [] := by
    intro hnil
    have hmem : "" ∈ Path.pieces location.key := by
      rw [Path.pieces, hnil]
      exact List.mem_cons_self
    exact (hpieces _ hmem).1 rfl
  have hjoin : ∃ front, store.filePath location = front ++ location.key := by
    have hrelative := isAbsolute_of_isObjectKey hvalid.key
    rw [filePath, Path.join, if_neg (by rw [hrelative]; exact Bool.false_ne_true)]
    split
    · exact ⟨_, rfl⟩
    · exact ⟨_, rfl⟩
  rcases hjoin with ⟨front, hfront⟩
  rw [hfront, String.toList_append, List.getLast?_append_of_ne_nil _ hne,
    List.getLast?_eq_some_iff] at hlast
  rcases hlast with ⟨shorter, hshorter⟩
  have hmem : "" ∈ Path.pieces location.key := by
    rw [Path.pieces, hshorter, Text.splitOn_append, List.map_append]
    exact List.mem_append_right _ List.mem_cons_self
  exact (hpieces _ hmem).1 rfl

/-- Without faults, what is said about an object is what its file shows. -/
theorem head_of_hasBucket (hvalid : IsValid location)
    (hbucket : store.HasBucket tree location.bucket) :
    (store.head location { tree := tree }).1 =
      match tree.stat (store.filePath location) with
      | .ok (_, .file content modified) =>
          .ok (some (store.walkInfo tree location.bucket location.key (.file content modified)))
      | .ok _ => .ok none
      | .error error =>
          if error.isNotFound then .ok none else .error (.ofIo location.text error) := by
  have hquiet : Disk.Quiet { tree := tree } := fun fault hfault => absurd hfault List.not_mem_nil
  have hclass : store.readClass location { tree := tree } =
      (.ok (classAt (store.sidecarPath location) tree), { tree := tree }) :=
    readClass_of_quiet hquiet location
  have hattempt : ((Disk.stat (store.filePath location)).attempt : DiskM JobError _)
      { tree := tree } = (.ok (tree.stat (store.filePath location)), { tree := tree }) := rfl
  rw [head, bind_apply, objectPath_of_hasBucket hvalid hbucket]
  dsimp only
  rw [infoAt, bind_apply, hattempt]
  dsimp only
  cases tree.stat (store.filePath location) with
  | error error =>
      dsimp only
      split <;> rfl
  | ok found =>
      rcases found with ⟨place, node⟩
      cases node with
      | file content modified =>
          dsimp only
          rw [bind_apply, hclass]
          rfl
      | directory | closed | link => rfl

/-- An object that is reported has a file at the path of its key. -/
theorem stat_of_head (h : (store.head location { tree := tree }).1 = .ok (some info)) :
    IsValid location ∧ ∃ place content modified,
      tree.stat (store.filePath location) = .ok (place, .file content modified) ∧
        info = store.walkInfo tree location.bucket location.key (.file content modified) := by
  have hvalid : IsValid location ∧ store.HasBucket tree location.bucket := by
    rw [head, bind_apply] at h
    rcases hpath : store.objectPath location { tree := tree } with ⟨outcome, later⟩
    cases outcome with
    | error error =>
        rw [hpath] at h
        cases h
    | ok path =>
        rcases objectPath_eq_ok hpath with ⟨hvalid, hbucket, -⟩
        exact ⟨hvalid, hbucket⟩
  refine ⟨hvalid.1, ?_⟩
  rw [head_of_hasBucket hvalid.1 hvalid.2] at h
  split at h
  · rename_i place content modified hstat
    cases h
    exact ⟨place, content, modified, hstat, rfl⟩
  · cases h
  · split at h <;> cases h

/-!
## Regular stores
-/

/-- A store of regular files and directories behind a root, which can be looked up by their
paths. -/
structure Regular (store : Store) (tree : FileTree) (root : Place) : Prop where
  sound : tree.Sound
  named : tree.Named
  roots : tree.Roots store.root root
  searchable : ∀ names, tree.node? (root ++ names) ≠ some .closed
  short : ∀ names node, tree.node? (root ++ names) = some node →
    ∀ name ∈ names, name.utf8ByteSize ≤ FileTree.longestName
  usable : ∀ bucket names content modified,
    tree.node? (root ++ bucket :: names) = some (.file content modified) →
      FileTree.IsUsable (Path.join (store.bucketPath bucket) (joinNames names))

namespace Regular

variable (h : store.Regular tree root)
include h

/-- The file of a key can be looked up. -/
theorem usable_filePath {key : String} {node : Node} (hfile : node.isFile = true)
    (hnode : tree.node? (root ++ bucket :: Path.pieces key) = some node) :
    FileTree.IsUsable (store.filePath { bucket := bucket, key := key }) ∧
      tree.Opens root (bucket :: Path.pieces key) := by
  cases node with
  | directory | closed | link => cases hfile
  | file content modified =>
      have husable := h.usable bucket _ content modified hnode
      rw [Path.joinNames_pieces] at husable
      exact ⟨husable, h.sound.opens h.searchable (h.short _ _ hnode) hnode⟩

/-- The key of an entry of a bucket consists of names. -/
theorem isObjectKey_of_node {key : String} {node : Node}
    (hnode : tree.node? (root ++ bucket :: Path.pieces key) = some node) :
    isObjectKey key = true := by
  have hne : root ++ bucket :: Path.pieces key ≠ [] :=
    List.append_ne_nil_of_right_ne_nil _ (List.cons_ne_nil _ _)
  rw [FileTree.node?_of_ne_nil _ hne] at hnode
  rw [isObjectKey, List.all_eq_true]
  intro piece hmem
  have hname := h.named _ _ hnode piece
    (List.mem_append_right _ (List.mem_cons_of_mem _ hmem))
  simp [hname.ne_empty, hname.ne_here, hname.ne_up]

section Bucket

variable (hbucket : store.HasBucket tree bucket) (habsolute : Path.isAbsolute keyPrefix = false)
  (hup : ".." ∉ Path.pieces (directoryPart keyPrefix))
include hbucket habsolute hup

theorem walkObjects_fault :
    (store.walkObjects bucket (store.bucketPath bucket) keyPrefix tree).2 = none := by
  refine untilFault_of_no_fault fun error => ?_
  exact not_fault_mem_walk h.roots hbucket.1 habsolute h.sound hup
    (fun names => h.searchable (bucket :: names)) error

theorem mem_walkObjects_iff (info : ObjectInfo) :
    info ∈ (store.walkObjects bucket (store.bucketPath bucket) keyPrefix tree).1 ↔
      keyPrefix.toList <+: info.key.toList ∧ ∃ node, node.isFile = true ∧
        tree.node? (root ++ bucket :: Path.pieces info.key) = some node ∧
          info = store.walkInfo tree bucket info.key node := by
  rw [walkObjects]
  constructor
  · intro hmem
    rcases found_of_mem_untilFault hmem with ⟨key, node, hfound, rfl⟩
    rcases file_of_mem_walk h.roots hbucket.1 habsolute h.named hup hfound with
      ⟨hstart, hfile, hnode⟩
    exact ⟨hstart, node, hfile, hnode, rfl⟩
  · rintro ⟨hstart, node, hfile, hnode, hinfo⟩
    rw [hinfo]
    refine mem_untilFault_of_no_fault (fun error => ?_) ?_
    · exact not_fault_mem_walk h.roots hbucket.1 habsolute h.sound hup
        (fun names => h.searchable (bucket :: names)) error
    · rcases h.usable_filePath hfile hnode with ⟨husable, hopens⟩
      exact mem_walk_of_file h.roots hbucket.1 habsolute (h.isObjectKey_of_node hnode) hstart
        husable hopens hnode hfile

/-- A prefix that does not lead upwards can be listed, and what is listed are the files of the
bucket whose keys start with it, by increasing key. -/
theorem exists_listing :
    ∃ objects, (store.list bucket keyPrefix false { tree := tree }).1 =
        .ok { objects := objects, prefixes := [] } ∧
      (objects.Pairwise fun object other => object.key < other.key) ∧
      ∀ info, info ∈ objects ↔ keyPrefix.toList <+: info.key.toList ∧ ∃ node,
        node.isFile = true ∧ tree.node? (root ++ bucket :: Path.pieces info.key) = some node ∧
          info = store.walkInfo tree bucket info.key node := by
  have hmem := h.mem_walkObjects_iff hbucket habsolute hup
  have hfault := h.walkObjects_fault hbucket habsolute hup
  rcases hobjects : store.walkObjects bucket (store.bucketPath bucket) keyPrefix tree with
    ⟨objects, fault⟩
  rw [hobjects] at hmem hfault
  cases hfault
  have hlist : (store.list bucket keyPrefix false { tree := tree }).1 =
      .ok { objects := sortObjects objects, prefixes := [] } := by
    rw [fst_list, stream_of_hasBucket hbucket, hobjects]
  refine ⟨sortObjects objects, hlist, pairwise_of_list h.named habsolute hlist, fun info => ?_⟩
  rw [mem_sortObjects]
  exact hmem info

end Bucket

/-- Objects that start with a prefix are found in the listing of the prefix and in that of the
whole bucket. -/
theorem listings_agree (hbucket : store.HasBucket tree bucket)
    (habsolute : Path.isAbsolute keyPrefix = false)
    (hup : ".." ∉ Path.pieces (directoryPart keyPrefix)) :
    ∃ listing whole, (store.list bucket keyPrefix false { tree := tree }).1 = .ok listing ∧
      (store.list bucket "" false { tree := tree }).1 = .ok whole ∧
      ∀ wanted : ObjectInfo → Bool,
        (∀ info, wanted info = true → keyPrefix.toList <+: info.key.toList) →
          listing.objects.filter wanted = whole.objects.filter wanted := by
  rcases h.exists_listing hbucket habsolute hup with ⟨objects, hlist, hsorted, hmem⟩
  rcases h.exists_listing hbucket (show Path.isAbsolute "" = false from rfl) (by decide) with
    ⟨all, hwhole, hsorted', hmem'⟩
  refine ⟨_, _, hlist, hwhole, fun wanted hwanted => ?_⟩
  -- both are strictly sorted, so it is enough that they have the same members
  have hfound := hsorted.filter wanted
  have hfound' := hsorted'.filter wanted
  refine eq_of_increasing ((List.perm_ext_iff_of_nodup (nodup_of_increasing hfound)
    (nodup_of_increasing hfound')).mpr fun info => ?_) hfound hfound'
  rw [List.mem_filter, List.mem_filter, hmem, hmem']
  constructor
  · rintro ⟨⟨-, hfile⟩, hwant⟩
    exact ⟨⟨List.nil_prefix, hfile⟩, hwant⟩
  · rintro ⟨⟨-, hfile⟩, hwant⟩
    exact ⟨⟨hwanted info hwant, hfile⟩, hwant⟩

/-- In a regular store an object is reported exactly if it is a file of its bucket. -/
theorem head_eq_some_iff (hbucket : store.HasBucket tree bucket) :
    (store.head { bucket := bucket, key := info.key } { tree := tree }).1 = .ok (some info) ↔
      ∃ node, node.isFile = true ∧
        tree.node? (root ++ bucket :: Path.pieces info.key) = some node ∧
          info = store.walkInfo tree bucket info.key node := by
  constructor
  · intro hhead
    rcases stat_of_head hhead with ⟨hvalid, place, content, modified, hstat, hinfo⟩
    have hnode := ((h.roots.stat_eq_ok_iff (continues_filePath store hvalid)).mp hstat).2.2.2.1
    exact ⟨_, rfl, hnode, hinfo⟩
  · rintro ⟨node, hfile, hnode, hinfo⟩
    rcases h.usable_filePath hfile hnode with ⟨husable, hopens⟩
    have hvalid : IsValid { bucket := bucket, key := info.key } :=
      ⟨hbucket.1, h.isObjectKey_of_node hnode⟩
    cases node with
    | directory | closed | link => cases hfile
    | file content modified =>
        have hslash := endsInSlash_filePath store hvalid
        have hstat : tree.stat (store.filePath { bucket := bucket, key := info.key }) =
            .ok (root ++ bucket :: Path.pieces info.key, .file content modified) := by
          refine (h.roots.stat_eq_ok_iff (continues_filePath store hvalid)).mpr
            ⟨husable, hopens, rfl, hnode, fun hend => ?_⟩
          rw [hslash] at hend
          cases hend
        rw [head_of_hasBucket hvalid hbucket, hstat]
        dsimp only
        rw [← hinfo]

end Regular

/-- A listing of a prefix that does not lead upwards shows exactly the objects with that prefix
that can be looked up, each once, by increasing key, with what the look-up says of them; and
all of them are files of the bucket. -/
theorem list_shows_objects (store : Store) (tree : FileTree) (root : Place)
    (bucket text : String) (location : Location) (hregular : store.Regular tree root)
    (hbucket : store.HasBucket tree bucket) (hparse : Location.parse text = .ok location)
    (hup : ".." ∉ Path.pieces (directoryPart location.literalKey)) :
    ∃ objects, (store.list bucket location.literalKey false { tree := tree }).1 =
        .ok { objects := objects, prefixes := [] } ∧
      (objects.Pairwise fun object other => object.key < other.key) ∧
      (∀ info, info ∈ objects ↔ location.literalKey.toList <+: info.key.toList ∧
        (store.head { bucket := bucket, key := info.key } { tree := tree }).1 =
          .ok (some info)) ∧
      ∀ info ∈ objects, ∃ content modified,
        tree.node? (root ++ bucket :: Path.pieces info.key) = some (.file content modified) := by
  have habsolute := Location.isAbsolute_literalKey (Location.isAbsolute_of_parse hparse)
  rcases hregular.exists_listing hbucket habsolute hup with ⟨objects, hlist, hsorted, hmem⟩
  refine ⟨objects, hlist, hsorted, fun info => ?_, fun info hinfo => ?_⟩
  · rw [hmem, hregular.head_eq_some_iff hbucket]
  · rcases ((hmem info).mp hinfo).2 with ⟨node, hfile, hnode, -⟩
    cases node with
    | file content modified => exact ⟨content, modified, hnode⟩
    | directory | closed | link => cases hfile

/-!
## Two buckets
-/

/-- A store with two buckets and one object in each. -/
def twoBuckets : FileTree :=
  ((((emptyTree.put ["store"] .directory).put ["store", "b"] .directory).put
    ["store", "b", "in"] (.file "x".toUTF8 1)).put ["store", "c"] .directory).put
      ["store", "c", "out"] (.file "secret".toUTF8 2)

theorem twoBuckets_sound : twoBuckets.Sound :=
  FileTree.sound_of_entries (by decide +kernel) FileTree.holdsEntries_nil

/-- A file, or a directory that may be read. -/
def isPlainNode : Node → Bool
  | .file _ _ | .directory => true
  | .closed | .link _ => false

/-- What is looked up to see that a small store is regular. -/
theorem regular_of_entries (hsound : tree.Sound) (hnamed : tree.Named)
    (harrives : tree.follow true
        (FileTree.startOf sampleStore.root tree.workingDirectory)
        (FileTree.namesOf sampleStore.root) = .arrived (.entry ["store"] .directory))
    (hkind : ∀ entry ∈ tree.nodes.toList, isPlainNode entry.2 = true)
    (hnames : ∀ entry ∈ tree.nodes.toList, ∀ name ∈ entry.1,
      name.utf8ByteSize ≤ FileTree.longestName)
    (hpaths : ∀ entry ∈ tree.nodes.toList,
      let path := Path.join (sampleStore.bucketPath (entry.1.tail.headD ""))
        (joinNames entry.1.tail.tail)
      path.toList.contains '\x00' = false ∧ path.isEmpty = false ∧
        path.utf8ByteSize < FileTree.pathLimit) :
    sampleStore.Regular tree ["store"] := by
  have hentry : ∀ names node, tree.node? ("store" :: names) = some node →
      ("store" :: names, node) ∈ tree.nodes.toList := fun names node hnode =>
    FileTree.mem_toList_of_node? (List.cons_ne_nil _ _) hnode
  constructor
  · exact hsound
  · exact hnamed
  · refine ⟨harrives, fun names target hnode => ?_⟩
    cases hkind _ (hentry names _ hnode)
  · intro names hnode
    cases hkind _ (hentry names _ hnode)
  · intro names node hnode name hmem
    exact hnames _ (hentry names node hnode) name (List.mem_cons_of_mem _ hmem)
  · intro bucket names content modified hnode
    rcases hpaths _ (hentry _ _ hnode) with ⟨hnul, hempty, hshort⟩
    exact ⟨hnul, hempty, hshort⟩

theorem twoBuckets_regular : sampleStore.Regular twoBuckets ["store"] :=
  regular_of_entries twoBuckets_sound (FileTree.named_of_entries (by decide +kernel)) rfl
    (by decide +kernel) (by decide +kernel) (by decide +kernel)

theorem twoBuckets_hasBucket : sampleStore.HasBucket twoBuckets "b" :=
  ⟨by decide, ["store", "b"], .directory, rfl, rfl⟩

/-- The listing of a whole bucket shows its object. -/
theorem list_shows_objects_bucket :
    sampleStore.Regular twoBuckets ["store"] ∧ sampleStore.HasBucket twoBuckets "b" ∧
    Location.parse "s3://b/*" = .ok { bucket := "b", key := "*" } ∧
    ∃ objects, (sampleStore.list "b" "" false { tree := twoBuckets }).1 =
        .ok { objects := objects, prefixes := [] } ∧
      { key := "in", size := 1, modified := 1, storage := .standard } ∈ objects := by
  have hparse : Location.parse "s3://b/*" = .ok { bucket := "b", key := "*" } := by
    decide +kernel
  rcases list_shows_objects sampleStore twoBuckets ["store"] "b" "s3://b/*" _ twoBuckets_regular
    twoBuckets_hasBucket hparse (by decide +kernel) with ⟨objects, hlist, -, hmem, -⟩
  refine ⟨twoBuckets_regular, twoBuckets_hasBucket, hparse, objects, hlist, ?_⟩
  exact (hmem _).mpr ⟨List.nil_prefix, by decide +kernel⟩

/-- A prefix that leads upwards shows the objects of other buckets, which cannot be looked up
by the keys that they are shown with. -/
theorem list_upwards_shows_other_bucket :
    sampleStore.Regular twoBuckets ["store"] ∧ sampleStore.HasBucket twoBuckets "b" ∧
    Location.parse "s3://b/../" = .ok { bucket := "b", key := "../" } ∧
    ({ bucket := "b", key := "../" } : Location).literalKey = "../" ∧
    ∃ inner outer : ObjectInfo, inner.key = "../b/in" ∧ outer.key = "../c/out" ∧
      (sampleStore.list "b" "../" false { tree := twoBuckets }).1 =
        .ok { objects := [inner, outer], prefixes := [] } ∧
      (sampleStore.head { bucket := "b", key := outer.key } { tree := twoBuckets }).1 =
        .error (.invalidArguments "s3://b/../c/out does not name an object") := by
  let inner : ObjectInfo := { key := "../b/in", size := 1, modified := 1, storage := .standard }
  let outer : ObjectInfo := { key := "../c/out", size := 6, modified := 2, storage := .standard }
  have hstream : (sampleStore.stream "b" "../" { tree := twoBuckets }).1 =
      .ok ([inner, outer], none) := by
    decide +kernel
  have hsorted : sortObjects [inner, outer] = [inner, outer] := by
    apply List.mergeSort_of_pairwise
    decide +kernel
  refine ⟨twoBuckets_regular, twoBuckets_hasBucket, by decide +kernel, by decide +kernel,
    inner, outer, rfl, rfl, ?_, by decide +kernel⟩
  exact list_eq_ok_iff.mpr ⟨[inner, outer], hstream, by rw [hsorted]⟩

end Store
end BulkTransfer
