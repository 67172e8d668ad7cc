import BulkTransfer.Proofs.Store.Transfers

/-!
# Sequences of calls

A store refines a map from locations to contents and classes.  Each call of a sequence,
successful or not, changes what it names and nothing else, and whatever is in the map is
reported and fetched.
-/

namespace BulkTransfer

open DiskM (bind_eq_ok_iff)

namespace Store

variable {store : Store} {tree : FileTree} {disk : Disk} {root : Place} {location : Location}
  {content : ByteArray} {storage : StorageClass}

/-!
## What is in the map
-/

/-- A path is usable if a path behind it is. -/
theorem isUsable_of_join {base path : String} (hbase : base ≠ "")
    (hpath : Path.isAbsolute path = false) (h : FileTree.IsUsable (Path.join base path)) :
    FileTree.IsUsable base := by
  have hempty : base.isEmpty = false := by rwa [String.isEmpty_eq_false_iff]
  have hjoin : ∃ rest, Path.join base path = base ++ rest := by
    rw [Path.join, if_neg (by rw [hpath]; exact Bool.false_ne_true)]
    split
    · exact ⟨path, rfl⟩
    · exact ⟨"/" ++ path, String.append_assoc⟩
  rcases hjoin with ⟨rest, hrest⟩
  rw [hrest] at h
  refine ⟨?_, hempty, ?_⟩
  · have hnul := h.nulFree
    rw [String.toList_append, List.contains_eq_mem, decide_eq_false_iff_not] at hnul
    rw [List.contains_eq_mem, decide_eq_false_iff_not]
    exact fun hmem => hnul (List.mem_append_left _ hmem)
  · have hshort := h.short
    rw [String.utf8ByteSize_append] at hshort
    exact Nat.lt_of_le_of_lt (Nat.le_add_right _ _) hshort

/-- The bucket of an object is there. -/
theorem hasBucket_of_object? (hroot : tree.Roots store.root root)
    (h : store.object? tree location = some (content, storage)) :
    store.HasBucket tree location.bucket := by
  rcases object?_eq_some_iff.mp h with ⟨hvalid, ⟨place, modified, hstat⟩, -⟩
  rcases (hroot.stat_eq_ok_iff (continues_filePath store hvalid)).mp hstat with
    ⟨husable, hopens, -⟩
  have hbucket := continues_bucketPath store hvalid.bucket
  refine ⟨hvalid.bucket, root ++ [location.bucket], .directory, ?_, rfl⟩
  refine (hroot.stat_eq_ok_iff hbucket).mpr ⟨?_, ⟨hopens.1, fun h => absurd rfl h, trivial⟩, rfl,
    hopens.2.1 (Path.pieces_ne_nil _), fun _ => rfl⟩
  exact isUsable_of_join (bucketPath_ne_empty store hvalid.bucket)
    (isAbsolute_of_isObjectKey hvalid.key) husable

/-- What is in the map is reported and fetched. -/
structure Holds (store : Store) (root : Place) (tree : FileTree) (location : Location)
    (content : ByteArray) (storage : StorageClass) : Prop where
  object : store.object? tree location = some (content, storage)
  reported : ∃ modified, store.head location { tree := tree } =
    (.ok (some { key := location.key, size := content.size, modified := modified,
                 storage := storage }), { tree := tree })
  fetched : ∀ target, Apart root tree target → FileCopy.CanReceive tree target →
    ∃ later, store.get location target none { tree := tree } = (.ok content.size, later) ∧
      later.tree.readFile target = .ok content

theorem holds_of_object? (hsound : tree.Sound) (hroot : tree.Roots store.root root)
    (h : store.object? tree location = some (content, storage)) :
    store.Holds root tree location content storage := by
  have hbucket := hasBucket_of_object? hroot h
  exact ⟨h, head_of_object? hbucket h,
    fun _ hapart hready => get_of_object? hsound hroot hbucket h hapart hready⟩

/-- What is not in the map is reported as missing. -/
structure Lacks (store : Store) (tree : FileTree) (location : Location) : Prop where
  object : store.object? tree location = none
  reported : store.head location { tree := tree } = (.ok none, { tree := tree })

theorem Missing.lacks (hroot : tree.Roots store.root root)
    (h : store.Missing root tree location) : store.Lacks tree location :=
  ⟨h.object?_eq_none hroot, h.head hroot⟩

/-!
## Calls
-/

/-- A call to a store. -/
inductive Call
  | put (source : String) (location : Location) (storage : StorageClass)
  | copy (source target : Location) (storage : StorageClass)
  | delete (location : Location)
  | deleteMany (bucket : String) (keys : List String)
  | head (location : Location)
  | get (location : Location) (target : String)

namespace Call

/-- The disk behind a call that is not cancelled. -/
def run (store : Store) : Call → Disk → Disk
  | put source location storage, disk => (store.put source location storage none disk).2
  | copy source target storage, disk => (store.copy source target storage none disk).2
  | delete location, disk => (store.delete location disk).2
  | deleteMany bucket keys, disk => (store.deleteMany bucket keys disk).2
  | head location, disk => (store.head location disk).2
  | get location target, disk => (store.get location target none disk).2

/-- The local path of a call, if it has one. -/
def localPath? : Call → Option String
  | put source _ _ => some source
  | get _ target => some target
  | _ => none

/-- The locations that a call may change. -/
def Names : Call → Location → Prop
  | put _ location _, other => location = other
  | copy _ target _, other => target = other
  | delete location, other => location = other
  | deleteMany bucket keys, other => ∃ key ∈ keys, { bucket := bucket, key := key } = other
  | head _, _ => False
  | get _ _, _ => False

/-- What a call that succeeds does to the map, and what it answers.  The disk does not
report it if a fault keeps the sidecar file of an object that gets the standard class, or
keeps it from being read. -/
def Meets (store : Store) (root : Place) (before : Disk) : Call → Prop
  | put source location storage => ∀ bytes after,
      store.put source location storage none before = (.ok bytes, after) →
        ∃ content kept, before.tree.readFile source = .ok content ∧ bytes = content.size ∧
          store.Holds root after.tree location content kept ∧
            (storage ≠ .standard ∨ before.Unstruck after → kept = storage)
  | copy source target storage => ∀ bytes after,
      store.copy source target storage none before = (.ok bytes, after) →
        ∃ content former kept, store.object? before.tree source = some (content, former) ∧
          bytes = content.size ∧ store.Holds root after.tree target content kept ∧
            (storage ≠ .standard ∨ before.Unstruck after → kept = storage)
  | delete location => ∀ after, store.delete location before = (.ok (), after) →
      store.Lacks after.tree location
  | deleteMany bucket keys => ∀ outcomes after,
      store.deleteMany bucket keys before = (.ok outcomes, after) →
        outcomes.map Prod.fst = keys ∧ ∀ key, (key, none) ∈ outcomes →
          store.Lacks after.tree { bucket := bucket, key := key }
  | head location => ∀ info? after, store.head location before = (.ok info?, after) →
      before.Unstruck after → info?.map (fun info => (info.key, info.size, info.storage)) =
        (store.object? before.tree location).map
          fun object => (location.key, object.1.size, object.2)
  | get location target => ∀ bytes after,
      store.get location target none before = (.ok bytes, after) →
        ∃ content kept, store.object? before.tree location = some (content, kept) ∧
          bytes = content.size ∧ after.tree.readFile target = .ok content

/-- The places of the map at which a call writes or removes, or those outside of it. -/
def Touches (root : Place) : Call → Place → Prop
  | put _ location _ => places root location
  | copy _ target _ => places root target
  | delete location => places root location
  | deleteMany bucket keys => placesOf root bucket keys
  | head _ => fun _ => False
  | get _ _ => fun place => ¬ root <+: place

section Step

variable (hsound : disk.tree.Sound) (hroot : disk.tree.Roots store.root root) (call : Call)
  (hlocal : ∀ path, call.localPath? = some path → Apart root disk.tree path)
include hsound hroot hlocal

theorem evolves_run : disk.Evolves (call.Touches root) (call.Touches root)
    (call.run store disk) := by
  cases call with
  | put source location storage => exact evolves_put hsound hroot source location storage none
  | copy source target storage => exact evolves_copy hsound hroot source target storage none
  | delete location =>
      exact (evolves_delete hsound hroot location).mono (fun _ => False.elim) fun _ h => h
  | deleteMany bucket keys =>
      exact (evolves_deleteMany keys hsound hroot).mono (fun _ => False.elim) fun _ h => h
  | head location =>
      rw [run, Store.head]
      exact .bind (evolves_objectPath hsound location) fun path _ _ hfound =>
        evolves_infoAt hfound.tree.sound location path
  | get location target => exact evolves_get hsound (hlocal target rfl)

/-- A call leaves every location that it does not name. -/
theorem object?_run (hother : ¬ call.Names location) :
    store.object? (call.run store disk).tree location = store.object? disk.tree location := by
  have hapart : IsValid location → ¬ call.Touches root (root ++ objectNames location) ∧
      ¬ call.Touches root (root ++ sidecarNames location) := by
    intro hvalid
    cases call with
    | put | copy | delete => exact places_apart hvalid hother
    | deleteMany bucket keys =>
        have hkeys : ∀ key ∈ keys, ({ bucket := bucket, key := key } : Location) ≠ location :=
          fun key hmem hsame => hother ⟨key, hmem, hsame⟩
        constructor
        · rintro ⟨key, hmem, hplace⟩
          exact (places_apart hvalid (hkeys key hmem)).1 hplace
        · rintro ⟨key, hmem, hplace⟩
          exact (places_apart hvalid (hkeys key hmem)).2 hplace
    | head => exact ⟨fun h => h, fun h => h⟩
    | get =>
        exact ⟨fun h => h (List.prefix_append _ _), fun h => h (List.prefix_append _ _)⟩
  exact object?_evolves (evolves_run hsound hroot call hlocal).tree hsound hroot hapart hapart

/-- A call that succeeds has done what it was asked for. -/
theorem meets : call.Meets store root disk := by
  have hevolves := evolves_run hsound hroot call hlocal
  have hsound' := hevolves.tree.sound
  have hroot' := hevolves.tree.roots hroot
  cases call with
  | put source location storage =>
      intro bytes after h
      rcases put_eq_ok hsound hroot (fun _ => (hlocal source rfl).openAt hsound) h with
        ⟨content, kept, hread, hbytes, hobject, hkept⟩
      rw [run, h] at hsound' hroot'
      exact ⟨content, kept, hread, hbytes, holds_of_object? hsound' hroot' hobject, hkept⟩
  | copy source target storage =>
      intro bytes after h
      rcases copy_eq_ok hsound hroot h with
        ⟨content, former, kept, hsource, hbytes, hobject, hkept⟩
      rw [run, h] at hsound' hroot'
      exact ⟨content, former, kept, hsource, hbytes, holds_of_object? hsound' hroot' hobject,
        hkept⟩
  | delete location =>
      intro after h
      rw [run, h] at hroot'
      exact (missing_of_delete hsound hroot h).lacks hroot'
  | deleteMany bucket keys =>
      intro outcomes after h
      rcases missing_of_deleteMany hsound hroot h with ⟨hkeys, hmissing⟩
      rw [run, h] at hroot'
      exact ⟨hkeys, fun key hmem => (hmissing key hmem).lacks hroot'⟩
  | head location => exact fun info? after h hunstruck => head_eq_ok hsound h hunstruck
  | get location target =>
      exact fun bytes after h => get_eq_ok hsound hroot (hlocal target rfl) h

end Step

end Call

/-!
## Runs
-/

/-- The calls of a run, each with the disk in front of it. -/
def steps (store : Store) : List Call → Disk → List (Call × Disk)
  | [], _ => []
  | call :: calls, disk => (call, disk) :: store.steps calls (call.run store disk)

/-- A name in the working directory, where no link is, leads to itself. -/
theorem apart_of_name {name : String} (hplain : FileTree.IsPlain name) (hne : name ≠ "")
    (hslash : '/' ∉ name.toList) (hworking : tree.workingDirectory = [])
    (hlink : ∀ target, tree.node? [name] ≠ some (.link target)) (hroot : ¬ root <+: [name]) :
    Apart root tree name := by
  intro later hgrows followLast resolved hresolve
  have hplace : resolved.place = [name] := by
    have hlinks := (FileTree.resolve_eq_ok_iff.mp hresolve).2
    rw [hgrows.workingDirectory, hworking, FileTree.startOf,
      if_neg (by rw [isAbsolute_of_slashFree hslash]; exact Bool.false_ne_true),
      namesOf_of_slashFree hslash hne, FileTree.linkLimit, FileTree.followLinks, FileTree.follow,
      if_neg hplain.ne_here, if_neg hplain.ne_up] at hlinks
    by_cases hlong : FileTree.longestName < name.utf8ByteSize
    · rw [if_pos hlong] at hlinks
      cases hlinks
    · rw [if_neg hlong, List.nil_append] at hlinks
      cases hnode : later.node? [name] with
      | none =>
          rw [hnode] at hlinks
          cases hlinks
          rfl
      | some node =>
          rw [hnode] at hlinks
          cases node with
          | directory | closed | file =>
              cases hlinks
              rfl
          | link target =>
              have hturns := hgrows.turns [name]
              rw [hnode] at hturns
              exact absurd hturns.eq_of_link (hlink target)
  show ¬ root <+: resolved.place
  rw [hplace]
  exact hroot

/-- An entry that is added to a directory. -/
theorem evolves_put_vacant (place : Place) (node : Node) (hsound : tree.Sound)
    (hvacant : tree.node? place = none) (hparent : tree.node? place.dropLast = some .directory)
    (hnode : node = .directory ∨ node.isFile = true) :
    tree.Evolves (fun _ => True) (fun _ => False) (tree.put place node) := by
  have hne : place ≠ [] := by
    rintro rfl
    cases hvacant
  refine FileTree.evolves_put hsound hne ?_ fun _ => FileTree.holdsEntries_of_directory hparent
  rw [hvacant]
  rcases hnode with rfl | hfile
  · exact .made
  · cases node with
    | file content modified => exact .filled trivial fun _ h => (by cases h)
    | directory | closed | link => cases hfile

def emptyTree : FileTree :=
  { nodes := ∅, workingDirectory := [], now := 7 }

/-- A store with one object of the Glacier class, and a file beside it. -/
def sampleTree : FileTree :=
  ((((((emptyTree.put ["src"] (.file "hello".toUTF8 1)).put ["store"] .directory).put
    ["store", "b"] .directory).put ["store", "b", "k"] (.file "old".toUTF8 2)).put
      ["store", ".xf-meta"] .directory).put ["store", ".xf-meta", "b"] .directory).put
        ["store", ".xf-meta", "b", "k"] (.file "GLACIER".toUTF8 3)

theorem node?_emptyTree {place : Place} {node : Node} (h : emptyTree.node? place = some node) :
    node = .directory := by
  by_cases hplace : place = []
  · rw [hplace] at h
    exact (Option.some.inj h).symm
  · rw [FileTree.node?_of_ne_nil _ hplace] at h
    cases h

theorem sampleTree_evolves :
    emptyTree.Evolves (fun _ => True) (fun _ => False) sampleTree := by
  have hsound : emptyTree.Sound :=
    FileTree.sound_of_entries (by decide +kernel) FileTree.holdsEntries_nil
  have hsrc := evolves_put_vacant ["src"] (.file "hello".toUTF8 1) hsound rfl rfl (Or.inr rfl)
  have hstore := evolves_put_vacant ["store"] .directory hsrc.sound rfl rfl (Or.inl rfl)
  have hbucket := evolves_put_vacant ["store", "b"] .directory hstore.sound rfl rfl (Or.inl rfl)
  have hobject := evolves_put_vacant ["store", "b", "k"] (.file "old".toUTF8 2) hbucket.sound
    rfl rfl (Or.inr rfl)
  have hmeta := evolves_put_vacant ["store", ".xf-meta"] .directory hobject.sound rfl rfl
    (Or.inl rfl)
  have hsidecars := evolves_put_vacant ["store", ".xf-meta", "b"] .directory hmeta.sound rfl rfl
    (Or.inl rfl)
  have hclass := evolves_put_vacant ["store", ".xf-meta", "b", "k"] (.file "GLACIER".toUTF8 3)
    hsidecars.sound rfl rfl (Or.inr rfl)
  exact ((((((hsrc.trans hstore).trans hbucket).trans hobject).trans hmeta).trans
    hsidecars).trans hclass)

theorem sampleTree_roots : sampleTree.Roots "store" ["store"] := by
  refine ⟨rfl, sampleTree_evolves.linkless fun names target h => ?_⟩
  cases node?_emptyTree h

def sampleStore : Store :=
  { root := "store" }

def sampleLocation : Location :=
  { bucket := "b", key := "k" }

end Store
end BulkTransfer
