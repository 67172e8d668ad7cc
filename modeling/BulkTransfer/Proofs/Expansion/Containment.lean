import BulkTransfer.Proofs.Expansion.Completeness
import BulkTransfer.Proofs.Store.Folding

/-!
# Destinations below the destination of a batch

A batch with a wildcard source puts a name of its own behind its destination for every object.
The name is what is left of the key behind the directory that the walk starts at, or the last
segment of it, and the keys of a walk have no dots there: whatever the destination is, its
continuations stay below it.  With the directories kept, different objects go to different
places.
-/

namespace BulkTransfer

/-!
## Names behind a destination
-/

/-- A name that leads downwards only: it is not empty, and so is none of its segments, nor is
one of them a dot or a double dot. -/
def LeadsDown (name : String) : Prop :=
  name ≠ "" ∧ ∀ segment ∈ Path.pieces name, segment ≠ "" ∧ segment ≠ "." ∧ segment ≠ ".."

/-- A path that goes on in the directory of another one with the names of entries. -/
def StaysBelow (base path : String) : Prop :=
  ∃ names, names ≠ [] ∧ (∀ name ∈ names, IsName name) ∧
    Path.pieces path = (Path.pieces base).dropLast ++ names

theorem leadsDown_joinNames {names : List String} (hne : names ≠ [])
    (hnames : ∀ name ∈ names, IsName name) : LeadsDown (joinNames names) := by
  have hpieces := Path.pieces_joinNames hne fun name hmem => (hnames name hmem).slashFree
  constructor
  · intro hempty
    rw [hempty] at hpieces
    have hmem : "" ∈ names := by
      rw [← hpieces]
      exact List.mem_cons_self
    exact (hnames "" hmem).ne_empty rfl
  · rw [hpieces]
    exact fun name hmem => ⟨(hnames name hmem).ne_empty, (hnames name hmem).ne_here,
      (hnames name hmem).ne_up⟩

/-- A text in front of a name makes neither a dot nor a double dot of it. -/
theorem IsName.append {name front : String} (h : IsName name) (hfree : '/' ∉ front.toList) :
    IsName (front ++ name) := by
  have hne : name.toList ≠ [] := fun hnil =>
    h.ne_empty (String.toList_inj.mp (hnil.trans String.toList_empty.symm))
  have hsplit : ∀ text : List Char, (front ++ name).toList = text →
      front.toList ++ name.toList = text := by
    intro text htext
    rwa [String.toList_append] at htext
  constructor
  · intro hempty
    exact hne (List.append_eq_nil_iff.mp (hsplit [] (congrArg String.toList hempty))).2
  · intro hhere
    rcases List.append_eq_singleton_iff.mp (hsplit ['.'] (congrArg String.toList hhere)) with
      ⟨-, hname⟩ | ⟨-, hname⟩
    · exact h.ne_here (String.toList_inj.mp hname)
    · exact hne hname
  · intro hup
    rcases List.append_eq_cons_iff.mp (hsplit ['.', '.'] (congrArg String.toList hup)) with
      ⟨-, hname⟩ | ⟨rest, -, hrest⟩
    · exact h.ne_up (String.toList_inj.mp hname)
    · rcases List.append_eq_singleton_iff.mp hrest.symm with ⟨-, hname⟩ | ⟨-, hname⟩
      · exact h.ne_here (String.toList_inj.mp hname)
      · exact hne hname
  · rw [String.toList_append, List.mem_append, not_or]
    exact ⟨hfree, h.slashFree⟩

theorem staysBelow_append (base : String) {names : List String} (hne : names ≠ [])
    (hnames : ∀ name ∈ names, IsName name) : StaysBelow base (base ++ joinNames names) := by
  rcases List.exists_cons_of_ne_nil hne with ⟨first, rest, rfl⟩
  rcases Path.pieces_append_joinNames base first fun name hmem => (hnames name hmem).slashFree with
    ⟨last, hlast, hpieces⟩
  refine ⟨(last ++ first) :: rest, List.cons_ne_nil _ _, fun name hmem => ?_, hpieces⟩
  rcases List.mem_cons.mp hmem with rfl | hmem
  · exact (hnames first List.mem_cons_self).append hlast
  · exact hnames name (List.mem_cons_of_mem _ hmem)

namespace Argument

/-- The text that a batch puts names behind: a path, or the key of a location. -/
def prefixText (destination : Argument) : String :=
  match destination.location with
  | none => destination.text
  | some location => location.key

/-- An argument with a name behind its text. -/
def behind (destination : Argument) (name : String) : Argument :=
  match destination.location with
  | none => .plain (destination.text ++ name)
  | some location => .storage (location.withKey (location.key ++ name))

theorem prefixText_behind (destination : Argument) (name : String) :
    (destination.behind name).prefixText = destination.prefixText ++ name := by
  rw [behind, prefixText, prefixText]
  cases destination.location <;> rfl

/-- Destinations differ as the names behind them do. -/
theorem behind_inj {destination : Argument} {name other : String}
    (h : destination.behind name = destination.behind other) : name = other := by
  have htext := congrArg prefixText h
  rw [prefixText_behind, prefixText_behind] at htext
  exact String.append_right_inj _ |>.mp htext

end Argument

namespace Expand

variable {store : Store} {tree : FileTree} {task : Task} {source : Location}
  {destination : Argument} {objects : List ObjectInfo} {fault : Option JobError}

/-!
## The items of downloads and copies
-/

/-- What a batch puts the names of its objects behind. -/
inductive Destined (task : Task) : Argument → Prop
  | download (h : task.operation = .batchDownload) :
      Destined task (.plain ((task.arguments[1]?.map Argument.text).getD "./"))
  | copy (target : Location) (h : task.operation = .batchCopy)
      (htarget : task.location? 1 = some target) : Destined task (.storage target)

/-- The task that brings an object to its name below the destination. -/
def Brings (task : Task) (source : Location) (destination : Argument) (object : ObjectInfo)
    (sub : SubTask) : Prop :=
  sub.arguments = [.storage (source.withKey object.key),
    destination.behind (objectName source (task.options.has .parents) object.key)]

theorem Destined.isStorageBatch (h : Destined task destination) : IsStorageBatch task := by
  cases h with
  | download hoperation => exact .download hoperation
  | copy target hoperation htarget => exact .copy target hoperation htarget

/-- Every object has an item of its own, which brings it to its name if it is a task. -/
theorem Destined.items_ofObjects (h : Destined task destination) (source : Location) :
    ∃ item : ObjectInfo → Except ExpansionError SubTask,
      (∀ objects stop, (ofObjects task source objects stop).items = objects.map item) ∧
      ∀ object sub, item object = .ok sub → Brings task source destination object sub := by
  cases h with
  | download hoperation =>
      refine ⟨downloadItem task source, fun objects stop => ?_, fun object sub hsub => ?_⟩
      · simp only [ofObjects, hoperation]
      · rw [downloadItem] at hsub
        split at hsub
        · cases hsub
        · cases hsub
          rfl
  | copy target hoperation htarget =>
      refine ⟨copyItem task source target, fun objects stop => ?_, fun object sub hsub => ?_⟩
      · simp only [ofObjects, hoperation, htarget]
      · cases hsub
        rfl

/-- A batch goes through the listed objects that match its source, if the source is not too
large for a pattern. -/
theorem items_of_destined (hsource : task.location? 0 = some source)
    (hdestination : Destined task destination)
    (hstream : (store.stream source.bucket source.literalKey { tree := tree }).1 =
      .ok (objects, fault)) :
    ∃ (item : ObjectInfo → Except ExpansionError SubTask) (listed : List ObjectInfo),
      (expand store tree task).items = listed.map item ∧
      listed.Sublist (objects.filter fun object => source.accepts object.key) ∧
      ∀ object sub, item object = .ok sub → Brings task source destination object sub := by
  rcases hdestination.items_ofObjects source with ⟨item, hitems, hbrings⟩
  cases hsize : source.checkSize with
  | error oversized =>
      refine ⟨item, [], ?_, List.nil_sublist _, hbrings⟩
      rw [expand_of_oversized hdestination.isStorageBatch hsource hsize]
      rfl
  | ok _ =>
      refine ⟨item, _, ?_, List.Sublist.refl _, hbrings⟩
      rw [expand_of_isStorageBatch store tree hdestination.isStorageBatch]
      simp only [storage, hsource, hsize, hstream]
      exact hitems _ _

/-!
## Destinations
-/

/-- Whatever the destination, the objects that a wildcard source lists get names that lead
downwards only, so that everything is brought below the destination.  With the directories kept
the name is the key behind one directory, and different objects are brought to different
places. -/
theorem destinations_stay_below (store : Store) (tree : FileTree) (task : Task)
    (source : Location) (destination : Argument) (objects : List ObjectInfo)
    (fault : Option JobError) (hnamed : tree.Named) (hwildcard : source.isWildcard = true)
    (hsource : task.location? 0 = some source) (hdestination : Destined task destination)
    (hstream : (store.stream source.bucket source.literalKey { tree := tree }).1 =
      .ok (objects, fault)) :
    (∀ object ∈ objects,
      LeadsDown (objectName source (task.options.has .parents) object.key) ∧
      StaysBelow destination.prefixText (destination.behind
        (objectName source (task.options.has .parents) object.key)).prefixText) ∧
    (∀ sub, .ok sub ∈ (expand store tree task).items → ∃ object ∈ objects,
      source.accepts object.key = true ∧ Brings task source destination object sub) ∧
    (task.options.has .parents = true →
      (∀ object ∈ objects, object.key = Store.directoryPart source.literalKey ++
        objectName source (task.options.has .parents) object.key) ∧
      (expand store tree task).items.Pairwise fun item other => ∀ sub sub', item = .ok sub →
        other = .ok sub' → sub.arguments[1]? ≠ sub'.arguments[1]?) := by
  rcases items_of_destined hsource hdestination hstream with ⟨item, listed, hitems, hlisted, hitem⟩
  have hkeys : task.options.has .parents = true → ∀ object ∈ objects,
      object.key = Store.directoryPart source.literalKey ++
        objectName source (task.options.has .parents) object.key := by
    intro hparents object hmem
    rcases Store.found_of_stream hnamed hstream hmem with ⟨hstart, names, -, -, hkey⟩
    rw [hparents, objectName_parents hwildcard hstart hkey]
    exact hkey
  refine ⟨fun object hmem => ?_, fun sub hmem => ?_, fun hparents => ⟨hkeys hparents, ?_⟩⟩
  · rcases Store.found_of_stream hnamed hstream hmem with ⟨hstart, names, hne, hnames, hkey⟩
    rcases names_of_objectName (task.options.has .parents) hwildcard hstart hne hnames hkey with
      ⟨names', hne', hnames', hname⟩
    rw [Argument.prefixText_behind, hname]
    exact ⟨leadsDown_joinNames hne' hnames', staysBelow_append _ hne' hnames'⟩
  · rw [hitems] at hmem
    rcases List.mem_map.mp hmem with ⟨object, hobject, hsub⟩
    rcases List.mem_filter.mp (hlisted.subset hobject) with ⟨hmem', haccepts⟩
    exact ⟨object, hmem', haccepts, hitem object sub hsub⟩
  · rw [hitems, List.pairwise_map]
    have hnodup := List.pairwise_map.mp (Store.nodup_of_stream hnamed hstream)
    refine ((hnodup.sublist List.filter_sublist).sublist hlisted).imp_of_mem ?_
    intro object other hobject hother hne sub sub' hsub hsub' hsame
    rw [hitem object sub hsub, hitem other sub' hsub'] at hsame
    have hname := Argument.behind_inj (Option.some.inj hsame)
    have hmem := (List.mem_filter.mp (hlisted.subset hobject)).1
    have hmem' := (List.mem_filter.mp (hlisted.subset hother)).1
    refine hne ?_
    rw [hkeys hparents object hmem, hkeys hparents other hmem', hname]

/-- The keys of a bucket that start alike. -/
def nestedSource : Location :=
  { bucket := "b", key := "lo*" }

/-- Their download, with the directories that they are in. -/
def nestedDownload : Task where
  source := "cp --parents s3://b/lo* dst/"
  keyword := "cp"
  operation := .batchDownload
  options := Options.none.insert .parents
  arguments := [.storage nestedSource, .plain "dst/"]

def nestedObjects : List ObjectInfo :=
  [{ key := "log/a", size := 1, modified := 3, storage := .standard },
    { key := "log/c", size := 1, modified := 4, storage := .standard },
    { key := "long", size := 1, modified := 5, storage := .standard }]

/-- The objects come to their places below the destination, two of them in a directory. -/
theorem destinations_stay_below_nested :
    Store.nestedBucket.Named ∧ nestedSource.isWildcard = true ∧
    nestedDownload.location? 0 = some nestedSource ∧ Destined nestedDownload (.plain "dst/") ∧
    (Store.sampleStore.stream "b" "lo" { tree := Store.nestedBucket }).1 =
      .ok (nestedObjects, none) ∧
    (∀ object ∈ nestedObjects, StaysBelow "dst/" ("dst/" ++ object.key)) ∧
    (expand Store.sampleStore Store.nestedBucket nestedDownload).items =
      ["log/a", "log/c", "long"].map fun key => .ok
        { operation := .download,
          arguments := [.storage { bucket := "b", key := key }, .plain ("dst/" ++ key)] } := by
  have hstream : (Store.sampleStore.stream "b" "lo" { tree := Store.nestedBucket }).1 =
      .ok (nestedObjects, none) := by
    decide +kernel
  have hdestined : Destined nestedDownload (.plain "dst/") := .download rfl
  have hbelow := (destinations_stay_below Store.sampleStore Store.nestedBucket nestedDownload
    nestedSource (.plain "dst/") nestedObjects none Store.named_nestedBucket (by decide) rfl
    hdestined hstream).1
  refine ⟨Store.named_nestedBucket, by decide, rfl, hdestined, hstream, fun object hmem => ?_, ?_⟩
  · have hname : ∀ object ∈ nestedObjects,
        (Argument.behind (.plain "dst/") (objectName nestedSource
          (nestedDownload.options.has .parents) object.key)).prefixText =
            "dst/" ++ object.key := by
      decide +kernel
    have hobject := (hbelow object hmem).2
    rwa [hname object hmem] at hobject
  · decide +kernel

end Expand
end BulkTransfer
