import Mathlib.Data.Set.List
import BulkTransfer.Proofs.Store.Folding
import BulkTransfer.Proofs.Execution.Wildcards

/-!
# Listings of a single key

A location without wildcard whose key does not end in a slash is listed by a folded listing of
all that starts with the key.  Of the objects only the one with the key itself is shown.  The
directories are shown as they come, so one whose name merely begins with the last segment of
the key is shown as well.
-/

namespace BulkTransfer

open DiskM (fst_bind_pure)

namespace Location

variable {location : Location}

/-- A key is its directory part and its last segment. -/
theorem directoryPart_append_basename (location : Location) :
    Store.directoryPart location.key ++ location.basename = location.key := by
  rw [← String.toList_inj, String.toList_append, Store.directoryPart, basename,
    String.toList_ofList, String.toList_ofList, Text.throughLast_append_afterLast]

/-- A key that names no directory has a last segment. -/
theorem basename_ne_empty (h : location.isDirectory = false) : location.basename ≠ "" := by
  rw [isDirectory, Bool.or_eq_false_iff, String.isEmpty_eq_false_iff, beq_eq_false_iff_ne] at h
  rcases h with ⟨hne, hlast⟩
  intro hempty
  have hwhole := directoryPart_append_basename location
  rw [hempty, String.append_empty] at hwhole
  rcases throughLast_cases location.key.toList with hnil | ⟨front, hfront⟩
  · rw [Store.directoryPart, hnil] at hwhole
    exact hne hwhole.symm
  · rw [Store.directoryPart, hfront] at hwhole
    rw [← hwhole, String.toList_ofList, List.getLast?_concat] at hlast
    exact hlast rfl

end Location

namespace Executor

variable {exec : Executor} {tree : FileTree} {task : Task} {location : Location}

/-!
## Shown names
-/

/-- A key is shown by what it has behind the directory part. -/
theorem shownKey_append (directory rest : String) :
    shownKey directory (directory ++ rest) = rest := by
  rw [shownKey, Text.dropFront, String.toList_append,
    List.isPrefixOf?_eq_some_iff_append_eq.mpr rfl, Option.getD_some, String.ofList_toList]

/-- What starts with a key is shown by the last segment of the key and what follows. -/
theorem shownKey_behind (location : Location) (rest : String) :
    shownKey (Store.directoryPart location.key) (location.key ++ rest) =
      location.basename ++ rest := by
  have hwhole : location.key ++ rest =
      Store.directoryPart location.key ++ (location.basename ++ rest) := by
    rw [← String.append_assoc, location.directoryPart_append_basename]
  rw [hwhole, shownKey_append]

theorem shownKey_self (location : Location) :
    shownKey (Store.directoryPart location.key) location.key = location.basename := by
  have hbehind := shownKey_behind location ""
  rwa [String.append_empty, String.append_empty] at hbehind

/-- Directories are shown by the last segment of the key and what they have behind it. -/
theorem map_directoryLine (location : Location) (endings : List String) :
    (endings.map fun ending => location.key ++ ending ++ "/").map (fun folded =>
        directoryLine (shownKey (Store.directoryPart location.key) folded)) =
      endings.map fun ending => directoryLine (location.basename ++ ending ++ "/") := by
  rw [List.map_map]
  refine List.map_congr_left fun ending _ => ?_
  rw [Function.comp_apply, String.append_assoc, shownKey_behind, ← String.append_assoc]

/-- Objects with the key itself are shown by its last segment. -/
theorem map_objectLine {objects : List ObjectInfo} (human : Bool)
    (h : ∀ object ∈ objects, object.key = location.key) :
    objects.map (fun object =>
        objectLine human (shownKey (Store.directoryPart location.key) object.key) object) =
      objects.map (objectLine human location.basename) := by
  refine List.map_congr_left fun object hmem => ?_
  rw [h object hmem, shownKey_self]

/-- Of the objects that start with a key, only the one with the key itself passes for it. -/
theorem passes_iff (hdirectory : location.isDirectory = false) {object : ObjectInfo}
    (hstart : location.key.toList <+: object.key.toList) :
    (location.basename.isEmpty ||
        shownKey (Store.directoryPart location.key) object.key == location.basename) = true ↔
      object.key = location.key := by
  rcases Store.isPrefix_toList_iff.mp hstart with ⟨rest, hrest⟩
  have hsegment : location.basename.isEmpty = false :=
    String.isEmpty_eq_false_iff.mpr (Location.basename_ne_empty hdirectory)
  rw [hsegment, Bool.false_or, beq_iff_eq, hrest, shownKey_behind]
  rw [String.append_eq_left_iff, String.append_eq_left_iff]

/-!
## The lines
-/

theorem fst_execute_plain_list (hoperation : task.operation = .list)
    (hlocation : task.location? 0 = some location) (hwildcard : location.isWildcard = false) :
    (exec.execute task none { tree := tree }).1 =
      (exec.store.list location.bucket location.key true { tree := tree }).1.map fun listing =>
        { messages :=
            listing.prefixes.map (fun folded =>
              directoryLine (shownKey (Store.directoryPart location.key) folded)) ++
            (listing.objects.filter fun object => location.basename.isEmpty ||
              shownKey (Store.directoryPart location.key) object.key == location.basename).map
                fun object => objectLine (task.options.has .humanReadable)
                  (shownKey (Store.directoryPart location.key) object.key) object } := by
  have hneed : exec.list task = exec.plainLines (task.options.has .humanReadable) location >>=
      fun lines => Pure.pure { messages := lines } := by
    rw [list, needLocation, hlocation]
    show (if location.isWildcard = true then _ else _) = _
    rw [if_neg (by rw [hwildcard]; exact Bool.false_ne_true)]
  rw [execute_list exec hoperation, hneed, fst_bind_pure, plainLines, fst_bind_pure]
  cases (exec.store.list location.bucket location.key true { tree := tree }).1 <;> rfl

/-- What is shown for a single key in a bucket with some objects: the object of that key, if
there is one, and every directory with objects below it whose name begins with the last segment
of the key. -/
structure ShowsKey (exec : Executor) (tree : FileTree) (location : Location)
    (present : ObjectInfo → Prop) (exact : Option ObjectInfo) (endings : List String) :
    Prop where
  exact_iff : ∀ info, exact = some info ↔ present info ∧ info.key = location.key
  ending_iff : ∀ ending, ending ∈ endings ↔ '/' ∉ ending.toList ∧
    ∃ info, present info ∧ (location.key ++ ending ++ "/").toList <+: info.key.toList
  increasing : (endings.map fun ending => location.key ++ ending ++ "/").Pairwise (· < ·)
  listed : ∀ task, task.operation = .list → task.location? 0 = some location →
    (exec.execute task none { tree := tree }).1 =
      .ok { messages :=
              endings.map (fun ending => directoryLine (location.basename ++ ending ++ "/")) ++
              exact.toList.map
                (objectLine (task.options.has .humanReadable) location.basename) }

namespace ShowsKey

variable {present : ObjectInfo → Prop} {exact : Option ObjectInfo} {endings : List String}

/-- The directory of exactly the name is shown if some object lies below it. -/
theorem directory_iff (h : exec.ShowsKey tree location present exact endings) :
    "" ∈ endings ↔ ∃ info, present info ∧ (location.key ++ "/").toList <+: info.key.toList := by
  rw [h.ending_iff, String.append_empty]
  exact and_iff_right List.not_mem_nil

/-- Only objects that start with the key matter. -/
theorem congr {present' : ObjectInfo → Prop}
    (h : exec.ShowsKey tree location present exact endings)
    (hsame : ∀ info, location.key.toList <+: info.key.toList → (present info ↔ present' info)) :
    exec.ShowsKey tree location present' exact endings := by
  constructor
  · intro info
    rw [h.exact_iff]
    refine and_congr_left fun hkey => hsame info ?_
    rw [hkey]
  · intro ending
    rw [h.ending_iff]
    refine and_congr_right fun _ => exists_congr fun info => and_congr_left fun hbelow => ?_
    refine hsame info (List.IsPrefix.trans ?_ hbelow)
    rw [String.append_assoc]
    exact Store.isPrefix_toList_iff.mpr ⟨_, rfl⟩
  · exact h.increasing
  · exact h.listed

end ShowsKey

/-- Prefixes that objects are folded into are the key with an ending. -/
theorem exists_endings {keyPrefix : String} {prefixes : List String}
    (h : ∀ folded ∈ prefixes, ∃ key, Store.FoldsInto keyPrefix key folded) :
    ∃ endings : List String, endings.map (fun ending => keyPrefix ++ ending ++ "/") = prefixes := by
  have hrange : prefixes ∈
      {l | ∀ x ∈ l, x ∈ Set.range fun ending => keyPrefix ++ ending ++ "/"} := by
    intro folded hmem
    rcases h folded hmem with ⟨key, ending, rest, -, -, rfl⟩
    exact ⟨ending, rfl⟩
  rwa [← Set.range_list_map] at hrange

theorem foldsInto_iff {keyPrefix key ending : String} :
    Store.FoldsInto keyPrefix key (keyPrefix ++ ending ++ "/") ↔
      '/' ∉ ending.toList ∧ (keyPrefix ++ ending ++ "/").toList <+: key.toList := by
  constructor
  · intro h
    have hstart := h.isPrefix
    rcases h with ⟨ending', rest, hslash, -, hsame⟩
    rw [String.append_left_inj, String.append_right_inj] at hsame
    exact ⟨hsame ▸ hslash, hstart⟩
  · rintro ⟨hslash, hstart⟩
    rcases Store.isPrefix_toList_iff.mp hstart with ⟨rest, hrest⟩
    exact ⟨ending, rest, hslash, hrest, rfl⟩

/-- Different endings make different directories. -/
theorem ending_injective (key : String) :
    Function.Injective fun ending : String => key ++ ending ++ "/" := by
  intro ending other hsame
  have hsame : key ++ ending ++ "/" = key ++ other ++ "/" := hsame
  rwa [String.append_left_inj, String.append_right_inj] at hsame

/-- A key has no slash behind itself. -/
theorem isLeaf_self (key : String) : Store.isLeaf key key = true := by
  rw [Store.isLeaf, List.drop_length]
  rfl

/-- Of objects with different keys at most one has a given key. -/
theorem exists_exact {objects : List ObjectInfo} (key : String)
    (h : objects.Pairwise fun object other => object.key < other.key) :
    ∃ exact : Option ObjectInfo,
      objects.filter (fun object => object.key = key) = exact.toList := by
  have hkeys : ∀ object ∈ objects.filter (fun object => object.key = key), object.key = key :=
    fun object hmem => of_decide_eq_true (List.mem_filter.mp hmem).2
  have hsorted := h.filter fun object => object.key = key
  match hfound : objects.filter fun object => object.key = key with
  | [] => exact ⟨none, hfound⟩
  | [object] => exact ⟨some object, hfound⟩
  | object :: other :: others =>
      rw [hfound] at hkeys hsorted
      have hlt := List.rel_of_pairwise_cons hsorted List.mem_cons_self
      rw [hkeys object List.mem_cons_self,
        hkeys other (List.mem_cons_of_mem _ List.mem_cons_self)] at hlt
      exact absurd hlt (String.lt_irrefl _)

section Listed

variable (hwildcard : location.isWildcard = false) (hdirectory : location.isDirectory = false)
include hwildcard

/-- A single key whose objects cannot be listed is not listed either. -/
theorem key_list_fails {error : JobError}
    (hlist : (exec.store.list location.bucket location.key false { tree := tree }).1 =
      .error error) (hoperation : task.operation = .list)
    (hlocation : task.location? 0 = some location) :
    (exec.execute task none { tree := tree }).1 = .error error := by
  have hfolded : (exec.store.list location.bucket location.key true { tree := tree }).1 =
      .error error := by
    rcases Store.list_eq_error_iff.mp hlist with hstream | ⟨objects, hstream⟩
    · exact Store.list_of_stream_error true hstream
    · exact Store.list_of_stream_fault true hstream
  rw [fst_execute_plain_list hoperation hlocation hwildcard, hfolded]
  rfl

include hdirectory

/-- What is shown for a single key goes by the objects that start with it. -/
theorem showsKey_of_list (htree : tree.Named) {whole : Listing}
    (hlist : (exec.store.list location.bucket location.key false { tree := tree }).1 =
      .ok whole) :
    ∃ exact endings, exec.ShowsKey tree location (· ∈ whole.objects) exact endings := by
  rcases Store.list_eq_ok_iff.mp hlist with ⟨objects, hstream, -⟩
  rcases Store.list_of_stream false hstream with ⟨listing, hlisting, hshows⟩
  rcases Store.list_of_stream true hstream with ⟨delimited, hdelimited, hshows'⟩
  rw [hlist, Except.ok.injEq] at hlisting
  subst hlisting
  have hkeys := Store.nodup_of_stream htree hstream
  have hstart : ∀ object ∈ objects, location.key.toList <+: object.key.toList :=
    fun object hmem => (Store.found_of_stream htree hstream hmem).1
  have hfolds := Store.Shows.folds hshows hshows'
  rcases exists_exact location.key (Store.Shows.sorted hkeys hshows) with ⟨exact, hexact⟩
  have hinto : ∀ folded ∈ delimited.prefixes, ∃ key, Store.FoldsInto location.key key folded := by
    intro folded hmem
    rcases (hfolds folded).mp hmem with ⟨object, -, hobject⟩
    exact ⟨object.key, hobject⟩
  rcases exists_endings hinto with ⟨endings, hendings⟩
  have hpassing : (delimited.objects.filter fun object => location.basename.isEmpty ||
      shownKey (Store.directoryPart location.key) object.key == location.basename) =
        exact.toList := by
    rw [Store.Shows.leaves hkeys hstart hshows hshows', List.filter_filter, ← hexact]
    refine List.filter_congr fun object hmem => ?_
    have hbehind := hstart object (hshows.perm.mem_iff.mpr hmem)
    rw [Bool.eq_iff_iff, Bool.and_eq_true, passes_iff hdirectory hbehind, decide_eq_true_eq]
    exact and_iff_left_of_imp fun hkey => hkey ▸ isLeaf_self location.key
  refine ⟨exact, endings, ?_, ?_, ?_, ?_⟩
  · intro info
    rw [← Option.mem_toList, ← hexact, List.mem_filter, decide_eq_true_eq]
  · intro ending
    have hmem : ending ∈ endings ↔ location.key ++ ending ++ "/" ∈ delimited.prefixes := by
      rw [← hendings]
      exact (List.mem_map_of_injective (ending_injective location.key)).symm
    rw [hmem, hfolds, ← exists_and_left]
    refine exists_congr fun object => ?_
    rw [foldsInto_iff, and_left_comm]
  · rw [hendings]
    exact hshows'.increasing
  · intro task hoperation hlocation
    have hexactly : ∀ object ∈ exact.toList, object.key = location.key := by
      intro object hmem
      rw [← hexact, List.mem_filter, decide_eq_true_eq] at hmem
      exact hmem.2
    rw [fst_execute_plain_list hoperation hlocation hwildcard, hdelimited]
    dsimp only [Except.map]
    rw [hpassing, ← hendings, map_directoryLine, map_objectLine _ hexactly]

end Listed

/-- A key without wildcard that does not end in a slash is listed by the objects that start with
it: the object with the key itself is shown, and each directory with objects below it whose name
begins with the last segment of the key, the directory of exactly that name included.  In a
regular store the objects are those that can be looked up, unless the key leads upwards. -/
theorem single_key_listing (exec : Executor) (tree : FileTree) (text : String)
    (location : Location) (hparse : Location.parse text = .ok location)
    (hwildcard : location.isWildcard = false) (hdirectory : location.isDirectory = false)
    (htree : tree.Named) :
    (∀ error, (exec.store.list location.bucket location.key false { tree := tree }).1 =
        .error error → ∀ task, task.operation = .list → task.location? 0 = some location →
          (exec.execute task none { tree := tree }).1 = .error error) ∧
    (∀ whole, (exec.store.list location.bucket location.key false { tree := tree }).1 =
        .ok whole → ∃ exact endings,
          exec.ShowsKey tree location (· ∈ whole.objects) exact endings ∧
          ("" ∈ endings ↔ ∃ info ∈ whole.objects,
            (location.key ++ "/").toList <+: info.key.toList)) ∧
    ∀ root, exec.store.Regular tree root → exec.store.HasBucket tree location.bucket →
      ".." ∉ Path.pieces (Store.directoryPart location.key) → ∃ exact endings,
        exec.ShowsKey tree location (fun info =>
          (exec.store.head { bucket := location.bucket, key := info.key } { tree := tree }).1 =
            .ok (some info)) exact endings ∧
        ("" ∈ endings ↔ ∃ info, (exec.store.head { bucket := location.bucket, key := info.key }
            { tree := tree }).1 = .ok (some info) ∧
          (location.key ++ "/").toList <+: info.key.toList) := by
  refine ⟨fun error hlist task hoperation hlocation =>
    key_list_fails hwildcard hlist hoperation hlocation, fun whole hlist => ?_,
    fun root hregular hbucket hup => ?_⟩
  · rcases showsKey_of_list hwildcard hdirectory htree hlist with ⟨exact, endings, hshows⟩
    exact ⟨exact, endings, hshows, hshows.directory_iff⟩
  · rcases hregular.exists_listing hbucket (Location.isAbsolute_of_parse hparse) hup with
      ⟨objects, hlist, -, hmem⟩
    rcases showsKey_of_list hwildcard hdirectory htree hlist with ⟨exact, endings, hshows⟩
    have hshows := hshows.congr fun info hstart =>
      (hmem info).trans ((and_iff_right hstart).trans (hregular.head_eq_some_iff hbucket).symm)
    exact ⟨exact, endings, hshows, hshows.directory_iff⟩

/-!
## Names that begin alike
-/

/-- A bucket with two directories and an object whose names begin alike. -/
def wordBucket : FileTree :=
  ((((Store.twoBuckets.put ["store", "b", "key"] .directory).put ["store", "b", "key", "x"]
    (.file "1".toUTF8 3)).put ["store", "b", "keyword"] .directory).put
      ["store", "b", "keyword", "y"] (.file "2".toUTF8 4)).put ["store", "b", "keys"]
        (.file "3".toUTF8 5)

/-- What starts with the name of the first directory. -/
def wordObjects : List ObjectInfo :=
  [{ key := "key/x", size := 1, modified := 3, storage := .standard },
    { key := "keys", size := 1, modified := 5, storage := .standard },
    { key := "keyword/y", size := 1, modified := 4, storage := .standard }]

/-- Both directories are shown, and no object. -/
theorem single_key_listing_words :
    Location.parse "s3://b/key" = .ok { bucket := "b", key := "key" } ∧
    wordBucket.Named ∧ ∃ exact endings,
      sampleExecutor.ShowsKey wordBucket { bucket := "b", key := "key" } (· ∈ wordObjects)
        exact endings ∧ exact = none ∧ "" ∈ endings ∧ "word" ∈ endings ∧ "s" ∉ endings := by
  have hparse : Location.parse "s3://b/key" = .ok { bucket := "b", key := "key" } := by
    decide +kernel
  have hnamed : wordBucket.Named := FileTree.named_of_entries (by decide +kernel)
  have hlist : (sampleExecutor.store.list "b" "key" false { tree := wordBucket }).1 =
      .ok { objects := wordObjects, prefixes := [] } := by
    have hsorted : Store.sortObjects wordObjects = wordObjects := by
      apply List.mergeSort_of_pairwise
      decide +kernel
    exact Store.list_eq_ok_iff.mpr ⟨wordObjects, by decide +kernel, by rw [hsorted]⟩
  rcases (single_key_listing sampleExecutor wordBucket "s3://b/key" _ hparse (by decide)
    (by decide) hnamed).2.1 _ hlist with ⟨exact, endings, hshows, -⟩
  refine ⟨hparse, hnamed, exact, endings, hshows, ?_, ?_, ?_, ?_⟩
  · rw [Option.eq_none_iff_forall_ne_some]
    intro info hexact
    have hnone : ∀ object ∈ wordObjects, object.key ≠ "key" := by decide
    exact hnone info ((hshows.exact_iff info).mp hexact).1 ((hshows.exact_iff info).mp hexact).2
  · refine (hshows.ending_iff "").mpr ⟨by decide, ?_⟩
    exact ⟨wordObjects[0], by decide, by decide⟩
  · refine (hshows.ending_iff "word").mpr ⟨by decide, ?_⟩
    exact ⟨wordObjects[2], by decide, by decide⟩
  · intro hmem
    have hnone : ∀ object ∈ wordObjects, ¬ ("key" ++ "s" ++ "/").toList <+: object.key.toList := by
      decide
    rcases ((hshows.ending_iff "s").mp hmem).2 with ⟨info, hinfo, hbelow⟩
    exact hnone info hinfo hbelow

/-- A directory is shown whose name is longer than the key that is asked for. -/
theorem longer_directory_listed :
    sampleExecutor.store.Regular wordBucket ["store"] ∧
    sampleExecutor.store.HasBucket wordBucket "b" ∧
    Location.parse "s3://b/key" = .ok { bucket := "b", key := "key" } ∧
    ({ bucket := "b", key := "key" } : Location).isWildcard = false ∧
    ({ bucket := "b", key := "key" } : Location).isDirectory = false ∧
    (sampleExecutor.execute (Task.make "ls" .list .none [.storage { bucket := "b", key := "key" }])
      none { tree := wordBucket }).1 =
        .ok { messages := [directoryLine "key/", directoryLine "keyword/"] } ∧
    directoryLine "keyword/" ≠ directoryLine "key/" := by
  refine ⟨?_, ⟨by decide, ["store", "b"], .directory, rfl, rfl⟩, by decide +kernel, by decide,
    by decide, by decide +kernel, by decide +kernel⟩
  exact Store.regular_of_entries (FileTree.sound_of_entries (by decide +kernel)
    FileTree.holdsEntries_nil) (FileTree.named_of_entries (by decide +kernel)) rfl
    (by decide +kernel) (by decide +kernel) (by decide +kernel)

end Executor
end BulkTransfer
