import BulkTransfer.Proofs.Command.Canonical
import BulkTransfer.Proofs.Expansion.Containment
import BulkTransfer.Proofs.Expansion.Items

/-!
# Files below a directory

A batch with a local directory brings every file below it to the same names below the
destination, whatever the directory is called: the names behind the directory are found again
when the path of a file is compared with that of the directory, so no file is left out.  The
files come directory by directory in the order of their names.
-/

namespace BulkTransfer

/-!
## The order of a walk
-/

/-- One file comes before another: where their paths part, its name is the smaller one. -/
def Precedes (names names' : List String) : Prop :=
  ∃ front name name' rest rest', name < name' ∧
    names = front ++ name :: rest ∧ names' = front ++ name' :: rest'

/-- Paths in the order of their names part somewhere, or one of them goes on behind the other. -/
theorem precedes_or_append {names names' : List String} (h : compare names names' = .lt) :
    Precedes names names' ∨ ∃ rest, rest ≠ [] ∧ names' = names ++ rest := by
  induction names generalizing names' with
  | nil =>
      cases names' with
      | nil => cases h
      | cons name rest => exact Or.inr ⟨name :: rest, List.cons_ne_nil _ _, rfl⟩
  | cons name names ih =>
      cases names' with
      | nil => cases h
      | cons name' names' =>
          have hlex : List.compareLex compare (name :: names) (name' :: names') = .lt := h
          rw [List.compareLex_cons_cons] at hlex
          cases hcompare : compare name name' with
          | gt =>
              rw [hcompare] at hlex
              cases hlex
          | lt =>
              exact Or.inl ⟨[], name, name', names, names', compareOfLessAndEq_eq_lt.mp hcompare,
                rfl, rfl⟩
          | eq =>
              rw [hcompare] at hlex
              cases Std.LawfulEqCmp.compare_eq_iff_eq.mp hcompare
              rcases ih hlex with ⟨front, first, first', rest, rest', hlt, rfl, rfl⟩ |
                ⟨rest, hne, rfl⟩
              · exact Or.inl ⟨name :: front, first, first', rest, rest', hlt, rfl, rfl⟩
              · exact Or.inr ⟨rest, hne, rfl⟩

theorem Precedes.ne {names names' : List String} (h : Precedes names names') : names ≠ names' := by
  rcases h with ⟨front, name, name', rest, rest', hlt, rfl, rfl⟩
  intro hsame
  rw [List.append_cancel_left_eq, List.cons.injEq] at hsame
  rw [hsame.1] at hlt
  exact String.lt_irrefl _ hlt

namespace FileTree

variable {tree : FileTree} {place : Place}

/-- The names of the files of a walk. -/
def filesOf (events : List WalkEvent) : List (List String) :=
  events.filterMap fun event =>
    match event with
    | .file names _ => some names
    | .fault _ _ => none

theorem mem_filesOf_iff {events : List WalkEvent} {names : List String} :
    names ∈ filesOf events ↔ ∃ node, .file names node ∈ events := by
  rw [filesOf, List.mem_filterMap]
  constructor
  · rintro ⟨event, hmem, hevent⟩
    cases event with
    | fault names' error => cases hevent
    | file names' node =>
        cases hevent
        exact ⟨node, hmem⟩
  · rintro ⟨node, hmem⟩
    exact ⟨_, hmem, rfl⟩

/-- A path that leads to a directory leads to no file. -/
theorem Sound.not_file_of_stat (hsound : tree.Sound) {path : String} {content : ByteArray}
    {modified : Int} (hstat : tree.stat path = .ok (place, .directory)) :
    tree.node? place ≠ some (.file content modified) := by
  intro hfile
  rcases hsound.resolve (stat_eq_ok_iff.mp hstat).1 with hnode | ⟨-, above, habove, hdirectory⟩
  · rw [hfile] at hnode
    cases hnode
  · rw [hfile] at habove
    cases habove
    cases hdirectory

/-- Nothing is below a file. -/
theorem Sound.not_below_file (hsound : tree.Sound) {rest : List String} {node file : Node}
    (hne : rest ≠ []) (hfile : tree.node? place = some file) (hkind : file.isFile = true) :
    tree.node? (place ++ rest) ≠ some node := by
  intro hnode
  rcases hsound.holdsEntries hne hnode with ⟨above, habove, hdirectory⟩
  rw [hfile, Option.some.injEq] at habove
  rw [← habove] at hdirectory
  cases file with
  | file content modified => cases hdirectory
  | directory | closed | link => cases hkind

/-- A walk comes to the regular files below its directory, and to all of them. -/
theorem mem_filesOf_walk_iff (hsound : tree.Sound) {path : String} {names : List String}
    (hstat : tree.stat path = .ok (place, .directory)) :
    names ∈ filesOf (tree.walk path) ↔
      ∃ content modified, tree.node? (place ++ names) = some (.file content modified) := by
  rw [mem_filesOf_iff]
  constructor
  · rintro ⟨node, hmem⟩
    rcases file_mem_walk_iff.mp hmem with ⟨place', hstat', -, hnode, hfile⟩
    rw [hstat, Except.ok.injEq, Prod.mk.injEq] at hstat'
    rw [hstat'.1]
    cases node with
    | file content modified => exact ⟨content, modified, hnode⟩
    | directory | closed | link => cases hfile
  · rintro ⟨content, modified, hnode⟩
    have hne : names ≠ [] := by
      rintro rfl
      rw [List.append_nil] at hnode
      exact hsound.not_file_of_stat hstat hnode
    exact ⟨_, file_mem_walk_iff.mpr ⟨place, hstat, hne, hnode, rfl⟩⟩

/-- A walk comes to the files directory by directory, in the order of their names. -/
theorem precedes_walk (hsound : tree.Sound) (start : String) :
    (filesOf (tree.walk start)).Pairwise Precedes := by
  rw [filesOf, List.pairwise_filterMap]
  refine (ordered_walk tree start).imp_of_mem ?_
  intro event other hmem hmem' hordered names hnames names' hnames'
  cases event with
  | fault front error => cases hnames
  | file front node =>
      cases other with
      | fault front' error => cases hnames'
      | file front' node' =>
          cases hnames
          cases hnames'
          rcases precedes_or_append (hordered _ _ _ _ rfl rfl) with hprecedes | ⟨rest, hne, hrest⟩
          · exact hprecedes
          · rcases file_mem_walk_iff.mp hmem with ⟨place, hstat, -, hnode, hfile⟩
            rcases file_mem_walk_iff.mp hmem' with ⟨place', hstat', -, hnode', -⟩
            rw [hstat, Except.ok.injEq, Prod.mk.injEq] at hstat'
            rw [← hstat'.1, hrest, ← List.append_assoc] at hnode'
            exact absurd hnode' (hsound.not_below_file hne hnode hfile)

end FileTree

/-!
## Accepted directories
-/

/-- A directory that the command line accepts ends in a slash and is no pattern. -/
theorem directory_of_validate {tree : FileTree} {reference : Option Argument} {word : String}
    {argument : Argument} (h : validate tree .localDir reference word = .ok argument) :
    ∃ path, argument = .plain path ∧ Path.endsInSlash path = true ∧ hasGlobChar path = false := by
  rw [validate_of_isLocal rfl, Validate.localWord_eq_ok_iff] at h
  rcases h with ⟨-, hglob, path, hpath, rfl⟩
  rcases Validate.directory_cases hpath with ⟨rfl | rfl, hslash⟩
  · exact ⟨_, rfl, hslash, hglob⟩
  · refine ⟨_, rfl, hslash, ?_⟩
    rwa [Validate.hasGlobChar_append_slash]

theorem pathBelow_of_endsInSlash {path : String} {names : List String} (hne : names ≠ [])
    (hnames : ∀ name ∈ names, IsName name) (h : Path.endsInSlash path = true) :
    FileTree.pathBelow path names = path ++ joinNames names := by
  have hrelative := Path.isAbsolute_joinNames fun name hmem =>
    ⟨(hnames name hmem).ne_empty, (hnames name hmem).slashFree⟩
  rw [FileTree.pathBelow, if_neg (by rwa [List.isEmpty_iff])]
  show Path.join path (joinNames names) = path ++ joinNames names
  rw [Path.join, if_neg (by rw [hrelative]; exact Bool.false_ne_true), h, Bool.or_true, if_pos rfl]

namespace Expand

variable {task : Task} {source destination : Argument} {operation : Operation}

/-!
## Directory batches
-/

/-- How a local batch brings its files, and behind what it puts their names. -/
inductive Receives (task : Task) : Operation → Argument → Prop
  | upload (location : Location) (h : task.operation = .batchUpload)
      (hlocation : task.location? 1 = some location) :
      Receives task .upload (.storage location)
  | localCopy (argument : Argument) (h : task.operation = .batchLocalCopy)
      (hargument : task.arguments[1]? = some argument) :
      Receives task .localCopy (.plain argument.text)

/-- The task that brings a file from a directory to the same names below a destination. -/
def bring (operation : Operation) (source destination : Argument) (names : List String) :
    SubTask :=
  { operation := operation,
    arguments := [.plain (source.text ++ joinNames names),
      destination.behind (joinNames names)] }

theorem expand_of_receives (store : Store) (tree : FileTree)
    (hreceives : Receives task operation destination)
    (hfirst : task.arguments[0]? = some source) (hglob : hasGlobChar source.text = false) :
    ∃ target, expand store tree task = ofDirectory tree source.text target ∧
      ∀ path name, target.subTask path name =
        { operation := operation, arguments := [.plain path, destination.behind name] } := by
  have hhead : task.arguments.head? = some source := by rwa [List.head?_eq_getElem?]
  cases hreceives with
  | upload location hoperation hlocation =>
      refine ⟨.storage location, ?_, fun path name => rfl⟩
      simp only [expand, hoperation, localBatch, hhead, target?, hlocation, Option.map_some, hglob,
        Bool.false_eq_true, if_false]
  | localCopy argument hoperation hargument =>
      refine ⟨.directory argument.text, ?_, fun path name => rfl⟩
      simp only [expand, hoperation, localBatch, hhead, target?, hargument, Option.map_some, hglob,
        Bool.false_eq_true, if_false]

/-- Without faults the items of a walk are the transfers of its files. -/
theorem items_of_walk {path : String} {target : Target} {events : List WalkEvent}
    (hitem : ∀ names node, .file names node ∈ events →
      walkItem path target (.file names node) = some (.ok (bring operation source destination names)))
    (hfault : ∀ names error, .fault names error ∉ events) :
    events.filterMap (walkItem path target) =
      (FileTree.filesOf events).map fun names => .ok (bring operation source destination names) := by
  induction events with
  | nil => rfl
  | cons event events ih =>
      have hrest := ih (fun names node hmem => hitem names node (List.mem_cons_of_mem _ hmem))
        fun names error hmem => hfault names error (List.mem_cons_of_mem _ hmem)
      cases event with
      | fault names error => exact absurd List.mem_cons_self (hfault names error)
      | file names node =>
          rw [List.filterMap_cons_some (hitem names node List.mem_cons_self), hrest]
          rfl

/-- Two directories, the second one with a file, a directory with another one, and links to
both. -/
def linkedTree : FileTree :=
  ((((((Store.emptyTree.put ["a"] .directory).put ["b"] .directory).put ["b", "sub"]
    .directory).put ["b", "sub", "y"] (.file "1".toUTF8 1)).put ["b", "x"]
      (.file "2".toUTF8 2)).put ["b", "link"] (.link "x")).put ["b", "there"] (.link "sub")

/-- The upload of the second directory, which is reached through the first one. -/
def linkedUpload : Task where
  source := "cp a/../b s3://k/in/"
  keyword := "cp"
  operation := .batchUpload
  options := Options.none
  arguments := [.plain "a/../b/", .storage { bucket := "k", key := "in/" }]

end Expand
end BulkTransfer
