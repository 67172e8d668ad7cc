import BulkTransfer.Proofs.FileSystem.Removals
import BulkTransfer.Proofs.FileSystem.Strikes

/-!
# What is made above a path

The path above another one lacks one of its names at least.  So the directories that are made
above a path lie in front of it, and the path itself does not come into being by them, if it goes
up from directories only that are there.
-/

namespace BulkTransfer

open Text (splitOn splitOn_append splitOn_of_not_mem)

namespace Path

/-!
## The name that is dropped
-/

/-- A shortened text ends neither in a slash nor in a dot behind one. -/
theorem dropTrailing_ne (s rest : List Char) :
    dropTrailing s ≠ '/' :: rest ∧ dropTrailing s ≠ '.' :: '/' :: rest := by
  fun_induction dropTrailing s with
  | case1 s ih => exact ih
  | case2 s ih => exact ih
  | case3 s hslash hdot => exact ⟨hslash rest, hdot rest⟩

end Path

namespace FileTree

theorem namesOf_append (front back : List Char) :
    namesOf (String.ofList (front ++ '/' :: back)) =
      namesOf (String.ofList front) ++ namesOf (String.ofList back) := by
  simp only [namesOf, Path.pieces, String.toList_ofList, splitOn_append, List.map_append,
    List.filter_append]

theorem namesOf_word {word : List Char} (hslash : '/' ∉ word) (hne : word ≠ []) :
    namesOf (String.ofList word) = [String.ofList word] := by
  have hword : (String.ofList word).isEmpty = false := by
    rw [String.isEmpty_eq_false_iff]
    intro hempty
    exact hne (String.ofList_eq_empty_iff.mp hempty)
  rw [namesOf, Path.pieces, String.toList_ofList, splitOn_of_not_mem hslash, List.map_singleton,
    List.filter_singleton, hword]
  rfl

theorem namesOf_dropTrailing (s : List Char) :
    ∃ more, namesOf (String.ofList s.reverse) =
      namesOf (String.ofList (Path.dropTrailing s).reverse) ++ more := by
  rcases Path.dropTrailing_cases s with hsame | ⟨behind, hbehind⟩
  · exact ⟨[], by rw [hsame, List.append_nil]⟩
  · exact ⟨_, by rw [hbehind, namesOf_append]⟩

/-- A text up to its last slash lacks the name behind it, which is no dot. -/
theorem namesOf_dropWhile {s rest : List Char} (h : s.dropWhile (· ≠ '/') = '/' :: rest)
    (hslash : ∀ tail, s ≠ '/' :: tail) (hdot : ∀ tail, s ≠ '.' :: '/' :: tail) :
    ∃ word, word ≠ "." ∧
      namesOf (String.ofList s.reverse) = namesOf (String.ofList rest.reverse) ++ [word] := by
  have hsplit := List.takeWhile_append_dropWhile (p := (· ≠ '/')) (l := s)
  rw [h] at hsplit
  have hfree : '/' ∉ (s.takeWhile (· ≠ '/')).reverse := by
    intro hmem
    have hslash := List.all_eq_true.mp (List.all_takeWhile (p := (· ≠ '/'))) '/'
      (List.mem_reverse.mp hmem)
    cases hslash
  generalize s.takeWhile (· ≠ '/') = word at hsplit hfree
  have hne : word.reverse ≠ [] := by
    intro hnil
    rw [List.reverse_eq_nil_iff] at hnil
    rw [hnil] at hsplit
    exact hslash rest hsplit.symm
  refine ⟨String.ofList word.reverse, ?_, ?_⟩
  · intro hword
    have hchars := congrArg String.toList hword
    rw [String.toList_ofList] at hchars
    have hsingle : word = ['.'] := List.reverse_injective hchars
    rw [hsingle] at hsplit
    exact hdot rest hsplit.symm
  · rw [← hsplit, List.reverse_append, List.reverse_cons, List.append_assoc, List.singleton_append,
      namesOf_append, namesOf_word hfree hne]

/-- A part of a path that is not where it starts comes from one of its names. -/
theorem name_of_parts {path : String} {part : PathPart}
    (h : part ∈ (Path.pieces path).filterMap Path.partOfPiece) :
    ∃ name ∈ namesOf path, name ≠ "." := by
  rcases List.mem_filterMap.mp h with ⟨piece, hpiece, hpart⟩
  rw [Path.partOfPiece] at hpart
  split at hpart
  · cases hpart
  · rename_i hnames
    rw [not_or] at hnames
    refine ⟨piece, List.mem_filter.mpr ⟨hpiece, ?_⟩, hnames.2⟩
    simpa using hnames.1

/-- The path above another one lacks a name of it that is no dot. -/
theorem namesOf_parent {path above : String} (h : Path.parent path = some above)
    (hne : above.isEmpty = false) :
    ∃ more, namesOf path = namesOf above ++ more ∧ ∃ name ∈ more, name ≠ "." := by
  rw [Path.parent] at h
  split at h
  · cases h
  · cases h
  · rename_i part hroot hlast
    dsimp only at h
    split at h
    · rename_i habsolute
      rw [Bool.and_eq_true] at habsolute
      cases h
      refine ⟨namesOf path, rfl, ?_⟩
      have hpart := List.mem_of_getLast? hlast
      rw [Path.parts, if_pos habsolute.2] at hpart
      rcases List.mem_append.mp hpart with hfront | hpart
      · rw [List.mem_singleton] at hfront
        exact absurd hfront hroot
      · exact name_of_parts hpart
    · cases h
      generalize hshort : Path.dropTrailing path.toList.reverse = short at hne ⊢
      have hends := Path.dropTrailing_ne path.toList.reverse
      rw [hshort] at hends
      cases hdrop : short.dropWhile (· ≠ '/') with
      | nil =>
          rw [hdrop] at hne
          cases hne
      | cons c rest =>
          have hhead := List.head?_dropWhile_not (· ≠ '/') short
          rw [hdrop, List.head?_cons] at hhead
          have hslash : c = '/' := by simpa using hhead
          subst hslash
          rcases namesOf_dropWhile hdrop (fun tail => (hends tail).1) fun tail => (hends tail).2 with
            ⟨word, hword, hnames⟩
          rcases namesOf_dropTrailing path.toList.reverse with ⟨more, hmore⟩
          rcases namesOf_dropTrailing rest with ⟨between, hbetween⟩
          rw [List.reverse_reverse, String.ofList_toList, hshort, hnames, hbetween] at hmore
          refine ⟨between ++ [word] ++ more, ?_, word, ?_, hword⟩
          · rw [hmore, Path.dropTrailing, List.append_assoc, List.append_assoc, List.append_assoc]
          · exact List.mem_append_left _ (List.mem_append_right _ List.mem_cons_self)

/-!
## Names that lead to directories
-/

variable {tree between later : FileTree} {written : Place → Prop} {links links' : Nat}
  {directory place root : Place} {names rest : List String} {name path : String} {node : Node}
  {resolved : Resolved}

namespace Leads

/-- Names that lead to a directory lead there when nothing is removed. -/
theorem directory_of_grows {followLast : Bool}
    (h : tree.Leads followLast links directory names (.entry place .directory))
    (hgrows : tree.Grows written later) :
    later.Leads followLast links directory names (.entry place .directory) := by
  generalize hresolved : Resolved.entry place .directory = resolved at h
  induction h with
  | here directory => exact .here directory
  | stay _ ih => exact .stay (ih hresolved)
  | up _ ih => exact .up (ih hresolved)
  | enter hname hnode _ ih => exact .enter hname (hgrows.directory hnode) (ih hresolved)
  | missing => cases hresolved
  | found hname hnode hdirectory =>
      cases hresolved
      exact absurd rfl hdirectory
  | link hname hnode hrest _ ih =>
      exact .link hname (hgrows.node?_of_not_file hnode rfl) hrest (ih hresolved)

/-- Names that led to a vacant name lead to the directory that is made there. -/
theorem directory_of_vacant (h : tree.Leads false links directory names (.vacant place name))
    (hgrows : tree.Grows written later)
    (hmade : later.node? (place ++ [name]) = some .directory) :
    later.Leads true links directory names (.entry (place ++ [name]) .directory) := by
  generalize hresolved : Resolved.vacant place name = resolved at h
  induction h with
  | here directory => cases hresolved
  | stay _ ih => exact .stay (ih hresolved)
  | up _ ih => exact .up (ih hresolved)
  | enter hname hnode _ ih => exact .enter hname (hgrows.directory hnode) (ih hresolved)
  | missing hname hnode =>
      cases hresolved
      exact .enter hname hmade (.here _)
  | found => cases hresolved
  | link hname hnode _ _ ih =>
      exact .link hname (hgrows.node?_of_not_file hnode rfl) (Or.inl rfl) (ih hresolved)

end Leads

/-!
## Directories that are new
-/

/-- Whether every new entry is a directory to which a front of a path leads. -/
def MadeFor (path : String) (tree later : FileTree) : Prop :=
  ∀ place node, tree.node? place = none → later.node? place = some node →
    ∃ front links, IsFront front path ∧
      later.Leads true links (startOf front later.workingDirectory) (namesOf front)
        (.entry place .directory)

namespace MadeFor

theorem refl (path : String) (tree : FileTree) : MadeFor path tree tree := by
  intro place node hnone hnode
  rw [hnone] at hnode
  cases hnode

theorem trans (h : MadeFor path tree between) (hgrows : between.Grows written later)
    (h' : MadeFor path between later) : MadeFor path tree later := by
  intro place node hnone hnode
  cases hbetween : between.node? place with
  | none => exact h' place node hbetween hnode
  | some made =>
      rcases h place made hnone hbetween with ⟨front, links, hfront, hleads⟩
      rw [← hgrows.workingDirectory] at hleads
      exact ⟨front, links, hfront, hleads.directory_of_grows hgrows⟩

theorem mono {above : String} (h : MadeFor above tree later) (hfront : IsFront above path) :
    MadeFor path tree later := by
  intro place node hnone hnode
  rcases h place node hnone hnode with ⟨front, links, hfront', hleads⟩
  exact ⟨front, links, hfront'.trans hfront, hleads⟩

end MadeFor

end FileTree

namespace Disk

open FileTree (MadeFor)

variable {disk : Disk}

theorem makeDirectory_madeFor (hsound : disk.tree.Sound) (path : String) :
    MadeFor path disk.tree (makeDirectory path disk).2.tree := by
  have hgrows : disk.Evolves (fun _ => False) (fun _ => False) (makeDirectory path disk).2 :=
    evolves_makeDirectory hsound path
  rcases hmake : makeDirectory path disk with ⟨error | value, later⟩
  · rw [DiskM.change_eq_error hmake]
    exact .refl path disk.tree
  · rw [hmake] at hgrows
    have hchange := DiskM.change_eq_ok hmake
    cases htree : disk.tree.makeDirectory path with
    | error error =>
        rw [htree] at hchange
        cases hchange
    | ok made =>
        rw [htree] at hchange
        cases hchange
        rcases FileTree.makeDirectory_eq_ok htree with ⟨directory, name, hresolve, hput⟩
        have hne : directory ++ [name] ≠ [] :=
          List.append_ne_nil_of_right_ne_nil _ (List.cons_ne_nil _ _)
        intro place node hnone hnode
        rw [hput, FileTree.node?_put _ _ _ hne] at hnode
        split at hnode
        · rename_i hplace
          rcases FileTree.leads_of_resolve hresolve with ⟨links, -, hleads⟩
          rw [← hgrows.tree.workingDirectory] at hleads
          refine ⟨path, links, .refl path, ?_⟩
          rw [← hplace]
          refine hleads.directory_of_vacant hgrows.tree ?_
          rw [hput, FileTree.node?_put _ _ _ hne, if_pos rfl]
        · rw [hnone] at hnode
          cases hnode

theorem makeDirectories_madeFor (hsound : disk.tree.Sound) (depth : Nat) (path : String) :
    MadeFor path disk.tree (makeDirectories depth path disk).2.tree := by
  induction depth generalizing disk path with
  | zero => exact .refl path disk.tree
  | succ depth ih =>
      -- the path is tried, then the one above it is made, and then the path is tried again
      have hgrows : disk.Evolves (fun _ => False) (fun _ => False) (makeDirectory path disk).2 :=
        evolves_makeDirectory hsound path
      have hmade := makeDirectory_madeFor hsound path
      rcases hall : makeDirectories (depth + 1) path disk with ⟨outcome, later⟩
      rcases makeDirectories_cases hall with
        ⟨first, hfirst, -⟩ | ⟨cause, between, above, hfirst, habove, hne, hdeeper⟩ <;>
        rw [hfirst] at hgrows hmade
      · exact hmade
      · have hgrows' : between.Evolves (fun _ => False) (fun _ => False)
            (makeDirectories depth above between).2 :=
          evolves_makeDirectories hgrows.tree.sound _ _
        have hmade' := hmade.trans hgrows'.tree
          ((ih hgrows.tree.sound above).mono (FileTree.isFront_parent habove hne))
        rcases hdeeper with ⟨error, -, hdeep⟩ | ⟨deeper, last, hdeep, hlast, -⟩ <;>
          rw [hdeep] at hgrows' hmade'
        · exact hmade'
        · have hagain : deeper.Evolves (fun _ => False) (fun _ => False)
              (makeDirectory path deeper).2 :=
            evolves_makeDirectory hgrows'.tree.sound path
          have hlater := hmade'.trans hagain.tree (makeDirectory_madeFor hgrows'.tree.sound path)
          rwa [hlast] at hlater

end Disk

theorem FileCopy.makeParent_cases (path : String) (disk : Disk) :
    (makeParent path disk).2.tree = disk.tree ∨
      ∃ above, Path.parent path = some above ∧ above.isEmpty = false := by
  cases hparent : Path.parent path with
  | none =>
      rw [makeParent, hparent]
      exact Or.inl rfl
  | some above =>
      cases hempty : above.isEmpty with
      | true =>
          rw [makeParent, hparent]
          dsimp only
          rw [hempty, if_pos rfl]
          exact Or.inl rfl
      | false => exact Or.inr ⟨above, rfl, hempty⟩

theorem FileCopy.makeParent_madeFor {disk : Disk} (hsound : disk.tree.Sound) {path above : String}
    (hparent : Path.parent path = some above) :
    FileTree.MadeFor above disk.tree (makeParent path disk).2.tree := by
  rw [makeParent, hparent]
  dsimp only
  split
  · exact .refl above disk.tree
  · have hmade := Disk.makeDirectories_madeFor hsound ((Path.parts above).length + 1) above
    exact hmade

namespace FileTree

variable {tree later : FileTree} {links : Nat} {place root : Place} {names : List String}
  {path : String} {node : Node}

theorem Sound.holdsEntries_of_leads {followLast : Bool} (hsound : tree.Sound)
    (h : tree.Leads followLast links (startOf path tree.workingDirectory) names
      (.entry place .directory)) : tree.HoldsEntries place := by
  rcases hsound.leads (holdsEntries_startOf hsound.workingDirectory) h with
    hnode | ⟨-, hholds⟩
  · exact holdsEntries_of_directory hnode
  · exact hholds

/-- A front behind which a path goes up leads to a directory. -/
theorem ClimbsInside.front (hclimbs : tree.ClimbsInside path) {behind : List String}
    (hnames : namesOf path = names ++ behind) (hup : ".." ∈ behind) :
    ∃ links above, tree.Leads true links (startOf path tree.workingDirectory) names
      (.entry above .directory) := by
  rcases List.append_of_mem hup with ⟨front, rest, rfl⟩
  rcases hclimbs (names ++ front) rest (by rw [hnames, List.append_assoc]) with ⟨above, habove⟩
  rcases followLinks_eq_ok_iff.mp habove with ⟨links, -, hleads⟩
  by_cases hfront : front = []
  · rw [hfront, List.append_nil] at hleads
    exact ⟨links, above, hleads⟩
  · rcases hleads.front hfront with ⟨fewer, -, other, hother⟩
    exact ⟨fewer, other, hother⟩

/-- A path that continues one to a directory goes up on the way to that only. -/
theorem Roots.climbsInside {base : String} (hroot : tree.Roots base root)
    (hpath : Continues base path names) : tree.ClimbsInside path := by
  intro front behind hnames
  have hplain : ".." ∉ names := fun hmem => (hpath.plain _ hmem).ne_up rfl
  rw [hpath.namesOf_eq] at hnames
  rcases List.append_eq_append_iff.mp hnames with ⟨between, -, hbehind⟩ | ⟨between, hbase, hbehind⟩
  · rw [hbehind] at hplain
    exact absurd (List.mem_append_right _ List.mem_cons_self) hplain
  · have hne : between ≠ [] := by
      rintro rfl
      rw [List.nil_append] at hbehind
      rw [← hbehind] at hplain
      exact hplain List.mem_cons_self
    have hleads := leads_of_follow hroot.arrives
    rw [hbase] at hleads
    rcases hleads.front hne with ⟨fewer, hle, above, habove⟩
    rw [startOf, ← hpath.isAbsolute_eq, ← startOf] at habove
    exact ⟨above, followLinks_of_leads habove (Nat.le_trans hle (Nat.zero_le _))⟩

/-- A path that goes up from directories only that were there does not lead into what has been
made for the path above it. -/
theorem not_leads_of_madeFor {above : String} (hsound : tree.Sound)
    (hgrows : tree.Grows (fun _ => False) later) (hclimbs : tree.ClimbsInside path)
    (hparent : Path.parent path = some above) (hne : above.isEmpty = false)
    (hmade : MadeFor above tree later) (hroot : tree.node? root = none) :
    ¬ later.Leads true links (startOf path later.workingDirectory) (namesOf path)
      (.entry (root ++ names) .directory) := by
  intro hleads
  have hnone : tree.node? (root ++ names) = none := hsound.node?_below hroot names
  rcases hgrows.sound.holdsEntries_of_leads hleads with ⟨node, hnode, -⟩
  rcases hmade _ _ hnone hnode with ⟨front, links', hfront, hled⟩
  rcases namesOf_parent hparent hne with ⟨more, hmore, name, hname, hdot⟩
  rcases hfront.namesOf_isPrefix with ⟨between, hbetween⟩
  have habsolute := hfront.isAbsolute_eq.trans (isFront_parent hparent hne).isAbsolute_eq
  rw [← hbetween, List.append_assoc] at hmore
  rw [startOf, habsolute, ← startOf] at hled
  rw [hmore] at hleads
  rcases hled.behind_directory hleads with ⟨fewer, hbehind⟩
  have hup : ".." ∉ between ++ more := by
    intro hmem
    rcases hclimbs.front hmore hmem with ⟨count, place, hplace⟩
    have hthere := hplace.directory_of_grows hgrows
    rw [← hgrows.workingDirectory] at hthere
    cases hthere.unique hled
    rcases hsound.holdsEntries_of_leads hplace with ⟨held, hheld, -⟩
    rw [hnone] at hheld
    cases hheld
  -- so the names that are missing in the path above lead further down
  have hdeeper := Leads.place_of_below
    (fun names _ hother => below_vacant hsound hgrows hroot names hother) hup hbehind
  have hdots := List.filter_eq_nil_iff.mp (List.self_eq_append_right.mp hdeeper) name
    (List.mem_append_right _ hname)
  exact hdots (by simpa using hdot)

/-- What a path leads to once the directories above it are made, it led to before, if it goes up
from directories only that were there. -/
theorem stat_of_makeParent {disk : Disk} (hsound : disk.tree.Sound)
    (hclimbs : disk.tree.ClimbsInside path)
    (h : (FileCopy.makeParent path disk).2.tree.stat path = .ok (place, node)) :
    disk.tree.stat path = .ok (place, node) := by
  rcases stat_eq_ok_iff.mp h with ⟨hresolve, hslash⟩
  refine stat_eq_ok_iff.mpr ⟨?_, hslash⟩
  by_cases hdirectory : node = .directory
  case neg => exact resolve_of_makeParent hsound hclimbs hresolve hdirectory
  case pos =>
    subst hdirectory
    have hgrows : disk.tree.Grows (fun _ => False) (FileCopy.makeParent path disk).2.tree :=
      (FileCopy.evolves_makeParent hsound path).tree
    rcases FileCopy.makeParent_cases path disk with hsame | ⟨above, hparent, hne⟩
    · rwa [hsame] at hresolve
    have hmade := FileCopy.makeParent_madeFor hsound hparent
    rcases FileCopy.makeParent_tree path disk with hsame | ⟨front, directory, name, hfront, hvacant⟩
    · rwa [hsame] at hresolve
    exfalso
    rcases resolve_behind_vacant hsound hgrows hfront hvacant hresolve with
      ⟨hnone, -, rest, fewer, hrest, hbehind⟩
    rw [← List.append_nil (directory ++ [name])] at hbehind
    have hplace := Leads.place_of_below
      (fun names _ hother => below_vacant hsound hgrows hnone names hother)
      (not_up_behind_vacant hsound hclimbs hfront hvacant hrest) hbehind
    rw [List.append_nil] at hplace
    rcases leads_of_resolve hresolve with ⟨links, -, hleads⟩
    rw [hplace] at hleads
    exact not_leads_of_madeFor hsound hgrows hclimbs hparent hne hmade hnone hleads

end FileTree
end BulkTransfer
