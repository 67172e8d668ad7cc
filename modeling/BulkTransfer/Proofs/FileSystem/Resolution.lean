import BulkTransfer.Proofs.FileSystem.Leading

/-!
# Where paths lead

In a sound tree every entry is in a directory.  A path that is followed there ends at an
entry of the tree or at a vacant name of one of its directories.

Plain names that are followed where no links are lead to the place behind them, if every
directory on the way may be searched.
-/

namespace BulkTransfer

namespace FileTree

/-!
## Sound trees
-/

/-- A place where entries can be. -/
def HoldsEntries (tree : FileTree) (place : Place) : Prop :=
  ∃ node, tree.node? place = some node ∧ node.isDirectory = true

/-- Every entry is in a directory, and so is the work that is done. -/
structure Sound (tree : FileTree) : Prop where
  parent : ∀ place name node, tree.node? (place ++ [name]) = some node → tree.HoldsEntries place
  workingDirectory : tree.HoldsEntries tree.workingDirectory

variable {tree : FileTree}

theorem holdsEntries_nil : tree.HoldsEntries [] :=
  ⟨.directory, node?_nil tree, rfl⟩

theorem holdsEntries_of_directory {place : Place} (h : tree.node? place = some .directory) :
    tree.HoldsEntries place :=
  ⟨.directory, h, rfl⟩

instance (tree : FileTree) (place : Place) : Decidable (tree.HoldsEntries place) :=
  decidable_of_iff ((tree.node? place).any Node.isDirectory = true) (Option.any_eq_true _ _)

theorem mem_toList_of_node? {place : Place} {node : Node} (hne : place ≠ [])
    (hnode : tree.node? place = some node) : (place, node) ∈ tree.nodes.toList := by
  rw [node?_of_ne_nil _ hne] at hnode
  exact Std.TreeMap.mem_toList_iff_getElem?_eq_some.mpr hnode

/-- A tree is sound if every one of its entries is in a directory. -/
theorem sound_of_entries (h : ∀ entry ∈ tree.nodes.toList, tree.HoldsEntries entry.1.dropLast)
    (hdirectory : tree.HoldsEntries tree.workingDirectory) : tree.Sound := by
  refine ⟨fun place name node hnode => ?_, hdirectory⟩
  have hne : place ++ [name] ≠ [] := List.append_ne_nil_of_right_ne_nil _ (List.cons_ne_nil _ _)
  have habove := h _ (mem_toList_of_node? hne hnode)
  rwa [List.dropLast_concat] at habove

theorem Sound.dropLast (hsound : tree.Sound) {place : Place} (h : tree.HoldsEntries place) :
    tree.HoldsEntries place.dropLast := by
  rcases List.eq_nil_or_concat place with rfl | ⟨front, name, rfl⟩
  · exact h
  · rcases h with ⟨node, hnode, -⟩
    rw [List.concat_eq_append] at hnode ⊢
    rw [List.dropLast_concat]
    exact hsound.parent front name node hnode

/-- Whatever is in front of an entry holds entries. -/
theorem Sound.holdsEntries (hsound : tree.Sound) {place : Place} {names : List String}
    {node : Node} (hne : names ≠ []) (h : tree.node? (place ++ names) = some node) :
    tree.HoldsEntries place := by
  induction names generalizing place with
  | nil => exact absurd rfl hne
  | cons name rest ih =>
      by_cases hrest : rest = []
      · rw [hrest] at h
        exact hsound.parent place name node h
      · rw [← List.singleton_append, ← List.append_assoc] at h
        rcases ih hrest h with ⟨above, habove, -⟩
        exact hsound.parent place name above habove

/-- An answer of the tree: an entry that is there, or a vacant name in a directory. -/
def Answers (tree : FileTree) : Resolved → Prop
  | .entry place node =>
      tree.node? place = some node ∨ node = .directory ∧ tree.HoldsEntries place
  | .vacant directory name =>
      tree.HoldsEntries directory ∧ tree.node? (directory ++ [name]) = none

theorem holdsEntries_startOf {path : String} {directory : Place}
    (h : tree.HoldsEntries directory) : tree.HoldsEntries (startOf path directory) := by
  rw [startOf]
  split
  · exact holdsEntries_nil
  · exact h

/-- Names that are followed from a directory of a sound tree have an answer there. -/
theorem Sound.leads (hsound : tree.Sound) {followLast : Bool} {links : Nat} {directory : Place}
    {names : List String} {resolved : Resolved} (hdirectory : tree.HoldsEntries directory)
    (h : tree.Leads followLast links directory names resolved) : tree.Answers resolved := by
  induction h with
  | here directory => exact Or.inr ⟨rfl, hdirectory⟩
  | stay _ ih => exact ih hdirectory
  | up _ ih => exact ih (hsound.dropLast hdirectory)
  | enter _ hnode _ ih => exact ih (holdsEntries_of_directory hnode)
  | missing _ hnode => exact ⟨hdirectory, hnode⟩
  | found _ hnode => exact Or.inl hnode
  | link _ _ _ _ ih => exact ih (holdsEntries_startOf hdirectory)

/-- A path that can be looked up at all. -/
structure IsUsable (path : String) : Prop where
  nulFree : path.toList.contains '\x00' = false
  ne_empty : path.isEmpty = false
  short : path.utf8ByteSize < pathLimit

theorem resolve_eq_ok_iff {followLast : Bool} {path : String} {resolved : Resolved} :
    tree.resolve followLast path = .ok resolved ↔
      IsUsable path ∧ tree.followLinks followLast linkLimit
        (startOf path tree.workingDirectory) (namesOf path) = .ok resolved := by
  rw [resolve]
  constructor
  · intro h
    split at h
    · cases h
    · rename_i hnul
      split at h
      · cases h
      · rename_i hempty
        split at h
        · cases h
        · rename_i hlong
          refine ⟨⟨Bool.eq_false_iff.mpr hnul, Bool.eq_false_iff.mpr hempty,
            Nat.not_le.mp hlong⟩, ?_⟩
          cases hlinks : tree.followLinks followLast linkLimit
              (startOf path tree.workingDirectory) (namesOf path) with
          | error errno =>
              rw [hlinks] at h
              cases h
          | ok found =>
              rw [hlinks] at h
              cases h
              rfl
  · rintro ⟨husable, hlinks⟩
    rw [if_neg (Bool.eq_false_iff.mp husable.nulFree),
      if_neg (Bool.eq_false_iff.mp husable.ne_empty), if_neg (Nat.not_le.mpr husable.short), hlinks]
    rfl

theorem leads_of_resolve {followLast : Bool} {path : String} {resolved : Resolved}
    (h : tree.resolve followLast path = .ok resolved) :
    ∃ links ≤ linkLimit, tree.Leads followLast links (startOf path tree.workingDirectory)
      (namesOf path) resolved :=
  followLinks_eq_ok_iff.mp (resolve_eq_ok_iff.mp h).2

theorem Sound.resolve (hsound : tree.Sound) {followLast : Bool} {path : String}
    {resolved : Resolved} (h : tree.resolve followLast path = .ok resolved) :
    tree.Answers resolved := by
  rcases leads_of_resolve h with ⟨links, -, hleads⟩
  exact hsound.leads (holdsEntries_startOf hsound.workingDirectory) hleads

theorem resolve_true_ne_link {path : String} {place : Place} {target : String} :
    tree.resolve true path ≠ .ok (.entry place (.link target)) := by
  intro h
  rcases leads_of_resolve h with ⟨links, -, hleads⟩
  exact hleads.ne_link rfl

/-- A path leads to the file that is there later where it led to a file or to nothing, if
directories and links stay. -/
theorem resolve_of_written {later : FileTree} {followLast : Bool} {path : String}
    {resolved : Resolved} {node : Node} (h : tree.resolve followLast path = .ok resolved)
    (hold : ∀ held, resolved.node? = some held → held.isFile = true) (hfile : node.isFile = true)
    (hworking : later.workingDirectory = tree.workingDirectory)
    (hplace : later.node? resolved.place = some node)
    (hother : ∀ other held, tree.node? other = some held → held.isFile = false →
      later.node? other = some held) :
    later.resolve followLast path = .ok (.entry resolved.place node) := by
  rcases leads_of_resolve h with ⟨links, hle, hleads⟩
  refine resolve_eq_ok_iff.mpr ⟨(resolve_eq_ok_iff.mp h).1, ?_⟩
  rw [hworking]
  exact followLinks_of_leads (hleads.of_written hold hfile hplace hother) hle

/-- A path leads to a file as before when vacant places and other files change. -/
theorem resolve_of_unchanged {later : FileTree} {followLast : Bool} {path : String} {place : Place}
    {node node' : Node} (h : tree.resolve followLast path = .ok (.entry place node))
    (hfile : node.isFile = true) (hfile' : node'.isFile = true)
    (hworking : later.workingDirectory = tree.workingDirectory)
    (hplace : later.node? place = some node')
    (hother : ∀ other held, tree.node? other = some held → held.isFile = false →
      later.node? other = some held) :
    later.resolve followLast path = .ok (.entry place node') := by
  refine resolve_of_written h ?_ hfile' hworking hplace hother
  rintro held ⟨⟩
  exact hfile

theorem stat_eq_ok_iff {path : String} {place : Place} {node : Node} :
    tree.stat path = .ok (place, node) ↔
      tree.resolve true path = .ok (.entry place node) ∧
        (Path.endsInSlash path = true → node.isDirectory = true) := by
  rw [stat]
  constructor
  · intro h
    split at h
    · cases h
    · cases h
    · rename_i hresolve
      split at h
      · cases h
      · rename_i hslash
        cases h
        refine ⟨hresolve, fun hend => ?_⟩
        rwa [hend, Bool.true_and, Bool.not_eq_true', Bool.not_eq_false] at hslash
  · rintro ⟨hresolve, hslash⟩
    simp only [hresolve]
    refine if_neg fun h => ?_
    rw [Bool.and_eq_true, Bool.not_eq_true'] at h
    rw [hslash h.1] at h
    exact absurd h.2 (Bool.noConfusion)

/-!
## Plain names
-/

/-- There is no link behind a place. -/
def Linkless (tree : FileTree) (place : Place) : Prop :=
  ∀ names target, tree.node? (place ++ names) ≠ some (.link target)

/-- Names can be followed from a place: all of them are short, and all but the last are
directories that may be searched. -/
def Opens (tree : FileTree) : Place → List String → Prop
  | _, [] => True
  | place, name :: rest =>
      name.utf8ByteSize ≤ longestName ∧
        (rest ≠ [] → tree.node? (place ++ [name]) = some .directory) ∧
          tree.Opens (place ++ [name]) rest

/-- What there is at a place. -/
def resolvedAt (tree : FileTree) (place : Place) : Resolved :=
  match tree.node? place with
  | some node => .entry place node
  | none => .vacant place.dropLast (place.getLast?.getD "")

theorem resolvedAt_of_some {place : Place} {node : Node} (h : tree.node? place = some node) :
    tree.resolvedAt place = .entry place node := by
  rw [resolvedAt, h]

theorem resolvedAt_of_none {place : Place} {name : String}
    (h : tree.node? (place ++ [name]) = none) :
    tree.resolvedAt (place ++ [name]) = .vacant place name := by
  rw [resolvedAt, h]
  simp

@[simp] theorem node?_resolvedAt (place : Place) :
    (tree.resolvedAt place).node? = tree.node? place := by
  cases h : tree.node? place with
  | none => rw [resolvedAt, h, Resolved.node?]
  | some node => rw [resolvedAt, h, Resolved.node?]

@[simp] theorem place_resolvedAt (place : Place) : (tree.resolvedAt place).place = place := by
  rcases List.eq_nil_or_concat place with rfl | ⟨front, name, rfl⟩
  · rfl
  · rw [List.concat_eq_append]
    cases h : tree.node? (front ++ [name]) with
    | none => rw [resolvedAt_of_none h, Resolved.place]
    | some node => rw [resolvedAt_of_some h, Resolved.place]

theorem Linkless.behind {place : Place} (h : tree.Linkless place) (names : List String) :
    tree.Linkless (place ++ names) := by
  intro rest target
  rw [List.append_assoc]
  exact h (names ++ rest) target

theorem follow_plain (followLast : Bool) {place : Place} {names : List String}
    (hlinkless : tree.Linkless place) (hplain : ∀ name ∈ names, IsPlain name) (hne : names ≠ []) :
    tree.Opens place names ∧
        tree.follow followLast place names = .arrived (tree.resolvedAt (place ++ names)) ∨
      ¬ tree.Opens place names ∧ ∃ errno, tree.follow followLast place names = .blocked errno := by
  have hfollows := follows tree followLast place names
  generalize tree.follow followLast place names = progress at hfollows ⊢
  induction hfollows with
  | here => exact absurd rfl hne
  | stay => exact absurd rfl (hplain _ List.mem_cons_self).ne_here
  | up => exact absurd rfl (hplain _ List.mem_cons_self).ne_up
  | long hname hlong => exact Or.inr ⟨fun h => absurd h.1 (Nat.not_le.mpr hlong), _, rfl⟩
  | @enter place name rest progress hname hnode hfollows ih =>
      by_cases hrest : rest = []
      · subst hrest
        cases hfollows
        exact Or.inl ⟨⟨hname.short, fun h => absurd rfl h, trivial⟩,
          congrArg Progress.arrived (resolvedAt_of_some hnode).symm⟩
      · have hassoc : place ++ name :: rest = place ++ [name] ++ rest := by
          rw [List.append_assoc, List.singleton_append]
        rw [hassoc]
        rcases ih (hlinkless.behind [name]) (List.forall_mem_cons.mp hplain).2 hrest with
          ⟨hopens, harrived⟩ | ⟨hopens, hblocked⟩
        · exact Or.inl ⟨⟨hname.short, fun _ => hnode, hopens⟩, harrived⟩
        · exact Or.inr ⟨fun h => hopens h.2.2, hblocked⟩
  | missing hname hnode =>
      exact Or.inl ⟨⟨hname.short, fun h => absurd rfl h, trivial⟩,
        congrArg Progress.arrived (resolvedAt_of_none hnode).symm⟩
  | found hname hnode =>
      exact Or.inl ⟨⟨hname.short, fun h => absurd rfl h, trivial⟩,
        congrArg Progress.arrived (resolvedAt_of_some hnode).symm⟩
  | lost hname hnode hrest | closed hname hnode hrest | file hname hnode hrest =>
      refine Or.inr ⟨fun h => ?_, _, rfl⟩
      cases (h.2.1 hrest).symm.trans hnode
  | link hname hnode => exact absurd hnode (hlinkless [_] _)

/-- Names that lead to a directory without a link are followed first. -/
theorem follow_append {place directory : Place} {names : List String}
    (h : tree.follow true directory names = .arrived (.entry place .directory))
    (followLast : Bool) (rest : List String) :
    tree.follow followLast directory (names ++ rest) = tree.follow followLast place rest := by
  rw [follow_eq_iff] at h
  generalize hprogress : Progress.arrived (.entry place .directory) = progress at h
  induction h with
  | here directory =>
      cases hprogress
      rfl
  | stay _ ih => rw [List.cons_append, follow_here, ih hprogress]
  | up _ ih => rw [List.cons_append, follow_up, ih hprogress]
  | enter hname hnode _ ih => rw [List.cons_append, follow_enter hname hnode, ih hprogress]
  | found hname hnode hdirectory =>
      cases hprogress
      exact absurd rfl hdirectory
  | long | missing | lost | closed | file | link => cases hprogress

/-!
## Paths behind a directory
-/

/-- A path leads to a directory without a link, and there is none behind it. -/
structure Roots (tree : FileTree) (base : String) (root : Place) : Prop where
  arrives : tree.follow true (startOf base tree.workingDirectory) (namesOf base) =
    .arrived (.entry root .directory)
  linkless : tree.Linkless root

/-- A path continues another one with plain names. -/
structure Continues (base path : String) (names : List String) : Prop where
  namesOf_eq : namesOf path = namesOf base ++ names
  isAbsolute_eq : Path.isAbsolute path = Path.isAbsolute base
  ne_nil : names ≠ []
  plain : ∀ name ∈ names, IsPlain name

section Roots

variable {base path : String} {root : Place} {names : List String}

theorem Roots.resolve_eq_ok_iff (hroot : tree.Roots base root) (hpath : Continues base path names)
    {followLast : Bool} {resolved : Resolved} :
    tree.resolve followLast path = .ok resolved ↔
      IsUsable path ∧ tree.Opens root names ∧ resolved = tree.resolvedAt (root ++ names) := by
  rw [FileTree.resolve_eq_ok_iff]
  refine and_congr_right fun _ => ?_
  have hfollow : tree.follow followLast (startOf path tree.workingDirectory) (namesOf path) =
      tree.follow followLast root names := by
    rw [hpath.namesOf_eq, startOf, hpath.isAbsolute_eq]
    exact follow_append hroot.arrives followLast names
  rw [linkLimit, followLinks, hfollow]
  rcases follow_plain followLast hroot.linkless hpath.plain hpath.ne_nil with
    ⟨hopens, harrived⟩ | ⟨hopens, errno, hblocked⟩
  · rw [harrived]
    constructor
    · intro h
      cases h
      exact ⟨hopens, rfl⟩
    · rintro ⟨-, rfl⟩
      rfl
  · rw [hblocked]
    constructor
    · intro h
      cases h
    · rintro ⟨h, -⟩
      exact absurd h hopens

theorem Roots.stat_eq_ok_iff (hroot : tree.Roots base root) (hpath : Continues base path names)
    {place : Place} {node : Node} :
    tree.stat path = .ok (place, node) ↔
      IsUsable path ∧ tree.Opens root names ∧ place = root ++ names ∧
        tree.node? (root ++ names) = some node ∧
          (Path.endsInSlash path = true → node.isDirectory = true) := by
  rw [FileTree.stat_eq_ok_iff, hroot.resolve_eq_ok_iff hpath]
  constructor
  · rintro ⟨⟨husable, hopens, hfound⟩, hslash⟩
    have hplace := congrArg Resolved.place hfound
    have hnode := congrArg Resolved.node? hfound
    rw [place_resolvedAt] at hplace
    rw [node?_resolvedAt] at hnode
    exact ⟨husable, hopens, hplace, hnode.symm, hslash⟩
  · rintro ⟨husable, hopens, rfl, hnode, hslash⟩
    exact ⟨⟨husable, hopens, (resolvedAt_of_some hnode).symm⟩, hslash⟩

end Roots

/-- Reading gives what the file that is looked at holds. -/
theorem Sound.readFile_eq_ok_iff (hsound : tree.Sound) {path : String} {content : ByteArray} :
    tree.readFile path = .ok content ↔
      ∃ place modified, tree.stat path = .ok (place, .file content modified) := by
  have hcontent : ∀ place node, tree.stat path = .ok (place, node) →
      (tree.contentAt place = .ok content ↔ ∃ modified, node = .file content modified) := by
    intro place node hstat
    have hanswer := hsound.resolve (FileTree.stat_eq_ok_iff.mp hstat).1
    rcases hanswer with hnode | ⟨rfl, other, hnode, hdirectory⟩
    · rw [contentAt, hnode]
      cases node with
      | file found modified =>
          simp
      | directory | closed | link =>
          simp
    · rw [contentAt, hnode]
      cases other with
      | directory | closed => simp
      | file | link => cases hdirectory
  rw [readFile, openAt]
  constructor
  · intro h
    split at h
    · cases h
    · rename_i place hopen
      split at hopen
      · cases hopen
      · cases hopen
      · rename_i found node _ hstat
        cases hopen
        rcases (hcontent _ _ hstat).mp h with ⟨modified, rfl⟩
        exact ⟨_, modified, hstat⟩
  · rintro ⟨place, modified, hstat⟩
    rw [hstat]
    exact (hcontent _ _ hstat).mpr ⟨modified, rfl⟩

end FileTree
end BulkTransfer
