import BulkTransfer.FileCopy
import BulkTransfer.Proofs.FileSystem.Failures
import BulkTransfer.Proofs.FileSystem.Resolution

/-!
# How a file tree evolves

Operations on a tree make directories at vacant places, write files, and remove files and
links.  A relation between an earlier tree and a later one says at which places files may
have been written and where entries may have been removed; directories stay, and no link
appears.  The relation composes, so it holds of a whole computation on a disk if it holds of
the primitive operations in it.
-/

namespace BulkTransfer

/-- How what a place holds may change, where files may be written and where entries may be
removed. -/
inductive Turns (written removed : Prop) : Option Node → Option Node → Prop
  | same (held : Option Node) : Turns written removed held held
  | made : Turns written removed none (some .directory)
  | filled {held : Option Node} {content : ByteArray} {modified : Int} (allowed : written)
      (file : ∀ node, held = some node → node.isFile = true) :
      Turns written removed held (some (.file content modified))
  | replaced {held later : Option Node} (allowed : removed)
      (before : ∀ node, held = some node → node.isDirectory = false)
      (after : ∀ node, later = some node → node = .directory ∨ written ∧ node.isFile = true) :
      Turns written removed held later

namespace Turns

variable {written removed : Prop} {held between later : Option Node}

theorem mono {written' removed' : Prop} (hwritten : written → written')
    (hremoved : removed → removed') (h : Turns written removed held later) :
    Turns written' removed' held later := by
  cases h with
  | same => exact .same held
  | made => exact .made
  | filled allowed file => exact .filled (hwritten allowed) file
  | replaced allowed before after =>
      exact .replaced (hremoved allowed) before fun node hnode =>
        (after node hnode).imp_right fun h => ⟨hwritten h.1, h.2⟩

theorem isDirectory_of_isFile {node : Node} (h : node.isFile = true) :
    node.isDirectory = false := by
  cases node with
  | file content modified => rfl
  | directory | closed | link => cases h

/-- What holds entries is never replaced. -/
theorem eq_of_isDirectory {node : Node} (h : Turns written removed (some node) later)
    (hdirectory : node.isDirectory = true) : later = some node := by
  cases h with
  | same => rfl
  | filled allowed file =>
      rw [isDirectory_of_isFile (file node rfl)] at hdirectory
      cases hdirectory
  | replaced allowed before after =>
      rw [before node rfl] at hdirectory
      cases hdirectory

theorem trans (h : Turns written removed held between) (h' : Turns written removed between later) :
    Turns written removed held later := by
  cases h with
  | same => exact h'
  | made =>
      rw [h'.eq_of_isDirectory rfl]
      exact .made
  | filled allowed file =>
      cases h' with
      | same => exact .filled allowed file
      | filled => exact .filled allowed file
      | replaced allowed' before after =>
          exact .replaced allowed' (fun node hnode => isDirectory_of_isFile (file node hnode)) after
  | replaced allowed before after =>
      cases h' with
      | same => exact .replaced allowed before after
      | made =>
          refine .replaced allowed before fun node hnode => Or.inl ?_
          exact (Option.some.inj hnode).symm
      | filled allowed' =>
          refine .replaced allowed before fun node hnode => Or.inr ⟨allowed', ?_⟩
          cases hnode
          rfl
      | replaced _ _ after' => exact .replaced allowed before after'

/-- Where nothing is written or removed, only a directory can appear. -/
theorem eq_or_made (h : Turns written removed held later) (hwritten : ¬ written)
    (hremoved : ¬ removed) : later = held ∨ held = none ∧ later = some .directory := by
  cases h with
  | same => exact Or.inl rfl
  | made => exact Or.inr ⟨rfl, rfl⟩
  | filled allowed file => exact absurd allowed hwritten
  | replaced allowed before after => exact absurd allowed hremoved

/-- Without writing nothing but a directory appears where nothing was. -/
theorem eq_none_or_directory (h : Turns written removed held later) (hwritten : ¬ written)
    (hheld : held = none ∨ held = some .directory) :
    later = none ∨ later = some .directory := by
  cases h with
  | same => exact hheld
  | made => exact Or.inr rfl
  | filled allowed file => exact absurd allowed hwritten
  | replaced allowed before after =>
      cases later with
      | none => exact Or.inl rfl
      | some node =>
          rcases after node rfl with rfl | ⟨hfile, -⟩
          · exact Or.inr rfl
          · exact absurd hfile hwritten

/-- A link is an old one. -/
theorem eq_of_link {target : String} (h : Turns written removed held (some (.link target))) :
    held = some (.link target) := by
  cases h with
  | same => rfl
  | replaced allowed before after =>
      rcases after _ rfl with hnode | ⟨-, hnode⟩
      · cases hnode
      · cases hnode

end Turns

namespace FileTree

/-- A later tree: files may have been written at some places and entries removed at some. -/
structure Evolves (written removed : Place → Prop) (tree later : FileTree) : Prop where
  workingDirectory : later.workingDirectory = tree.workingDirectory
  turns : ∀ place, Turns (written place) (removed place) (tree.node? place) (later.node? place)
  sound : later.Sound

/-- A later tree from which nothing was removed. -/
abbrev Grows (written : Place → Prop) (tree later : FileTree) : Prop :=
  tree.Evolves written (fun _ => False) later

variable {written removed : Place → Prop} {tree between later : FileTree}

namespace Evolves

theorem refl (hsound : tree.Sound) : tree.Evolves written removed tree :=
  ⟨rfl, fun _ => .same _, hsound⟩

theorem trans (h : tree.Evolves written removed between)
    (h' : between.Evolves written removed later) : tree.Evolves written removed later :=
  ⟨h'.workingDirectory.trans h.workingDirectory,
    fun place => (h.turns place).trans (h'.turns place), h'.sound⟩

theorem mono {written' removed' : Place → Prop} (h : tree.Evolves written removed later)
    (hwritten : ∀ place, written place → written' place)
    (hremoved : ∀ place, removed place → removed' place) :
    tree.Evolves written' removed' later :=
  ⟨h.workingDirectory, fun place => (h.turns place).mono (hwritten place) (hremoved place),
    h.sound⟩

theorem directory (h : tree.Evolves written removed later) {place : Place}
    (hnode : tree.node? place = some .directory) : later.node? place = some .directory := by
  have hturns := h.turns place
  rw [hnode] at hturns
  exact hturns.eq_of_isDirectory rfl

theorem node?_of_some (h : tree.Grows (fun _ => False) later) {place : Place} {node : Node}
    (hnode : tree.node? place = some node) : later.node? place = some node := by
  have hturns := h.turns place
  rw [hnode] at hturns
  rcases hturns.eq_or_made id id with hsame | ⟨hnone, -⟩
  · exact hsame
  · cases hnone

theorem linkless (h : tree.Evolves written removed later) {place : Place}
    (hlinkless : tree.Linkless place) : later.Linkless place := by
  intro names target hnode
  have hturns := h.turns (place ++ names)
  rw [hnode] at hturns
  exact hlinkless names target hturns.eq_of_link

theorem opens (h : tree.Evolves written removed later) {place : Place} {names : List String}
    (hopens : tree.Opens place names) : later.Opens place names := by
  induction names generalizing place with
  | nil => trivial
  | cons name rest ih =>
      rcases hopens with ⟨hshort, hdirectory, hopens⟩
      exact ⟨hshort, fun hrest => h.directory (hdirectory hrest), ih hopens⟩

/-- The directories in front of an old entry are old. -/
theorem opens_of_opens (h : tree.Evolves written removed later) (hsound : tree.Sound)
    {place : Place} {names : List String} {node : Node}
    (hnode : tree.node? (place ++ names) = some node) (hopens : later.Opens place names) :
    tree.Opens place names := by
  induction names generalizing place with
  | nil => trivial
  | cons name rest ih =>
      rcases hopens with ⟨hshort, hdirectory, hopens⟩
      rw [← List.singleton_append, ← List.append_assoc] at hnode
      refine ⟨hshort, fun hrest => ?_, ih hnode hopens⟩
      rcases hsound.holdsEntries hrest hnode with ⟨above, habove, hholds⟩
      have hturns := h.turns (place ++ [name])
      rw [habove] at hturns
      rw [habove, ← hturns.eq_of_isDirectory hholds]
      exact hdirectory hrest

theorem follow_directory (h : tree.Evolves written removed later) {directory place : Place}
    {names : List String}
    (hfollow : tree.follow true directory names = .arrived (.entry place .directory)) :
    later.follow true directory names = .arrived (.entry place .directory) := by
  rw [follow_eq_iff] at hfollow ⊢
  generalize hprogress : Progress.arrived (.entry place .directory) = progress at hfollow ⊢
  induction hfollow with
  | here directory => exact .here directory
  | stay _ ih => exact .stay (ih hprogress)
  | up _ ih => exact .up (ih hprogress)
  | enter hname hnode _ ih => exact .enter hname (h.directory hnode) (ih hprogress)
  | found hname hnode hdirectory =>
      cases hprogress
      exact absurd rfl hdirectory
  | long | missing | lost | closed | file | link => cases hprogress

theorem roots (h : tree.Evolves written removed later) {base : String} {root : Place}
    (hroot : tree.Roots base root) : later.Roots base root := by
  constructor
  · rw [h.workingDirectory]
    exact h.follow_directory hroot.arrives
  · exact h.linkless hroot.linkless

section Roots

variable {base path : String} {root : Place} {names : List String}
  (h : tree.Evolves written removed later) (hsound : tree.Sound) (hroot : tree.Roots base root)
  (hpath : Continues base path names)
include h hsound hroot hpath

/-- A file at a place where nothing is written or removed is there before and after. -/
theorem stat_file_iff (hwritten : ¬ written (root ++ names)) (hremoved : ¬ removed (root ++ names))
    {place : Place} {content : ByteArray} {modified : Int} :
    later.stat path = .ok (place, .file content modified) ↔
      tree.stat path = .ok (place, .file content modified) := by
  have hnode : later.node? (root ++ names) = some (.file content modified) ↔
      tree.node? (root ++ names) = some (.file content modified) := by
    rcases (h.turns (root ++ names)).eq_or_made hwritten hremoved with hsame | ⟨hnone, hmade⟩
    · rw [hsame]
    · rw [hnone, hmade]
      exact ⟨fun h => (by cases h), fun h => (by cases h)⟩
  rw [(h.roots hroot).stat_eq_ok_iff hpath, hroot.stat_eq_ok_iff hpath, hnode]
  constructor
  · rintro ⟨husable, hopens, hplace, hfile, hslash⟩
    exact ⟨husable, h.opens_of_opens hsound hfile hopens, hplace, hfile, hslash⟩
  · rintro ⟨husable, hopens, hplace, hfile, hslash⟩
    exact ⟨husable, h.opens hopens, hplace, hfile, hslash⟩

theorem readFile_eq_ok_iff (hwritten : ¬ written (root ++ names))
    (hremoved : ¬ removed (root ++ names)) {content : ByteArray} :
    later.readFile path = .ok content ↔ tree.readFile path = .ok content := by
  rw [h.sound.readFile_eq_ok_iff, hsound.readFile_eq_ok_iff]
  exact exists_congr fun place => exists_congr fun modified =>
    h.stat_file_iff hsound hroot hpath hwritten hremoved

omit hsound in
/-- A directory that a path leads to is still there. -/
theorem stat_directory {place : Place} {node : Node} (hstat : tree.stat path = .ok (place, node))
    (hdirectory : node.isDirectory = true) : later.stat path = .ok (place, node) := by
  rcases (hroot.stat_eq_ok_iff hpath).mp hstat with ⟨husable, hopens, hplace, hnode, hslash⟩
  refine ((h.roots hroot).stat_eq_ok_iff hpath).mpr ⟨husable, h.opens hopens, hplace, ?_, hslash⟩
  have hturns := h.turns (root ++ names)
  rw [hnode] at hturns
  exact hturns.eq_of_isDirectory hdirectory

end Roots

end Evolves

/-!
## Single changes
-/

/-- A tree is sound if it comes from a sound one and what is new is in a directory. -/
theorem evolves_of_turns (hsound : tree.Sound)
    (hworking : later.workingDirectory = tree.workingDirectory)
    (hturns : ∀ place, Turns (written place) (removed place) (tree.node? place) (later.node? place))
    (hnew : ∀ place name node, later.node? (place ++ [name]) = some node →
      tree.node? (place ++ [name]) = none → tree.HoldsEntries place) :
    tree.Evolves written removed later := by
  have hholds : ∀ place, tree.HoldsEntries place → later.HoldsEntries place := by
    rintro place ⟨node, hnode, hdirectory⟩
    have hplace := hturns place
    rw [hnode] at hplace
    exact ⟨node, hplace.eq_of_isDirectory hdirectory, hdirectory⟩
  refine ⟨hworking, hturns, ?_, ?_⟩
  · intro place name node hnode
    refine hholds place ?_
    cases hold : tree.node? (place ++ [name]) with
    | none => exact hnew place name node hnode hold
    | some other => exact hsound.parent place name other hold
  · rw [hworking]
    exact hholds _ hsound.workingDirectory

theorem evolves_put (hsound : tree.Sound) {place : Place} {node : Node} (hne : place ≠ [])
    (hturns : Turns (written place) (removed place) (tree.node? place) (some node))
    (hparent : tree.node? place = none → tree.HoldsEntries place.dropLast) :
    tree.Evolves written removed (tree.put place node) := by
  refine evolves_of_turns hsound rfl (fun other => ?_) fun front name other hother hold => ?_
  · rw [node?_put tree node other hne]
    split
    · rename_i hsame
      rw [← hsame]
      exact hturns
    · exact .same _
  · rw [node?_put tree node _ hne] at hother
    split at hother
    · rename_i hsame
      rw [hsame, List.dropLast_concat] at hparent
      exact hparent hold
    · rw [hold] at hother
      cases hother

theorem evolves_drop (hsound : tree.Sound) {place : Place} {node : Node}
    (hnode : tree.node? place = some node) (hdirectory : node.isDirectory = false)
    (hremoved : removed place) : tree.Evolves written removed (tree.drop place) := by
  have hne : place ≠ [] := by
    rintro rfl
    cases hnode
    cases hdirectory
  refine evolves_of_turns hsound rfl (fun other => ?_) fun front name other hother hold => ?_
  · rw [node?_drop tree other hne]
    split
    · rename_i hsame
      rw [← hsame, hnode]
      refine .replaced hremoved ?_ fun _ h => by cases h
      intro found hfound
      rwa [← Option.some.inj hfound]
    · exact .same _
  · rw [node?_drop tree _ hne, hold] at hother
    split at hother <;> cases hother

theorem makeDirectory_eq_ok {path : String} (h : tree.makeDirectory path = .ok later) :
    ∃ directory name, tree.resolve false path = .ok (.vacant directory name) ∧
      later = tree.put (directory ++ [name]) .directory := by
  rw [makeDirectory] at h
  split at h
  · cases h
  · rename_i directory name hresolve
    cases h
    exact ⟨directory, name, hresolve, rfl⟩
  · cases h

theorem evolves_makeDirectory (hsound : tree.Sound) {path : String}
    (h : tree.makeDirectory path = .ok later) : tree.Evolves written removed later := by
  rcases makeDirectory_eq_ok h with ⟨directory, name, hresolve, rfl⟩
  rcases hsound.resolve hresolve with ⟨hholds, hnode⟩
  refine evolves_put hsound (List.append_ne_nil_of_right_ne_nil _ (List.cons_ne_nil _ _)) ?_ ?_
  · rw [hnode]
    exact .made
  · rw [List.dropLast_concat]
    exact fun _ => hholds

/-- A file is created at the place of the path, where there was none or another file. -/
theorem create_eq_ok (hsound : tree.Sound) {path : String} {place : Place}
    (h : tree.create path = .ok (place, later)) :
    ∃ resolved, tree.resolve true path = .ok resolved ∧ resolved.place = place ∧
      resolved.node? = tree.node? place ∧ Path.endsInSlash path = false ∧ place ≠ [] ∧
      (∀ node, tree.node? place = some node → node.isFile = true) ∧
      (tree.node? place = none → tree.HoldsEntries place.dropLast) ∧
      later = tree.put place (.file .empty tree.now) := by
  rw [create] at h
  split at h
  · cases h
  · rename_i resolved hresolve
    have hanswer := hsound.resolve hresolve
    split at h
    · cases h
    · rename_i hslash
      have hslash := Bool.eq_false_iff.mpr hslash
      cases resolved with
      | vacant directory name =>
          cases h
          rcases hanswer with ⟨hholds, hnode⟩
          refine ⟨_, hresolve, rfl, ?_, hslash,
            List.append_ne_nil_of_right_ne_nil _ (List.cons_ne_nil _ _), ?_, ?_, rfl⟩
          · rw [hnode, Resolved.node?]
          · intro node hsome
            rw [hnode] at hsome
            cases hsome
          · rw [List.dropLast_concat]
            exact fun _ => hholds
      | entry found node =>
          cases node with
          | directory | closed => cases h
          | link target => exact absurd hresolve resolve_true_ne_link
          | file content modified =>
              cases h
              have hnode : tree.node? place = some (.file content modified) := by
                rcases hanswer with hnode | ⟨hnode, -⟩
                · exact hnode
                · cases hnode
              refine ⟨_, hresolve, rfl, ?_, hslash, ?_, ?_, ?_, rfl⟩
              · rw [hnode, Resolved.node?]
              · rintro rfl
                cases hnode
              · intro other hother
                rw [hnode] at hother
                cases hother
                rfl
              · intro hnone
                rw [hnode] at hnone
                cases hnone

theorem evolves_create (hsound : tree.Sound) {path : String} {place : Place}
    (hwritten : ∀ resolved, tree.resolve true path = .ok resolved → written resolved.place)
    (h : tree.create path = .ok (place, later)) : tree.Evolves written removed later := by
  rcases create_eq_ok hsound h with ⟨resolved, hresolve, hplace, -, -, hne, hfile, hparent, rfl⟩
  refine evolves_put hsound hne (.filled ?_ hfile) hparent
  rw [← hplace]
  exact hwritten resolved hresolve

theorem node?_append_of_file {place : Place} {bytes content : ByteArray} {modified : Int}
    (h : tree.node? place = some (.file content modified)) (other : Place) :
    (tree.append place bytes).node? other =
      if place = other then some (.file (content ++ bytes) tree.now) else tree.node? other := by
  have hne : place ≠ [] := by
    rintro rfl
    cases h
  rw [append, h]
  exact node?_put tree _ other hne

theorem evolves_append (hsound : tree.Sound) {place : Place} (hwritten : written place)
    (bytes : ByteArray) : tree.Evolves written removed (tree.append place bytes) := by
  rw [append]
  split
  · rename_i content modified hnode
    refine evolves_put hsound ?_ (.filled hwritten ?_) ?_
    · rintro rfl
      cases hnode
    · intro node hsome
      rw [hnode] at hsome
      cases hsome
      rfl
    · intro hnone
      rw [hnode] at hnone
      cases hnone
  · exact .refl hsound

theorem remove_eq_ok (hsound : tree.Sound) {path : String} (h : tree.remove path = .ok later) :
    ∃ place node, tree.resolve false path = .ok (.entry place node) ∧
      tree.node? place = some node ∧ node.isDirectory = false ∧
      Path.endsInSlash path = false ∧ later = tree.drop place := by
  rw [remove] at h
  split at h
  · cases h
  · cases h
  · cases h
  · cases h
  · rename_i place node hdirectory hclosed hresolve
    split at h
    · cases h
    · rename_i hslash
      cases h
      have hnode : tree.node? place = some node := by
        rcases hsound.resolve hresolve with hnode | ⟨rfl, -⟩
        · exact hnode
        · exact absurd rfl hdirectory
      refine ⟨place, node, hresolve, hnode, ?_, Bool.eq_false_iff.mpr hslash, rfl⟩
      cases node with
      | directory => exact absurd rfl hdirectory
      | closed => exact absurd rfl hclosed
      | file | link => rfl

theorem evolves_remove (hsound : tree.Sound) {path : String}
    (hremoved : ∀ resolved, tree.resolve false path = .ok resolved → removed resolved.place)
    (h : tree.remove path = .ok later) : tree.Evolves written removed later := by
  rcases remove_eq_ok hsound h with ⟨place, node, hresolve, hnode, hdirectory, -, rfl⟩
  exact evolves_drop hsound hnode hdirectory (hremoved _ hresolve)

section Roots

variable {base path : String} {root : Place} {names : List String} (hsound : tree.Sound)
  (hroot : tree.Roots base root) (hpath : Continues base path names)
include hsound hroot hpath

/-- What is removed behind a directory was a file, and the place is vacant. -/
theorem Roots.remove_eq_ok (h : tree.remove path = .ok later) :
    IsUsable path ∧ tree.Opens root names ∧ later = tree.drop (root ++ names) ∧
      later.node? (root ++ names) = none ∧
      tree.Evolves written (· = root ++ names) later := by
  rcases FileTree.remove_eq_ok hsound h with ⟨place, node, hresolve, hnode, hdirectory, -, hlater⟩
  rcases (hroot.resolve_eq_ok_iff hpath).mp hresolve with ⟨husable, hopens, hfound⟩
  have hplace := congrArg Resolved.place hfound
  rw [place_resolvedAt] at hplace
  have hplace : place = root ++ names := hplace
  subst hplace
  have hne : root ++ names ≠ [] := List.append_ne_nil_of_right_ne_nil _ hpath.ne_nil
  refine ⟨husable, hopens, hlater, ?_, ?_⟩
  · rw [hlater, node?_drop tree _ hne, if_pos rfl]
  · rw [hlater]
    exact evolves_drop hsound hnode hdirectory rfl

/-- A file that cannot be removed was not there. -/
theorem Roots.readFile_of_remove_error {error : IoError} (h : tree.remove path = .error error)
    (content : ByteArray) : tree.readFile path ≠ .ok content := by
  rw [Ne, hsound.readFile_eq_ok_iff]
  rintro ⟨place, modified, hstat⟩
  rcases (hroot.stat_eq_ok_iff hpath).mp hstat with ⟨husable, hopens, -, hnode, hslash⟩
  have hresolve : tree.resolve false path = .ok (tree.resolvedAt (root ++ names)) :=
    (hroot.resolve_eq_ok_iff hpath).mpr ⟨husable, hopens, rfl⟩
  have hend : Path.endsInSlash path = false := by
    rw [Bool.eq_false_iff]
    intro hend
    cases hslash hend
  rw [resolvedAt_of_some hnode] at hresolve
  simp only [remove, hresolve, hend, Bool.false_eq_true, if_false] at h
  cases h

/-- A file that has been removed cannot be read. -/
theorem Roots.readFile_of_remove_ok (h : tree.remove path = .ok later) (content : ByteArray) :
    later.readFile path ≠ .ok content := by
  have hremoved : IsUsable path ∧ tree.Opens root names ∧ later = tree.drop (root ++ names) ∧
      later.node? (root ++ names) = none ∧
      tree.Evolves (fun _ => False) (· = root ++ names) later := hroot.remove_eq_ok hsound hpath h
  rcases hremoved with ⟨-, -, -, hvacant, hevolves⟩
  rw [Ne, hevolves.sound.readFile_eq_ok_iff]
  rintro ⟨place, modified, hstat⟩
  have hnode := (((hevolves.roots hroot).stat_eq_ok_iff hpath).mp hstat).2.2.2.1
  rw [hvacant] at hnode
  cases hnode

end Roots

end FileTree
end BulkTransfer
