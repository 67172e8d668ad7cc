import BulkTransfer.Proofs.FileSystem.Interruptions

/-!
# Trees that lose entries

Where entries are only removed, a path that leads to an entry has led to it all along.  So what
cannot be removed cannot be removed later, and what has been removed does not come back under
its path, whatever links the paths go through.
-/

namespace BulkTransfer
namespace FileTree

variable {tree between later : FileTree} {followLast : Bool} {links : Nat} {path : String}
  {directory place : Place} {names rest : List String} {node : Node}

/-- A later tree that has no entry of its own. -/
structure Shrinks (tree later : FileTree) : Prop where
  workingDirectory : later.workingDirectory = tree.workingDirectory
  held : ∀ place node, later.node? place = some node → tree.node? place = some node

namespace Shrinks

theorem refl (tree : FileTree) : tree.Shrinks tree :=
  ⟨rfl, fun _ _ h => h⟩

theorem trans (h : tree.Shrinks between) (h' : between.Shrinks later) : tree.Shrinks later :=
  ⟨h'.workingDirectory.trans h.workingDirectory,
    fun place node hnode => h.held place node (h'.held place node hnode)⟩

/-- Names that lead to an entry have led to it before. -/
theorem leads (h : tree.Shrinks later)
    (hleads : later.Leads followLast links directory names (.entry place node)) :
    tree.Leads followLast links directory names (.entry place node) := by
  generalize hresolved : Resolved.entry place node = resolved at hleads
  induction hleads with
  | here directory => exact .here directory
  | stay _ ih => exact .stay (ih hresolved)
  | up _ ih => exact .up (ih hresolved)
  | enter hname hnode _ ih => exact .enter hname (h.held _ _ hnode) (ih hresolved)
  | missing => cases hresolved
  | found hname hnode hdirectory hlink => exact .found hname (h.held _ _ hnode) hdirectory hlink
  | link hname hnode hrest _ ih => exact .link hname (h.held _ _ hnode) hrest (ih hresolved)

theorem resolve (h : tree.Shrinks later)
    (hresolve : later.resolve followLast path = .ok (.entry place node)) :
    tree.resolve followLast path = .ok (.entry place node) := by
  rcases leads_of_resolve hresolve with ⟨links, hle, hleads⟩
  rw [h.workingDirectory] at hleads
  exact resolve_eq_ok_iff.mpr
    ⟨(resolve_eq_ok_iff.mp hresolve).1, followLinks_of_leads (h.leads hleads) hle⟩

theorem stat (h : tree.Shrinks later) (hstat : later.stat path = .ok (place, node)) :
    tree.stat path = .ok (place, node) := by
  rcases stat_eq_ok_iff.mp hstat with ⟨hresolve, hslash⟩
  exact stat_eq_ok_iff.mpr ⟨h.resolve hresolve, hslash⟩

end Shrinks

/-!
## What can be removed
-/

/-- Whether a path names a file or a link, which can be removed. -/
def Removable (tree : FileTree) (path : String) : Prop :=
  Path.endsInSlash path = false ∧
    ∃ place node, tree.resolve false path = .ok (.entry place node) ∧ node.isDirectory = false

theorem Removable.remove (hsound : tree.Sound) (h : tree.Removable path) :
    ∃ later, tree.remove path = .ok later ∧ later.Sound ∧ tree.Shrinks later := by
  rcases h with ⟨hslash, place, node, hresolve, hdirectory⟩
  have hne : node ≠ .directory := by
    rintro rfl
    cases hdirectory
  have hnode := hsound.node?_of_resolve hresolve hne
  have hroot : place ≠ [] := by
    rintro rfl
    cases hnode
    cases hdirectory
  have hremove : tree.remove path = .ok (tree.drop place) := by
    rw [FileTree.remove, hresolve]
    cases node with
    | directory | closed => cases hdirectory
    | file | link =>
        dsimp only
        rw [if_neg (by rw [hslash]; exact Bool.false_ne_true)]
  have hevolves : tree.Evolves (fun _ => False) (fun _ => True) (tree.drop place) :=
    evolves_drop hsound hnode hdirectory trivial
  refine ⟨tree.drop place, hremove, hevolves.sound, rfl, fun other held hheld => ?_⟩
  rw [node?_drop tree other hroot] at hheld
  split at hheld
  · cases hheld
  · exact hheld

theorem removable_of_remove (hsound : tree.Sound) (h : tree.remove path = .ok later) :
    tree.Removable path := by
  rcases remove_eq_ok hsound h with ⟨place, node, hresolve, -, hdirectory, hslash, -⟩
  exact ⟨hslash, place, node, hresolve, hdirectory⟩

theorem Removable.of_shrinks (hshrinks : tree.Shrinks later) (h : later.Removable path) :
    tree.Removable path := by
  rcases h with ⟨hslash, place, node, hresolve, hdirectory⟩
  exact ⟨hslash, place, node, hshrinks.resolve hresolve, hdirectory⟩

/-- What has been removed cannot be removed again. -/
theorem not_removable_of_removed (hsound : tree.Sound) (h : tree.remove path = .ok later) :
    ¬ later.Removable path := by
  rintro ⟨-, place, node, hresolve, -⟩
  cases node?_of_removed hsound h hresolve

/-- A path that leads to a file names one, or a link. -/
theorem removable_of_stat {content : ByteArray} {modified : Int}
    (h : tree.stat path = .ok (place, .file content modified)) : tree.Removable path := by
  rcases stat_eq_ok_iff.mp h with ⟨hresolve, hend⟩
  have hslash : Path.endsInSlash path = false := by
    rw [Bool.eq_false_iff]
    intro htrue
    cases hend htrue
  refine ⟨hslash, ?_⟩
  by_cases hlink : tree.IsLink path
  · rcases hlink with ⟨named, target, hnamed⟩
    exact ⟨named, .link target, hnamed, rfl⟩
  · exact ⟨place, _, resolve_unfollowed hresolve hlink, rfl⟩

/-!
## Directories in front of a path
-/

/-- Names in front of others lead to a directory. -/
theorem Leads.front (h : tree.Leads followLast links directory (names ++ rest) (.entry place node))
    (hrest : rest ≠ []) : ∃ fewer ≤ links, ∃ above,
      tree.Leads true fewer directory names (.entry above .directory) := by
  generalize hresolved : Resolved.entry place node = resolved at h
  generalize hall : names ++ rest = all at h
  induction h generalizing names with
  | here directory => exact absurd (List.append_eq_nil_iff.mp hall).2 hrest
  | @stay links directory behind resolved _ ih =>
      cases names with
      | nil => exact ⟨0, Nat.zero_le _, directory, .here directory⟩
      | cons first names =>
          cases hall
          rcases ih hresolved rfl with ⟨fewer, hle, above, hleads⟩
          exact ⟨fewer, hle, above, .stay hleads⟩
  | @up links directory behind resolved _ ih =>
      cases names with
      | nil => exact ⟨0, Nat.zero_le _, directory, .here directory⟩
      | cons first names =>
          cases hall
          rcases ih hresolved rfl with ⟨fewer, hle, above, hleads⟩
          exact ⟨fewer, hle, above, .up hleads⟩
  | @enter links directory name behind resolved hname hnode _ ih =>
      cases names with
      | nil => exact ⟨0, Nat.zero_le _, directory, .here directory⟩
      | cons first names =>
          cases hall
          rcases ih hresolved rfl with ⟨fewer, hle, above, hleads⟩
          exact ⟨fewer, hle, above, .enter hname hnode hleads⟩
  | missing => cases hresolved
  | @found directory name node hname hnode hdirectory hlink =>
      cases names with
      | nil => exact ⟨0, Nat.le_refl 0, directory, .here directory⟩
      | cons first names =>
          exact absurd (List.append_eq_nil_iff.mp (List.cons.inj hall).2).2 hrest
  | @link links directory name target behind resolved hname hnode hlast _ ih =>
      cases names with
      | nil => exact ⟨0, Nat.zero_le _, directory, .here directory⟩
      | cons first names =>
          cases hall
          rcases ih hresolved (List.append_assoc _ _ _) with ⟨fewer, hle, above, hleads⟩
          exact ⟨fewer + 1, Nat.succ_le_succ hle, above, .link hname hnode (Or.inl rfl) hleads⟩

end FileTree
end BulkTransfer
