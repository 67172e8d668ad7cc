import BulkTransfer.FileSystem.Access

/-!
# How names are followed

What following names does up to the next link is said here once, with a constructor for each
kind of name and of what stands at it.  A proof about names that are followed is an induction
on this relation and does not open the function.
-/

namespace BulkTransfer

namespace Resolved

/-- The place that a path leads to, be it vacant. -/
def place : Resolved → Place
  | entry place _ => place
  | vacant directory name => directory ++ [name]

/-- What was found, if anything. -/
def node? : Resolved → Option Node
  | entry _ node => some node
  | vacant _ _ => none

end Resolved

namespace FileTree

/-- A name that leads to an entry of its own. -/
structure IsPlain (name : String) : Prop where
  ne_here : name ≠ "."
  ne_up : name ≠ ".."

/-- A name that is looked up in a directory. -/
structure IsLookedUp (name : String) : Prop extends IsPlain name where
  short : name.utf8ByteSize ≤ longestName

/-- How far names lead from a directory without another link. -/
inductive Follows (tree : FileTree) (followLast : Bool) : Place → List String → Progress → Prop
  | here (directory : Place) :
      Follows tree followLast directory [] (.arrived (.entry directory .directory))
  | stay {directory : Place} {rest : List String} {progress : Progress} :
      Follows tree followLast directory rest progress →
        Follows tree followLast directory ("." :: rest) progress
  | up {directory : Place} {rest : List String} {progress : Progress} :
      Follows tree followLast directory.dropLast rest progress →
        Follows tree followLast directory (".." :: rest) progress
  | long {directory : Place} {name : String} {rest : List String} (hname : IsPlain name)
      (hlong : longestName < name.utf8ByteSize) :
      Follows tree followLast directory (name :: rest) (.blocked .nameTooLong)
  | enter {directory : Place} {name : String} {rest : List String} {progress : Progress}
      (hname : IsLookedUp name) (hnode : tree.node? (directory ++ [name]) = some .directory) :
      Follows tree followLast (directory ++ [name]) rest progress →
        Follows tree followLast directory (name :: rest) progress
  | missing {directory : Place} {name : String} (hname : IsLookedUp name)
      (hnode : tree.node? (directory ++ [name]) = none) :
      Follows tree followLast directory [name] (.arrived (.vacant directory name))
  | found {directory : Place} {name : String} {node : Node} (hname : IsLookedUp name)
      (hnode : tree.node? (directory ++ [name]) = some node) (hdirectory : node ≠ .directory)
      (hlink : followLast = true → ∀ target, node ≠ .link target) :
      Follows tree followLast directory [name] (.arrived (.entry (directory ++ [name]) node))
  | lost {directory : Place} {name : String} {rest : List String} (hname : IsLookedUp name)
      (hnode : tree.node? (directory ++ [name]) = none) (hrest : rest ≠ []) :
      Follows tree followLast directory (name :: rest) (.blocked .noEntry)
  | closed {directory : Place} {name : String} {rest : List String} (hname : IsLookedUp name)
      (hnode : tree.node? (directory ++ [name]) = some .closed) (hrest : rest ≠ []) :
      Follows tree followLast directory (name :: rest) (.blocked .accessDenied)
  | file {directory : Place} {name : String} {rest : List String} {content : ByteArray}
      {modified : Int} (hname : IsLookedUp name)
      (hnode : tree.node? (directory ++ [name]) = some (.file content modified))
      (hrest : rest ≠ []) :
      Follows tree followLast directory (name :: rest) (.blocked .notDirectory)
  | link {directory : Place} {name target : String} {rest : List String}
      (hname : IsLookedUp name)
      (hnode : tree.node? (directory ++ [name]) = some (.link target))
      (hrest : followLast = true ∨ rest ≠ []) :
      Follows tree followLast directory (name :: rest) (.redirected directory target rest)

variable {tree : FileTree} {followLast : Bool} {directory : Place} {name : String}
  {names rest : List String} {progress : Progress}

theorem follows (tree : FileTree) (followLast : Bool) (directory : Place) (names : List String) :
    tree.Follows followLast directory names (tree.follow followLast directory names) := by
  induction names generalizing directory with
  | nil => exact .here directory
  | cons name rest ih =>
      rw [follow]
      split
      case isTrue hhere =>
        rw [hhere]
        exact .stay (ih directory)
      case isFalse hhere =>
        split
        case isTrue hup =>
          rw [hup]
          exact .up (ih directory.dropLast)
        case isFalse hup =>
          split
          case isTrue hlong => exact .long ⟨hhere, hup⟩ hlong
          case isFalse hlong =>
            have hname : IsLookedUp name := ⟨⟨hhere, hup⟩, Nat.not_lt.mp hlong⟩
            cases hnode : tree.node? (directory ++ [name]) with
            | none =>
                cases rest with
                | nil => exact .missing hname hnode
                | cons next rest => exact .lost hname hnode (List.cons_ne_nil next rest)
            | some node =>
                cases node with
                | directory => exact .enter hname hnode (ih (directory ++ [name]))
                | closed =>
                    cases rest with
                    | nil =>
                        exact .found hname hnode Node.noConfusion fun _ _ => Node.noConfusion
                    | cons next rest => exact .closed hname hnode (List.cons_ne_nil next rest)
                | file content modified =>
                    cases rest with
                    | nil =>
                        exact .found hname hnode Node.noConfusion fun _ _ => Node.noConfusion
                    | cons next rest => exact .file hname hnode (List.cons_ne_nil next rest)
                | link target =>
                    cases rest with
                    | cons next rest =>
                        exact .link hname hnode (Or.inr (List.cons_ne_nil next rest))
                    | nil =>
                        cases followLast with
                        | true => exact .link hname hnode (Or.inl rfl)
                        | false => exact .found hname hnode Node.noConfusion fun h => nomatch h

theorem follow_lookedUp (hname : IsLookedUp name) (directory : Place) (rest : List String) :
    tree.follow followLast directory (name :: rest) =
      match tree.node? (directory ++ [name]) with
      | none =>
          if rest.isEmpty then .arrived (.vacant directory name) else .blocked .noEntry
      | some .directory => tree.follow followLast (directory ++ [name]) rest
      | some .closed =>
          if rest.isEmpty then .arrived (.entry (directory ++ [name]) .closed)
          else .blocked .accessDenied
      | some (.file content modified) =>
          if rest.isEmpty then
            .arrived (.entry (directory ++ [name]) (.file content modified))
          else .blocked .notDirectory
      | some (.link target) =>
          if rest.isEmpty && !followLast then
            .arrived (.entry (directory ++ [name]) (.link target))
          else .redirected directory target rest := by
  rewrite [follow, if_neg hname.ne_here, if_neg hname.ne_up, if_neg (Nat.not_lt.mpr hname.short)]
  cases tree.node? (directory ++ [name]) with
  | none => rfl
  | some node => cases node <;> rfl

theorem follow_here (directory : Place) (rest : List String) :
    tree.follow followLast directory ("." :: rest) = tree.follow followLast directory rest := by
  rw [follow, if_pos rfl]

theorem follow_up (directory : Place) (rest : List String) :
    tree.follow followLast directory (".." :: rest) =
      tree.follow followLast directory.dropLast rest := by
  rw [follow, if_neg (by decide), if_pos rfl]

theorem follow_enter (hname : IsLookedUp name)
    (hnode : tree.node? (directory ++ [name]) = some .directory) (rest : List String) :
    tree.follow followLast directory (name :: rest) =
      tree.follow followLast (directory ++ [name]) rest := by
  rw [follow_lookedUp hname, hnode]

theorem follow_of_follows (h : tree.Follows followLast directory names progress) :
    tree.follow followLast directory names = progress := by
  induction h with
  | here => rfl
  | stay _ ih => rw [follow_here, ih]
  | up _ ih => rw [follow_up, ih]
  | long hname hlong =>
      rw [follow, if_neg hname.ne_here, if_neg hname.ne_up, if_pos hlong]
  | enter hname hnode _ ih => rw [follow_enter hname hnode, ih]
  | missing hname hnode =>
      rw [follow_lookedUp hname, hnode]
      rfl
  | @found directory name node hname hnode hdirectory hlink =>
      rw [follow_lookedUp hname, hnode]
      cases node with
      | directory => exact absurd rfl hdirectory
      | closed | file => rfl
      | link target =>
          cases followLast with
          | true => exact absurd rfl (hlink rfl target)
          | false => rfl
  | lost hname hnode hrest | closed hname hnode hrest | file hname hnode hrest =>
      rw [follow_lookedUp hname, hnode]
      exact if_neg fun hempty => hrest (List.isEmpty_iff.mp hempty)
  | @link directory name target rest hname hnode hrest =>
      rw [follow_lookedUp hname, hnode]
      refine if_neg fun hlast => ?_
      rw [Bool.and_eq_true, List.isEmpty_iff, Bool.not_eq_true'] at hlast
      rcases hrest with htrue | hne
      · exact Bool.false_ne_true (hlast.2.symm.trans htrue)
      · exact hne hlast.1

/-- Following names does what is said here, and nothing else. -/
theorem follow_eq_iff :
    tree.follow followLast directory names = progress ↔
      tree.Follows followLast directory names progress :=
  ⟨fun h => h ▸ follows tree followLast directory names, follow_of_follows⟩

end FileTree
end BulkTransfer
