import BulkTransfer.Proofs.FileSystem.Following

/-!
# How names lead to an entry

Following a path takes turns at names and at links.  Both are one relation here, with a
constructor for each kind of name and a count of the links, so that what is said about all
paths needs one induction.  A path leads to one thing only, and it still leads there when
something changes that it does not pass.
-/

namespace BulkTransfer
namespace FileTree

/-- How names lead from a directory to something, through a number of links. -/
inductive Leads (tree : FileTree) (followLast : Bool) :
    Nat → Place → List String → Resolved → Prop
  | here (directory : Place) : Leads tree followLast 0 directory [] (.entry directory .directory)
  | stay {links : Nat} {directory : Place} {rest : List String} {resolved : Resolved} :
      Leads tree followLast links directory rest resolved →
        Leads tree followLast links directory ("." :: rest) resolved
  | up {links : Nat} {directory : Place} {rest : List String} {resolved : Resolved} :
      Leads tree followLast links directory.dropLast rest resolved →
        Leads tree followLast links directory (".." :: rest) resolved
  | enter {links : Nat} {directory : Place} {name : String} {rest : List String}
      {resolved : Resolved} (hname : IsLookedUp name)
      (hnode : tree.node? (directory ++ [name]) = some .directory) :
      Leads tree followLast links (directory ++ [name]) rest resolved →
        Leads tree followLast links directory (name :: rest) resolved
  | missing {directory : Place} {name : String} (hname : IsLookedUp name)
      (hnode : tree.node? (directory ++ [name]) = none) :
      Leads tree followLast 0 directory [name] (.vacant directory name)
  | found {directory : Place} {name : String} {node : Node} (hname : IsLookedUp name)
      (hnode : tree.node? (directory ++ [name]) = some node) (hdirectory : node ≠ .directory)
      (hlink : followLast = true → ∀ target, node ≠ .link target) :
      Leads tree followLast 0 directory [name] (.entry (directory ++ [name]) node)
  | link {links : Nat} {directory : Place} {name target : String} {rest : List String}
      {resolved : Resolved} (hname : IsLookedUp name)
      (hnode : tree.node? (directory ++ [name]) = some (.link target))
      (hrest : followLast = true ∨ rest ≠ []) :
      Leads tree followLast links (startOf target directory) (namesOfTarget target ++ rest)
          resolved →
        Leads tree followLast (links + 1) directory (name :: rest) resolved

variable {tree later : FileTree} {followLast : Bool} {links links' : Nat}
  {directory directory' place place' : Place} {names rest : List String}
  {resolved resolved' : Resolved} {name : String} {node node' : Node}

/-!
## Following is leading
-/

theorem leads_of_follow (h : tree.follow followLast directory names = .arrived resolved) :
    tree.Leads followLast 0 directory names resolved := by
  rw [follow_eq_iff] at h
  generalize hprogress : Progress.arrived resolved = progress at h
  induction h with
  | here directory =>
      cases hprogress
      exact .here directory
  | stay _ ih => exact .stay (ih hprogress)
  | up _ ih => exact .up (ih hprogress)
  | enter hname hnode _ ih => exact .enter hname hnode (ih hprogress)
  | missing hname hnode =>
      cases hprogress
      exact .missing hname hnode
  | found hname hnode hdirectory hlink =>
      cases hprogress
      exact .found hname hnode hdirectory hlink
  | long | lost | closed | file | link => cases hprogress

theorem leads_of_redirected {target : String}
    (h : tree.follow followLast directory names = .redirected directory' target rest)
    (hleads : tree.Leads followLast links (startOf target directory')
      (namesOfTarget target ++ rest) resolved) :
    tree.Leads followLast (links + 1) directory names resolved := by
  rw [follow_eq_iff] at h
  generalize hprogress : Progress.redirected directory' target rest = progress at h
  induction h with
  | stay _ ih => exact .stay (ih hprogress)
  | up _ ih => exact .up (ih hprogress)
  | enter hname hnode _ ih => exact .enter hname hnode (ih hprogress)
  | link hname hnode hrest =>
      cases hprogress
      exact .link hname hnode hrest hleads
  | here | long | missing | found | lost | closed | file => cases hprogress

/-- One turn of following links. -/
theorem followLinks_eq (tree : FileTree) (followLast : Bool) (links : Nat) (directory : Place)
    (names : List String) :
    tree.followLinks followLast links directory names =
      match tree.follow followLast directory names with
      | .arrived resolved => .ok resolved
      | .blocked errno => .error errno
      | .redirected directory target rest =>
          match links with
          | 0 => .error .tooManyLinks
          | links + 1 =>
              tree.followLinks followLast links (startOf target directory)
                (namesOfTarget target ++ rest) := by
  cases links <;> rewrite [followLinks] <;> cases tree.follow followLast directory names <;> rfl

theorem followLinks_congr {names' : List String}
    (h : tree.follow followLast directory names = tree.follow followLast directory' names') :
    tree.followLinks followLast links directory names =
      tree.followLinks followLast links directory' names' := by
  rw [followLinks_eq, h, ← followLinks_eq]

theorem followLinks_of_leads (h : tree.Leads followLast links directory names resolved)
    {limit : Nat} (hlimit : links ≤ limit) :
    tree.followLinks followLast limit directory names = .ok resolved := by
  induction h generalizing limit with
  | here directory => rw [followLinks_eq, follow]
  | @stay links directory rest resolved _ ih =>
      rw [← ih hlimit]
      exact followLinks_congr (follow_here directory rest)
  | @up links directory rest resolved _ ih =>
      rw [← ih hlimit]
      exact followLinks_congr (follow_up directory rest)
  | @enter links directory name rest resolved hname hnode _ ih =>
      rw [← ih hlimit]
      exact followLinks_congr (follow_enter hname hnode rest)
  | missing hname hnode => rw [followLinks_eq, follow_of_follows (.missing hname hnode)]
  | found hname hnode hdirectory hlink =>
      rw [followLinks_eq, follow_of_follows (.found hname hnode hdirectory hlink)]
  | link hname hnode hrest _ ih =>
      cases limit with
      | zero => exact absurd hlimit (Nat.not_succ_le_zero _)
      | succ limit =>
          rw [followLinks_eq, follow_of_follows (.link hname hnode hrest)]
          exact ih (Nat.le_of_succ_le_succ hlimit)

/-- Links are followed to where the names lead. -/
theorem followLinks_eq_ok_iff {limit : Nat} :
    tree.followLinks followLast limit directory names = .ok resolved ↔
      ∃ links ≤ limit, tree.Leads followLast links directory names resolved := by
  constructor
  · intro h
    induction limit generalizing directory names with
    | zero =>
        rw [followLinks_eq] at h
        split at h
        · rename_i hfollow
          cases h
          exact ⟨0, Nat.le_refl 0, leads_of_follow hfollow⟩
        · cases h
        · cases h
    | succ limit ih =>
        rw [followLinks_eq] at h
        split at h
        · rename_i hfollow
          cases h
          exact ⟨0, Nat.zero_le _, leads_of_follow hfollow⟩
        · cases h
        · rename_i hfollow
          rcases ih h with ⟨links, hle, hleads⟩
          exact ⟨links + 1, Nat.succ_le_succ hle, leads_of_redirected hfollow hleads⟩
  · rintro ⟨links, hle, hleads⟩
    exact followLinks_of_leads hleads hle

/-!
## What a first name leads through
-/

namespace Leads

theorem of_stay (h : tree.Leads followLast links directory ("." :: rest) resolved) :
    tree.Leads followLast links directory rest resolved := by
  generalize hnames : "." :: rest = names at h
  cases h with
  | here => cases hnames
  | stay h =>
      cases hnames
      exact h
  | up => exact absurd (List.cons.inj hnames).1 (by decide)
  | enter hname | missing hname | found hname | link hname =>
      cases hnames
      exact absurd rfl hname.ne_here

theorem of_up (h : tree.Leads followLast links directory (".." :: rest) resolved) :
    tree.Leads followLast links directory.dropLast rest resolved := by
  generalize hnames : ".." :: rest = names at h
  cases h with
  | here => cases hnames
  | stay => exact absurd (List.cons.inj hnames).1 (by decide)
  | up h =>
      cases hnames
      exact h
  | enter hname | missing hname | found hname | link hname =>
      cases hnames
      exact absurd rfl hname.ne_up

theorem of_directory (hname : IsLookedUp name)
    (hnode : tree.node? (directory ++ [name]) = some .directory)
    (h : tree.Leads followLast links directory (name :: rest) resolved) :
    tree.Leads followLast links (directory ++ [name]) rest resolved := by
  cases h with
  | stay => exact absurd rfl hname.ne_here
  | up => exact absurd rfl hname.ne_up
  | enter _ _ h => exact h
  | missing _ hnode' =>
      rw [hnode] at hnode'
      cases hnode'
  | found _ hnode' hdirectory =>
      rw [hnode] at hnode'
      cases hnode'
      exact absurd rfl hdirectory
  | link _ hnode' =>
      rw [hnode] at hnode'
      cases hnode'

theorem of_none (hname : IsLookedUp name) (hnode : tree.node? (directory ++ [name]) = none)
    (h : tree.Leads followLast links directory (name :: rest) resolved) :
    rest = [] ∧ resolved = .vacant directory name := by
  cases h with
  | stay => exact absurd rfl hname.ne_here
  | up => exact absurd rfl hname.ne_up
  | missing => exact ⟨rfl, rfl⟩
  | enter _ hnode' | found _ hnode' | link _ hnode' =>
      rw [hnode] at hnode'
      cases hnode'

/-- Behind a file or a closed directory nothing can be looked up. -/
theorem of_some (hname : IsLookedUp name) (hnode : tree.node? (directory ++ [name]) = some node)
    (hdirectory : node ≠ .directory) (hlink : ∀ target, node ≠ .link target)
    (h : tree.Leads followLast links directory (name :: rest) resolved) :
    rest = [] ∧ resolved = .entry (directory ++ [name]) node := by
  cases h with
  | stay => exact absurd rfl hname.ne_here
  | up => exact absurd rfl hname.ne_up
  | enter _ hnode' =>
      rw [hnode] at hnode'
      exact absurd (Option.some.inj hnode') hdirectory
  | missing _ hnode' =>
      rw [hnode] at hnode'
      cases hnode'
  | found _ hnode' =>
      rw [hnode] at hnode'
      cases hnode'
      exact ⟨rfl, rfl⟩
  | link _ hnode' =>
      rw [hnode] at hnode'
      exact absurd (Option.some.inj hnode') (hlink _)

theorem of_link {target : String} (hname : IsLookedUp name)
    (hnode : tree.node? (directory ++ [name]) = some (.link target))
    (hrest : followLast = true ∨ rest ≠ [])
    (h : tree.Leads followLast links directory (name :: rest) resolved) :
    ∃ fewer, links = fewer + 1 ∧
      tree.Leads followLast fewer (startOf target directory) (namesOfTarget target ++ rest)
        resolved := by
  cases h with
  | stay => exact absurd rfl hname.ne_here
  | up => exact absurd rfl hname.ne_up
  | enter _ hnode' | missing _ hnode' =>
      rw [hnode] at hnode'
      cases hnode'
  | found _ hnode' _ hlink =>
      rw [hnode] at hnode'
      cases hnode'
      rcases hrest with htrue | hne
      · exact absurd rfl (hlink htrue target)
      · exact absurd rfl hne
  | link _ hnode' _ h =>
      rw [hnode] at hnode'
      cases hnode'
      exact ⟨_, rfl, h⟩

/-!
## One end
-/

/-- Names lead to one thing only. -/
theorem unique (h : tree.Leads followLast links directory names resolved)
    (h' : tree.Leads followLast links' directory names resolved') : resolved' = resolved := by
  induction h generalizing links' with
  | here directory =>
      cases h'
      rfl
  | stay _ ih => exact ih h'.of_stay
  | up _ ih => exact ih h'.of_up
  | enter hname hnode _ ih => exact ih (h'.of_directory hname hnode)
  | missing hname hnode => exact (h'.of_none hname hnode).2
  | @found directory name node hname hnode hdirectory hlink =>
      cases h' with
      | stay => exact absurd rfl hname.ne_here
      | up => exact absurd rfl hname.ne_up
      | enter _ hnode' =>
          rw [hnode] at hnode'
          exact absurd (Option.some.inj hnode') hdirectory
      | missing _ hnode' =>
          rw [hnode] at hnode'
          cases hnode'
      | found _ hnode' =>
          rw [hnode] at hnode'
          cases hnode'
          rfl
      | link _ hnode' hrest =>
          rw [hnode] at hnode'
          cases hnode'
          exact absurd rfl (hlink (hrest.resolve_right fun hne => hne rfl) _)
  | link hname hnode hrest _ ih =>
      rcases h'.of_link hname hnode hrest with ⟨fewer, -, hleads⟩
      exact ih hleads

/-- Names behind others are followed from the directory that those lead to; behind anything else
there are none. -/
theorem of_append (h : tree.Leads true links directory names (.entry place node))
    (h' : tree.Leads true links' directory (names ++ rest) resolved) :
    (node = .directory ∧ ∃ fewer, tree.Leads true fewer place rest resolved) ∨
      node ≠ .directory ∧ rest = [] := by
  generalize hfound : Resolved.entry place node = found at h
  induction h generalizing links' with
  | here directory =>
      cases hfound
      exact Or.inl ⟨rfl, links', h'⟩
  | stay _ ih => exact ih h'.of_stay hfound
  | up _ ih => exact ih h'.of_up hfound
  | enter hname hnode _ ih => exact ih (h'.of_directory hname hnode) hfound
  | missing => cases hfound
  | found hname hnode hdirectory hlink =>
      cases hfound
      exact Or.inr ⟨hdirectory, (h'.of_some hname hnode hdirectory (hlink rfl)).1⟩
  | link hname hnode _ _ ih =>
      rcases h'.of_link hname hnode (Or.inl rfl) with ⟨fewer, -, hleads⟩
      exact ih (by rw [List.append_assoc]; exact hleads) hfound

/-- Names behind others that lead to a directory are followed from it. -/
theorem behind_directory (h : tree.Leads true links directory names (.entry place .directory))
    (h' : tree.Leads true links' directory (names ++ rest) resolved) :
    ∃ fewer, tree.Leads true fewer place rest resolved := by
  rcases h.of_append h' with ⟨-, hbehind⟩ | ⟨hne, -⟩
  · exact hbehind
  · exact absurd rfl hne

/-- Names that lead to a file cannot be gone on from. -/
theorem nil_of_append (h : tree.Leads true links directory names (.entry place node))
    (hfile : node.isFile = true)
    (h' : tree.Leads true links' directory (names ++ rest) resolved') : rest = [] := by
  rcases h.of_append h' with ⟨rfl, -⟩ | ⟨-, hrest⟩
  · cases hfile
  · exact hrest

/-- Where the last name is not followed, the names lead to an entry of the tree or to a
directory. -/
theorem node?_eq (h : tree.Leads followLast links directory names (.entry place node))
    (hdirectory : node ≠ .directory) : tree.node? place = some node := by
  generalize hresolved : Resolved.entry place node = resolved at h
  induction h with
  | here directory =>
      cases hresolved
      exact absurd rfl hdirectory
  | stay _ ih | up _ ih | enter _ _ _ ih | link _ _ _ _ ih => exact ih hresolved
  | missing => cases hresolved
  | found hname hnode =>
      cases hresolved
      exact hnode

/-- Names that are followed through a last link do not lead to one. -/
theorem ne_link {target : String} (h : tree.Leads true links directory names resolved) :
    resolved ≠ .entry place (.link target) := by
  induction h with
  | here | missing => rintro ⟨⟩
  | stay _ ih | up _ ih | enter _ _ _ ih | link _ _ _ _ ih => exact ih
  | found _ _ _ hlink =>
      intro hresolved
      cases hresolved
      exact hlink rfl target rfl

/-- Names that lead to a file lead there whether or not a last link is followed. -/
theorem follow_file (h : tree.Leads false links directory names (.entry place node))
    (hlink : ∀ target, node ≠ .link target) :
    tree.Leads true links directory names (.entry place node) := by
  generalize hresolved : Resolved.entry place node = resolved at h
  induction h with
  | here directory => exact .here directory
  | stay _ ih => exact .stay (ih hresolved)
  | up _ ih => exact .up (ih hresolved)
  | enter hname hnode _ ih => exact .enter hname hnode (ih hresolved)
  | missing hname hnode => exact .missing hname hnode
  | found hname hnode hdirectory =>
      cases hresolved
      exact .found hname hnode hdirectory fun _ => hlink
  | link hname hnode _ _ ih => exact .link hname hnode (Or.inl rfl) (ih hresolved)

/-- Names that lead to a link lead to where the link does. -/
theorem follow_link {target : String}
    (h : tree.Leads false links directory names (.entry place (.link target)))
    (h' : tree.Leads true links' directory names resolved') :
    ∃ fewer, tree.Leads true fewer (startOf target place.dropLast) (namesOfTarget target)
      resolved' := by
  generalize hresolved : Resolved.entry place (.link target) = resolved at h
  induction h generalizing links' with
  | here directory => cases hresolved
  | stay _ ih => exact ih h'.of_stay hresolved
  | up _ ih => exact ih h'.of_up hresolved
  | enter hname hnode _ ih => exact ih (h'.of_directory hname hnode) hresolved
  | missing => cases hresolved
  | found hname hnode =>
      cases hresolved
      rcases h'.of_link hname hnode (Or.inl rfl) with ⟨fewer, -, hleads⟩
      rw [List.append_nil] at hleads
      rw [List.dropLast_concat]
      exact ⟨fewer, hleads⟩
  | link hname hnode _ _ ih =>
      rcases h'.of_link hname hnode (Or.inl rfl) with ⟨fewer, -, hleads⟩
      exact ih hleads hresolved

/-- Names lead to the same thing where a last link is not followed, unless they name one. -/
theorem unfollow (h : tree.Leads true links directory names resolved) :
    ∃ fewer ≤ links, tree.Leads false fewer directory names resolved ∨
      ∃ place target, tree.Leads false fewer directory names (.entry place (.link target)) := by
  induction h with
  | here directory => exact ⟨0, Nat.le_refl 0, Or.inl (.here directory)⟩
  | stay _ ih =>
      rcases ih with ⟨fewer, hle, hleads | ⟨place, target, hleads⟩⟩
      · exact ⟨fewer, hle, Or.inl (.stay hleads)⟩
      · exact ⟨fewer, hle, Or.inr ⟨place, target, .stay hleads⟩⟩
  | up _ ih =>
      rcases ih with ⟨fewer, hle, hleads | ⟨place, target, hleads⟩⟩
      · exact ⟨fewer, hle, Or.inl (.up hleads)⟩
      · exact ⟨fewer, hle, Or.inr ⟨place, target, .up hleads⟩⟩
  | enter hname hnode _ ih =>
      rcases ih with ⟨fewer, hle, hleads | ⟨place, target, hleads⟩⟩
      · exact ⟨fewer, hle, Or.inl (.enter hname hnode hleads)⟩
      · exact ⟨fewer, hle, Or.inr ⟨place, target, .enter hname hnode hleads⟩⟩
  | missing hname hnode => exact ⟨0, Nat.le_refl 0, Or.inl (.missing hname hnode)⟩
  | found hname hnode hdirectory =>
      exact ⟨0, Nat.le_refl 0, Or.inl (.found hname hnode hdirectory fun h => nomatch h)⟩
  | @link links directory name target rest _ hname hnode _ _ ih =>
      by_cases hrest : rest = []
      · subst hrest
        exact ⟨0, Nat.zero_le _, Or.inr ⟨_, target,
          .found hname hnode Node.noConfusion fun h => nomatch h⟩⟩
      · rcases ih with ⟨fewer, hle, hleads | ⟨place, other, hleads⟩⟩
        · exact ⟨fewer + 1, Nat.succ_le_succ hle,
            Or.inl (.link hname hnode (Or.inr hrest) hleads)⟩
        · exact ⟨fewer + 1, Nat.succ_le_succ hle,
            Or.inr ⟨place, other, .link hname hnode (Or.inr hrest) hleads⟩⟩

/-- Among directories only, names that do not go up lead as far down as they are many. -/
theorem place_of_below {root : Place}
    (hbelow : ∀ names node, tree.node? (root ++ names) = some node → node = .directory)
    (hup : ".." ∉ rest) (h : tree.Leads true links (root ++ names) rest (.entry place node)) :
    place = root ++ names ++ rest.filter (· ≠ ".") := by
  generalize hdirectory : root ++ names = directory at h ⊢
  generalize hresolved : Resolved.entry place node = resolved at h
  induction h generalizing names with
  | here directory =>
      cases hresolved
      exact (List.append_nil _).symm
  | stay _ ih => exact ih (List.not_mem_of_not_mem_cons hup) hdirectory hresolved
  | up => exact absurd List.mem_cons_self hup
  | @enter links directory name rest _ hname hnode _ ih =>
      have hbehind : root ++ (names ++ [name]) = directory ++ [name] := by
        rw [← List.append_assoc, hdirectory]
      rw [ih (List.not_mem_of_not_mem_cons hup) hbehind hresolved,
        List.filter_cons_of_pos (by simpa using hname.ne_here), List.append_assoc,
        List.singleton_append]
  | missing => cases hresolved
  | @found directory name node hname =>
      cases hresolved
      rw [List.filter_cons_of_pos (by simpa using hname.ne_here)]
      rfl
  | link hname hnode =>
      rw [← hdirectory, List.append_assoc] at hnode
      cases hbelow _ _ hnode

/-- Names that do not go up lead to nothing but directories where there is nothing else. -/
theorem eq_directory_of_below {root : Place}
    (hbelow : ∀ names node, tree.node? (root ++ names) = some node → node = .directory)
    (hup : ".." ∉ rest) (h : tree.Leads true links (root ++ names) rest (.entry place node)) :
    node = .directory := by
  by_cases hdirectory : node = .directory
  · exact hdirectory
  · have hnode := h.node?_eq hdirectory
    rw [h.place_of_below hbelow hup, List.append_assoc] at hnode
    exact hbelow _ _ hnode

/-!
## Changes elsewhere
-/

/-- Names that lead to a file or to nothing lead to the file that is there later, if directories
and links stay. -/
theorem of_written (h : tree.Leads followLast links directory names resolved)
    (hold : ∀ held, resolved.node? = some held → held.isFile = true) (hfile : node.isFile = true)
    (hplace : later.node? resolved.place = some node)
    (hother : ∀ other held, tree.node? other = some held → held.isFile = false →
      later.node? other = some held) :
    later.Leads followLast links directory names (.entry resolved.place node) := by
  have hdirectory : node ≠ .directory := by
    rintro rfl
    cases hfile
  have hlink : ∀ target, node ≠ .link target := by
    rintro target rfl
    cases hfile
  induction h with
  | here directory => cases hold .directory rfl
  | stay _ ih => exact .stay (ih hold hplace)
  | up _ ih => exact .up (ih hold hplace)
  | enter hname hnode _ ih => exact .enter hname (hother _ _ hnode rfl) (ih hold hplace)
  | missing hname | found hname => exact .found hname hplace hdirectory fun _ => hlink
  | link hname hnode hrest _ ih =>
      exact .link hname (hother _ _ hnode rfl) hrest (ih hold hplace)

/-- Names lead where they did when what another path names is removed, unless that path leads to
the same entry. -/
theorem of_removed {named target : Place} {other : List String} {directory' : Place}
    {held kept : Node} {count count' : Nat}
    (hnamed : tree.Leads false count directory' other (.entry named held))
    (htarget : tree.Leads true count' directory' other (.entry target kept))
    (hkept : kept.isFile = true) (hheld : held.isDirectory = false)
    (hlater : ∀ place, place ≠ named → later.node? place = tree.node? place)
    (h : tree.Leads true links directory names (.entry place node))
    (hne : target = place → kept ≠ node) :
    later.Leads true links directory names (.entry place node) := by
  have hdirectory : held ≠ .directory := by
    rintro rfl
    cases hheld
  have hhere := hnamed.node?_eq hdirectory
  generalize hresolved : Resolved.entry place node = resolved at h
  induction h with
  | here directory => exact .here directory
  | stay _ ih => exact .stay (ih hresolved)
  | up _ ih => exact .up (ih hresolved)
  | enter hname hnode _ ih =>
      refine .enter hname ?_ (ih hresolved)
      rw [hlater _ ?_, hnode]
      rintro rfl
      rw [hhere] at hnode
      exact hdirectory (Option.some.inj hnode)
  | missing => cases hresolved
  | found hname hnode hnot hlink =>
      cases hresolved
      refine .found hname ?_ hnot hlink
      rw [hlater _ ?_, hnode]
      rintro rfl
      rw [hhere] at hnode
      cases hnode
      cases htarget.unique (hnamed.follow_file (hlink rfl))
      exact hne rfl rfl
  | @link links directory name link rest _ hname hnode hrest hleads ih =>
      refine .link hname ?_ hrest (ih hresolved)
      rw [hlater _ ?_, hnode]
      -- a link that both paths pass leads both to one place
      rintro rfl
      rw [hhere] at hnode
      cases hnode
      cases hresolved
      rcases hnamed.follow_link htarget with ⟨fewer, hlinked⟩
      rw [List.dropLast_concat] at hlinked
      rw [hlinked.nil_of_append hkept hleads, List.append_nil] at hleads
      cases hlinked.unique hleads
      exact hne rfl rfl

/-- Names lead nowhere once what they name is removed. -/
theorem vacant_of_removed (h : tree.Leads false links directory names (.entry place node))
    (hnode : node.isDirectory = false) (hplace : later.node? place = none)
    (hlater : ∀ other, other ≠ place → later.node? other = tree.node? other)
    (h' : later.Leads followLast links' directory names resolved) : resolved.node? = none := by
  have hdirectory : node ≠ .directory := by
    rintro rfl
    cases hnode
  have hhere := h.node?_eq hdirectory
  generalize hresolved : Resolved.entry place node = found at h
  induction h generalizing links' with
  | here directory =>
      cases hresolved
      exact absurd rfl hdirectory
  | stay _ ih => exact ih h'.of_stay hresolved
  | up _ ih => exact ih h'.of_up hresolved
  | @enter links directory name rest _ hname hentered _ ih =>
      have hne : directory ++ [name] ≠ place := by
        rintro rfl
        rw [hhere] at hentered
        exact hdirectory (Option.some.inj hentered)
      refine ih (h'.of_directory hname ?_) hresolved
      rw [hlater _ hne, hentered]
  | missing => cases hresolved
  | found hname =>
      cases hresolved
      rw [(h'.of_none hname hplace).2]
      rfl
  | @link links directory name target rest _ hname hlink hrest _ ih =>
      have hrest := hrest.resolve_left Bool.false_ne_true
      by_cases hpassed : directory ++ [name] = place
      · rw [← hpassed] at hplace
        exact absurd (h'.of_none hname hplace).1 hrest
      · rw [← hlater _ hpassed] at hlink
        rcases h'.of_link hname hlink (Or.inr hrest) with ⟨fewer, -, hleads⟩
        exact ih hleads hresolved

end Leads

end FileTree
end BulkTransfer
