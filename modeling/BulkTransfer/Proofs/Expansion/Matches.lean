import BulkTransfer.Proofs.Expansion.Names

/-!
# The paths that a pattern stands for

The paths of a relative pattern are relative.  The part of a match behind the literal
directory of its pattern consists of names of entries and of steps upwards.
-/

namespace BulkTransfer

open Text

/-!
## Relative patterns
-/

namespace Glob

theorem mem_of_closedSet {s inner behind : List Char} (h : closedSet s = some (inner, behind))
    {c : Char} (hc : c ∈ behind) : c ∈ s := by
  cases s with
  | nil => cases h
  | cons first rest =>
      rw [closedSet] at h
      have hsuffix : rest.dropWhile (· ≠ ']') <:+ rest := List.dropWhile_suffix _
      cases hrest : rest.dropWhile (· ≠ ']') with
      | nil => simp only [hrest, reduceCtorEq] at h
      | cons bracket behind' =>
          simp only [hrest, Option.some.injEq, Prod.mk.injEq] at h
          rw [hrest] at hsuffix
          rw [← h.2] at hc
          exact List.mem_cons_of_mem _ (hsuffix.subset (List.mem_cons_of_mem _ hc))

theorem mem_of_readSet {s behind : List Char} {token : Token}
    (h : readSet s = some (token, behind)) :
    (∀ c, token ≠ .literal c) ∧ ∀ c ∈ behind, c ∈ s := by
  rw [readSet.eq_def] at h
  split at h
  all_goals
    rcases Option.map_eq_some_iff.mp h with ⟨⟨inner, behind'⟩, hset, hcut⟩
    cases hcut
    refine ⟨fun c hliteral => (by cases hliteral), fun c hc => ?_⟩
  · exact List.mem_cons_of_mem _ (mem_of_closedSet hset hc)
  · exact mem_of_closedSet hset hc

/-- The outcome of reading one token and the tokens behind it. -/
theorem map_cons_eq_ok {error : Type} {token : Token} {tokens : List Token}
    {outcome : Except error (List Token)} (h : outcome.map (token :: ·) = .ok tokens) :
    ∃ others, outcome = .ok others ∧ tokens = token :: others := by
  cases outcome with
  | error _ => cases h
  | ok others =>
      cases h
      exact ⟨others, rfl, rfl⟩

/-- The literal tokens of a pattern are characters of its text. -/
theorem mem_of_literal {position : Nat} {front : Option Char} {s : List Char}
    {tokens : List Token} (h : read position front s = .ok tokens) {c : Char}
    (hc : .literal c ∈ tokens) : c ∈ s := by
  fun_induction read position front s generalizing tokens
  case case1 =>
    cases h
    cases hc
  case case2 ih | case8 ih | case9 ih =>
    rcases map_cons_eq_ok h with ⟨others, hothers, rfl⟩
    rcases List.mem_cons.mp hc with hc | hc
    · cases hc
    · have hmem := ih hothers hc
      simp only [List.mem_cons, hmem, or_true]
  case case3 | case5 | case6 | case7 | case10 => cases h
  case case4 =>
    cases h
    rcases List.mem_cons.mp hc with hc | hc <;> cases hc
  case case11 hset _ ih =>
    rcases map_cons_eq_ok h with ⟨others, hothers, rfl⟩
    rcases List.mem_cons.mp hc with hc | hc
    · exact absurd hc.symm ((mem_of_readSet hset).1 c)
    · exact List.mem_cons_of_mem _ ((mem_of_readSet hset).2 c (ih hothers hc))
  case case12 ih =>
    rcases map_cons_eq_ok h with ⟨others, hothers, rfl⟩
    rcases List.mem_cons.mp hc with hc | hc
    · cases hc
      exact List.mem_cons_self
    · exact List.mem_cons_of_mem _ (ih hothers hc)

theorem mem_of_literalName? {tokens : List Token} {letters : List Char}
    (h : literalName? tokens = some letters) : ∀ c ∈ letters, .literal c ∈ tokens := by
  induction tokens generalizing letters with
  | nil =>
      cases h
      exact fun c hc => absurd hc List.not_mem_nil
  | cons token tokens ih =>
      cases token with
      | literal d =>
          rw [literalName?] at h
          rcases Option.map_eq_some_iff.mp h with ⟨others, hothers, rfl⟩
          intro c hc
          rcases List.mem_cons.mp hc with rfl | hc
          · exact List.mem_cons_self
          · exact List.mem_cons_of_mem _ (ih hothers c hc)
      | anyChar | anyRun | anyDirectories | oneOf _ | noneOf _ => cases h

/-- A component that spells no slash. -/
def SlashFree (component : Component) : Prop :=
  .literal '/' ∉ component

theorem isAbsolute_child {path name : String} (hpath : Path.isAbsolute path = false)
    (hname : Path.isAbsolute name = false) : Path.isAbsolute (child path name) = false := by
  rw [child]
  split
  · exact hname
  · exact Path.isAbsolute_join_of_relative hpath hname

theorem isAbsolute_of_isName {name : String} (h : IsName name) : Path.isAbsolute name = false := by
  rw [Path.isAbsolute, beq_eq_false_iff_ne]
  exact fun hhead => h.slashFree (List.mem_of_head? hhead)

theorem isName_of_readDirectory {tree : FileTree} {path : String} {entries : List (String × Node)}
    (htree : tree.Named) (h : tree.readDirectory path = .ok entries) :
    ∀ entry ∈ entries, IsName entry.1 := by
  intro entry hmem
  rw [FileTree.readDirectory] at h
  split at h
  · cases h
  · cases h
    rw [FileTree.entriesOf, List.mem_filterMap] at hmem
    rcases hmem with ⟨⟨names, node⟩, hbelow, hentry⟩
    have hnode := (FileTree.mem_walkBelow hbelow).2
    split at hentry
    · rename_i name heq
      have hnames : names = [name] := heq
      cases hentry
      rw [hnames] at hnode
      exact htree _ _ hnode name (by simp)
    · cases hentry
  · cases h
  · cases h

theorem isAbsolute_of_special {component : Component} {name : String}
    (h : name ∈ specialNames component) : Path.isAbsolute name = false := by
  rw [specialNames] at h
  split at h
  · have hmem := (List.mem_filter.mp h).1
    simp only [List.mem_cons, List.not_mem_nil, or_false] at hmem
    rcases hmem with rfl | rfl <;> rfl
  · cases h

section Relative

variable {tree : FileTree} {directoriesOnly : Bool}

/-- Every path among some matches is relative. -/
def Relative (found : List Match) : Prop :=
  ∀ path, .path path ∈ found → Path.isAbsolute path = false

theorem relative_nil : Relative [] :=
  fun _ hmem => absurd hmem List.not_mem_nil

theorem relative_singleton {path : String} (h : Path.isAbsolute path = false) :
    Relative [.path path] := by
  intro path' hmem
  cases List.mem_singleton.mp hmem
  exact h

theorem Relative.append {front behind : List Match} (hfront : Relative front)
    (hbehind : Relative behind) : Relative (front ++ behind) :=
  fun path hmem => (List.mem_append.mp hmem).elim (hfront path) (hbehind path)

theorem relative_flatMap {α : Type} {items : List α} {found : α → List Match}
    (h : ∀ item ∈ items, Relative (found item)) : Relative (items.flatMap found) := by
  intro path hmem
  rcases List.mem_flatMap.mp hmem with ⟨item, hitem, hmem⟩
  exact h item hitem path hmem

theorem relative_accepted {path : String} (h : Path.isAbsolute path = false) :
    Relative (accepted tree directoriesOnly path) := by
  rw [accepted]
  split
  · exact relative_singleton h
  · exact relative_nil

section Walking

variable {depth : Nat}
  (hdirectory : ∀ components path, (∀ component ∈ components, SlashFree component) →
    Path.isAbsolute path = false →
    Relative (inDirectory tree directoriesOnly depth components path))
  {components : List Component} {path : String}
  (hfree : ∀ component ∈ components, SlashFree component) (hpath : Path.isAbsolute path = false)
include hdirectory hfree hpath

theorem relative_inDirectory_succ (htree : tree.Named)
    (hentry : ∀ components path name, (∀ component ∈ components, SlashFree component) →
      Path.isAbsolute path = false →
      Relative (ofEntry tree directoriesOnly depth components path name)) :
    Relative (inDirectory tree directoriesOnly (depth + 1) components path) := by
  cases components with
  | nil =>
      rw [inDirectory]
      exact relative_nil
  | cons component components =>
      rw [List.forall_mem_cons] at hfree
      have hgoOn : ∀ next, Path.isAbsolute next = false →
          Relative (if components.isEmpty = true then accepted tree directoriesOnly next
            else inDirectory tree directoriesOnly depth components next) := by
        intro next hnext
        split
        · exact relative_accepted hnext
        · exact hdirectory components next hfree.2 hnext
      rw [inDirectory]
      dsimp only
      cases hliteral : literalName? component with
      | some letters =>
          have hname : Path.isAbsolute (String.ofList letters) = false := by
            rw [Path.isAbsolute, String.toList_ofList, beq_eq_false_iff_ne]
            intro hhead
            exact hfree.1 (mem_of_literalName? hliteral _ (List.mem_of_head? hhead))
          dsimp only
          split
          · exact hgoOn _ (isAbsolute_child hpath hname)
          · exact relative_nil
      | none =>
          dsimp only
          split
          · exact relative_nil
          · cases hread : tree.readDirectory path with
            | error error => exact fun _ hmem => (by cases List.mem_singleton.mp hmem)
            | ok entries =>
                refine .append (relative_flatMap fun name hspecial => ?_)
                  (relative_flatMap fun entry hmem => ?_)
                · exact hgoOn _
                    (Path.isAbsolute_join_of_relative hpath (isAbsolute_of_special hspecial))
                · have hname := isName_of_readDirectory htree hread entry hmem
                  exact hentry _ _ _ (List.forall_mem_cons.mpr hfree)
                    (isAbsolute_child hpath (isAbsolute_of_isName hname))

theorem relative_ofEntry_succ (name : String) :
    Relative (ofEntry tree directoriesOnly (depth + 1) components path name) := by
  cases components with
  | nil =>
      rw [ofEntry]
      exact relative_nil
  | cons component components =>
      have hone : ∀ last, Relative
          (if isMatch last name then accepted tree directoriesOnly path else []) := by
        intro last
        split
        · exact relative_accepted hpath
        · exact relative_nil
      have hmore : ∀ patterns first others, patterns = first :: others →
          (∀ pattern ∈ patterns, SlashFree pattern) →
          Relative (if isMatch first name then
            inDirectory tree directoriesOnly depth others path else []) := by
        rintro _ first others rfl hpatterns
        split
        · exact hdirectory _ _ (List.forall_mem_cons.mp hpatterns).2 hpath
        · exact relative_nil
      have hothers : ∀ pattern ∈ components.dropWhile Component.isRecursive,
          SlashFree pattern := fun pattern hpattern =>
        hfree pattern (List.mem_cons_of_mem _ ((List.dropWhile_suffix _).subset hpattern))
      have hagain : ∀ pattern ∈ component :: components.dropWhile Component.isRecursive,
          SlashFree pattern :=
        List.forall_mem_cons.mpr ⟨hfree component List.mem_cons_self, hothers⟩
      rw [ofEntry]
      dsimp only
      split
      · split
        · refine .append ?_ (hdirectory _ _ hagain hpath)
          split
          · exact relative_singleton hpath
          · split
            · exact relative_nil
            · exact hone _
            · rename_i hpatterns
              exact hmore _ _ _ hpatterns hothers
        · split
          · exact relative_nil
          · exact hone _
          · rename_i hpatterns
            exact hmore _ _ _ hpatterns hothers
      · split
        · exact relative_nil
        · exact hone _
        · rename_i hpatterns
          exact hmore _ _ _ hpatterns hfree

end Walking

/-- A walk that starts at a relative path finds relative paths. -/
theorem relative_walk (htree : tree.Named) (depth : Nat) :
    (∀ components path, (∀ component ∈ components, SlashFree component) →
      Path.isAbsolute path = false →
      Relative (inDirectory tree directoriesOnly depth components path)) ∧
    (∀ components path name, (∀ component ∈ components, SlashFree component) →
      Path.isAbsolute path = false →
      Relative (ofEntry tree directoriesOnly depth components path name)) := by
  induction depth with
  | zero =>
      constructor
      · intro components path _ _
        rw [inDirectory]
        exact relative_nil
      · intro components path name _ _
        rw [ofEntry]
        exact relative_nil
  | succ depth ih =>
      rcases ih with ⟨ihDirectory, ihEntry⟩
      exact ⟨fun _ _ hfree hpath => relative_inDirectory_succ ihDirectory hfree hpath htree ihEntry,
        fun _ _ name hfree hpath => relative_ofEntry_succ ihDirectory hfree hpath name⟩

end Relative

theorem slashFree_of_mapM {words : List String} {components : List Component}
    (h : words.mapM parse = .ok components) (hwords : ∀ word ∈ words, '/' ∉ word.toList) :
    ∀ component ∈ components, SlashFree component := by
  induction words generalizing components with
  | nil =>
      cases h
      exact fun _ hmem => absurd hmem List.not_mem_nil
  | cons word words ih =>
      rw [List.forall_mem_cons] at hwords
      rw [List.mapM_cons] at h
      cases hword : parse word with
      | error error => rw [hword] at h; cases h
      | ok component =>
          cases hrest : words.mapM parse with
          | error error => rw [hword, hrest] at h; cases h
          | ok others =>
              rw [hword, hrest] at h
              cases h
              exact List.forall_mem_cons.mpr
                ⟨fun hmem => hwords.1 (mem_of_literal hword hmem), ih hrest hwords.2⟩

theorem slashFree_of_mem_componentWords {pattern word : String}
    (h : word ∈ componentWords pattern) : '/' ∉ word.toList := by
  have hpieces : ∀ behind : List Char, word ∈ (splitOn '/' behind).map String.ofList →
      '/' ∉ word.toList := by
    intro behind hmem
    rcases List.mem_map.mp hmem with ⟨letters, hletters, rfl⟩
    rw [String.toList_ofList]
    exact not_mem_of_mem_splitOn hletters
  rw [componentWords] at h
  generalize (if Path.isAbsolute pattern = true then pattern.toList.tail else pattern.toList) =
    behind at h
  split at h
  · exact hpieces behind (List.dropLast_subset _ h)
  · exact hpieces behind h

/-- The matches of a relative pattern are relative paths. -/
theorem isAbsolute_of_walk {tree : FileTree} {pattern path : String} {found : List Match}
    (htree : tree.Named) (hpattern : Path.isAbsolute pattern = false)
    (h : walk tree pattern = .ok found) (hmem : .path path ∈ found) :
    Path.isAbsolute path = false := by
  rw [walk] at h
  cases hparse : parse pattern with
  | error error => rw [hparse] at h; cases h
  | ok tokens =>
      cases hwords : (componentWords pattern).mapM parse with
      | error error => rw [hparse, hwords] at h; cases h
      | ok components =>
          rw [hparse, hwords] at h
          cases h
          refine (relative_walk htree _).1 _ _ (slashFree_of_mapM hwords fun word hword =>
            slashFree_of_mem_componentWords hword) ?_ path hmem
          rw [startOf, if_neg (by rw [hpattern]; exact Bool.false_ne_true)]
          rfl

theorem isAbsolute_literalDirectory {pattern : String} (h : Path.isAbsolute pattern = true) :
    Path.isAbsolute (literalDirectory pattern) = true := by
  rw [Path.isAbsolute, beq_iff_eq] at h
  rw [Path.isAbsolute, literalDirectory, String.toList_ofList, beq_iff_eq]
  cases hchars : pattern.toList with
  | nil => rw [hchars] at h; cases h
  | cons c chars =>
      rw [hchars, List.head?_cons, Option.some.injEq] at h
      rw [h, List.takeWhile_cons, if_pos (by decide)]
      generalize chars.takeWhile (fun c => !isGlobChar c) = rest
      rcases throughLast_cases ('/' :: rest) with hnil | ⟨front, hfront⟩
      · -- the slash in front is in the text
        exfalso
        have hsplit := throughLast_append_afterLast '/' ('/' :: rest)
        rw [hnil, List.nil_append] at hsplit
        have hmem : '/' ∈ afterLast '/' ('/' :: rest) := by
          rw [hsplit]
          exact List.mem_cons_self
        rw [afterLast, List.mem_reverse] at hmem
        have hall := List.all_takeWhile (p := fun c => decide (c ≠ '/'))
          (l := ('/' :: rest).reverse)
        have hslash := List.all_eq_true.mp hall '/' hmem
        cases hslash
      · have hsplit := throughLast_append_afterLast '/' ('/' :: rest)
        have hne : throughLast '/' ('/' :: rest) ≠ [] := by
          rw [hfront]
          exact List.append_ne_nil_of_right_ne_nil _ (List.cons_ne_nil _ _)
        have hhead : (throughLast '/' ('/' :: rest) ++ afterLast '/' ('/' :: rest)).head? =
            (throughLast '/' ('/' :: rest)).head? := List.head?_append_of_ne_nil _ hne
        rw [← hhead, hsplit]
        rfl

end Glob

/-!
## Names behind a base
-/

namespace Path

/-- The parts behind the root or the dot in front. -/
def innerParts (path : String) : List PathPart :=
  (pieces path).filterMap partOfPiece

theorem mem_innerParts {path : String} {part : PathPart} (h : part ∈ innerParts path) :
    part = .up ∨ ∃ word, part = .name word ∧ IsName word := by
  rw [innerParts, List.mem_filterMap] at h
  rcases h with ⟨piece, hpiece, hpart⟩
  have hfree := slashFree_of_mem_pieces hpiece
  cases part with
  | up => exact Or.inl rfl
  | name word =>
      rcases partOfPiece_eq_name hfree hpart with ⟨rfl, hname⟩
      exact Or.inr ⟨_, rfl, hname⟩
  | root | here =>
      rw [partOfPiece] at hpart
      split at hpart
      · cases hpart
      · split at hpart <;> cases hpart

theorem withoutHere_innerParts (path : String) :
    withoutHere (innerParts path) = innerParts path := by
  rw [withoutHere]
  cases hparts : innerParts path with
  | nil => rfl
  | cons part parts =>
      have hmem : part ∈ innerParts path := by
        rw [hparts]
        exact List.mem_cons_self
      rcases mem_innerParts hmem with rfl | ⟨word, rfl, -⟩ <;> rfl

theorem withoutHere_parts (path : String) :
    withoutHere (parts path) =
      if isAbsolute path then .root :: innerParts path else innerParts path := by
  simp only [parts]
  split
  · rfl
  · split
    · show withoutHere (innerParts path) = innerParts path
      exact withoutHere_innerParts path
    · exact withoutHere_innerParts path

theorem innerParts_suffix (path : String) : innerParts path <:+ parts path := by
  rw [parts]
  exact List.suffix_append _ _

theorem parts_cases (path : String) :
    parts path = innerParts path ∨ ∃ front, parts path = front :: innerParts path := by
  simp only [parts]
  split
  · exact Or.inr ⟨_, rfl⟩
  · split
    · exact Or.inr ⟨_, rfl⟩
    · exact Or.inl rfl

/-- What a path has behind another one is neither the root nor a dot in front. -/
theorem mem_innerParts_of_append {base path : String} {behind names : List PathPart}
    (hbase : parts base ≠ []) (h : parts base ++ behind = parts path ++ names) {part : PathPart}
    (hmem : part ∈ behind) : part ∈ innerParts path ++ names := by
  rcases List.exists_cons_of_ne_nil hbase with ⟨first, others, hfirst⟩
  rw [hfirst] at h
  rcases parts_cases path with hpath | ⟨front, hpath⟩
  · rw [← hpath, ← h]
    exact List.mem_append_right _ hmem
  · rw [hpath, List.cons_append, List.cons_append, List.cons.injEq] at h
    rw [← h.2]
    exact List.mem_append_right _ hmem

/-!
## Names below a directory
-/

/-- Joined names are no absolute path: the first of them has no slash and is not empty. -/
theorem isAbsolute_joinNames {names : List String}
    (h : ∀ name ∈ names, name ≠ "" ∧ '/' ∉ name.toList) : isAbsolute (joinNames names) = false := by
  rw [isAbsolute, beq_eq_false_iff_ne]
  intro hhead
  rcases List.head?_eq_some_iff.mp hhead with ⟨rest, hrest⟩
  have hne : names ≠ [] := by
    rintro rfl
    cases hrest
  -- a slash in front would leave an empty piece in front of it
  have hempty : "" ∈ names := by
    rw [← pieces_joinNames hne fun name hmem => (h name hmem).2, pieces, hrest,
      ← List.nil_append ('/' :: rest), splitOn_append]
    exact List.mem_map.mpr ⟨[], List.mem_append_left _ List.mem_cons_self, rfl⟩
  exact (h "" hempty).1 rfl

theorem withoutHere_append_names (front : List PathPart) (names : List String) :
    withoutHere (front ++ names.map PathPart.name) =
      withoutHere front ++ names.map PathPart.name := by
  have hself : (names.map PathPart.name).dropWhile (· == .here) = names.map PathPart.name := by
    cases names <;> rfl
  rw [withoutHere, List.dropWhile_append, hself, withoutHere]
  split
  · rename_i hempty
    rw [List.isEmpty_iff.mp hempty, List.nil_append]
  · rfl

section Names

variable {names : List String} (hne : names ≠ []) (hnames : ∀ name ∈ names, IsName name)
include hne hnames

/-- The parts of joined names are the names. -/
theorem innerParts_joinNames : innerParts (joinNames names) = names.map PathPart.name := by
  rw [innerParts, pieces_joinNames hne fun name hmem => (hnames name hmem).slashFree,
    ← List.filterMap_eq_map]
  refine List.filterMap_congr fun name hmem => ?_
  have hname := hnames name hmem
  rw [partOfPiece, if_neg (not_or.mpr ⟨hname.ne_empty, hname.ne_here⟩), if_neg hname.ne_up]
  rfl

theorem parts_pathBelow {base : String} (hbase : base ≠ "") :
    parts (FileTree.pathBelow base names) = parts base ++ names.map PathPart.name := by
  have hbelow : FileTree.pathBelow base names = join base (joinNames names) :=
    if_neg (by rwa [List.isEmpty_iff])
  have hrelative := isAbsolute_joinNames fun name hmem =>
    ⟨(hnames name hmem).ne_empty, (hnames name hmem).slashFree⟩
  rw [hbelow, parts_join hbase hrelative]
  exact congrArg _ (innerParts_joinNames hne hnames)

end Names

end Path

namespace Expand

/-- Whatever a directory is called, an entry below it has the names from there. -/
theorem relativeName_pathBelow {base : String} {names : List String} (hbase : base ≠ "")
    (hne : names ≠ []) (hnames : ∀ name ∈ names, IsName name) :
    relativeName base (FileTree.pathBelow base names) = some (joinNames names) := by
  have hbelow : ∀ front, Path.below front (front ++ names.map PathPart.name) =
      some (names.map PathPart.name) := fun front =>
    List.isPrefixOf?_eq_some_iff_append_eq.mpr rfl
  rw [relativeName, Path.parts_pathBelow hne hnames hbase, Path.withoutHere_append_names, hbelow,
    ← Path.joinParts_names]
  cases names with
  | nil => exact absurd rfl hne
  | cons name names => rfl

/-- The name of a match behind the literal directory of its pattern. -/
theorem parts_of_relativeName {base path name : String}
    (habsolute : Path.isAbsolute base = false → Path.isAbsolute path = false)
    (h : relativeName base path = some name) :
    ∃ parts, parts ≠ [] ∧ (∀ part ∈ parts, part ∈ Path.innerParts path) ∧
      name = Path.joinParts parts := by
  rw [relativeName, Path.below, Path.withoutHere_parts, Path.withoutHere_parts] at h
  split at h
  · rename_i part parts hparts
    cases h
    refine ⟨part :: parts, List.cons_ne_nil _ _, fun part' hmem => ?_, rfl⟩
    have happend := List.append_eq_of_isPrefixOf?_eq_some hparts
    cases hbase : Path.isAbsolute base with
    | false =>
        rw [hbase, if_neg Bool.false_ne_true, habsolute hbase, if_neg Bool.false_ne_true] at happend
        rw [← happend]
        exact List.mem_append_right _ hmem
    | true =>
        rw [hbase, if_pos rfl] at happend
        split at happend
        · rw [List.cons_append, List.cons.injEq] at happend
          rw [← happend.2]
          exact List.mem_append_right _ hmem
        · have hroot : PathPart.root ∈ Path.innerParts path := by
            rw [← happend, List.cons_append]
            exact List.mem_cons_self
          rcases Path.mem_innerParts hroot with hroot | ⟨word, hroot, -⟩ <;> cases hroot
  · cases h

end Expand
end BulkTransfer
