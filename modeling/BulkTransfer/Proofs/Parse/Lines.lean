import BulkTransfer.Proofs.Parse.Segments

/-!
# From lines to jobs

A line is no job exactly if nothing but a comment is on it.  A job comes from a chain
that spells its line, segment by segment, and a chain that is written down comes to the
job of its segments or to the first refusal among them.
-/

namespace BulkTransfer
namespace Chain

open Text

/-!
## Where operators stand
-/

theorem head?_blanks_append {x : Char} {run s : List Char} (hx : isBlank x = false)
    (hrun : ∀ c ∈ run, isBlank c = true) (h : s.head? ≠ some x) :
    (run ++ s).head? ≠ some x := by
  cases run with
  | nil => exact h
  | cons c run =>
      intro hhead
      have hblank := hrun c List.mem_cons_self
      rw [List.cons_append, List.head?_cons, Option.some.injEq] at hhead
      rw [hhead, hx] at hblank
      cases hblank

theorem not_infix_blanks_append {x : Char} {run s : List Char} (hx : isBlank x = false)
    (hrun : ∀ c ∈ run, isBlank c = true) (h : ¬ [x, x] <:+: s) : ¬ [x, x] <:+: run ++ s := by
  have hmem : x ∉ run := fun hmem => by
    have hblank := hrun x hmem
    rw [hx] at hblank
    cases hblank
  rw [pair_infix_append]
  rintro (hinner | hinner | ⟨hlast, -⟩)
  · exact not_pair_infix_of_not_mem hmem hinner
  · exact h hinner
  · exact hmem (List.mem_of_getLast? hlast)

theorem not_infix_append_blanks {x : Char} {s run : List Char} (hx : isBlank x = false)
    (hrun : ∀ c ∈ run, isBlank c = true) (h : ¬ [x, x] <:+: s) : ¬ [x, x] <:+: s ++ run := by
  have hrun' : ¬ [x, x] <:+: run := by
    have hblanks := not_infix_blanks_append (s := []) hx hrun (List.cons_ne_nil _ _ ∘ List.infix_nil.mp)
    rwa [List.append_nil] at hblanks
  refine not_pair_infix_append h hrun' ?_
  have hhead := head?_blanks_append (s := []) hx hrun (Option.some_ne_none x ∘ Eq.symm)
  rwa [List.append_nil] at hhead

theorem not_infix_other_append {x y : Char} {s : List Char} (hxy : y ≠ x)
    (h : ¬ [x, x] <:+: s) : ¬ [x, x] <:+: [y, y] ++ s := by
  rw [pair_infix_append]
  rintro (hinner | hinner | ⟨hlast, -⟩)
  · have hmem := hinner.subset List.mem_cons_self
    simp only [List.mem_cons, List.not_mem_nil, or_false, or_self] at hmem
    exact hxy hmem.symm
  · exact h hinner
  · cases hlast
    exact hxy rfl

theorem head?_other_append {x y : Char} {s : List Char} (hxy : y ≠ x) :
    ([y, y] ++ s).head? ≠ some x := by
  rw [List.cons_append, List.head?_cons]
  exact fun h => hxy (Option.some.inj h)

/-- A segment that is found behind which an operator stands does not take part in it. -/
theorem getLast?_ne_of_segments {x : Char} {shape : List Piece} {s first next : List Char}
    {others : List (List Char)} (hx : isBlank x = false) (hline : '\n' ∉ s)
    (hfirst : first.head? ≠ some x)
    (h : segments (.segment :: .blanks :: .word [x, x] :: .blanks :: .segment :: shape) s =
      some (first :: next :: others)) :
    ∃ front back rest, s = (first ++ front) ++ ([x, x] ++ (back ++ (next ++ rest))) ∧
      (∀ c ∈ front, isBlank c = true) ∧ (∀ c ∈ back, isBlank c = true) ∧
      Fits shape others rest ∧ (first ++ front).getLast? ≠ some x := by
  rcases behindSegment_inv h with ⟨segment, found, behind, hfound, hs, hne, -, hnext, hshort⟩
  cases hfound
  rcases (fits_of_segments hnext).operator_inv with ⟨front, back, _, hbehind, hfront, hback, hrest⟩
  rcases hrest.segment_inv with ⟨_, _, rest, hfound, rfl, -, -, hrest⟩
  cases hfound
  refine ⟨front, back, rest, by rw [hs, hbehind, List.append_assoc], hfront, hback, hrest, ?_⟩
  intro hlast
  cases front with
  | cons c front =>
      have hmem : x ∈ c :: front := by
        rw [List.getLast?_append_of_ne_nil _ (List.cons_ne_nil _ _)] at hlast
        exact List.mem_of_getLast? hlast
      have hblank := hfront x hmem
      rw [hx] at hblank
      cases hblank
  | nil =>
      rw [List.append_nil] at hlast
      rcases List.getLast?_eq_some_iff.mp hlast with ⟨shorter, hsegment⟩
      cases shorter with
      | nil =>
          rw [hsegment] at hfirst
          exact hfirst rfl
      | cons c shorter =>
          -- the operator could have been found one character earlier
          have hlater := hshort (c :: shorter) [x] hsegment (List.cons_ne_nil _ _)
            (List.cons_ne_nil _ _)
          have hmid : '\n' ∉ x :: (back ++ next) := by
            intro hmem
            refine hline ?_
            rw [hs, hbehind, hsegment]
            rcases List.mem_cons.mp hmem with rfl | hmem
            · exact List.mem_append_left _ (List.mem_append_right _ List.mem_cons_self)
            · rw [← List.append_assoc back]
              exact List.mem_append_right _ (List.mem_append_right [x, x]
                (List.mem_append_left rest hmem))
          have hfits : Fits (.blanks :: .word [x, x] :: .blanks :: .segment :: shape)
              ((x :: (back ++ next)) :: others)
              ([] ++ ([x, x] ++ ([] ++ ((x :: (back ++ next)) ++ rest)))) :=
            .blanks (fun _ hmem => absurd hmem List.not_mem_nil)
              (.word (.blanks (fun _ hmem => absurd hmem List.not_mem_nil)
                (.segment (List.cons_ne_nil _ _) hmid hrest)))
          have hsame : [x] ++ behind =
              [] ++ ([x, x] ++ ([] ++ ((x :: (back ++ next)) ++ rest))) := by
            rw [hbehind]
            simp
          have hfound := hfits.isSome_segments
          rw [← hsame, hlater] at hfound
          cases hfound

/-- The end of a line from one operator on does not hold the other one. -/
theorem Continued.not_isInfix {x y : Char} {next : Option (List Char)} {s : List Char}
    (h : Continued [y, y] next s) (hx : isBlank x = false) (hxy : y ≠ x)
    (hfree : ∀ segment ∈ next, ¬ [x, x] <:+: segment) :
    ¬ [x, x] <:+: s ∧ s.head? ≠ some x := by
  cases h with
  | absent =>
      refine ⟨?_, Option.some_ne_none x ∘ Eq.symm⟩
      rw [List.infix_nil]
      exact List.cons_ne_nil _ _
  | present segment hfront hback =>
      constructor
      · exact not_infix_blanks_append hx hfront (not_infix_other_append hxy
          (not_infix_blanks_append hx hback (hfree segment rfl)))
      · exact head?_blanks_append hx hfront (head?_other_append hxy)

/-- An operator between blanks is the only one, if its sides hold no other. -/
theorem double_position_between {x : Char} {first gap gap' rest front behind : List Char}
    (hx : isBlank x = false) (hgap : ∀ c ∈ gap, isBlank c = true)
    (hgap' : ∀ c ∈ gap', isBlank c = true) (hfirst : ¬ [x, x] <:+: first)
    (hlast : (first ++ gap).getLast? ≠ some x) (hrest : ¬ [x, x] <:+: rest)
    (hhead : rest.head? ≠ some x)
    (h : (first ++ gap) ++ ([x, x] ++ (gap' ++ rest)) = front ++ [x, x] ++ behind) :
    front = first ++ gap := by
  rw [← List.append_assoc] at h
  exact double_position (not_infix_append_blanks hx hgap hfirst)
    (not_infix_blanks_append hx hgap' hrest) hlast (head?_blanks_append hx hgap' hhead) h

theorem mem_spelling {c : Chain} {s : List Char} (hs : s ∈ c.parts) {x : Char} (hx : x ∈ s) :
    x ∈ c.spelling := by
  rw [parts, List.mem_cons, List.mem_append, Option.mem_toList, Option.mem_toList] at hs
  rw [spelling]
  rcases hs with rfl | hs | hs
  · exact List.mem_append_left _ hx
  · simp [hs, hx]
  · simp [hs, hx]

/-- The segments of a chain are plain and begin with neither operator character. -/
def Distinct (chain : Chain) : Prop :=
  ∀ s ∈ chain.parts, Plain s ∧ s.head? ≠ some '&' ∧ s.head? ≠ some '|'

theorem Distinct.first {chain : Chain} (h : chain.Distinct) :
    Plain chain.first ∧ chain.first.head? ≠ some '&' ∧ chain.first.head? ≠ some '|' :=
  h chain.first List.mem_cons_self

theorem Distinct.success {chain : Chain} (h : chain.Distinct) {s : List Char}
    (hs : chain.onSuccess = some s) :
    Plain s ∧ s.head? ≠ some '&' ∧ s.head? ≠ some '|' :=
  h s (by simp [parts, hs])

theorem Distinct.failure {chain : Chain} (h : chain.Distinct) {s : List Char}
    (hs : chain.onFailure = some s) :
    Plain s ∧ s.head? ≠ some '&' ∧ s.head? ≠ some '|' :=
  h s (by simp [parts, hs])

section Operators

variable {chain : Chain} {s : List Char}

/-- A text that is cut into distinct segments has no second operator for success. -/
theorem andWord_unique (hcuts : Cuts s chain) (htrim : Trimmed s) (hline : '\n' ∉ s)
    (hdistinct : chain.Distinct) {front behind front' behind' : List Char}
    (h : s = front ++ andWord ++ behind) (h' : s = front' ++ andWord ++ behind') :
    front = front' := by
  have hinner : andWord <:+: s := ⟨front, behind, h.symm⟩
  have hfirst := hdistinct.first
  -- the place that the cut has found is the only one
  suffices hplace : ∃ first, ∀ front behind, s = front ++ andWord ++ behind → front = first by
    rcases hplace with ⟨first, hfirst⟩
    rw [hfirst front behind h, hfirst front' behind' h']
  cases hcuts with
  | both hboth =>
      have hnext := hdistinct.success rfl
      have hfallback := hdistinct.failure rfl
      have hrun : segments bothShape s = segments bothShape.tail s :=
        behindBlanks_of_front _ htrim.front
      rw [hrun] at hboth
      rcases getLast?_ne_of_segments isBlank_ampersand hline hfirst.2.1 hboth with
        ⟨gap, gap', rest, hs, hgap, hgap', hrest, hlast⟩
      rcases Fits.operator_inv hrest with ⟨gap₂, gap₂', _, hrest', hgap₂, hgap₂', hlast₂⟩
      rcases hlast₂.last_inv with ⟨_, run, hfound, rfl, -, hblank⟩
      cases hfound
      have hfree := (Continued.present _ hgap₂ hgap₂' : Continued orWord _ _).not_isInfix
        isBlank_ampersand (by decide) (fun segment hmem => by
          cases hmem
          exact not_infix_append_blanks isBlank_ampersand hblank hfallback.1.andFree)
      rw [← hrest'] at hfree
      refine ⟨_, fun front behind h => double_position_between isBlank_ampersand hgap hgap'
        hfirst.1.andFree hlast (not_pair_infix_append hnext.1.andFree hfree.1 hfree.2) ?_
        (hs.symm.trans h)⟩
      rw [List.head?_append_of_ne_nil _ hnext.1.ne_nil]
      exact hnext.2.1
  | success hpair =>
      have hnext := hdistinct.success rfl
      have hrun : segments (pairShape andWord) s = segments (pairShape andWord).tail s :=
        behindBlanks_of_front _ htrim.front
      rw [hrun] at hpair
      rcases getLast?_ne_of_segments isBlank_ampersand hline hfirst.2.1 hpair with
        ⟨gap, gap', rest, hs, hgap, hgap', hrest, hlast⟩
      rcases Fits.blanks_inv hrest with ⟨run, _, rfl, hblank, hnil⟩
      rcases hnil.nil_inv with ⟨-, rfl⟩
      rw [List.append_nil] at hs
      refine ⟨_, fun front behind h => double_position_between isBlank_ampersand hgap hgap'
        hfirst.1.andFree hlast
        (not_infix_append_blanks isBlank_ampersand hblank hnext.1.andFree) ?_ (hs.symm.trans h)⟩
      rw [List.head?_append_of_ne_nil _ hnext.1.ne_nil]
      exact hnext.2.1
  | failure _ hpair =>
      exfalso
      rcases fits_pairShape htrim (fits_of_segments hpair) with
        ⟨_, _, gap, gap', hfound, -, hs, hgap, hgap'⟩
      cases hfound
      have hfree := (Continued.present _ hgap hgap' : Continued orWord _ _).not_isInfix
        isBlank_ampersand (by decide) (fun segment hmem => by
          cases hmem
          exact (hdistinct.failure rfl).1.andFree)
      rw [hs] at hinner
      exact not_pair_infix_append hfirst.1.andFree hfree.1 hfree.2 hinner
  | whole => exact absurd hinner hfirst.1.andFree

/-- A text that is spelled by distinct segments has one operator for failure, and no
operator for success behind it. -/
theorem Spells.orWord_last (hspells : chain.Spells s) (hdistinct : chain.Distinct)
    {front middle behind : List Char} :
    s ≠ (front ++ orWord) ++ (middle ++ (orWord ++ behind)) ∧
      s ≠ (front ++ orWord) ++ (middle ++ (andWord ++ behind)) := by
  rcases hspells with ⟨success, failure, hsuccess, hfailure, rfl⟩
  have hfront := hsuccess.not_isInfix isBlank_bar (by decide)
    fun segment hmem => (hdistinct.success hmem).1.orFree
  have hbehind := hfailure.not_isInfix isBlank_ampersand (by decide)
    fun segment hmem => (hdistinct.failure hmem).1.andFree
  have hfirst : ¬ orWord <:+: chain.first ++ success :=
    not_pair_infix_append hdistinct.first.1.orFree hfront.1 hfront.2
  rw [← List.append_assoc]
  constructor
  · generalize hfallback : chain.onFailure = fallback at hfailure
    cases hfailure with
    | absent =>
        intro h
        rw [List.append_nil] at h
        refine hfirst ?_
        rw [h]
        exact (List.suffix_append _ _).isInfix.trans (List.prefix_append _ _).isInfix
    | @present gap gap' segment hgap hgap' =>
        have hsegment := hdistinct.failure hfallback
        rw [← List.append_assoc]
        refine not_double_apart (not_infix_append_blanks isBlank_bar hgap hfirst)
          (not_infix_blanks_append isBlank_bar hgap' hsegment.1.orFree)
          (head?_blanks_append isBlank_bar hgap' hsegment.2.2)
  · exact not_before hfirst hbehind.1

end Operators

end Chain

/-- The tasks of a job and of its continuations, which have none of their own in a job that
was read from a line. -/
def Job.tasks (job : Job) : List Task :=
  job.task :: (job.onSuccess.toList ++ job.onFailure.toList).map Job.task

namespace Parse

open Text Chain

/-!
## Jobs of chains
-/

/-- What a continuation comes from. -/
inductive Followed (tree : FileTree) (table : CommandTable) :
    Option (List Char) → Option Job → Prop
  | absent : Followed tree table none none
  | present {s : List Char} {task : Task} :
      segment tree table s = .ok (some task) → Followed tree table (some s) (some (.ofTask task))

/-- A job has the tasks of the segments of a chain, each of them read on its own. -/
structure Reads (tree : FileTree) (table : CommandTable) (chain : Chain) (job : Job) : Prop where
  first : segment tree table chain.first = .ok (some job.task)
  success : Followed tree table chain.onSuccess job.onSuccess
  failure : Followed tree table chain.onFailure job.onFailure

variable {tree : FileTree} {table : CommandTable}

theorem continuation_eq_ok_iff {s : Option (List Char)} {next : Option Job} :
    continuation tree table s = .ok next ↔ Followed tree table s next := by
  constructor
  · intro h
    cases s with
    | none =>
        cases h
        exact .absent
    | some s =>
        rw [continuation] at h
        cases hsegment : segment tree table s with
        | error error => rw [hsegment] at h; cases h
        | ok found =>
            rw [hsegment] at h
            cases found with
            | none => cases h
            | some task =>
                cases h
                exact .present hsegment
  · intro h
    cases h with
    | absent => rfl
    | present hsegment => rw [continuation, hsegment]

theorem chain_eq_job_iff {c : Chain} {job : Job} :
    chain tree table c = .ok (some job) ↔ Reads tree table c job := by
  rcases job with ⟨task, onSuccess, onFailure⟩
  constructor
  · intro h
    rw [chain] at h
    cases hfirst : segment tree table c.first with
    | error error => rw [hfirst] at h; cases h
    | ok found =>
        rw [hfirst] at h
        cases found with
        | none => cases h
        | some task =>
            cases hsuccess : continuation tree table c.onSuccess with
            | error error => simp only [hsuccess, reduceCtorEq] at h
            | ok next =>
                cases hfailure : continuation tree table c.onFailure with
                | error error => simp only [hsuccess, hfailure, reduceCtorEq] at h
                | ok fallback =>
                    simp only [hsuccess, hfailure, Except.ok.injEq, Option.some.injEq] at h
                    cases h
                    exact ⟨hfirst, continuation_eq_ok_iff.mp hsuccess,
                      continuation_eq_ok_iff.mp hfailure⟩
  · intro h
    have hfirst := h.first
    have hsuccess := continuation_eq_ok_iff.mpr h.success
    have hfailure := continuation_eq_ok_iff.mpr h.failure
    rw [chain, hfirst, hsuccess, hfailure]
    rfl

/-- A segment becomes a task. -/
def Accepted (tree : FileTree) (table : CommandTable) (s : List Char) : Prop :=
  ∃ task, segment tree table s = .ok (some task)

/-- The refusal of the first segment of a chain that is refused. -/
inductive Refused (tree : FileTree) (table : CommandTable) (c : Chain) (error : ParseError) : Prop
  | first :
      segment tree table c.first = .error error → Refused tree table c error
  | success {s : List Char} :
      Accepted tree table c.first → c.onSuccess = some s →
      segment tree table s = .error error → Refused tree table c error
  | failure {s : List Char} :
      Accepted tree table c.first → (∀ t, c.onSuccess = some t → Accepted tree table t) →
      c.onFailure = some s → segment tree table s = .error error → Refused tree table c error

theorem Followed.accepted {s : List Char} {next : Option Job}
    (h : Followed tree table (some s) next) : Accepted tree table s := by
  cases h with
  | present hsegment => exact ⟨_, hsegment⟩

theorem Reads.accepted {c : Chain} {job : Job} (h : Reads tree table c job) :
    ∀ s ∈ c.parts, Accepted tree table s := by
  intro s hs
  rw [parts, List.mem_cons, List.mem_append, Option.mem_toList, Option.mem_toList] at hs
  rcases hs with rfl | hs | hs
  · exact ⟨_, h.first⟩
  · exact (hs ▸ h.success).accepted
  · exact (hs ▸ h.failure).accepted

theorem exists_followed {s : Option (List Char)}
    (h : ∀ t, s = some t → Accepted tree table t) : ∃ next, Followed tree table s next := by
  cases s with
  | none => exact ⟨none, .absent⟩
  | some t =>
      rcases h t rfl with ⟨task, htask⟩
      exact ⟨some (.ofTask task), .present htask⟩

/-- A chain whose segments all become tasks is the job of these tasks. -/
theorem exists_reads {c : Chain} (h : ∀ s ∈ c.parts, Accepted tree table s) :
    ∃ job, Reads tree table c job := by
  rcases h c.first List.mem_cons_self with ⟨task, hfirst⟩
  have hsuccess : ∀ t, c.onSuccess = some t → Accepted tree table t :=
    fun t ht => h t (by simp [parts, ht])
  have hfailure : ∀ t, c.onFailure = some t → Accepted tree table t :=
    fun t ht => h t (by simp [parts, ht])
  rcases exists_followed hsuccess with ⟨next, hnext⟩
  rcases exists_followed hfailure with ⟨fallback, hfallback⟩
  exact ⟨.mk task next fallback, hfirst, hnext, hfallback⟩

/-- The segments of a chain are read in their order up to the first refusal. -/
theorem chain_eq_error {c : Chain} {error : ParseError} (h : Refused tree table c error) :
    chain tree table c = .error error := by
  have hcontinuation : ∀ {s : List Char}, segment tree table s = .error error →
      continuation tree table (some s) = .error error := by
    intro s hs
    rw [continuation, hs]
  cases h with
  | first hfirst => rw [chain, hfirst]
  | success hfirst hs hsegment =>
      rcases hfirst with ⟨task, htask⟩
      rw [chain, htask, hs, hcontinuation hsegment]
  | failure hfirst hsuccess hs hsegment =>
      rcases hfirst with ⟨task, htask⟩
      rcases exists_followed hsuccess with ⟨next, hnext⟩
      rw [chain, htask, continuation_eq_ok_iff.mpr hnext, hs, hcontinuation hsegment]

/-!
## Lines
-/

variable {text : String}

theorem line_of_comment (h : prepareChars text.toList = [] ∨
    (prepareChars text.toList).head? = some '#') : line tree table text = .ok none := by
  rw [line, if_pos]
  rwa [Bool.or_eq_true, List.isEmpty_iff, beq_iff_eq]

theorem line_of_not_comment (hne : prepareChars text.toList ≠ [])
    (hhead : (prepareChars text.toList).head? ≠ some '#') :
    line tree table text = chain tree table (split (prepareChars text.toList)) := by
  rw [line, if_neg]
  rw [Bool.or_eq_true, List.isEmpty_iff, beq_iff_eq, not_or]
  exact ⟨hne, hhead⟩

/-- A chain that does not begin with a comment is a job or is refused. -/
theorem chain_ne_none {c : Chain} (hne : c.first ≠ []) (hhead : c.first.head? ≠ some '#') :
    chain tree table c ≠ .ok none := by
  intro h
  rw [chain] at h
  cases hfirst : segment tree table c.first with
  | error error => rw [hfirst] at h; cases h
  | ok found =>
      cases found with
      | none =>
          rcases segment_eq_none_iff.mp hfirst with hnil | hcomment
          · exact hne hnil
          · exact hhead hcomment
      | some task =>
          cases hsuccess : continuation tree table c.onSuccess with
          | error error => simp only [hfirst, hsuccess, reduceCtorEq] at h
          | ok next =>
              cases hfailure : continuation tree table c.onFailure with
              | error error => simp only [hfirst, hsuccess, hfailure, reduceCtorEq] at h
              | ok fallback =>
                  simp only [hfirst, hsuccess, hfailure, Except.ok.injEq, reduceCtorEq] at h

theorem line_eq_none_iff :
    line tree table text = .ok none ↔
      prepareChars text.toList = [] ∨ (prepareChars text.toList).head? = some '#' := by
  constructor
  · intro h
    by_contra hcomment
    rw [not_or] at hcomment
    have htrim : Trimmed (prepareChars text.toList) :=
      (prepared_prepareChars text.toList).toTrimmed
    have hne := first_split_ne_nil htrim hcomment.1
    have hhead := (spells_split htrim).head?_first hne
    rw [line_of_not_comment hcomment.1 hcomment.2] at h
    exact chain_ne_none hne (hhead ▸ hcomment.2) h
  · exact line_of_comment

/-- A job comes from the chain that its line is cut into. -/
theorem reads_of_line {job : Job} (h : line tree table text = .ok (some job)) :
    Reads tree table (split (prepareChars text.toList)) job := by
  by_cases hcomment :
      prepareChars text.toList = [] ∨ (prepareChars text.toList).head? = some '#'
  · rw [line_of_comment hcomment] at h
    cases h
  · rw [not_or] at hcomment
    rw [line_of_not_comment hcomment.1 hcomment.2] at h
    exact chain_eq_job_iff.mp h

/-- A segment that is neither empty nor a comment becomes a task or is refused. -/
theorem accepted_or_error {s : List Char} (hne : s ≠ []) (hhead : s.head? ≠ some '#') :
    Accepted tree table s ∨ ∃ error, segment tree table s = .error error := by
  cases hsegment : segment tree table s with
  | error error => exact Or.inr ⟨error, rfl⟩
  | ok found =>
      cases found with
      | some task => exact Or.inl ⟨task, hsegment⟩
      | none =>
          rcases segment_eq_none_iff.mp hsegment with hnil | hcomment
          · exact absurd hnil hne
          · exact absurd hcomment hhead

theorem accepted_or_refused {c : Chain}
    (h : ∀ s ∈ c.parts, s ≠ [] ∧ s.head? ≠ some '#') :
    (∀ s ∈ c.parts, Accepted tree table s) ∨ ∃ error, Refused tree table c error := by
  rcases c with ⟨first, next, fallback⟩
  have hpart : ∀ s ∈ parts ⟨first, next, fallback⟩, Accepted tree table s ∨
      ∃ error, segment tree table s = .error error :=
    fun s hs => accepted_or_error (h s hs).1 (h s hs).2
  rcases hpart first List.mem_cons_self with hfirst | ⟨error, herror⟩
  · by_cases hnext : ∀ t, next = some t → Accepted tree table t
    · by_cases hfallback : ∀ t, fallback = some t → Accepted tree table t
      · refine Or.inl fun s hs => ?_
        rw [parts, List.mem_cons, List.mem_append, Option.mem_toList, Option.mem_toList] at hs
        rcases hs with rfl | hs | hs
        · exact hfirst
        · exact hnext s hs
        · exact hfallback s hs
      · push Not at hfallback
        rcases hfallback with ⟨t, ht, hrefused⟩
        rcases hpart t (by simp [parts, ht]) with haccepted | ⟨error, herror⟩
        · exact absurd haccepted hrefused
        · exact Or.inr ⟨error, .failure hfirst hnext ht herror⟩
    · push Not at hnext
      rcases hnext with ⟨t, ht, hrefused⟩
      rcases hpart t (by simp [parts, ht]) with haccepted | ⟨error, herror⟩
      · exact absurd haccepted hrefused
      · exact Or.inr ⟨error, .success hfirst ht herror⟩
  · exact Or.inr ⟨error, .first herror⟩

/-- In a line without comment no segment of a spelling begins like one. -/
theorem head?_of_spelling {c : Chain} (hprepared : Prepared c.spelling)
    (hhead : c.spelling.head? ≠ some '#') (hne : ∀ s ∈ c.parts, s ≠ []) :
    ∀ s ∈ c.parts, s.head? ≠ some '#' := by
  have hbehind : ∀ s, ' ' :: s <:+: c.spelling → s.head? ≠ some '#' := by
    intro s hinner hcomment
    have hpair : [' ', '#'] <+: ' ' :: s := pair_prefix_cons.mpr ⟨rfl, hcomment⟩
    exact hprepared.uncommented (hpair.isInfix.trans hinner)
  intro s hs
  rw [parts, List.mem_cons, List.mem_append, Option.mem_toList, Option.mem_toList] at hs
  rcases hs with rfl | hs | hs
  · have hfirst := hne c.first List.mem_cons_self
    rwa [spelling, List.head?_append_of_ne_nil _ hfirst] at hhead
  · refine hbehind s ⟨c.first ++ [' ', '&', '&'],
      c.onFailure.elim [] (' ' :: '|' :: '|' :: ' ' :: ·), ?_⟩
    rw [spelling, hs]
    simp
  · refine hbehind s ⟨c.first ++ (c.onSuccess.elim [] (' ' :: '&' :: '&' :: ' ' :: ·) ++
      [' ', '|', '|']), [], ?_⟩
    rw [spelling, hs]
    simp

theorem distinct_of_reads {c : Chain} {job : Job} (h : Reads tree .standard c job) :
    c.Distinct := by
  intro s hs
  rcases h.accepted s hs with ⟨task, hsegment⟩
  exact ⟨plain_of_segment hsegment, head?_of_segment_standard hsegment⟩

/-- The tasks of a job come from the segments of its chain. -/
theorem exists_segment_of_mem_tasks {c : Chain} {job : Job} (h : Reads tree table c job)
    {task : Task} (hmem : task ∈ job.tasks) :
    ∃ s ∈ c.parts, segment tree table s = .ok (some task) := by
  have hnext : ∀ {s : Option (List Char)} {next : Option Job}, Followed tree table s next →
      ∀ job ∈ next, ∃ t ∈ s, segment tree table t = .ok (some job.task) := by
    intro s next hfollowed job hjob
    cases hfollowed with
    | absent => cases hjob
    | present hsegment =>
        cases hjob
        exact ⟨_, rfl, hsegment⟩
  rw [Job.tasks, List.mem_cons, List.mem_map] at hmem
  rcases hmem with rfl | ⟨next, hjob, rfl⟩
  · exact ⟨_, List.mem_cons_self, h.first⟩
  · rw [List.mem_append, Option.mem_toList, Option.mem_toList] at hjob
    rcases hjob with hjob | hjob
    · rcases hnext h.success next hjob with ⟨s, hs, hsegment⟩
      refine ⟨s, List.mem_cons_of_mem _ (List.mem_append_left _ ?_), hsegment⟩
      exact Option.mem_toList.mpr hs
    · rcases hnext h.failure next hjob with ⟨s, hs, hsegment⟩
      refine ⟨s, List.mem_cons_of_mem _ (List.mem_append_right _ ?_), hsegment⟩
      exact Option.mem_toList.mpr hs

/-- A line is no job, or a chain of segments that are read one by one: a job is spelled by
its chain, and a spelling is read as its chain or refused like its first refused segment. -/
theorem line_reads_chain (tree : FileTree) (table : CommandTable) (text : String)
    (hline : '\n' ∉ text.toList) :
    (line tree table text = .ok none ↔
      prepareChars text.toList = [] ∨ (prepareChars text.toList).head? = some '#') ∧
    (∀ job, line tree table text = .ok (some job) →
      ∃ c : Chain, c.Spells (prepareChars text.toList) ∧ (∀ s ∈ c.parts, Plain s) ∧
        Reads tree table c job) ∧
    (∀ c : Chain, prepareChars text.toList = c.spelling →
      (prepareChars text.toList).head? ≠ some '#' → (∀ s ∈ c.parts, Plain s ∧ Trimmed s) →
      ((∀ s ∈ c.parts, Accepted tree table s) →
        ∃ job, line tree table text = .ok (some job) ∧ Reads tree table c job) ∧
      (∀ error, Refused tree table c error → line tree table text = .error error) ∧
      ((∀ s ∈ c.parts, Accepted tree table s) ∨ ∃ error, Refused tree table c error)) ∧
    (∀ job, line tree .standard text = .ok (some job) →
      (∀ front behind front' behind', prepareChars text.toList = front ++ andWord ++ behind →
        prepareChars text.toList = front' ++ andWord ++ behind' → front = front') ∧
      (∀ front middle behind, prepareChars text.toList ≠
        (front ++ orWord) ++ (middle ++ (orWord ++ behind))) ∧
      (∀ front middle behind, prepareChars text.toList ≠
        (front ++ orWord) ++ (middle ++ (andWord ++ behind)))) := by
  have hprepared := prepared_prepareChars text.toList
  have hline' : '\n' ∉ prepareChars text.toList :=
    fun hmem => hline ((mem_of_mem_prepareChars hmem).resolve_left (by decide))
  have hspells := spells_split hprepared.toTrimmed
  refine ⟨line_eq_none_iff, ?_, ?_, ?_⟩
  · intro job hjob
    have hreads := reads_of_line hjob
    refine ⟨_, hspells, fun s hs => ?_, hreads⟩
    rcases hreads.accepted s hs with ⟨task, hsegment⟩
    exact plain_of_segment hsegment
  · intro c hspelling hhead hparts
    have hfirst := (hparts c.first List.mem_cons_self).1.ne_nil
    have hne : prepareChars text.toList ≠ [] := by
      rw [hspelling, spelling]
      exact List.append_ne_nil_of_left_ne_nil hfirst _
    have hspelled : ∀ s ∈ c.parts, Spelled s := fun s hs =>
      { toPlain := (hparts s hs).1
        toTrimmed := (hparts s hs).2
        oneLine := fun hmem => hline' (hspelling ▸ mem_spelling hs hmem) }
    have hchain : line tree table text = chain tree table c := by
      rw [line_of_not_comment hne hhead, hspelling, split_spelling hspelled]
    rw [hspelling] at hhead hprepared
    refine ⟨fun haccepted => ?_, fun error hrefused => hchain.trans (chain_eq_error hrefused), ?_⟩
    · rcases exists_reads haccepted with ⟨job, hreads⟩
      exact ⟨job, hchain.trans (chain_eq_job_iff.mpr hreads), hreads⟩
    · have hparts' : ∀ s ∈ c.parts, s ≠ [] := fun s hs => (hparts s hs).1.ne_nil
      exact accepted_or_refused fun s hs =>
        ⟨hparts' s hs, head?_of_spelling hprepared hhead hparts' s hs⟩
  · intro job hjob
    have hdistinct := distinct_of_reads (reads_of_line hjob)
    refine ⟨fun front behind front' behind' h h' => ?_, fun front middle behind => ?_,
      fun front middle behind => ?_⟩
    · exact andWord_unique (cuts_split hprepared.toTrimmed) hprepared.toTrimmed hline' hdistinct
        h h'
    · exact (hspells.orWord_last hdistinct).1
    · exact (hspells.orWord_last hdistinct).2

theorem line_reads_chain_sample :
    ∃ job, line default .standard "exit 0 && exit 1 || exit 2" = .ok (some job) ∧
      Reads default .standard
        { first := "exit 0".toList, onSuccess := some "exit 1".toList,
          onFailure := some "exit 2".toList } job := by
  let c : Chain :=
    { first := "exit 0".toList, onSuccess := some "exit 1".toList,
      onFailure := some "exit 2".toList }
  have hplain : ∀ s ∈ c.parts,
      s ≠ [] ∧ (¬ andWord <:+: s ∧ ¬ orWord <:+: s) ∧ trim s = s := by
    decide
  have hspelled : ∀ s ∈ c.parts, Plain s ∧ Trimmed s := by
    intro s hs
    rcases hplain s hs with ⟨hne, hfree, htrim⟩
    exact ⟨⟨hne, hfree.1, hfree.2⟩, htrim ▸ trimmed_trim s⟩
  have haccepted : ∀ s ∈ c.parts, Accepted default .standard s := by
    intro s hs
    simp only [c, parts, Option.toList_some, List.cons_append, List.nil_append, List.mem_cons,
      List.not_mem_nil, or_false] at hs
    rcases hs with rfl | rfl | rfl
    all_goals exact ⟨_, rfl⟩
  have hlines := line_reads_chain default .standard "exit 0 && exit 1 || exit 2" (by decide)
  exact (hlines.2.2.1 c (by decide) (by decide) hspelled).1 haccepted

end Parse
end BulkTransfer
