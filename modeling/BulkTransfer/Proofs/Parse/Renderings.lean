import BulkTransfer.Proofs.Command.Texts
import BulkTransfer.Proofs.Parse.Lines

/-!
# Reading the rendering of a task

The rendering of a task is its keyword and the canonical texts of its arguments.  Read
again, it gives the same operation and the same arguments if and only if the destination of
the task is settled.
-/

namespace BulkTransfer

open Text

/-!
## The words of a segment
-/

namespace Chain

/-- A shape with room for blanks behind every segment. -/
inductive Spaced : List Piece → Prop
  | nil : Spaced []
  | blanks {shape : List Piece} : Spaced shape → Spaced (.blanks :: shape)
  | word {shape : List Piece} (word : List Char) : Spaced shape → Spaced (.word word :: shape)
  | segment {shape : List Piece} : Spaced shape → Spaced (.segment :: .blanks :: shape)

theorem spaced_bothShape : Spaced bothShape :=
  .blanks (.segment (.word _ (.blanks (.segment (.word _ (.blanks (.segment .nil)))))))

theorem spaced_pairShape (operator : List Char) : Spaced (pairShape operator) :=
  .blanks (.segment (.word _ (.blanks (.segment .nil))))

/-- A segment without a blank at its end, or a single character. -/
def Short (segment : List Char) : Prop :=
  segment.length = 1 ∨ ∀ c, segment.getLast? = some c → isBlank c = false

/-- The segments that are found could not have ended earlier, so they end in no blanks. -/
theorem short_of_segments {shape : List Piece} (hshape : Spaced shape) {s : List Char}
    {parts : List (List Char)} (h : segments shape s = some parts) :
    ∀ segment ∈ parts, Short segment := by
  induction hshape generalizing s parts with
  | nil =>
      rw [segments] at h
      split at h
      · cases h
        exact fun _ hmem => absurd hmem List.not_mem_nil
      · cases h
  | blanks _ ih =>
      rcases behindBlanks_inv h with ⟨_, _, -, -, hrest⟩
      exact ih hrest
  | word _ _ ih =>
      rcases Option.bind_eq_some_iff.mp h with ⟨_, -, hrest⟩
      exact ih hrest
  | segment _ ih =>
      rcases behindSegment_inv h with ⟨segment, rest, behind, rfl, -, hne, -, hnext, hshort⟩
      rcases behindBlanks_inv hnext with ⟨_, _, -, -, hrest⟩
      refine List.forall_mem_cons.mpr ⟨?_, ih hrest⟩
      rcases List.eq_nil_or_concat segment with rfl | ⟨front, c, rfl⟩
      · exact absurd rfl hne
      · rw [List.concat_eq_append] at hshort ⊢
        cases front with
        | nil => exact Or.inl rfl
        | cons d front =>
            refine Or.inr fun c' hc' => ?_
            rw [List.getLast?_append, List.getLast?_singleton, Option.some_or,
              Option.some.injEq] at hc'
            subst hc'
            cases hblank : isBlank c with
            | false => rfl
            | true =>
                have hearlier := hshort (d :: front) [c] rfl (List.cons_ne_nil _ _)
                  (List.cons_ne_nil _ _)
                rw [List.singleton_append, segments, behindBlanks, if_pos hblank] at hearlier
                rw [segments] at hnext
                rw [hnext] at hearlier
                cases hearlier

theorem short_split {s : List Char} (h : Trimmed s) : ∀ segment ∈ (split s).parts, Short segment := by
  have hcuts := cuts_split h
  generalize split s = chain at hcuts ⊢
  cases hcuts with
  | both hboth =>
      exact short_of_segments spaced_bothShape hboth
  | success hand => exact short_of_segments (spaced_pairShape _) hand
  | failure _ hor => exact short_of_segments (spaced_pairShape _) hor
  | whole =>
      intro segment hmem
      rw [List.mem_singleton.mp hmem]
      exact Or.inr h.back

theorem Continued.isSuffix {operator segment s : List Char} {next : Option (List Char)}
    (h : Continued operator next s) (hsegment : next = some segment) : segment <:+ s := by
  cases h with
  | absent => cases hsegment
  | present other _ _ =>
      cases hsegment
      exact (List.suffix_append _ _).trans
        ((List.suffix_append _ _).trans (List.suffix_append _ _))

theorem isInfix_of_spells {chain : Chain} {s : List Char} (h : chain.Spells s) :
    ∀ segment ∈ chain.parts, segment <:+: s := by
  rcases h with ⟨success, failure, hsuccess, hfailure, rfl⟩
  intro segment hmem
  rw [parts, List.mem_cons, List.mem_append, Option.mem_toList, Option.mem_toList] at hmem
  rcases hmem with rfl | hmem | hmem
  · exact (List.prefix_append _ _).isInfix
  · have hfront : success <:+: chain.first ++ (success ++ failure) := ⟨chain.first, failure, by simp⟩
    exact (hsuccess.isSuffix hmem).isInfix.trans hfront
  · have hback : failure <:+ chain.first ++ (success ++ failure) :=
      (List.suffix_append _ _).trans (List.suffix_append _ _)
    exact ((hfailure.isSuffix hmem).trans hback).isInfix

end Chain

/-!
## Lines that are put together from words
-/

namespace Chain

theorem not_double_infix_joinWith {sep x : Char} (hx : x ≠ sep) {words : List (List Char)}
    (h : ∀ word ∈ words, ¬ [x, x] <:+: word) : ¬ [x, x] <:+: joinWith sep words := by
  induction words with
  | nil =>
      rw [joinWith, List.infix_nil]
      exact List.cons_ne_nil _ _
  | cons word words ih =>
      rw [List.forall_mem_cons] at h
      cases words with
      | nil => exact h.1
      | cons next rest =>
          rw [joinWith_cons sep word (List.cons_ne_nil _ _), pair_infix_append,
            List.infix_cons_iff, pair_prefix_cons, List.head?_cons]
          rintro (hword | (hmeet | hrest) | ⟨-, hhead⟩)
          · exact h.1 hword
          · exact hx hmeet.1
          · exact ih h.2 hrest
          · exact hx (Option.some.inj hhead).symm

/-- Words with spaces between them. -/
structure Phrase (words : List (List Char)) : Prop where
  word : ∀ word ∈ words, IsWord word
  front : ∀ c, (joinWith ' ' words).head? = some c → isBlank c = false
  back : ∀ c, (joinWith ' ' words).getLast? = some c → isBlank c = false

variable {words : List (List Char)}

theorem Phrase.prepared (h : Phrase words) : Prepared (joinWith ' ' words) where
  front := h.front
  back := h.back
  single := by
    refine not_pair_infix_joinWith (fun word hword => (h.word word hword).spaceFree)
      (fun word hword => (h.word word hword).ne_nil) fun word hword hspace => ?_
    have hfree := (h.word word (List.mem_of_mem_tail hword)).spaceFree
    exact hfree (List.mem_of_head? hspace)
  uncommented :=
    not_pair_infix_joinWith (fun word hword => (h.word word hword).spaceFree)
      (fun word hword => (h.word word hword).ne_nil)
      fun word hword => (h.word word (List.mem_of_mem_tail hword)).uncommented

theorem Phrase.plain (h : Phrase words) (hne : words ≠ []) : Plain (joinWith ' ' words) where
  ne_nil := by
    cases words with
    | nil => exact absurd rfl hne
    | cons word words =>
        have hword := (h.word word List.mem_cons_self).ne_nil
        intro hnil
        have hhead : (joinWith ' ' (word :: words)).head? = word.head? := head?_joinWith words hword
        rw [hnil] at hhead
        exact hword (List.head?_eq_none_iff.mp hhead.symm)
  andFree := not_double_infix_joinWith (by decide) fun word hword => (h.word word hword).andFree
  orFree := not_double_infix_joinWith (by decide) fun word hword => (h.word word hword).orFree

theorem Phrase.head?_ne_hash (h : Phrase words) : (joinWith ' ' words).head? ≠ some '#' := by
  cases words with
  | nil => exact Option.some_ne_none _ ∘ Eq.symm
  | cons word words =>
      have hword := h.word word List.mem_cons_self
      rw [head?_joinWith words hword.ne_nil]
      exact hword.uncommented

theorem split_of_plain {s : List Char} (h : Plain s) : split s = { first := s } := by
  have hboth := segments_eq_none_of_not_isInfix bothShape andWord (by simp [bothShape]) h.andFree
  have hand := segments_eq_none_of_not_isInfix (pairShape andWord) andWord
    (by simp [pairShape]) h.andFree
  have hor := segments_eq_none_of_not_isInfix (pairShape orWord) orWord
    (by simp [pairShape]) h.orFree
  rw [split, cut_eq_segments, cut_eq_segments, cut_eq_segments, hboth, hand, hor]

end Chain

namespace Parse

open Chain

variable {tree : FileTree}

/-- A line of words is read as one segment. -/
theorem line_of_phrase {table : CommandTable} {text : String} {words : List (List Char)}
    (htext : text.toList = joinWith ' ' words) (h : Phrase words) (hne : words ≠ []) :
    line tree table text = chain tree table { first := joinWith ' ' words } := by
  have hprepared : prepareChars text.toList = joinWith ' ' words := by
    rw [htext, prepareChars_eq_self h.prepared]
  have hplain := h.plain hne
  rw [line_of_not_comment (hprepared ▸ hplain.ne_nil) (hprepared ▸ h.head?_ne_hash), hprepared,
    split_of_plain hplain]

/-- A line that is one segment is read as a single task. -/
theorem line_of_segment {table : CommandTable} {text : String} {task : Task}
    (hcut : split (prepareChars text.toList) = { first := text.toList })
    (hcomment : prepareChars text.toList ≠ [] ∧ (prepareChars text.toList).head? ≠ some '#')
    (hsegment : segment tree table text.toList = .ok (some task)) :
    line tree table text = .ok (some (.ofTask task)) := by
  rw [line_of_not_comment hcomment.1 hcomment.2, hcut, chain_eq_job_iff]
  exact ⟨hsegment, .absent, .absent⟩

theorem segment_of_phrase {table : CommandTable} {keyword : String} {texts : List String}
    (h : Phrase ((keyword :: texts).map String.toList)) {task : Task} :
    segment tree table (joinWith ' ' ((keyword :: texts).map String.toList)) = .ok (some task) ↔
      ofWords tree table
        (String.ofList (joinWith ' ' ((keyword :: texts).map String.toList))) keyword texts =
          .ok task := by
  have hsplit : splitOn ' ' (joinWith ' ' ((keyword :: texts).map String.toList)) =
      keyword.toList :: texts.map String.toList :=
    splitOn_joinWith (List.cons_ne_nil _ _) fun word hword => (h.word word hword).spaceFree
  have hid : String.ofList ∘ String.toList = id := funext fun _ => String.ofList_toList
  rw [segment_eq_some_iff]
  constructor
  · rintro ⟨-, -, keyword', words, hwords, hok⟩
    rw [hsplit, List.cons.injEq] at hwords
    rcases hwords with ⟨rfl, rfl⟩
    rwa [String.ofList_toList, List.map_map, hid, List.map_id] at hok
  · intro hok
    refine ⟨h.plain (List.cons_ne_nil _ _), h.head?_ne_hash, _, _, hsplit, ?_⟩
    rwa [String.ofList_toList, List.map_map, hid, List.map_id]

theorem standard_keyword : ∀ spec ∈ CommandTable.standard.specs,
    IsWord spec.keyword.toList ∧ ∀ c, spec.keyword.toList.head? = some c → isBlank c = false := by
  have hspecs : ∀ spec ∈ CommandTable.standard.specs,
      (' ' ∉ spec.keyword.toList ∧ ¬ andWord <:+: spec.keyword.toList ∧
        ¬ orWord <:+: spec.keyword.toList) ∧ spec.keyword.toList ≠ [] ∧
        spec.keyword.toList.head? ≠ some '#' ∧
        spec.keyword.toList.head?.all (fun c => !isBlank c) = true := by
    decide +kernel
  intro spec hspec
  rcases hspecs spec hspec with ⟨⟨hspace, hand, hor⟩, hne, hcomment, hblank⟩
  refine ⟨⟨⟨hspace, hand, hor⟩, hne, hcomment⟩, fun c hc => ?_⟩
  rw [hc, Option.all_some, Bool.not_eq_true'] at hblank
  exact hblank

/-- The words behind the keyword, in a segment of a prepared line that becomes a task. -/
theorem isWord_of_segment {line s keyword : List Char} {words : List (List Char)} {task : Task}
    (hprepared : Prepared line) (hinner : s <:+: line) (hshort : Short s)
    (h : segment tree .standard s = .ok (some task)) (hsplit : splitOn ' ' s = keyword :: words) :
    ∀ word ∈ words, IsWord word := by
  rcases segment_eq_some_iff.mp h with ⟨hplain, -, keyword', words', hsplit', hwords⟩
  rw [hsplit, List.cons.injEq] at hsplit'
  rcases hsplit' with ⟨rfl, rfl⟩
  rcases exists_spec_of_ofWords hwords with ⟨spec, hspec, hkeyword, -⟩
  have hkeyword' := (standard_keyword spec hspec).1
  rw [hkeyword, String.toList_ofList] at hkeyword'
  have hlast : s.getLast? ≠ some ' ' := by
    intro hlast
    rcases hshort with hone | hback
    · rcases List.length_eq_one_iff.mp hone with ⟨c, rfl⟩
      have hspace : c = ' ' := Option.some.inj hlast
      rw [hspace, show splitOn ' ' [' '] = [[], []] from rfl] at hsplit
      cases hsplit
      exact hkeyword'.ne_nil rfl
    · exact absurd (hback ' ' hlast) (by rw [isBlank_space]; exact Bool.noConfusion)
  intro word hmem
  have hpiece : word ∈ splitOn ' ' s := hsplit ▸ List.mem_cons_of_mem _ hmem
  have hpart := isInfix_of_mem_splitOn hpiece
  refine ⟨⟨not_mem_of_mem_splitOn hpiece, fun hand => hplain.andFree (hand.trans hpart),
    fun hor => hplain.orFree (hor.trans hpart)⟩, ?_, fun hhash => ?_⟩
  · exact ne_nil_of_mem_rest (fun hdouble => hprepared.single (hdouble.trans hinner)) hlast hsplit
      word hmem
  · have hpair := (pair_infix_of_head_splitOn hsplit).2 word hmem hhash
    exact hprepared.uncommented (hpair.trans hinner)

theorem words_of_segment {line s : List Char} {task : Task} (hprepared : Prepared line)
    (hinner : s <:+: line) (hshort : Short s)
    (h : segment tree .standard s = .ok (some task)) :
    ∃ words : List String, (∀ word ∈ words, IsWord word.toList) ∧
      ofWords tree .standard (String.ofList s) task.keyword words = .ok task := by
  rcases segment_eq_some_iff.mp h with ⟨-, -, keyword, words, hsplit, hwords⟩
  rcases exists_spec_of_ofWords hwords with ⟨spec, -, -, htask, -⟩
  refine ⟨words.map String.ofList, ?_, htask ▸ hwords⟩
  intro word hmem
  rcases List.mem_map.mp hmem with ⟨letters, hletters, rfl⟩
  rw [String.toList_ofList]
  exact isWord_of_segment hprepared hinner hshort h hsplit letters hletters

/-- The letters of the rendering of a task. -/
theorem toList_rendering (keyword : String) (arguments : List Argument) :
    (Task.rendering keyword arguments).toList =
      joinWith ' ' ((keyword :: arguments.map Argument.text).map String.toList) :=
  toList_intercalate (by decide) _

/-- The keyword and the canonical texts of a task are words of a line. -/
theorem phrase_of_ofWords {source : String} {task : Task} {words : List String}
    (hwords : ∀ word ∈ words, IsWord word.toList)
    (h : ofWords tree .standard source task.keyword words = .ok task)
    (hblank : ∀ c, task.text.toList.getLast? = some c → isBlank c = false) :
    Phrase ((task.keyword :: task.arguments.map Argument.text).map String.toList) := by
  rcases exists_spec_of_ofWords h with ⟨spec, hspec, hkeyword, -, -, hread⟩
  rcases CommandSpec.read_eq_ok_iff.mp hread with ⟨rest, hflags, harity, hbinds⟩
  have hrest : ∀ word ∈ rest, IsWord word.toList := fun word hmem =>
    hwords word ((CommandSpec.takeFlags_isSuffix hflags).subset hmem)
  have htexts := hbinds.isWord harity hrest
  rcases standard_keyword spec hspec with ⟨hword, hfront⟩
  rw [hkeyword] at hword hfront
  constructor
  · rw [List.map_cons]
    refine List.forall_mem_cons.mpr ⟨hword, fun text htext => ?_⟩
    rw [List.map_map, List.mem_map] at htext
    rcases htext with ⟨argument, hargument, rfl⟩
    exact htexts argument hargument
  · intro c hc
    rw [List.map_cons, head?_joinWith _ hword.ne_nil] at hc
    exact hfront c hc
  · intro c hc
    rw [← toList_rendering] at hc
    exact hblank c hc

/-- The canonical texts of a task make a task like it if and only if its destination is
settled. -/
theorem ofWords_texts_iff {source source' : String} {task : Task} {words : List String}
    (h : ofWords tree .standard source task.keyword words = .ok task) :
    (∃ again, ofWords tree .standard source' task.keyword (task.arguments.map Argument.text) =
        .ok again ∧ again.operation = task.operation ∧ again.arguments = task.arguments) ↔
      task.Settled tree := by
  rcases ofWords_eq_ok_iff.mp h with ⟨spec, options, arguments, hfirst, htask⟩
  have harguments : task.arguments = arguments := by rw [htask]
  have hoperation : task.operation = spec.operation := by rw [htask]
  rw [← harguments] at hfirst
  rcases CommandSpec.candidate_of_firstAccepted hfirst with ⟨hspec, hkeyword, hread⟩
  rcases CommandSpec.read_eq_ok_iff.mp hread with ⟨rest, -, -, hbinds⟩
  constructor
  · rintro ⟨again, hagain, hsame, harguments'⟩ hlocal
    rcases ofWords_eq_ok_iff.mp hagain with ⟨other, options', arguments', hfirst', hagain'⟩
    have hother : task.operation = other.operation := by rw [← hsame, hagain']
    have hmade : arguments' = task.arguments := by rw [← harguments', hagain']
    rw [hmade] at hfirst'
    rcases CommandSpec.candidate_of_firstAccepted hfirst' with ⟨hspec', hkeyword', hread'⟩
    rcases CommandSpec.read_eq_ok_iff.mp hread' with ⟨rest', -, -, hbinds'⟩
    have hfixed : ∀ spec ∈ CommandTable.standard.specs, task.operation = spec.operation →
        spec.isVariadic = false := by
      intro spec hspec hoperation
      have hstandard := CommandSpec.standard_hasDestination spec hspec
      rw [← hoperation, if_pos hlocal, Bool.and_eq_true, Bool.not_eq_true'] at hstandard
      exact hstandard.1
    have hsettled := CommandSpec.settled_of_read_texts hspec hread hspec'
      (hkeyword'.trans hkeyword.symm) (hfixed spec hspec hoperation) (hfixed other hspec' hother)
      hread'
    exact (CommandSpec.settledArguments_iff hspec' hother hbinds').mp hsettled hlocal
  · intro hsettled
    have hsettled' := (CommandSpec.settledArguments_iff hspec hoperation hbinds).mpr hsettled
    have hfirst' := CommandSpec.firstAccepted_texts hfirst hsettled'
    exact ⟨_, ofWords_eq_ok_iff.mpr ⟨_, _, _, hfirst', rfl⟩, hoperation.symm, rfl⟩

/-- A file and a directory. -/
def copyTree : FileTree :=
  ((default : FileTree).put ["dst"] .directory).put ["foo"] (.file ⟨#[120]⟩ 0)

/-- A copy of the file. -/
def copyTask (source destination : String) : Task where
  source := source
  keyword := "cp"
  operation := .localCopy
  options := Options.none
  arguments := [.plain "foo", .plain destination]

theorem line_copy {source destination : String}
    (hcut : Chain.split (prepareChars source.toList) = { first := source.toList })
    (hcomment : prepareChars source.toList ≠ [] ∧ (prepareChars source.toList).head? ≠ some '#')
    (hsegment : segment copyTree .standard source.toList =
      .ok (some (copyTask source destination))) :
    line copyTree .standard source = .ok (some (.ofTask (copyTask source destination))) :=
  line_of_segment hcut hcomment hsegment

end Parse
end BulkTransfer
