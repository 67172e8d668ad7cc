import BulkTransfer.Session
import BulkTransfer.Proofs.Json.Records
import BulkTransfer.Proofs.Text.Words

/-!
# Reading an output

In its JSON form every result is one line, and the line says all of the result.  So whoever
reads an output line by line has every result again.  The lines for input that is no job are
records too, but of no result, since they do not name a job.
-/

namespace BulkTransfer

open Text

namespace Report

/-!
## Lines of an output
-/

/-- The output that lines make, each with a break behind it. -/
def output (lines : List String) : String :=
  String.join (lines.map (· ++ "\n"))

/-- A line of an output that is found again as it is: it holds no control characters. -/
def IsVisible (line : String) : Prop :=
  ∀ c ∈ line.toList, 0x20 ≤ c.toNat

theorem IsVisible.dropReturn {line : String} (h : IsVisible line) :
    dropReturn line.toList = line.toList := by
  rw [Text.dropReturn, if_neg]
  intro hlast
  exact absurd (h '\r' (List.mem_of_getLast? hlast)) (by decide)

theorem IsVisible.newline_not_mem {line : String} (h : IsVisible line) : '\n' ∉ line.toList :=
  fun hmem => absurd (h '\n' hmem) (by decide)

/-- The lines of an output are those that it was made of. -/
theorem lines_output {lines : List String} (h : ∀ line ∈ lines, IsVisible line) :
    Text.lines (output lines) = lines := by
  induction lines with
  | nil => rfl
  | cons line lines ih =>
      have hline := h line List.mem_cons_self
      have hlines := ih fun other hmem => h other (List.mem_cons_of_mem _ hmem)
      have houtput : (output (line :: lines)).toList =
          line.toList ++ '\n' :: (output lines).toList := by
        rw [output, List.map_cons, String.join_cons, String.toList_append, String.toList_append,
          List.append_assoc]
        rfl
      rw [Text.lines] at hlines ⊢
      rw [houtput, splitOn_append_sep _ hline.newline_not_mem]
      cases hpieces : splitOn '\n' (output lines).toList with
      | nil => exact absurd hpieces (splitOn_ne_nil _ _)
      | cons piece pieces =>
          rw [hpieces] at hlines
          rw [linesOfPieces, List.map_cons, hlines, hline.dropReturn, String.ofList_toList]

theorem isVisible_print {value : Json} (h : value.IsPlain) : IsVisible value.print := by
  intro c hc
  rw [Json.print, String.toList_ofList] at hc
  exact h.visible c hc

/-!
## What a line says
-/

/-- The result that a line of an output says. -/
def resultOf? (line : String) : Option JobResult :=
  (Json.parse line).bind Record.result?

theorem resultOf?_result (result : JobResult) :
    resultOf? (Record.ofResult result).print = some result := by
  rw [resultOf?, (Record.isPlain_ofResult result).parse_print, Option.bind_some,
    Record.result?_ofResult]

/-- What is said about a line that is no job. -/
def rejectionMembers (line : String) (error : ParseError) : List (String × Option Json) :=
  [("error", some (.text error.message)), ("parse_error", some (.bool true)),
    ("source_description", some (.text line)), ("status", some (Record.ofStatus .failed))]

theorem parseErrorLine_eq (verbose : Bool) (line : String) (error : ParseError) :
    parseErrorLine { format := .json, verbose := verbose } line error =
      (Json.record (Record.present (rejectionMembers line error))).print := rfl

theorem isPlain_rejection (line : String) (error : ParseError) :
    (Json.record (Record.present (rejectionMembers line error))).IsPlain := by
  apply Record.isPlain_record
  simp only [rejectionMembers, List.forall_mem_cons, Option.mem_def, Option.some.injEq,
    forall_eq']
  exact ⟨.text _, .bool true, .text _, .text _, List.forall_mem_nil _⟩

/-- The record of a line that is no job does not name a job. -/
theorem resultOf?_rejection (verbose : Bool) (line : String) (error : ParseError) :
    resultOf? (parseErrorLine { format := .json, verbose := verbose } line error) = none := by
  rw [parseErrorLine_eq, resultOf?, (isPlain_rejection line error).parse_print, Option.bind_some]
  rfl

/-!
## All that is reported
-/

/-- What is reported: a result, or a line that is no job. -/
inductive Announcement
  | ended (result : JobResult)
  | refused (line : String) (error : ParseError)

namespace Announcement

def lines (style : Style) : Announcement → List String
  | ended result => Report.lines style result
  | refused line error => [parseErrorLine style line error]

def result? : Announcement → Option JobResult
  | ended result => some result
  | refused _ _ => none

/-- Everything is reported with one line, which says the result if there is one. -/
theorem lines_json (announcement : Announcement) (verbose : Bool) :
    ∃ line, announcement.lines { format := .json, verbose := verbose } = [line] ∧
      IsVisible line ∧ resultOf? line = announcement.result? := by
  cases announcement with
  | ended result =>
      exact ⟨_, rfl, isVisible_print (Record.isPlain_ofResult result), resultOf?_result result⟩
  | refused line error =>
      refine ⟨_, rfl, ?_, resultOf?_rejection verbose line error⟩
      rw [parseErrorLine_eq]
      exact isVisible_print (isPlain_rejection line error)

/-- Reading an output line by line gives the results that were reported. -/
theorem recovered (announcements : List Announcement) (verbose : Bool) :
    (Text.lines (output (announcements.flatMap
      (lines { format := .json, verbose := verbose })))).filterMap resultOf? =
        announcements.filterMap result? := by
  have hvisible : ∀ line ∈ announcements.flatMap (lines { format := .json, verbose := verbose }),
      IsVisible line := by
    intro line hmem
    rcases List.mem_flatMap.mp hmem with ⟨announcement, -, hline⟩
    rcases announcement.lines_json verbose with ⟨line', hlines, hline', -⟩
    rw [hlines, List.mem_singleton] at hline
    rwa [hline]
  rw [lines_output hvisible]
  induction announcements with
  | nil => rfl
  | cons announcement announcements ih =>
      rcases announcement.lines_json verbose with ⟨line, hlines, -, hresult⟩
      rw [List.flatMap_cons] at hvisible ⊢
      rw [List.filterMap_append, ih fun line hmem => hvisible line (List.mem_append_right _ hmem),
        hlines, List.filterMap_cons, List.filterMap_nil, List.filterMap_cons, hresult]
      cases announcement.result? <;> rfl

end Announcement

end Report

namespace Pool

open Report (Announcement)

/-- What is reported of a line that is read, unless it is a job or nothing. -/
def Entry.refusal? : Entry → Option Announcement
  | .read line (.error error) => some (.refused (String.ofList (Text.trim line.toList)) error)
  | _ => none

namespace State

/-- What a run reports: the lines that are no jobs, and then the results. -/
def announcements (state : State) : List Announcement :=
  state.log.filterMap Entry.refusal? ++ state.results.map .ended

theorem printed_eq (state : State) (style : Report.Style) :
    state.printed style = state.announcements.flatMap (Announcement.lines style) := by
  rw [printed, announcements, List.flatMap_append, List.flatMap_map, printedRejections]
  congr 1
  induction state.log with
  | nil => rfl
  | cons entry log ih =>
      rw [List.filterMap_cons, List.filterMap_cons, ih]
      cases entry with
      | read line reading => cases reading <;> rfl
      | _ => rfl

theorem results_announcements (state : State) :
    state.announcements.filterMap Announcement.result? = state.results := by
  have hrefused : ∀ log : List Entry,
      (log.filterMap Entry.refusal?).filterMap Announcement.result? = [] := by
    intro log
    rw [List.filterMap_filterMap, List.filterMap_eq_nil_iff]
    intro entry _
    cases entry with
    | read line reading => cases reading <;> rfl
    | _ => rfl
  rw [announcements, List.filterMap_append, hrefused, List.nil_append, List.filterMap_map]
  exact List.filterMap_some

end State
end Pool

namespace Report

/-- In JSON every result is reported with exactly one line, which holds no line break and is
decoded to the same result.  So reading an output line by line gives every result again,
whatever else is reported between them, and that of a run gives its results in order. -/
theorem json_results_recovered (verbose : Bool) :
    (∀ result, ∃ line, lines { format := .json, verbose := verbose } result = [line] ∧
      '\n' ∉ line.toList ∧ (Json.parse line).bind Record.result? = some result) ∧
    (∀ announcements : List Announcement,
      (Text.lines (output (announcements.flatMap
        (Announcement.lines { format := .json, verbose := verbose })))).filterMap resultOf? =
          announcements.filterMap Announcement.result?) ∧
    ∀ state : Pool.State,
      (Text.lines (output (state.printed
        { format := .json, verbose := verbose }))).filterMap resultOf? = state.results := by
  refine ⟨fun result => ?_, fun announcements => Announcement.recovered announcements verbose,
    fun state => ?_⟩
  · rcases (Announcement.ended result).lines_json verbose with ⟨line, hlines, hvisible, hresult⟩
    exact ⟨line, hlines, hvisible.newline_not_mem, hresult⟩
  · rw [state.printed_eq, Announcement.recovered, state.results_announcements]

end Report
end BulkTransfer
