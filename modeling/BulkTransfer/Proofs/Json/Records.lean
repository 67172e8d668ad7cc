import BulkTransfer.Record
import BulkTransfer.Proofs.Json.Reading

/-!
# Records are decoded

A record is written field by field, and what is left out of it when a field is empty is taken
for empty by the decoder.  Since the fields have different names, each is found again,
whichever of the others are there.
-/

namespace BulkTransfer

open Json (IsPlain)

namespace Record

/-!
## Fields
-/

/-- The members for the fields that are there. -/
def present (fields : List (String × Option Json)) : List (String × Json) :=
  fields.flatMap fun field => (field.2.map fun value => (field.1, value)).toList

theorem mem_present {fields : List (String × Option Json)} {name : String} {value : Json} :
    (name, value) ∈ present fields ↔ (name, some value) ∈ fields := by
  simp only [present, List.mem_flatMap, Option.mem_toList, Option.map_eq_some_iff, Prod.mk.injEq]
  constructor
  · rintro ⟨⟨name', field⟩, hmem, value', rfl, rfl, rfl⟩
    exact hmem
  · intro hmem
    exact ⟨_, hmem, value, rfl, rfl, rfl⟩

/-- The member for a field is the only one of its name. -/
theorem filter_present {fields : List (String × Option Json)}
    (hnames : (fields.map Prod.fst).Nodup) {name : String} {field : Option Json}
    (hmem : (name, field) ∈ fields) :
    (present fields).filter (fun member => member.1 == name) =
      (field.map fun value => (name, value)).toList := by
  have hnone : ∀ fields : List (String × Option Json), name ∉ fields.map Prod.fst →
      (present fields).filter (fun member => member.1 == name) = [] := by
    intro fields hname
    rw [List.filter_eq_nil_iff]
    rintro ⟨name', value⟩ hvalue hsame
    rw [← eq_of_beq hsame] at hname
    exact hname (List.mem_map_of_mem (f := Prod.fst) (mem_present.mp hvalue))
  induction fields with
  | nil => cases hmem
  | cons first fields ih =>
      rcases first with ⟨name', field'⟩
      rw [List.map_cons, List.nodup_cons] at hnames
      rw [present, List.flatMap_cons, List.filter_append]
      rcases List.mem_cons.mp hmem with hfirst | hrest
      · cases hfirst
        have hbehind := hnone fields hnames.1
        rw [present] at hbehind
        rw [hbehind, List.append_nil]
        cases field with
        | none => rfl
        | some value => exact List.filter_cons_of_pos (beq_self_eq_true name)
      · have hne : name' ≠ name := by
          rintro rfl
          have hname : name' ∈ fields.map Prod.fst := List.mem_map.mpr ⟨_, hrest, rfl⟩
          exact hnames.1 hname
        have hfront : ((field'.map fun value => (name', value)).toList.filter
            fun member => member.1 == name) = [] := by
          cases field' with
          | none => rfl
          | some value => exact List.filter_cons_of_neg (by simpa using hne)
        rw [hfront, List.nil_append]
        exact ih hnames.2 hrest

theorem member?_present {fields : List (String × Option Json)}
    (hnames : (fields.map Prod.fst).Nodup) {name : String} {field : Option Json}
    (hmem : (name, field) ∈ fields) : member? (present fields) name = some field := by
  rw [member?, filter_present hnames hmem]
  cases field <;> rfl

theorem mapM_eq_some {α β γ : Type} {f : β → Option γ} {g : α → β} {k : α → γ} {xs : List α}
    (h : ∀ x ∈ xs, f (g x) = some (k x)) : (xs.map g).mapM f = some (xs.map k) := by
  induction xs with
  | nil => rfl
  | cons x xs ih =>
      rw [List.map_cons, List.mapM_cons, h x List.mem_cons_self,
        ih fun y hy => h y (List.mem_cons_of_mem x hy)]
      rfl

theorem named?_record (members : List (String × Json)) :
    named? (members.map fun member => (some member.1, member.2)) = some members := by
  induction members with
  | nil => rfl
  | cons member members ih =>
      rw [List.map_cons, named?, ih]
      rfl

/-- The fields of a record are found, those that are there and those that are not. -/
theorem fields?_record {fields : List (String × Option Json)} {names : List String}
    (hfields : fields.map Prod.fst = names) (hnames : names.Nodup) :
    fields? names (.record (present fields)) = some (fields.map Prod.snd) := by
  subst hfields
  rw [Json.record, fields?, named?_record, Option.bind_some]
  exact mapM_eq_some fun field hmem => member?_present hnames hmem

/-- A record of plain values is plain. -/
theorem isPlain_record {fields : List (String × Option Json)}
    (h : ∀ field ∈ fields, ∀ value ∈ field.2, value.IsPlain) :
    (Json.record (present fields)).IsPlain := by
  refine .object _ fun member hmember => ?_
  rcases List.mem_map.mp hmember with ⟨⟨name, value⟩, hmem, rfl⟩
  exact h _ (mem_present.mp hmem) value rfl

/-!
## Simple values
-/

theorem text?_text (value : String) : text? (.text value) = some value := rfl

theorem count32?_natural (n : UInt32) : count32? (.natural n.toNat) = some n := by
  have hle : n.toNat ≤ UInt32.size - 1 := Nat.le_sub_one_of_lt n.toNat_lt_size
  rw [count32?, natural?, if_pos hle, Option.map_some, UInt32.ofNat_toNat]

theorem list?_texts (values : List String) :
    list? text? (.array (values.map Json.text)) = some values := by
  rw [list?, mapM_eq_some (k := id) fun value _ => text?_text value, List.map_id]

theorem operation?_ofOperation (operation : Operation) :
    operation? (ofOperation operation) = some operation := by
  cases operation <;> decide

theorem status?_ofStatus (status : Status) : status? (ofStatus status) = some status := by
  cases status <;> decide

/-!
## Results
-/

/-- The fields of a tally. -/
def tallyMembers (tally : Tally) : List (String × Option Json) :=
  [("succeeded", some (.natural tally.succeeded.toNat)),
    ("failed", some (.natural tally.failed.toNat))]

theorem ofTally_eq (tally : Tally) : ofTally tally = .record (present (tallyMembers tally)) := rfl

theorem tally?_ofTally (tally : Tally) : tally? (ofTally tally) = some tally := by
  have hfields : fields? ["succeeded", "failed"] (.record (present (tallyMembers tally))) =
      some ((tallyMembers tally).map Prod.snd) := fields?_record rfl (by decide)
  rw [ofTally_eq, tally?, hfields]
  simp only [tallyMembers, List.map_cons, List.map_nil, required, Option.bind_some,
    count32?_natural]
  rfl

/-- The fields of a result. -/
def membersOf (result : JobResult) : List (String × Option Json) :=
  [("source_description", some (.text result.source)), ("job", some (.text result.job)),
    ("operation", some (ofOperation result.operation)), ("status", some (ofStatus result.status)),
    ("error", result.error.map Json.text),
    ("messages", if result.messages.isEmpty then none
      else some (.array (result.messages.map Json.text))),
    ("sub_jobs", result.subJobs.map ofTally),
    ("is_sub_job", if result.isSubJob then some (.bool true) else none),
    ("attempts", some (.natural result.attempts.toNat))]

theorem ofResult_eq (result : JobResult) :
    ofResult result = .record (present (membersOf result)) := by
  rw [ofResult, membersOf]
  simp only [present, List.flatMap_cons, List.flatMap_nil]
  cases result.error <;> cases result.messages.isEmpty <;> cases result.subJobs <;>
    cases result.isSubJob <;> rfl

theorem result?_ofResult (result : JobResult) : result? (ofResult result) = some result := by
  have hfields : fields? resultFields (.record (present (membersOf result))) =
      some ((membersOf result).map Prod.snd) := fields?_record rfl (by decide)
  have herror : optional text? (result.error.map Json.text) = some result.error := by
    cases result.error <;> rfl
  have hmessages : defaulted [] (list? text?) (if result.messages.isEmpty then none
      else some (.array (result.messages.map Json.text))) = some result.messages := by
    split
    · rename_i hempty
      rw [List.isEmpty_iff.mp hempty]
      rfl
    · exact list?_texts result.messages
  have htally : optional tally? (result.subJobs.map ofTally) = some result.subJobs := by
    cases result.subJobs with
    | none => rfl
    | some tally => exact congrArg (Option.map some) (tally?_ofTally tally)
  have hsubJob : defaulted false bool? (if result.isSubJob then some (.bool true) else none) =
      some result.isSubJob := by
    cases result.isSubJob <;> rfl
  have hattempts : defaulted 0 count32? (some (.natural result.attempts.toNat)) =
      some result.attempts := count32?_natural result.attempts
  rw [ofResult_eq, result?, hfields]
  simp only [membersOf, List.map_cons, List.map_nil, herror, hmessages, htally, hsubJob, hattempts,
    required, Option.bind_some, text?_text, operation?_ofOperation, status?_ofStatus]
  rfl

theorem isPlain_ofTally (tally : Tally) : (ofTally tally).IsPlain := by
  rw [ofTally_eq]
  apply isPlain_record
  simp only [tallyMembers, List.forall_mem_cons, Option.mem_def, Option.some.injEq, forall_eq']
  exact ⟨.natural _, .natural _, List.forall_mem_nil _⟩

/-- The record of a result holds no other numbers than counts. -/
theorem isPlain_ofResult (result : JobResult) : (ofResult result).IsPlain := by
  rw [ofResult_eq]
  apply isPlain_record
  simp only [membersOf, List.forall_mem_cons, Option.mem_def, Option.some.injEq, forall_eq']
  refine ⟨.text _, .text _, .text _, .text _, ?_, ?_, ?_, ?_, .natural _, List.forall_mem_nil _⟩
  · intro value hvalue
    rcases Option.map_eq_some_iff.mp hvalue with ⟨error, -, rfl⟩
    exact .text error
  · intro value hvalue
    split at hvalue
    · cases hvalue
    · cases hvalue
      refine .array _ fun item hitem => ?_
      rcases List.mem_map.mp hitem with ⟨message, -, rfl⟩
      exact .text message
  · intro value hvalue
    rcases Option.map_eq_some_iff.mp hvalue with ⟨tally, -, rfl⟩
    exact isPlain_ofTally tally
  · intro value hvalue
    split at hvalue
    · cases hvalue
      exact .bool true
    · cases hvalue

end Record
end BulkTransfer
