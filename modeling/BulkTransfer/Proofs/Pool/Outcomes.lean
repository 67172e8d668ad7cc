import BulkTransfer.Proofs.Pool.Counters

/-!
# Outcomes of jobs that are started

A job that is started has one result when the run is quiescent, and every result that is
not a cancellation is that of a job that was started, or of a failed entry.  So the
counters of the statistics are the numbers of results in the log.
-/

namespace BulkTransfer
namespace Pool

/-- Whether an entry of the log is a result of a kind. -/
def Entry.tells (f : Role → JobResult → Bool) : Entry → Bool
  | .reported _ role result => f role result
  | _ => false

/-- The name of a result of a kind. -/
def Entry.nameIf (f : Role → JobResult → Bool) : Entry → Option (JobId × Role)
  | .reported id role result => if f role result then some (id, role) else none
  | _ => none

theorem Entry.isSome_nameIf (f : Role → JobResult → Bool) (entry : Entry) :
    (entry.nameIf f).isSome = entry.tells f := by
  cases entry with
  | reported id role result =>
      rw [nameIf, tells]
      split <;> simp_all
  | _ => rfl

theorem Entry.nameIf_eq_some_iff {f : Role → JobResult → Bool} {entry : Entry} {id : JobId}
    {role : Role} :
    entry.nameIf f = some (id, role) ↔
      ∃ result, entry = .reported id role result ∧ f role result = true := by
  cases entry with
  | reported id' role' result =>
      simp only [nameIf, Option.ite_none_right_eq_some, Option.some.injEq, Prod.mk.injEq,
        Entry.reported.injEq]
      constructor
      · rintro ⟨hf, rfl, rfl⟩
        exact ⟨result, ⟨rfl, rfl, rfl⟩, hf⟩
      · rintro ⟨result', ⟨rfl, rfl, rfl⟩, hf⟩
        exact ⟨hf, rfl, rfl⟩
  | _ => simp [nameIf]

namespace State

variable {config : PoolConfig} {submissions : List Submission} {state : State}
  {events : List Event}

def countResults (state : State) (f : Role → JobResult → Bool) : Nat :=
  state.log.countP (Entry.tells f)

/-- How many attempts behind a first one the results of jobs other than batches tell. -/
def repetitions (state : State) : Nat :=
  ((state.results.filter fun result => !result.operation.isBatch).map fun result =>
    (result.attempts - 1).toNat).sum

/-- Whether a job has a result with a status of a kind. -/
def endedAs (state : State) (p : Status → Bool) (item : Queued) : Bool :=
  state.log.any (Entry.reports fun id role status => role == item.role && id == item.id && p status)

theorem endedAs_iff {p : Status → Bool} {item : Queued} :
    state.endedAs p item = true ↔
      ∃ result, .reported item.id item.role result ∈ state.log ∧ p result.status = true := by
  rw [endedAs, List.any_eq_true]
  constructor
  · rintro ⟨entry, hentry, hreports⟩
    cases entry with
    | reported id role result =>
        simp only [Entry.reports, Bool.and_eq_true, beq_iff_eq] at hreports
        rcases hreports with ⟨⟨rfl, rfl⟩, hp⟩
        exact ⟨result, hentry, hp⟩
    | _ => cases hreports
  · rintro ⟨result, hentry, hp⟩
    refine ⟨_, hentry, ?_⟩
    simp [Entry.reports, hp]

/-- What a job has ended as is told by its one result. -/
theorem endedAs_eq (h : (initial config submissions).run events = some state) {item : Queued}
    {result : JobResult} (hreported : .reported item.id item.role result ∈ state.log)
    (p : Status → Bool) : state.endedAs p item = p result.status := by
  rw [Bool.eq_iff_iff, endedAs_iff]
  constructor
  · rintro ⟨result', hreported', hp⟩
    rwa [eq_of_reported h hreported hreported'] at hp
  · exact fun hp => ⟨result, hreported, hp⟩

/-!
## Results and the jobs that they are of
-/

def namesOf (state : State) (f : Role → JobResult → Bool) : List (JobId × Role) :=
  state.log.filterMap (Entry.nameIf f)

theorem length_namesOf (state : State) (f : Role → JobResult → Bool) :
    (state.namesOf f).length = state.countResults f := by
  rw [namesOf, List.length_filterMap_eq_countP, countResults]
  congr 1
  funext entry
  exact entry.isSome_nameIf f

theorem mem_namesOf {f : Role → JobResult → Bool} {id : JobId} {role : Role} :
    (id, role) ∈ state.namesOf f ↔
      ∃ result, .reported id role result ∈ state.log ∧ f role result = true := by
  simp only [namesOf, List.mem_filterMap, Entry.nameIf_eq_some_iff]
  constructor
  · rintro ⟨entry, hentry, result, rfl, hf⟩
    exact ⟨result, hentry, hf⟩
  · rintro ⟨result, hentry, hf⟩
    exact ⟨_, hentry, result, rfl, hf⟩

theorem nodup_namesOf (h : (initial config submissions).run events = some state)
    (f : Role → JobResult → Bool) : (state.namesOf f).Nodup := by
  rw [List.nodup_iff_count_le_one]
  rintro ⟨id, role⟩
  rw [namesOf, List.count_eq_countP, List.countP_filterMap]
  refine le_trans (List.countP_mono_left ?_) (countP_reports_le_one h id role)
  intro entry _ hentry
  cases hname : entry.nameIf f with
  | none =>
      rw [hname] at hentry
      cases hentry
  | some name =>
      rw [hname] at hentry
      have hname' : name = (id, role) := by simpa using hentry
      subst hname'
      rcases Entry.nameIf_eq_some_iff.mp hname with ⟨result, rfl, -⟩
      simp [Entry.reports]

/-- A result that is no cancellation and not that of a failed entry is that of a job that was
started. -/
theorem started_of_reported (h : (initial config submissions).run events = some state) {id : JobId}
    {role : Role} {result : JobResult} (hreported : .reported id role result ∈ state.log)
    (hfault : role.isFault = false) :
    result.status = .cancelled ∨
      ∃ item ∈ (initial config submissions).starts events,
        ticketOf id role result = item.ticket := by
  have hearned : Earned _ _ id role result := (founded_of_run h).log _ hreported
  cases role with
  | entry batch position => cases hfault
  | _ => exact hearned

/-- The results of an operation that are no cancellations and no failed entries are those of
the jobs that were started and ended so. -/
theorem countResults_eq (h : (initial config submissions).run events = some state)
    (operation : Operation) (p : Status → Bool) (hp : p .cancelled = false) :
    state.countResults (fun role result =>
        !role.isFault && (result.operation == operation && p result.status)) =
      ((initial config submissions).starts events).countP fun item =>
        item.operation == operation && state.endedAs p item := by
  have hnames : (((initial config submissions).starts events).filter fun item =>
      item.operation == operation && state.endedAs p item).map (fun item => (item.id, item.role))
        |>.Nodup :=
    (nodup_starts h).sublist (List.filter_sublist.map _)
  -- results hold no jobs, so names are counted: no name has two results or is started twice
  rw [← length_namesOf, List.countP_eq_length_filter, ← List.length_map fun item : Queued =>
    (item.id, item.role)]
  apply List.Perm.length_eq
  rw [List.perm_ext_iff_of_nodup (nodup_namesOf h _) hnames]
  rintro ⟨id, role⟩
  rw [mem_namesOf, List.mem_map]
  constructor
  · rintro ⟨result, hreported, hf⟩
    simp only [Bool.and_eq_true, Bool.not_eq_true', beq_iff_eq] at hf
    rcases hf with ⟨hfault, hoperation, hstatus⟩
    rcases started_of_reported h hreported hfault with hcancelled | ⟨item, hitem, hticket⟩
    · rw [hcancelled, hp] at hstatus
      cases hstatus
    · obtain rfl : id = item.id := congrArg Ticket.id hticket
      obtain rfl : role = item.role := congrArg Ticket.role hticket
      have hitem' : item.operation = operation :=
        (congrArg Ticket.operation hticket).symm.trans hoperation
      refine ⟨item, List.mem_filter.mpr ⟨hitem, ?_⟩, rfl⟩
      rw [hitem', beq_self_eq_true, Bool.true_and, endedAs_iff]
      exact ⟨result, hreported, hstatus⟩
  · rintro ⟨item, hitem, hname⟩
    obtain ⟨rfl, rfl⟩ := Prod.mk.inj hname
    rcases List.mem_filter.mp hitem with ⟨hstart, hended⟩
    rw [Bool.and_eq_true, beq_iff_eq, endedAs_iff] at hended
    rcases hended with ⟨hoperation, result, hreported, hstatus⟩
    have hentrant := mem_entrants_of_start h hstart
    have hresult : result.operation = operation :=
      (congrArg Ticket.operation (ticket_of_reported h hentrant.1 hreported)).trans hoperation
    refine ⟨result, hreported, ?_⟩
    rw [Queued.isFault_of_isJob hentrant.2, hresult, hstatus, beq_self_eq_true]
    rfl

/-- A job that has come in has a result when the run is quiescent. -/
theorem exists_reported (h : (initial config submissions).run events = some state)
    (hquiescent : state.isQuiescent = true) {item : Queued}
    (hitem : item ∈ entrants ((initial config submissions).chronicle events)) :
    ∃ result, .reported item.id item.role result ∈ state.log := by
  have hone := countP_receipts_eq_one h (isAtRest_of_isQuiescent h hquiescent) hitem
  have hpos : 0 < (receipts state.log).countP (Ticket.isNamed item.id item.role) := by
    rw [hone]
    exact Nat.one_pos
  rcases List.countP_pos_iff.mp hpos with ⟨ticket, hticket, hnamed⟩
  rcases List.mem_filterMap.mp hticket with ⟨entry, hentry, hsome⟩
  rcases Ticket.isNamed_iff.mp hnamed with ⟨hrole, hid⟩
  cases entry with
  | reported id role result =>
      cases hsome
      exact ⟨result, hrole ▸ hid ▸ hentry⟩
  | _ => cases hsome

/-- A job that was started has ended in one of three ways when the run is quiescent. -/
theorem countP_starts (h : (initial config submissions).run events = some state)
    (hquiescent : state.isQuiescent = true) (operation : Operation) :
    (((initial config submissions).starts events).countP fun item => item.operation == operation) =
      (((initial config submissions).starts events).countP fun item =>
        item.operation == operation && state.endedAs Status.isSuccess item) +
      (((initial config submissions).starts events).countP fun item =>
        item.operation == operation && state.endedAs (· == .failed) item) +
      ((initial config submissions).starts events).countP fun item =>
        item.operation == operation && state.endedAs (· == .cancelled) item := by
  -- each of them has one result, which has one of three kinds
  rw [countP_eq_add (q := fun item => item.operation == operation &&
      state.endedAs (fun status => status.isSuccess || status == .failed) item)
    (r := fun item => item.operation == operation && state.endedAs (· == .cancelled) item),
    countP_eq_add (q := fun item => item.operation == operation &&
      state.endedAs Status.isSuccess item)
    (r := fun item => item.operation == operation && state.endedAs (· == .failed) item)]
  · intro item hitem
    rcases exists_reported h hquiescent (mem_entrants_of_start h hitem).1 with ⟨result, hresult⟩
    rw [endedAs_eq h hresult, endedAs_eq h hresult, endedAs_eq h hresult]
    cases item.operation == operation <;> cases result.status <;> rfl
  · intro item hitem
    rcases exists_reported h hquiescent (mem_entrants_of_start h hitem).1 with ⟨result, hresult⟩
    rw [endedAs_eq h hresult, endedAs_eq h hresult]
    cases item.operation == operation <;> cases result.status <;> rfl

/-!
## Statistics of a run
-/

theorem sum_map_eq_countP {α : Type} {xs : List α} {f : α → Nat} {p : α → Bool}
    (h : ∀ x, f x = if p x then 1 else 0) : (xs.map f).sum = xs.countP p := by
  induction xs with
  | nil => rfl
  | cons x xs ih =>
      rw [List.map_cons, List.sum_cons, List.countP_cons, ih, h, Nat.add_comm]

/-- The entries of batches that failed have the operations of their batches. -/
theorem fault_of_reported (h : (initial config submissions).run events = some state) {id : JobId}
    {batch position : Nat} {result : JobResult}
    (hreported : .reported id (.entry batch position) result ∈ state.log) :
    result.status = .failed ∧ ∃ found, state.batches[batch]? = some found ∧
      result.operation = found.parent.operation := by
  rcases (founded_of_run h).log _ hreported with ⟨parent, error, hparent, rfl⟩
  rw [parents_getElem?, Option.map_eq_some_iff] at hparent
  rcases hparent with ⟨found, hbatch, rfl⟩
  exact ⟨rfl, found, hbatch, rfl⟩

/-- An entry that failed is no success. -/
theorem countResults_isSuccess (h : (initial config submissions).run events = some state)
    (operation : Operation) :
    (state.countResults fun _ result =>
        result.operation == operation && result.status.isSuccess) =
      state.countResults fun role result =>
        !role.isFault && (result.operation == operation && result.status.isSuccess) := by
  apply List.countP_congr
  intro entry hentry
  cases entry with
  | reported id role result =>
      cases role with
      | entry batch position =>
          rw [Entry.tells, Entry.tells, (fault_of_reported h hentry).1]
          simp [Status.isSuccess]
      | _ => rfl
  | _ => rfl

/-- A job that was taken and not started is cancelled. -/
theorem cancelled_of_not_started (h : (initial config submissions).run events = some state)
    (hquiescent : state.isQuiescent = true) {item : Queued}
    (hitem : item ∈ takings ((initial config submissions).chronicle events))
    (hstart : item ∉ (initial config submissions).starts events) :
    state.endedAs (· == .cancelled) item = true := by
  rcases mem_takings h hitem with ⟨hentrant, hjob⟩
  rcases exists_reported h hquiescent hentrant with ⟨result, hreported⟩
  rw [endedAs_eq h hreported, beq_iff_eq]
  rcases started_of_reported h hreported (Queued.isFault_of_isJob hjob) with
    hcancelled | ⟨item', hitem', hticket⟩
  · exact hcancelled
  · have heq := eq_of_name_eq h hentrant (mem_entrants_of_start h hitem').1
      (congrArg Ticket.id hticket).symm (congrArg Ticket.role hticket).symm
    exact absurd (heq ▸ hitem') hstart

theorem success_of_run (h : (initial config submissions).run events = some state)
    (hrest : state.IsAtRest) (operation : Operation) :
    (state.stats.counts operation).success =
      UInt64.ofNat (state.countResults fun _ result =>
        result.operation == operation && result.status.isSuccess) := by
  have hcounter := counter_of_run (Measure.successes_follows operation) rfl h
    (Or.inl (Measure.successes_sparesCancelled operation))
  rw [total_of_isAtRest hrest, sum_map_eq_countP (p := Entry.tells fun _ result =>
    result.operation == operation && result.status.isSuccess)] at hcounter
  · exact hcounter
  · intro entry
    cases entry <;> simp [Measure.entry, Measure.successes, Entry.tells]

theorem error_of_run (h : (initial config submissions).run events = some state)
    (hrest : state.IsAtRest) (operation : Operation) :
    (state.stats.counts operation).error =
      UInt64.ofNat (state.countResults fun role result =>
        !role.isFault && (result.operation == operation && result.status == .failed)) := by
  have hcounter := counter_of_run (Measure.failures_follows operation) rfl h
    (Or.inl (Measure.failures_sparesCancelled operation))
  rw [total_of_isAtRest hrest, sum_map_eq_countP (p := Entry.tells fun role result =>
    !role.isFault && (result.operation == operation && result.status == .failed))] at hcounter
  · exact hcounter
  · intro entry
    cases entry <;> simp [Measure.entry, Measure.failures, Entry.tells]

theorem retries_of_run (h : (initial config submissions).run events = some state)
    (hrest : state.IsAtRest) (hcancelled : state.cancelled = false) :
    state.stats.retries = UInt64.ofNat state.repetitions := by
  have hcounter := counter_of_run Measure.repetitions_follows rfl h (Or.inr hcancelled)
  rw [total_of_isAtRest hrest] at hcounter
  refine hcounter.trans (congrArg UInt64.ofNat ?_)
  rw [repetitions, results]
  induction state.log with
  | nil => rfl
  | cons entry log ih =>
      cases entry with
      | reported id role result =>
          rw [List.map_cons, List.sum_cons, ih, List.filterMap_cons]
          cases hbatch : result.operation.isBatch <;>
            simp [Measure.entry, Measure.repetitions, hbatch]
      | _ => simpa [Measure.entry] using ih

end State

/-!
## A run

An upload succeeds at its second attempt.
-/

def retriedStart : State :=
  State.initial { workers := 1, queueCapacity := 1, retries := 1 }
    [.job (.ofTask (sampleTask .upload))]

def retriedEvents : List Event :=
  [.offer, .submit, .take 0, .accept 0, .start 0, .answer 0 (.error (.transient "sample")),
    .rest 0, .retry 0, .answer 0 (.ok {}), .act 0, .act 0, .act 0]

end Pool
end BulkTransfer
