import BulkTransfer.Proofs.Pool.Starts
import BulkTransfer.Proofs.Pool.Closing

/-!
# Counters of a run

The statistics are changed when a job is started, when it ends and when an attempt is to
be repeated, and results are sent later than they are counted.  A measure says what a
result is worth to a counter, and what a party is worth that has been counted already.
A counter is then the sum over the log and over all parties, whatever order things
happen in.
-/

namespace BulkTransfer
namespace Pool

/-!
## Measures
-/

/-- What results are worth to a counter, and jobs that are under way. -/
structure Measure where
  result : Role → JobResult → Nat
  exiting : Queued → Nat
  attempting : Queued → Nat → Nat
  waiting : Queued → Nat → Nat

namespace Measure

def entry (m : Measure) : Entry → Nat
  | .reported _ role result => m.result role result
  | _ => 0

def action (m : Measure) : Action → Nat
  | .report item result => m.result item.role result
  | _ => 0

def phase (m : Measure) : Phase → Nat
  | .idle | .holding _ | .accepted _ => 0
  | .exiting item => m.exiting item
  | .attempting item attempt => m.attempting item attempt
  | .waiting item attempt | .rested item attempt => m.waiting item attempt
  | .finishing actions => (actions.map m.action).sum

/-- What the log and all parties are worth. -/
def total (m : Measure) (a : Activity) : Nat :=
  (a.log.map m.entry).sum + (a.phases.map m.phase).sum

/-- Whether a counter is changed by what results and parties are worth. -/
structure Follows (m : Measure) (counter : Statistics → UInt64) : Prop where
  isSubJob : ∀ role result isSubJob,
    m.result role { result with isSubJob := isSubJob } = m.result role result
  start : ∀ stats operation, counter (Statistics.start stats operation) = counter stats
  abort : ∀ stats (item : Queued), item.operation = .abort →
    counter (Statistics.success stats item.operation) =
      counter stats + UInt64.ofNat (m.exiting item)
  exit : ∀ item : Queued, item.operation = .abort →
    m.result item.role (exitResult item) = m.exiting item
  call : ∀ item, m.attempting item 1 = 0
  again : ∀ stats (item : Queued) attempt, item.operation.isBatch = false → 1 ≤ attempt →
    attempt < UInt32.size →
    counter (Statistics.retry stats) + UInt64.ofNat (m.attempting item attempt) =
      counter stats + UInt64.ofNat (m.waiting item attempt)
  retry : ∀ item attempt, m.attempting item (attempt + 1) = m.waiting item attempt
  answer : ∀ stats (item : Queued) attempt answer, item.isJob = true →
    item.operation.isBatch = false →
    counter (countEnd stats item.operation (answeredResult item attempt answer).status) +
        UInt64.ofNat (m.attempting item attempt) =
      counter stats + UInt64.ofNat (m.result item.role (answeredResult item attempt answer))
  close : ∀ stats (found : Batch) cancelled, found.parent.isJob = true →
    found.parent.operation.isBatch = true →
    counter (countEnd stats found.parent.operation (batchResult found cancelled).status) =
      counter stats + UInt64.ofNat (m.result found.parent.role (batchResult found cancelled))
  fault : ∀ (parent : Queued) error batch position, parent.operation.isBatch = true →
    m.result (.entry batch position) (entryResult parent error) = 0

/-- Whether jobs that are cancelled are worth nothing. -/
def SparesCancelled (m : Measure) : Prop :=
  ∀ item attempt, m.result item.role (cancelledResult item attempt) = 0 ∧
    m.waiting item attempt = 0

variable {m : Measure} {counter : Statistics → UInt64} {a next : Activity}
  {taken started taken' started' : List Queued}

theorem phase_phaseOf (m : Measure) (actions : List Action) :
    m.phase (phaseOf actions) = (actions.map m.action).sum := by
  cases actions <;> rfl

theorem Follows.phase_finishing (h : m.Follows counter) (item : Queued) (result : JobResult) :
    m.phase (.finishing (finishing item result)) = m.result item.role result := by
  unfold finishing
  split <;> simp [phase, action, h.isSubJob]

theorem sum_entries_read {entries : List Entry}
    (h : ∀ entry ∈ entries, ∃ line reading, entry = .read line reading) :
    (entries.map m.entry).sum = 0 := by
  apply List.sum_eq_zero
  intro n hn
  rcases List.mem_map.mp hn with ⟨entry, hentry, rfl⟩
  rcases h entry hentry with ⟨line, reading, rfl⟩
  rfl

/-!
## Counters keep up with their measures
-/

/-- A counter that changes as much as one party and the log keeps up with the total. -/
theorem keeps_up {phase phase' : Phase} {phases : Multiset Phase} {entries : List Entry}
    (hcounter : counter a.stats = UInt64.ofNat (m.total a))
    (hphases : a.phases = phase ::ₘ phases) (hphases' : next.phases = phase' ::ₘ phases)
    (hlog : next.log = a.log ++ entries)
    (hchange : counter next.stats + UInt64.ofNat (m.phase phase) =
      counter a.stats + UInt64.ofNat (m.phase phase' + (entries.map m.entry).sum)) :
    counter next.stats = UInt64.ofNat (m.total next) := by
  -- nothing is taken away modulo 2^64, so what the party was worth is added on both sides
  apply (UInt64.add_left_inj (UInt64.ofNat (m.phase phase))).mp
  rw [hchange, hcounter, total, total, hphases, hphases', hlog, Multiset.map_cons,
    Multiset.map_cons, Multiset.sum_cons, Multiset.sum_cons, List.map_append, List.sum_append]
  simp only [UInt64.ofNat_add]
  ac_rfl

/-- What a party is worth that goes on without a change to a counter. -/
theorem Follows.shift (h : m.Follows counter) {cancelled : Bool} {phase phase' : Phase}
    (hshift : Shift cancelled phase phase')
    (hspares : m.SparesCancelled ∨ cancelled = false) : m.phase phase' = m.phase phase := by
  have hcancelled : ∀ item attempt, cancelled = true →
      m.phase (.finishing (finishing item (cancelledResult item attempt))) = 0 ∧
        m.waiting item attempt = 0 := by
    intro item attempt htrue
    rcases hspares with hspares | hfalse
    · rw [h.phase_finishing]
      exact hspares item attempt
    · rw [htrue] at hfalse
      cases hfalse
  cases hshift with
  | accept item hcancelled => rfl
  | refuse item htrue => exact (hcancelled item 0 htrue).1
  | rest item attempt hcancelled => rfl
  | giveUpWaiting item attempt htrue =>
      exact (hcancelled item attempt htrue).1.trans (hcancelled item attempt htrue).2.symm
  | giveUpRested item attempt htrue =>
      exact (hcancelled item attempt htrue).1.trans (hcancelled item attempt htrue).2.symm
  | join batch => rfl

/-- What an action is worth goes to the log, or to the actions that it brings. -/
theorem Follows.deed (h : m.Follows counter) (hfounded : Founded taken started a)
    (hjobs : ∀ item ∈ taken, item.isJob = true) {action : Action} {further : List Action}
    (hdeed : Deed a action further next) :
    ∃ entries, next.log = a.log ++ entries ∧
      counter next.stats + UInt64.ofNat (m.action action) =
        counter a.stats +
          UInt64.ofNat ((further.map m.action).sum + (entries.map m.entry).sum) := by
  cases hdeed with
  | report item result =>
      refine ⟨_, rfl, ?_⟩
      simp [Measure.action, entry]
  | tally batch status complete =>
      refine ⟨[], (List.append_nil _).symm, ?_⟩
      cases complete <;> simp [Measure.action]
  | close batch found hparent =>
      have hitem := hfounded.parents _ (List.mem_of_getElem? hparent)
      refine ⟨_, rfl, ?_⟩
      dsimp only
      rw [h.close _ _ _ (hjobs _ (hfounded.mem_taken hitem.1)) hitem.2]
      simp [Measure.action, entry]
  | _ =>
      refine ⟨[], (List.append_nil _).symm, ?_⟩
      simp [Measure.action]

theorem Follows.turn (h : m.Follows counter) (hfounded : Founded taken started a)
    (hjobs : ∀ item ∈ taken, item.isJob = true)
    (hcounter : counter a.stats = UInt64.ofNat (m.total a))
    (hturn : Turn a taken' started' next)
    (hspares : m.SparesCancelled ∨ next.cancelled = false) :
    counter next.stats = UInt64.ofNat (m.total next) := by
  have hnil : a.log = a.log ++ [] := (List.append_nil _).symm
  cases hturn with
  | note entries hentries =>
      rw [total, List.map_append, List.sum_append, sum_entries_read hentries]
      exact hcounter
  | cancel => exact hcounter
  | take item phases hphases => exact keeps_up hcounter hphases rfl hnil rfl
  | shift phase phase' phases hphases hshift =>
      refine keeps_up hcounter hphases rfl hnil ?_
      rw [h.shift hshift hspares]
      rfl
  | abort item phases hphases hoperation =>
      refine keeps_up hcounter hphases rfl hnil ?_
      dsimp only
      rw [h.abort _ _ hoperation, h.start]
      simp [phase]
  | launch item phases hphases hoperation hbatch =>
      have htotal : m.total { a with phases := .idle ::ₘ .idle ::ₘ phases } = m.total a := by
        simp [total, hphases, phase]
      exact (h.start _ _).trans (hcounter.trans (congrArg UInt64.ofNat htotal.symm))
  | call item phases hphases hoperation hbatch =>
      refine keeps_up hcounter hphases rfl rfl ?_
      dsimp only
      rw [h.start]
      simp [phase, h.call, entry]
  | exit item phases hphases =>
      have hitem := hfounded.phase_of_eq hphases
      refine keeps_up hcounter hphases rfl hnil ?_
      rw [h.phase_finishing, h.exit item hitem.2]
      rfl
  | again item attempt error phases hphases hretryable hattempt =>
      have hitem := hfounded.phase_of_eq hphases
      refine keeps_up hcounter hphases rfl hnil ?_
      exact h.again _ item attempt hitem.2.1 hitem.2.2 hattempt
  | answer item attempt answer phases hphases =>
      have hitem := hfounded.phase_of_eq hphases
      refine keeps_up hcounter hphases rfl hnil ?_
      rw [h.phase_finishing]
      exact h.answer _ item attempt answer (hjobs item (hfounded.mem_taken hitem.1)) hitem.2.1
  | retry item attempt phases hphases =>
      refine keeps_up hcounter hphases rfl rfl ?_
      simp [phase, h.retry, entry]
  | act action actions phases further next hphases hdeed =>
      rcases h.deed hfounded hjobs hdeed with ⟨entries, hlog, hchange⟩
      refine keeps_up hcounter hphases rfl hlog ?_
      rw [phase_phaseOf, phase, List.map_cons, List.sum_cons, List.map_append, List.sum_append]
      simp only [UInt64.ofNat_add] at hchange ⊢
      rw [← UInt64.add_assoc, hchange]
      ac_rfl
  | list parent hparent =>
      have htotal : m.total { a with log := a.log ++ [.expanded parent] } = m.total a := by
        simp [total, entry]
      exact hcounter.trans (congrArg UInt64.ofNat htotal.symm)
  | fault batch position parent error phases hphases hparent =>
      have hbatch := (hfounded.parents parent (List.mem_of_getElem? hparent)).2
      refine keeps_up hcounter hphases rfl hnil ?_
      simp [phase, action, h.fault parent error batch position hbatch]

end Measure

/-!
## The counters of statistics
-/

namespace Measure

def successes (operation : Operation) : Measure where
  result _ result := if result.operation = operation ∧ result.status.isSuccess then 1 else 0
  exiting item := if item.operation = operation then 1 else 0
  attempting _ _ := 0
  waiting _ _ := 0

/-- What counts the failures of an operation, but for those of entries. -/
def failures (operation : Operation) : Measure where
  result role result :=
    if role.isFault = false ∧ result.operation = operation ∧ result.status = .failed then 1 else 0
  exiting _ := 0
  attempting _ _ := 0
  waiting _ _ := 0

/-- What counts attempts behind the first one. -/
def repetitions : Measure where
  result _ result := if result.operation.isBatch then 0 else (result.attempts - 1).toNat
  exiting _ := 0
  attempting _ attempt := (UInt32.ofNat attempt - 1).toNat
  waiting _ attempt := (UInt32.ofNat attempt).toNat

theorem success_countEnd (stats : Statistics) (operation operation' : Operation)
    (status : Status) :
    ((countEnd stats operation status).counts operation').success =
      (stats.counts operation').success +
        UInt64.ofNat (if operation = operation' ∧ status.isSuccess = true then 1 else 0) := by
  by_cases hoperation : operation = operation'
  · cases status <;> simp [countEnd, Status.isSuccess, hoperation]
  · cases status <;> simp [countEnd, hoperation, Ne.symm hoperation]

theorem error_countEnd (stats : Statistics) (operation operation' : Operation)
    (status : Status) :
    ((countEnd stats operation status).counts operation').error =
      (stats.counts operation').error +
        UInt64.ofNat (if operation = operation' ∧ status = .failed then 1 else 0) := by
  by_cases hoperation : operation = operation'
  · cases status <;> simp [countEnd, hoperation]
  · cases status <;> simp [countEnd, hoperation, Ne.symm hoperation]

theorem retries_countEnd (stats : Statistics) (operation : Operation) (status : Status) :
    (countEnd stats operation status).retries = stats.retries := by
  cases status <;> rfl

theorem operation_answeredResult (item : Queued) (attempt : Nat)
    (answer : Except JobError Outcome) :
    (answeredResult item attempt answer).operation = item.operation :=
  congrArg Ticket.operation (ticketOf_answeredResult item attempt answer)

theorem attempts_answeredResult (item : Queued) (attempt : Nat)
    (answer : Except JobError Outcome) :
    (answeredResult item attempt answer).attempts = UInt32.ofNat attempt := by
  cases answer with
  | ok outcome => rfl
  | error error => cases error <;> rfl

theorem successes_follows (operation : Operation) :
    (successes operation).Follows fun stats => (stats.counts operation).success where
  isSubJob _ _ _ := rfl
  start stats operation' := by
    rw [Statistics.counts_start]
    split <;> rfl
  abort stats item _ := by
    have hend := success_countEnd stats item.operation operation .succeeded
    simp only [countEnd, Status.isSuccess, and_true] at hend
    exact hend
  exit item _ := by
    simp only [successes, exitResult, JobResult.ofTask, Status.isSuccess, and_true]
    rfl
  call _ := rfl
  again _ _ _ _ _ _ := rfl
  retry _ _ := rfl
  answer stats item attempt answer _ _ := by
    rw [success_countEnd, ← operation_answeredResult item attempt answer]
    exact UInt64.add_zero _
  close stats found cancelled _ _ := success_countEnd stats _ _ _
  fault parent error batch position _ := by
    simp [successes, entryResult, JobResult.ofTask, Status.isSuccess]

theorem failures_follows (operation : Operation) :
    (failures operation).Follows fun stats => (stats.counts operation).error where
  isSubJob _ _ _ := rfl
  start stats operation' := by
    rw [Statistics.counts_start]
    split <;> rfl
  abort stats item _ := by
    have hend := error_countEnd stats item.operation operation .succeeded
    simp only [countEnd, reduceCtorEq, and_false, if_false] at hend
    exact hend
  exit item _ := by
    simp [failures, exitResult, JobResult.ofTask]
  call _ := rfl
  again _ _ _ _ _ _ := rfl
  retry _ _ := rfl
  answer stats item attempt answer hjob _ := by
    have hfault := Queued.isFault_of_isJob hjob
    rw [error_countEnd, ← operation_answeredResult item attempt answer]
    simp [failures, hfault]
  close stats found cancelled hjob _ := by
    have hfault := Queued.isFault_of_isJob hjob
    rw [error_countEnd]
    simp only [failures, hfault, true_and]
    rfl
  fault parent error batch position _ := by
    simp [failures, Role.isFault]

theorem repetitions_follows : repetitions.Follows fun stats => stats.retries where
  isSubJob _ _ _ := rfl
  start _ _ := rfl
  abort _ _ _ := by
    simp [repetitions, Statistics.success, Statistics.update]
  exit item _ := by
    simp [repetitions, exitResult]
  call _ := rfl
  again stats item attempt _ hone hsize := by
    rcases Nat.exists_eq_add_of_le' hone with ⟨before, rfl⟩
    have hsub : UInt32.ofNat (before + 1) - 1 = UInt32.ofNat before := by
      simp [UInt32.ofNat_add]
    simp only [repetitions, hsub]
    rw [UInt32.toNat_ofNat_of_lt' hsize, UInt32.toNat_ofNat_of_lt' (Nat.lt_of_succ_lt hsize),
      UInt64.ofNat_add, Statistics.retry, UInt64.add_assoc, UInt64.add_comm 1]
    rfl
  retry _ attempt := by
    simp [repetitions, UInt32.ofNat_add]
  answer stats item attempt answer _ hbatch := by
    rw [retries_countEnd]
    simp [repetitions, operation_answeredResult, attempts_answeredResult, hbatch]
  close stats found cancelled _ hbatch := by
    have hresult : (batchResult found cancelled).operation.isBatch = true := hbatch
    rw [retries_countEnd]
    simp [repetitions, hresult]
  fault parent error batch position hbatch := by
    have hresult : (entryResult parent error).operation.isBatch = true := hbatch
    simp [repetitions, hresult]

theorem successes_sparesCancelled (operation : Operation) :
    (successes operation).SparesCancelled := by
  intro item attempt
  simp [successes, cancelledResult, JobResult.ofTask, Status.isSuccess]

theorem failures_sparesCancelled (operation : Operation) :
    (failures operation).SparesCancelled := by
  intro item attempt
  simp [failures, cancelledResult, JobResult.ofTask]

end Measure

/-!
## Counters of a run
-/

theorem Turn.cancelled_mono {a next : Activity} {taken started : List Queued}
    (h : Turn a taken started next) (hcancelled : a.cancelled = true) : next.cancelled = true := by
  cases h with
  | cancel => rfl
  | exit item phases hphases => rfl
  | act action actions phases further next hphases hdeed => cases hdeed <;> exact hcancelled
  | _ => exact hcancelled

/-- An operation is counted once for each job that is started. -/
theorem total_turn {a next : Activity} {taken started started' : List Queued}
    {operation : Operation} (h : (a.stats.counts operation).total =
      UInt64.ofNat (started.countP fun item => item.operation == operation))
    (hturn : Turn a taken started' next) :
    (next.stats.counts operation).total =
      UInt64.ofNat ((started ++ started').countP fun item => item.operation == operation) := by
  rw [List.countP_append, UInt64.ofNat_add, ← h]
  have hstart : ∀ item : Queued, ((a.stats.start item.operation).counts operation).total =
      (a.stats.counts operation).total +
        UInt64.ofNat ([item].countP fun item => item.operation == operation) := by
    intro item
    by_cases hoperation : item.operation = operation
    · simp [hoperation]
    · simp [hoperation, Ne.symm hoperation]
  have hend : ∀ (stats : Statistics) operation' status,
      ((countEnd stats operation' status).counts operation).total =
        (stats.counts operation).total := by
    intro stats operation' status
    cases status <;> simp only [countEnd, Statistics.counts_success, Statistics.counts_failure] <;>
      split <;> rfl
  cases hturn with
  | abort item phases hphases hoperation =>
      rw [← hstart item]
      exact hend _ item.operation .succeeded
  | launch item phases hphases hoperation hbatch => exact hstart item
  | call item phases hphases hoperation hbatch => exact hstart item
  | answer item attempt answer phases hphases =>
      rw [hend]
      exact (UInt64.add_zero _).symm
  | act action actions phases further next hphases hdeed =>
      cases hdeed with
      | close batch found hparent =>
          rw [hend]
          exact (UInt64.add_zero _).symm
      | _ => exact (UInt64.add_zero _).symm
  | _ => exact (UInt64.add_zero _).symm

namespace State

variable {config : PoolConfig} {submissions : List Submission} {state : State}
  {events : List Event}

theorem total_of_run (h : (initial config submissions).run events = some state)
    (operation : Operation) :
    (state.stats.counts operation).total =
      UInt64.ofNat (((initial config submissions).starts events).countP fun item =>
        item.operation == operation) := by
  refine run_turns (P := fun started a => (a.stats.counts operation).total =
    UInt64.ofNat (started.countP fun item => item.operation == operation)) h ?_ ?_
  · rw [activity_initial]
    rfl
  · intro taken started a taken' started' next _ _ hcounter hturn
    exact total_turn hcounter hturn

/-- A counter is what the log and all parties are worth. -/
theorem counter_of_run {m : Measure} {counter : Statistics → UInt64} (hm : m.Follows counter)
    (hstart : counter {} = 0) (h : (initial config submissions).run events = some state)
    (hspares : m.SparesCancelled ∨ state.cancelled = false) :
    counter state.activity.stats = UInt64.ofNat (m.total state.activity) := by
  refine run_turns (P := fun _ a => m.SparesCancelled ∨ a.cancelled = false →
    counter a.stats = UInt64.ofNat (m.total a)) h ?_ ?_ hspares
  · intro _
    rw [activity_initial]
    simp [Measure.total, Measure.phase, hstart]
  · intro taken started a taken' started' next hfounded hjobs hcounter hturn hspares
    -- a run that is not cancelled now was not cancelled before
    refine hm.turn hfounded hjobs (hcounter ?_) hturn hspares
    rcases hspares with hspares | hnext
    · exact Or.inl hspares
    · right
      rw [Bool.eq_false_iff]
      intro htrue
      exact absurd (hturn.cancelled_mono htrue) (Bool.eq_false_iff.mp hnext)

/-- At rest only the log is worth something. -/
theorem total_of_isAtRest (hrest : state.IsAtRest) (m : Measure) :
    m.total state.activity = (state.log.map m.entry).sum := by
  have hidle : ∀ phase ∈ state.activity.phases, m.phase phase = 0 := by
    intro phase hphase
    rcases Multiset.mem_add.mp hphase with hworker | hbatch
    · rw [hrest.workers phase hworker]
      rfl
    · rcases List.mem_map.mp (Multiset.mem_coe.mp hbatch) with ⟨found, hfound, rfl⟩
      rw [(hrest.batches found hfound).feeding]
      rfl
  have hsum : (state.activity.phases.map m.phase).sum = 0 := by
    apply Multiset.sum_eq_zero
    intro n hn
    rcases Multiset.mem_map.mp hn with ⟨phase, hphase, rfl⟩
    exact hidle phase hphase
  rw [Measure.total, hsum]
  rfl

end State

end Pool
end BulkTransfer
