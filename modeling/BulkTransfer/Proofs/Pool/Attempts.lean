import BulkTransfer.Proofs.Pool.Cancellation

/-!
# Calls and answers of one job

The executor is called when a job is started and when it is tried again, and each call ends with
an answer.  All this is read off a run for one job alone: which events are about it, which
answers it has had, and which of them were counted as retries.  What happens at other workers
passes the job by, and so does all that happens once it has a result.
-/

namespace BulkTransfer
namespace Pool

/-!
## What is read off a run
-/

/-- Whether an event is one with which a call begins or ends. -/
def Event.isTrial : Event → Bool
  | .start _ | .answer _ _ | .retry _ => true
  | _ => false

/-- The worker that does something with an event. -/
def Event.worker? : Event → Option Nat
  | .take worker | .accept worker | .start worker | .exit worker | .answer worker _
  | .rest worker | .retry worker | .giveUp worker | .act worker => some worker
  | _ => none

/-- Whether a worker does what it does with an event when it is at a phase. -/
def Phase.allows : Phase → Event → Bool
  | .idle, .take _ | .holding _, .accept _ | .accepted _, .start _ | .exiting _, .exit _
  | .attempting _ _, .answer _ _ | .waiting _ _, .rest _ | .waiting _ _, .giveUp _
  | .rested _ _, .retry _ | .rested _ _, .giveUp _ | .finishing _, .act _ => true
  | _, _ => false

/-- The result of a job as it is sent. -/
def Queued.sent (item : Queued) (result : JobResult) : JobResult :=
  { result with isSubJob := item.role != .top }

namespace State

/-- Whether an event is about the job of a name. -/
def concerns (state : State) (item : Queued) (event : Event) : Bool :=
  (state.subject? event).any fun subject => (subject.id, subject.role) == (item.id, item.role)

/-- What the executor answers to a job with an event. -/
def answered (state : State) (item : Queued) (event : Event) : List (Except JobError Outcome) :=
  match event with
  | .answer _ answer => if state.concerns item event then [answer] else []
  | _ => []

/-- By how much the counted retries grow with an event that is about a job. -/
def retried (state : State) (item : Queued) (event : Event) (next : State) : Nat :=
  if state.concerns item event then (next.stats.retries - state.stats.retries).toNat else 0

/-- The answers to a job in a run, in order. -/
def answersTo (state : State) (item : Queued) (events : List Event) :
    List (Except JobError Outcome) :=
  state.along (fun last event _ => last.answered item event) events

/-- By how much the counted retries grow in a run with the events that are about a job. -/
def retriesOf (state : State) (item : Queued) (events : List Event) : Nat :=
  (state.along (fun last event next => [last.retried item event next]) events).sum

variable {config : PoolConfig} {submissions : List Submission} {state last next : State}
  {events : List Event} {event : Event} {worker : Nat} {phase : Phase} {item : Queued}
  {result : JobResult}

theorem answersTo_concat (item : Queued) (hrun : state.run events = some last)
    (hstep : last.step event = some next) :
    state.answersTo item (events ++ [event]) =
      state.answersTo item events ++ last.answered item event :=
  along_concat _ hrun hstep

theorem retriesOf_concat (item : Queued) (hrun : state.run events = some last)
    (hstep : last.step event = some next) :
    state.retriesOf item (events ++ [event]) =
      state.retriesOf item events + last.retried item event next := by
  rw [retriesOf, along_concat _ hrun hstep, List.sum_append, List.sum_singleton]
  rfl

theorem concerns_of_subject {item' : Queued} (h : state.subject? event = some item') :
    state.concerns item event = ((item'.id, item'.role) == (item.id, item.role)) := by
  rw [concerns, h, Option.any_some]

/-- An event at a worker is about the job that the worker is at. -/
theorem concerns_of_worker (hphase : state.workers[worker]? = some phase)
    (hjob : phase.job? = some item)
    (hsubject : state.subject? event = state.workers[worker]?.bind Phase.job?) :
    state.concerns item event = true := by
  rw [concerns, hsubject, hphase, Option.bind_some, hjob, Option.any_some]
  exact beq_self_eq_true _

theorem answered_eq_nil (item : Queued)
    (hevent : ∀ worker answer, event ≠ .answer worker answer) :
    state.answered item event = [] := by
  cases event with
  | answer worker answer => exact absurd rfl (hevent worker answer)
  | _ => rfl

theorem retried_eq_zero (item : Queued) (event : Event)
    (h : next.stats.retries = state.stats.retries) : state.retried item event next = 0 := by
  rw [retried, h, UInt64.sub_self]
  exact ite_self 0

/-!
## Steps that are no attempts of a job
-/

/-- Whether a step is neither a call nor an answer nor a retry of a job. -/
structure Passes (state : State) (item : Queued) (event : Event) (next : State) : Prop where
  calls : next.callsOf item = state.callsOf item
  answers : state.answered item event = []
  retries : state.retried item event next = 0

theorem callsOf_eq (state : State) (item : Queued) :
    state.callsOf item = state.past.countP (Entry.calls (item.id, item.role)) :=
  List.countP_reverse

theorem callsOf_write (state : State) {item : Queued} {entry : Entry}
    (h : entry.calls (item.id, item.role) = false) :
    (state.write entry).callsOf item = state.callsOf item := by
  rw [callsOf_eq, callsOf_eq]
  exact List.countP_cons_of_neg (Bool.eq_false_iff.mp h)

theorem callsOf_called (state : State) (item : Queued) :
    (state.write (.called item)).callsOf item = state.callsOf item + 1 := by
  rw [callsOf_eq, callsOf_eq]
  exact List.countP_cons_of_pos (beq_self_eq_true _)

theorem callsOf_of_performs {action : Action} {further : List Action}
    (h : Performs state action next further) (item : Queued) :
    next.callsOf item = state.callsOf item := by
  cases h with
  | report item' result => exact callsOf_write _ rfl
  | close batch found hbatch => exact callsOf_write _ rfl
  | _ => rfl

theorem retries_of_performs {action : Action} {further : List Action}
    (h : Performs state action next further) : next.stats.retries = state.stats.retries := by
  cases h with
  | close batch found hbatch => exact Measure.retries_countEnd _ _ _
  | _ => rfl

/-- A step with which no call begins or ends. -/
theorem keeps_of_not_isTrial (item : Queued) (htrial : event.isTrial = false)
    (h : state.step event = some next) :
    next.callsOf item = state.callsOf item ∧ next.stats.retries = state.stats.retries := by
  cases transition_of_step h with
  | abort | launch | call | again | answer | retry => cases htrial
  | act action actions after further hworker hperforms =>
      have hretries := retries_of_performs hperforms
      exact ⟨callsOf_of_performs hperforms item, hretries⟩
  | feedActing found action actions after further hbatch hfeeding hperforms
  | feedLeaving found action actions after further hbatch hfeeding hperforms =>
      have hretries := retries_of_performs hperforms
      exact ⟨callsOf_of_performs hperforms item, hretries⟩
  | readJob | readBlank | readFault | list => exact ⟨callsOf_write _ rfl, rfl⟩
  | _ => exact ⟨rfl, rfl⟩

/-- A call that is not about a job is not counted for it. -/
theorem callsOf_of_not_concerns (h : state.step event = some next)
    (htrial : event.isTrial = true) (hconcerns : state.concerns item event = false) :
    next.callsOf item = state.callsOf item := by
  have hcalled : ∀ {worker' : Nat} {phase' : Phase} {item' : Queued},
      state.workers[worker']? = some phase' → phase'.job? = some item' →
      state.subject? event = state.workers[worker']?.bind Phase.job? →
      Entry.calls (item.id, item.role) (.called item') = false := by
    intro worker' phase' item' hphase' hjob' hsubject'
    rw [hphase', Option.bind_some, hjob'] at hsubject'
    exact (concerns_of_subject hsubject').symm.trans hconcerns
  cases transition_of_step h with
  | call item' hworker habort hoperation => exact callsOf_write _ (hcalled hworker rfl rfl)
  | retry item' attempt hworker => exact callsOf_write _ (hcalled hworker rfl rfl)
  | abort | launch | again | answer => rfl
  | _ => cases htrial

/-- A step passes a job by if it is not about the job, or if no call begins or ends with it. -/
theorem passes_of_step (item : Queued) (h : state.step event = some next)
    (hother : event.isTrial = true → state.concerns item event = false) :
    state.Passes item event next := by
  cases htrial : event.isTrial with
  | false =>
      rcases keeps_of_not_isTrial item htrial h with ⟨hcalls, hretries⟩
      refine ⟨hcalls, ?_, retried_eq_zero item event hretries⟩
      refine answered_eq_nil item fun worker answer hevent => ?_
      rw [hevent] at htrial
      cases htrial
  | true =>
      have hconcerns := hother htrial
      refine ⟨callsOf_of_not_concerns h htrial hconcerns, ?_, ?_⟩
      · unfold answered
        split
        · rw [if_neg (Bool.eq_false_iff.mp hconcerns)]
        · rfl
      · rw [retried, if_neg (Bool.eq_false_iff.mp hconcerns)]

/-- A worker does what it does with its own events. -/
theorem workers_of_step (hworker : event.worker? ≠ some worker)
    (h : state.step event = some next) : next.workers[worker]? = state.workers[worker]? := by
  have hset : ∀ {worker' : Nat} (phase : Phase), some worker' ≠ some worker →
      (state.workers.set worker' phase)[worker]? = state.workers[worker]? :=
    fun phase hne => List.getElem?_set_ne fun heq => hne (congrArg some heq)
  cases transition_of_step h with
  | act action actions after further hworker' hperforms =>
      rw [finish, setWorker, workers_of_performs hperforms]
      exact hset _ hworker
  | feedActing found action actions after further hbatch hfeeding hperforms
  | feedLeaving found action actions after further hbatch hfeeding hperforms =>
      have hworkers := workers_of_performs hperforms
      exact congrArg (·[worker]?) hworkers
  | take | accept | refuse | abort | launch | call | exit | again | answer | rest | retry
  | giveUpWaiting | giveUpRested => exact hset _ hworker
  | _ => rfl

/-- A worker does only what its phase allows. -/
theorem allows_of_step (hphase : state.workers[worker]? = some phase)
    (hworker : event.worker? = some worker) (h : state.step event = some next) :
    phase.allows event = true := by
  have hat : ∀ {phase'}, state.workers[worker]? = some phase' → phase = phase' :=
    fun hphase' => Option.some.inj (hphase.symm.trans hphase')
  cases transition_of_step h with
  | take item queue hworker' | accept item hworker' | refuse item hworker'
  | abort item hworker' | launch item hworker' | call item hworker' | exit item hworker'
  | again item attempt hworker' | answer item attempt hworker' | rest item attempt hworker'
  | retry item attempt hworker' | giveUpWaiting item attempt hworker'
  | giveUpRested item attempt hworker' | act action actions after further hworker' =>
      cases hworker
      rw [hat hworker']
      rfl
  | _ => cases hworker

theorem mem_held_of_job? (h : phase.job? = some item) :
    item ∈ phase.held := by
  cases phase with
  | idle | finishing => cases h
  | _ =>
      cases h
      exact Multiset.mem_singleton_self _

theorem concerns_eq_false (htrial : event.isTrial = true)
    (hother : ∀ worker phase item', event.worker? = some worker →
      state.workers[worker]? = some phase → phase.job? = some item' →
        (item'.id, item'.role) ≠ (item.id, item.role)) : state.concerns item event = false := by
  have hsubject : ∃ worker, event.worker? = some worker ∧
      state.subject? event = state.workers[worker]?.bind Phase.job? := by
    cases event with
    | start worker | answer worker answer | retry worker => exact ⟨worker, rfl, rfl⟩
    | _ => cases htrial
  rcases hsubject with ⟨worker, hworker, hsubject⟩
  rw [concerns, hsubject]
  cases hphase : state.workers[worker]? with
  | none => rfl
  | some phase =>
      cases hjob : phase.job? with
      | none => simp [hjob]
      | some item' =>
          have hname := hother worker phase item' hworker hphase hjob
          simpa [hjob] using hname

/-!
## Parties besides a worker
-/

/-- No other worker is at a job of the name. -/
theorem name_ne_of_worker (h : (initial config submissions).run events = some state)
    (hphase : state.workers[worker]? = some phase) (hitem : item ∈ phase.held) {worker' : Nat}
    {phase' : Phase} {item' : Queued} (hphase' : state.workers[worker']? = some phase')
    (hitem' : item' ∈ phase'.held) (hne : worker' ≠ worker) :
    (item'.id, item'.role) ≠ (item.id, item.role) := by
  intro hname
  have hheld : state.overview.held = phase.held +
      ((state.workers.eraseIdx worker : List Phase) : Multiset Phase).bind Phase.held := by
    rw [overview, coe_eq_cons_eraseIdx hphase, Multiset.cons_bind]
  have hmem : item' ∈
      ((state.workers.eraseIdx worker : List Phase) : Multiset Phase).bind Phase.held :=
    Multiset.mem_bind.mpr ⟨phase', Multiset.mem_coe.mpr
      (List.mem_eraseIdx_iff_getElem?.mpr ⟨worker', hne, hphase'⟩), hitem'⟩
  have hnamed := Prod.mk.inj hname
  have hhere : 0 < phase.held.countP fun item' => item'.ticket.isNamed item.id item.role :=
    Multiset.countP_pos.mpr ⟨item, hitem, Ticket.isNamed_iff.mpr ⟨rfl, rfl⟩⟩
  have hthere : 0 < (((state.workers.eraseIdx worker : List Phase) : Multiset Phase).bind
      Phase.held).countP fun item' => item'.ticket.isNamed item.id item.role :=
    Multiset.countP_pos.mpr ⟨item', hmem, Ticket.isNamed_iff.mpr ⟨hnamed.2, hnamed.1⟩⟩
  have honce := told_once h item.id item.role
  rw [hheld, Multiset.countP_add] at honce
  omega

/-- What happens at another place than that of its worker passes a job by. -/
theorem passes_elsewhere (h : (initial config submissions).run events = some state)
    (hphase : state.workers[worker]? = some phase) (hitem : item ∈ phase.held)
    (hworker : event.worker? ≠ some worker) (hstep : state.step event = some next) :
    state.Passes item event next := by
  refine passes_of_step item hstep fun htrial => concerns_eq_false htrial ?_
  intro worker' phase' item' hworker' hphase' hjob
  refine name_ne_of_worker h hphase hitem hphase' (mem_held_of_job? hjob) ?_
  rintro rfl
  exact hworker hworker'

theorem not_spared_of_held (hphase : state.workers[worker]? = some phase)
    (hitem : item ∈ phase.held) : ¬ state.activity.Spared (item.id, item.role) :=
  fun hspared => hspared phase (mem_phases_of_worker hphase) item hitem rfl

theorem passes_of_spared (hspared : state.activity.Spared (item.id, item.role))
    (hstep : state.step event = some next) : state.Passes item event next := by
  refine passes_of_step item hstep fun htrial => concerns_eq_false htrial ?_
  intro worker phase item' _ hphase hjob
  exact hspared phase (mem_phases_of_worker hphase) item' (mem_held_of_job? hjob)

/-- A job that a worker is at has no result yet. -/
theorem not_reported_of_held (h : (initial config submissions).run events = some state)
    (hphase : state.workers[worker]? = some phase) (hitem : item ∈ phase.held) :
    .reported item.id item.role result ∉ state.log := fun hreported =>
  not_spared_of_held hphase hitem (spared_of_told h (Nat.add_pos_left (receipts_pos hreported) _))

/-!
## Results that are settled
-/

/-- Whether a job has a result that has been sent or is about to be. -/
def HasResult (state : State) (item : Queued) (result : JobResult) : Prop :=
  (∃ worker : Nat, state.workers[worker]? = some (.finishing (finishing item result))) ∨
    .reported item.id item.role (item.sent result) ∈ state.log

namespace HasResult

theorem spared (h : (initial config submissions).run events = some state)
    (hresult : state.HasResult item result) : state.activity.Spared (item.id, item.role) := by
  rcases hresult with ⟨worker, hworker⟩ | hreported
  · exact spared_of_finishing h (List.mem_of_getElem? hworker)
  · exact spared_of_told h (Nat.add_pos_left (receipts_pos hreported) _)

theorem eq_of_reported (h : (initial config submissions).run events = some state)
    (hresult : state.HasResult item result) {result' : JobResult}
    (hreported : .reported item.id item.role result' ∈ state.log) :
    result' = item.sent result := by
  rcases hresult with ⟨worker, hworker⟩ | hsent
  · -- the name is used for a result that is still to be sent
    have honce := told_once h item.id item.role
    have hreceipts := receipts_pos hreported
    have hleft := left_pos (List.mem_of_getElem? hworker)
    omega
  · exact State.eq_of_reported h hsent hreported

theorem step (h : (initial config submissions).run events = some state)
    (hresult : state.HasResult item result) (hstep : state.step event = some next) :
    next.HasResult item result := by
  rcases hresult with ⟨worker, hworker⟩ | hsent
  · by_cases hevent : event.worker? = some worker
    · -- a worker with actions left does the first of them
      right
      have hallows := allows_of_step hworker hevent hstep
      rcases exists_report_finishing item result with ⟨actions, hactions⟩
      rw [hactions] at hworker
      cases event with
      | act worker' =>
          obtain rfl : worker' = worker := Option.some.inj hevent
          simp only [State.step, act, hworker, Option.some.injEq] at hstep
          have hwrite : (state.report item (item.sent result)).log =
              state.log ++ [.reported item.id item.role (item.sent result)] := log_write _ _
          rw [← hstep]
          change _ ∈ (state.report item (item.sent result)).log
          rw [hwrite]
          exact List.mem_append_right _ List.mem_cons_self
      | _ => cases hallows
    · exact Or.inl ⟨worker, (workers_of_step hevent hstep).trans hworker⟩
  · exact Or.inr ((log_prefix_of_step h hstep).subset hsent)

/-- What is read off a run for a job stays once it has a result. -/
theorem run {before after : List Event}
    (h : (initial config submissions).run before = some last)
    (hresult : last.HasResult item result) (hrun : last.run after = some state) :
    state.HasResult item result ∧ state.callsOf item = last.callsOf item ∧
      (initial config submissions).answersTo item (before ++ after) =
        (initial config submissions).answersTo item before ∧
      (initial config submissions).retriesOf item (before ++ after) =
        (initial config submissions).retriesOf item before := by
  refine run_induction (P := fun after state =>
    state.HasResult item result ∧ state.callsOf item = last.callsOf item ∧
      (initial config submissions).answersTo item (before ++ after) =
        (initial config submissions).answersTo item before ∧
      (initial config submissions).retriesOf item (before ++ after) =
        (initial config submissions).retriesOf item before) hrun ?_ ?_
  · rw [List.append_nil]
    exact ⟨hresult, rfl, rfl, rfl⟩
  · intro after middle event next hmiddle hstep hkept
    rcases hkept with ⟨hresult, hcalls, hanswers, hretries⟩
    have hbefore := (run_append_iff h).mpr hmiddle
    have hpasses := passes_of_spared (hresult.spared hbefore) hstep
    refine ⟨hresult.step hbefore hstep, hpasses.calls.trans hcalls, ?_, ?_⟩
    · rw [← List.append_assoc, answersTo_concat item hbefore hstep, hpasses.answers,
        List.append_nil, hanswers]
    · rw [← List.append_assoc, retriesOf_concat item hbefore hstep, hpasses.retries,
        Nat.add_zero, hretries]

end HasResult

/-!
## Jobs that are not started, or not any more
-/

/-- A call begins or ends for a job that has been started. -/
theorem subject_of_isTrial (h : (initial config submissions).run events = some state)
    (htrial : event.isTrial = true) (hstep : state.step event = some next) :
    ∃ item, state.subject? event = some item ∧
      item ∈ (initial config submissions).starts (events ++ [event]) := by
  rw [starts_concat h hstep]
  have hfounded := founded_of_run h
  cases transition_of_step hstep with
  | abort item hworker | launch item hworker | call item hworker =>
      refine ⟨item, by rw [subject?, hworker]; rfl, List.mem_append_right _ ?_⟩
      rw [started_of_accepted hworker]
      exact List.mem_singleton_self item
  | again item attempt hworker | answer item attempt hworker | retry item attempt hworker =>
      exact ⟨item, by rw [subject?, hworker]; rfl,
        List.mem_append_left _ (hfounded.phase_of_eq (phases_eq_of_worker hworker)).1⟩
  | _ => cases htrial

/-- Nothing is read off a run for a job that has not been started. -/
theorem untouched_of_not_started (h : (initial config submissions).run events = some state)
    (hnot : ∀ item' ∈ (initial config submissions).starts events,
      (item'.id, item'.role) ≠ (item.id, item.role)) :
    state.callsOf item = 0 ∧ (initial config submissions).answersTo item events = [] ∧
      (initial config submissions).retriesOf item events = 0 := by
  refine run_induction (P := fun events state =>
    (∀ item' ∈ (initial config submissions).starts events,
      (item'.id, item'.role) ≠ (item.id, item.role)) →
    state.callsOf item = 0 ∧ (initial config submissions).answersTo item events = [] ∧
      (initial config submissions).retriesOf item events = 0) h ?_ ?_ hnot
  · exact fun _ => ⟨rfl, rfl, rfl⟩
  · intro events last event next hrun hstep hkept hnot
    have hpasses : last.Passes item event next := by
      refine passes_of_step item hstep fun htrial => ?_
      rcases subject_of_isTrial hrun htrial hstep with ⟨item', hsubject, hitem'⟩
      rw [concerns_of_subject hsubject]
      exact beq_eq_false_iff_ne.mpr (hnot item' hitem')
    rw [starts_concat hrun hstep] at hnot
    rcases hkept fun item' hitem' => hnot item' (List.mem_append_left _ hitem') with
      ⟨hcalls, hanswers, hretries⟩
    rw [answersTo_concat item hrun hstep, retriesOf_concat item hrun hstep, hpasses.calls,
      hpasses.answers, hpasses.retries, hcalls, hanswers, hretries]
    exact ⟨rfl, rfl, rfl⟩

/-- A job that has a result is not started any more. -/
theorem not_started_of_reported {before after : List Event}
    (h : (initial config submissions).run before = some last)
    (hreported : .reported item.id item.role result ∈ last.log)
    (hrun : last.run after = some state) : item ∉ last.starts after := by
  refine (run_induction (P := fun after state =>
    .reported item.id item.role result ∈ state.log ∧ item ∉ last.starts after) hrun
    ⟨hreported, List.not_mem_nil⟩ ?_).2
  intro after middle event next hmiddle hstep hkept
  have hbefore := (run_append_iff h).mpr hmiddle
  refine ⟨(log_prefix_of_step hbefore hstep).subset hkept.1, ?_⟩
  rw [starts_concat hmiddle hstep, List.mem_append, not_or]
  refine ⟨hkept.2, fun hstarted => ?_⟩
  cases event with
  | start worker =>
      simp only [started] at hstarted
      split at hstarted
      · rename_i item' hworker
        obtain rfl := List.mem_singleton.mp hstarted
        exact not_reported_of_held hbefore hworker (Multiset.mem_singleton_self _) hkept.1
      · cases hstarted
  | _ => cases hstarted

end State
end Pool
end BulkTransfer
