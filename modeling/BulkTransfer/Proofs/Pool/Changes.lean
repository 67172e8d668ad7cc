import BulkTransfer.Proofs.Pool.Starts

/-!
# What changes a counter

Most events leave the counters, the tallies, the exit code and the continuations as they are.
The other ones read a line that cannot be read, or they are about a job that was started, or
about a failed entry.
-/

namespace BulkTransfer
namespace Pool

/-!
## What an event is about
-/

/-- The job that a worker is at. -/
def Phase.job? : Phase → Option Queued
  | .holding item | .accepted item | .exiting item | .attempting item _ | .waiting item _
  | .rested item _ => some item
  | .idle | .finishing _ => none

/-- The job that an action is about.  To count a sub-job for its batch and to release a
unit is about no job by itself. -/
def Action.subject? (batches : List Batch) : Action → Option Queued
  | .report item _ | .settle item _ => some item
  | .close batch => batches[batch]?.map Batch.parent
  | .tally _ _ | .release => none

namespace State

variable {state next : State}

/-- The job that an event is about. -/
def subject? (state : State) : Event → Option Queued
  | .take _ => state.queue.head?
  | .accept worker | .start worker | .exit worker | .answer worker _ | .rest worker
  | .retry worker | .giveUp worker => state.workers[worker]?.bind Phase.job?
  | .list batch _ => state.batches[batch]?.map Batch.parent
  | event => (state.nextAction? event).bind (Action.subject? state.batches)

/-- Whether all counters and the exit code are those of another state. -/
structure CountsLike (next state : State) : Prop where
  stats : next.stats = state.stats
  tallies : next.tallies = state.tallies
  exitCode : next.exitCode = state.exitCode

/-- Where there is something to do next, a party has it on its agenda and does it. -/
theorem performs_of_step {event : Event}
    (hevent : (∃ worker, event = .act worker) ∨ ∃ batch, event = .feed batch)
    (h : state.step event = some next) :
    ∃ action actions after further, Performs state action after further ∧
      state.nextAction? event = some action ∧
      .finishing (action :: actions) ∈ state.activity.phases ∧
      next.CountsLike after ∧ next.log = after.log := by
  cases transition_of_step h with
  | act action actions after further hworker hperforms =>
      exact ⟨action, actions, after, further, hperforms, by simp [nextAction?, hworker],
        mem_phases_of_worker hworker, ⟨rfl, rfl, rfl⟩, rfl⟩
  | feedActing found action actions after further hbatch hfeeding hperforms
  | feedLeaving found action actions after further hbatch hfeeding hperforms =>
      have hmem := mem_phases_of_batch hbatch
      rw [hfeeding] at hmem
      exact ⟨action, actions, after, further, hperforms, by simp [nextAction?, hbatch, hfeeding],
        hmem, ⟨rfl, rfl, rfl⟩, rfl⟩
  | _ => rcases hevent with ⟨_, hevent⟩ | ⟨_, hevent⟩ <;> cases hevent

/-- Only a result that is no cancellation, and a batch that is closed, are counted. -/
theorem countsLike_of_performs {action : Action} {further : List Action}
    (h : Performs state action next further) :
    next.CountsLike state ∨
      (∃ item result, action = .report item result ∧ result.status ≠ .cancelled) ∨
        ∃ batch found, action = .close batch ∧ state.batches[batch]? = some found := by
  cases h with
  | report item result =>
      by_cases hstatus : result.status = .cancelled
      · left
        rw [State.report, if_pos hstatus]
        exact ⟨rfl, rfl, rfl⟩
      · exact Or.inr (Or.inl ⟨item, result, rfl, hstatus⟩)
  | close batch found hbatch => exact Or.inr (Or.inr ⟨batch, found, rfl, hbatch⟩)
  | _ => exact Or.inl ⟨rfl, rfl, rfl⟩

/-- A run that is cancelled queues no continuation. -/
theorem continuations_of_performs (hcancelled : state.cancelled = true) {action : Action}
    {further : List Action} (h : Performs state action next further) :
    next.continuations = state.continuations := by
  cases h with
  | settle item status =>
      rw [hcancelled, Queued.successor, if_pos (Or.inr rfl)]
      exact List.append_nil _
  | _ => rfl

theorem continuations_of_step {event : Event} (hcancelled : state.cancelled = true)
    (h : state.step event = some next) : next.continuations.Sublist state.continuations := by
  cases transition_of_step h with
  | act action actions after further hworker hperforms =>
      have heq := continuations_of_performs hcancelled hperforms
      exact heq ▸ List.Sublist.refl _
  | feedActing found action actions after further hbatch hfeeding hperforms
  | feedLeaving found action actions after further hbatch hfeeding hperforms =>
      have heq := continuations_of_performs hcancelled hperforms
      exact heq ▸ List.Sublist.refl _
  | proceed item hitem hroom => exact List.eraseIdx_sublist _ _
  | _ => exact List.Sublist.refl _

theorem next_of_settled {event : Event} {item : Queued} {status : Status}
    {following : Option Queued} (hcancelled : state.cancelled = true)
    (hmark : state.mark event = .settled item status following) : following = none := by
  have hmarkOf : ∀ action, state.markOf action = .settled item status following →
      following = none := by
    intro action haction
    cases action with
    | settle item' status' =>
        rw [markOf_settle, hcancelled, Queued.successor, if_pos (Or.inr rfl)] at haction
        cases haction
        rfl
    | _ => cases haction
  unfold mark at hmark
  split at hmark
  · split at hmark <;> cases hmark
  · split at hmark <;> cases hmark
  · split at hmark
    · split at hmark <;> cases hmark
    · cases hmark
  · split at hmark
    · exact hmarkOf _ hmark
    · cases hmark

/-!
## What is counted has been started
-/

variable {config : PoolConfig} {submissions : List Submission} {events : List Event}

theorem CountsLike.trans {last : State} (h : next.CountsLike last) (h' : last.CountsLike state) :
    next.CountsLike state :=
  ⟨h.stats.trans h'.stats, h.tallies.trans h'.tallies, h.exitCode.trans h'.exitCode⟩

/-- Whether a job with the name of an item is one of some jobs, or the item is a failed
entry. -/
def StartedOrFault (started : List Queued) (item : Queued) : Prop :=
  item.isJob = false ∨ ∃ item' ∈ started, (item'.id, item'.role) = (item.id, item.role)

theorem StartedOrFault.mono {started started' : List Queued} {item : Queued}
    (h : StartedOrFault started item) : StartedOrFault (started ++ started') item := by
  rcases h with hfault | ⟨item', hitem', hname⟩
  · exact Or.inl hfault
  · exact Or.inr ⟨item', List.mem_append_left _ hitem', hname⟩

theorem startedOrFault_of_earned {started parents : List Queued} {item : Queued}
    {result : JobResult} (h : Earned started parents item.id item.role result)
    (hstatus : result.status ≠ .cancelled) : StartedOrFault started item := by
  unfold Earned at h
  split at h
  · rename_i hrole
    left
    rw [Queued.isJob, hrole]
  · rcases h with hcancelled | ⟨item', hitem', hticket⟩
    · exact absurd hcancelled hstatus
    · refine Or.inr ⟨item', hitem', ?_⟩
      exact Prod.ext (congrArg Ticket.id hticket).symm (congrArg Ticket.role hticket).symm

/-- A counter or the exit code is changed by a line that cannot be read, or in the name of a
job that has been started or of a failed entry. -/
theorem started_of_change (h : (initial config submissions).run events = some state)
    {event : Event} (hstep : state.step event = some next) :
    next.CountsLike state ∨ (∃ reading, event = .read reading) ∨
      ∃ item, state.subject? event = some item ∧
        StartedOrFault ((initial config submissions).starts (events ++ [event])) item := by
  have hfounded := founded_of_run h
  rw [starts_concat h hstep]
  have hstart : ∀ item ∈ (initial config submissions).starts events,
      StartedOrFault ((initial config submissions).starts events ++ state.started event) item :=
    fun item hitem => Or.inr ⟨item, List.mem_append_left _ hitem, rfl⟩
  -- workers and the tasks behind listings do their actions alike
  have hperform : (∃ worker, event = .act worker) ∨ (∃ batch, event = .feed batch) →
      next.CountsLike state ∨ (∃ reading, event = .read reading) ∨
        ∃ item, state.subject? event = some item ∧ StartedOrFault
          ((initial config submissions).starts events ++ state.started event) item := by
    intro hevent
    rcases performs_of_step hevent hstep with
      ⟨action, actions, after, further, hperforms, haction, hphase, hlike, -⟩
    have hsubject : state.subject? event = action.subject? state.batches := by
      rcases hevent with ⟨worker, rfl⟩ | ⟨batch, rfl⟩ <;> simp [subject?, haction]
    rw [hsubject]
    rcases countsLike_of_performs hperforms with
      hsame | ⟨item, result, rfl, hstatus⟩ | ⟨batch, found, rfl, hbatch⟩
    · exact Or.inl (hlike.trans hsame)
    · have hearned := (hfounded.phases _ hphase) item result List.mem_cons_self
      exact Or.inr (Or.inr ⟨item, rfl, (startedOrFault_of_earned hearned hstatus).mono⟩)
    · have hparent : found.parent ∈ state.activity.parents :=
        List.mem_map_of_mem (List.mem_of_getElem? hbatch)
      refine Or.inr (Or.inr ⟨found.parent, ?_, hstart _ (hfounded.parents _ hparent).1⟩)
      rw [Action.subject?, hbatch]
      rfl
  cases transition_of_step hstep with
  | readJob | readBlank | readFault => exact Or.inr (Or.inl ⟨_, rfl⟩)
  | abort item hworker | launch item hworker | call item hworker =>
      refine Or.inr (Or.inr ⟨item, by simp [subject?, hworker, Phase.job?], ?_⟩)
      refine Or.inr ⟨item, List.mem_append_right _ ?_, rfl⟩
      rw [started_of_accepted hworker]
      exact List.mem_singleton_self item
  | again item attempt hworker | answer item attempt hworker =>
      have hphase := hfounded.phase_of_eq (phases_eq_of_worker hworker)
      exact Or.inr (Or.inr ⟨item, by simp [subject?, hworker, Phase.job?], hstart _ hphase.1⟩)
  | act => exact hperform (Or.inl ⟨_, rfl⟩)
  | feedActing | feedLeaving => exact hperform (Or.inr ⟨_, rfl⟩)
  | _ => exact Or.inl ⟨rfl, rfl, rfl⟩

end State

end Pool
end BulkTransfer
