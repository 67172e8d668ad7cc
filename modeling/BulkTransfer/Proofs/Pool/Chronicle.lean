import BulkTransfer.Pool.Step
import Mathlib.Data.List.Induction

/-!
# Chronicles of a run

A chronicle tells what happens to the jobs of a run: which ones come into it,
which ones a worker takes from the queue, and what is decided behind each of them.
It is read off the events and the states before them, so it says nothing about
the results that are sent.  Those are in the log, and the two can be compared.
-/

namespace BulkTransfer
namespace Pool

/-- What happens to the jobs of a run with one event. -/
inductive Mark
  | nothing
  /-- a submitted job, a sub-job or a failed entry of a batch comes into the run -/
  | entered (item : Queued)
  /-- a worker takes a job from the queue -/
  | taken (item : Queued)
  /-- it is decided what follows a job; a continuation comes into the run -/
  | settled (item : Queued) (status : Status) (next : Option Queued)
deriving Inhabited

namespace Mark

def entrants : Mark → List Queued
  | .entered item => [item]
  | .settled _ _ next => next.toList
  | _ => []

def takings : Mark → List Queued
  | .taken item => [item]
  | _ => []

end Mark

/-- The jobs and failed entries that come into a run, in the order in which they do. -/
def entrants (marks : List Mark) : List Queued :=
  marks.flatMap Mark.entrants

/-- The jobs that workers take, in the order in which they do. -/
def takings (marks : List Mark) : List Queued :=
  marks.flatMap Mark.takings

@[simp] theorem entrants_nil : entrants [] = [] := rfl

@[simp] theorem takings_nil : takings [] = [] := rfl

@[simp] theorem entrants_append (marks marks' : List Mark) :
    entrants (marks ++ marks') = entrants marks ++ entrants marks' :=
  List.flatMap_append

@[simp] theorem takings_append (marks marks' : List Mark) :
    takings (marks ++ marks') = takings marks ++ takings marks' :=
  List.flatMap_append

theorem mem_entrants_of_mem {marks : List Mark} {mark : Mark} {item : Queued}
    (hmark : mark ∈ marks) (hitem : item ∈ mark.entrants) : item ∈ entrants marks :=
  List.mem_flatMap.mpr ⟨mark, hmark, hitem⟩

@[simp] theorem entrants_singleton (mark : Mark) : entrants [mark] = mark.entrants := by
  simp [entrants]

@[simp] theorem takings_singleton (mark : Mark) : takings [mark] = mark.takings := by
  simp [takings]

/-!
## Continuations

Whether a continuation is queued depends on the job, on its outcome and on
whether the run is cancelled, and on nothing else.
-/

namespace Queued

/-- The continuation that is queued behind an outcome. -/
def successor (item : Queued) (status : Status) (cancelled : Bool) : Option Queued :=
  if status = .cancelled ∨ cancelled = true then none
  else (item.job.continuation status.isSuccess).map fun job =>
    { job := job, id := item.id.next status.isSuccess, recovers := !status.isSuccess }

/-- Whether an outcome is a failure for good if this is what follows. -/
def isLoss (item : Queued) (status : Status) (next : Option Queued) : Bool :=
  match status with
  | .cancelled => item.recovers
  | .failed => next.isNone
  | _ => false

theorem successor_eq_some {item next : Queued} {status : Status} {cancelled : Bool}
    (h : item.successor status cancelled = some next) :
    ∃ job, status ≠ .cancelled ∧ item.job.continuation status.isSuccess = some job ∧
      next =
        { job := job, id := item.id.next status.isSuccess, recovers := !status.isSuccess } := by
  unfold successor at h
  split at h
  · cases h
  · rename_i hnot
    rcases Option.map_eq_some_iff.mp h with ⟨job, hjob, rfl⟩
    exact ⟨job, fun hstatus => hnot (Or.inl hstatus), hjob, rfl⟩

/-- Unless the run is cancelled, what is to follow an outcome is queued. -/
theorem successor_of_continuation {item : Queued} {status : Status} {job : Job}
    (hstatus : status ≠ .cancelled) (hjob : item.job.continuation status.isSuccess = some job) :
    item.successor status false =
      some { job := job, id := item.id.next status.isSuccess, recovers := !status.isSuccess } := by
  rw [successor, if_neg (by simp [hstatus]), hjob]
  rfl

theorem role_successor {item next : Queued} {status : Status} {cancelled : Bool}
    (h : item.successor status cancelled = some next) : next.role = .top := by
  rcases successor_eq_some h with ⟨job, -, -, rfl⟩
  rfl

theorem id_successor {item next : Queued} {status : Status} {cancelled : Bool}
    (h : item.successor status cancelled = some next) :
    next.id = item.id.next status.isSuccess := by
  rcases successor_eq_some h with ⟨job, -, -, rfl⟩
  rfl

end Queued

namespace State

theorem schedule_eq (state : State) (item : Queued) (status : Status)
    (h : status ≠ .cancelled) :
    state.schedule item status.isSuccess =
      ({ state with
          continuations :=
            state.continuations ++ (item.successor status state.cancelled).toList
          outstanding :=
            state.outstanding + (item.successor status state.cancelled).toList.length },
        (item.successor status state.cancelled).isSome) := by
  cases hnext : item.job.continuation status.isSuccess with
  | none => simp [schedule, Queued.successor, hnext]
  | some next =>
      unfold schedule Queued.successor
      rw [hnext]
      by_cases hcancelled : state.cancelled = true
      · rw [if_pos (Or.inr hcancelled)]
        simp only [if_pos hcancelled, Option.toList_none, List.append_nil, List.length_nil,
          Nat.add_zero, Option.isSome_none]
      · simp [hcancelled, h]

/-- Deciding what follows a job queues its successor, or counts a loss, or neither. -/
theorem settle_eq (state : State) (item : Queued) (status : Status) :
    state.settle item status =
      { state with
        continuations :=
          state.continuations ++ (item.successor status state.cancelled).toList
        outstanding :=
          state.outstanding + (item.successor status state.cancelled).toList.length
        unhandled :=
          state.unhandled +
            if item.isLoss status (item.successor status state.cancelled) then 1 else 0 } := by
  cases status with
  | cancelled =>
      cases hrec : item.recovers <;> simp [settle, Queued.successor, Queued.isLoss, hrec]
  | failed =>
      have hschedule := schedule_eq state item .failed (by simp)
      simp only [Status.isSuccess] at hschedule
      simp only [settle, hschedule, Queued.isLoss]
      cases item.successor .failed state.cancelled <;> simp
  | succeeded =>
      have hschedule := schedule_eq state item .succeeded (by simp)
      simp only [Status.isSuccess] at hschedule
      simp [settle, hschedule, Queued.isLoss]
  | warning =>
      have hschedule := schedule_eq state item .warning (by simp)
      simp only [Status.isSuccess] at hschedule
      simp [settle, hschedule, Queued.isLoss]

/-!
## Reading off a chronicle
-/

/-- The action that is done with an event. -/
def nextAction? (state : State) : Event → Option Action
  | .act worker =>
      match state.workers[worker]? with
      | some (.finishing (action :: _)) => some action
      | _ => none
  | .feed batch =>
      match state.batches[batch]? with
      | some found =>
          match found.feeding with
          | .acting (action :: _) | .leaving (action :: _) => some action
          | _ => none
      | none => none
  | _ => none

/-- What happens with an action; a continuation is one more that waits for room in the
queue. -/
def markOf (state : State) : Action → Mark
  | .settle item status =>
      .settled item status (state.settle item status).continuations[state.continuations.length]?
  | _ => .nothing

/-- What happens with an event. -/
def mark (state : State) (event : Event) : Mark :=
  match event with
  | .offer =>
      match state.submissions with
      | .job job :: _ => .entered { job := job, id := { submission := state.submitted } }
      | _ => .nothing
  | .take _ =>
      match state.queue with
      | item :: _ => .taken item
      | [] => .nothing
  | .receive batch =>
      match state.batches[batch]? with
      | some found =>
          match found.channel with
          | .ok item :: _ => .entered (subJob batch found item)
          | .error _ :: _ => .entered { found.parent with role := .entry batch found.received }
          | [] => .nothing
      | none => .nothing
  | event =>
      match state.nextAction? event with
      | some action => state.markOf action
      | none => .nothing

/-- The chronicle of a sequence of events. -/
def chronicle (state : State) : List Event → List Mark
  | [] => []
  | event :: events =>
      match state.step event with
      | some next => state.mark event :: next.chronicle events
      | none => []

@[simp] theorem chronicle_nil (state : State) : state.chronicle [] = [] := rfl

/-- What is read off the steps of a run, one after the other. -/
def along {α : Type} (f : State → Event → State → List α) (state : State) : List Event → List α
  | [] => []
  | event :: events =>
      match state.step event with
      | some next => f state event next ++ next.along f events
      | none => []

theorem chronicle_eq_along (state : State) (events : List Event) :
    state.chronicle events = state.along (fun last event _ => [last.mark event]) events := by
  induction events generalizing state with
  | nil => rfl
  | cons event events ih =>
      rw [chronicle, along]
      cases state.step event with
      | none => rfl
      | some next => exact congrArg (state.mark event :: ·) (ih next)

theorem markOf_settle (state : State) (item : Queued) (status : Status) :
    state.markOf (.settle item status) =
      .settled item status (item.successor status state.cancelled) := by
  rw [markOf, settle_eq]
  cases item.successor status state.cancelled <;> simp

/-!
## Runs from the end

What holds for every run is proved by adding one event at the end.
-/

theorem run_concat {state final : State} {events : List Event} {event : Event}
    (h : state.run (events ++ [event]) = some final) :
    ∃ last, state.run events = some last ∧ last.step event = some final := by
  rw [run_append] at h
  cases hrun : state.run events with
  | none =>
      rw [hrun] at h
      cases h
  | some last =>
      exists last
      constructor
      · rfl
      · rw [hrun] at h
        simpa [run_cons] using h

/-- Every event of a run has its step. -/
theorem exists_step_of_run {state last final : State} {before after : List Event} {event : Event}
    (h : state.run (before ++ event :: after) = some final)
    (hbefore : state.run before = some last) : ∃ next, last.step event = some next := by
  rw [run_append, hbefore, Option.bind_some, run_cons] at h
  cases hstep : last.step event with
  | none =>
      rw [hstep] at h
      cases h
  | some next => exact ⟨next, rfl⟩

theorem run_concat_of_step {state last final : State} {events : List Event} {event : Event}
    (hrun : state.run events = some last) (hstep : last.step event = some final) :
    state.run (events ++ [event]) = some final := by
  rw [run_append, hrun]
  simp [run_cons, hstep]

/-- A run goes on from where its front ends. -/
theorem run_append_iff {state last final : State} {before after : List Event}
    (hbefore : state.run before = some last) :
    state.run (before ++ after) = some final ↔ last.run after = some final := by
  rw [run_append, hbefore, Option.bind_some]

theorem along_append {α : Type} (f : State → Event → State → List α) {state last : State}
    {events events' : List Event} (hrun : state.run events = some last) :
    state.along f (events ++ events') = state.along f events ++ last.along f events' := by
  induction events generalizing state with
  | nil =>
      cases hrun
      rfl
  | cons event events ih =>
      rw [run_cons] at hrun
      rcases Option.bind_eq_some_iff.mp hrun with ⟨next, hstep, hrun⟩
      simp only [List.cons_append, along, hstep]
      rw [ih hrun, List.append_assoc]

theorem along_concat {α : Type} (f : State → Event → State → List α) {state last next : State}
    {events : List Event} {event : Event} (hrun : state.run events = some last)
    (hstep : last.step event = some next) :
    state.along f (events ++ [event]) = state.along f events ++ f last event next := by
  rw [along_append f hrun]
  simp [along, hstep]

theorem chronicle_append {state last : State} {events events' : List Event}
    (hrun : state.run events = some last) :
    state.chronicle (events ++ events') = state.chronicle events ++ last.chronicle events' := by
  simp only [chronicle_eq_along]
  exact along_append _ hrun

/-- What has come in stays so. -/
theorem mem_entrants_of_front {state last : State} {events : List Event} {item : Queued}
    (hrun : state.run events = some last) (hitem : item ∈ entrants (state.chronicle events))
    (events' : List Event) : item ∈ entrants (state.chronicle (events ++ events')) := by
  rw [chronicle_append hrun, entrants_append]
  exact List.mem_append_left _ hitem

theorem chronicle_concat {state last final : State} {events : List Event} {event : Event}
    (hrun : state.run events = some last) (hstep : last.step event = some final) :
    state.chronicle (events ++ [event]) = state.chronicle events ++ [last.mark event] := by
  simp only [chronicle_eq_along]
  exact along_concat _ hrun hstep

/-- What holds at the start and is kept by every step of a run holds at its end. -/
theorem run_induction {state final : State} {events : List Event}
    {P : List Event → State → Prop} (hrun : state.run events = some final)
    (hstart : P [] state)
    (hstep : ∀ events last event next, state.run events = some last →
      last.step event = some next → P events last → P (events ++ [event]) next) :
    P events final := by
  induction events using List.reverseRecOn generalizing final with
  | nil =>
      cases hrun
      exact hstart
  | append_singleton events event ih =>
      cases run_concat hrun with
      | intro last hlast => exact hstep events last event final hlast.1 hlast.2 (ih hlast.1)

end State
end Pool
end BulkTransfer
