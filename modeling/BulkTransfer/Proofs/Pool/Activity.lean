import BulkTransfer.Proofs.Pool.Simulation

/-!
# What a pool is at

The activity of a pool keeps what the overview leaves out: the phase of every worker,
the counters of the run and the exit code.  It leaves out the queue, the groups and the
listings.  The task behind a listing does its actions as a worker does, so both are
parties, and it does not matter which party is at what.

Every step of a pool is a turn: one party goes from one phase to another, and the rest
of the activity changes with it in one of few ways.
-/

namespace BulkTransfer
namespace Pool

/-!
## Parties
-/

/-- What a party is at that has some actions left. -/
def phaseOf : List Action → Phase
  | [] => .idle
  | action :: actions => .finishing (action :: actions)

/-- What the task behind a listing is at, as a worker would be. -/
def Feeding.phase : Feeding → Phase
  | .acting actions | .leaving actions => phaseOf actions
  | .receiving | .queueing _ => .idle

theorem phaseOf_finishing (item : Queued) (result : JobResult) :
    phaseOf (finishing item result) = .finishing (finishing item result) := by
  unfold finishing
  split <;> rfl

@[ext]
structure Activity where
  /-- what the workers and the tasks behind listings are at -/
  phases : Multiset Phase
  /-- the batches that have been started -/
  parents : List Queued
  /-- the statistics, but for lines that could not be read -/
  stats : Statistics
  exitCode : Option Nat
  cancelled : Bool
  log : List Entry

def State.activity (state : State) : Activity where
  phases :=
    (state.workers : Multiset Phase) +
      ((state.batches.map fun found => found.feeding.phase : List Phase) : Multiset Phase)
  parents := state.batches.map Batch.parent
  stats := { state.stats with parseFailures := 0 }
  exitCode := state.exitCode
  cancelled := state.cancelled
  log := state.log

/-!
## Turns
-/

/-- How a party goes on without a change to anything else. -/
inductive Shift (cancelled : Bool) : Phase → Phase → Prop
  | accept (item : Queued) (h : cancelled = false) :
      Shift cancelled (.holding item) (.accepted item)
  | refuse (item : Queued) (h : cancelled = true) :
      Shift cancelled (.holding item) (.finishing (finishing item (cancelledResult item 0)))
  | rest (item : Queued) (attempt : Nat) (h : cancelled = false) :
      Shift cancelled (.waiting item attempt) (.rested item attempt)
  | giveUpWaiting (item : Queued) (attempt : Nat) (h : cancelled = true) :
      Shift cancelled (.waiting item attempt)
        (.finishing (finishing item (cancelledResult item attempt)))
  | giveUpRested (item : Queued) (attempt : Nat) (h : cancelled = true) :
      Shift cancelled (.rested item attempt)
        (.finishing (finishing item (cancelledResult item attempt)))
  | join (batch : Nat) : Shift cancelled .idle (.finishing [.close batch])

/-- What an action does, with the actions that it brings. -/
inductive Deed (a : Activity) : Action → List Action → Activity → Prop
  | report (item : Queued) (result : JobResult) :
      Deed a (.report item result) []
        { a with log := a.log ++ [.reported item.id item.role result] }
  | settle (item : Queued) (status : Status) : Deed a (.settle item status) [] a
  | tally (batch : Nat) (status : Status) (complete : Bool) :
      Deed a (.tally batch status) (if complete then [.close batch] else []) a
  | close (batch : Nat) (found : Batch) (hparent : a.parents[batch]? = some found.parent) :
      Deed a (.close batch)
        [.settle found.parent (batchResult found a.cancelled).status, .release]
        { a with
          stats :=
            countEnd a.stats found.parent.operation (batchResult found a.cancelled).status
          log := a.log ++
            [.reported found.parent.id found.parent.role (batchResult found a.cancelled)] }
  /-- a batch is closed that is not there -/
  | stray (batch : Nat) : Deed a (.close batch) [] a
  | release : Deed a .release [] a

theorem Deed.phases_eq {a next : Activity} {action : Action} {further : List Action}
    (h : Deed a action further next) : next.phases = a.phases := by
  cases h <;> rfl

/-- What a step does to the activity, with the jobs that are taken and started. -/
inductive Turn (a : Activity) : List Queued → List Queued → Activity → Prop
  | note (entries : List Entry)
      (hentries : ∀ entry ∈ entries, ∃ line reading, entry = .read line reading) :
      Turn a [] [] { a with log := a.log ++ entries }
  | cancel : Turn a [] [] { a with cancelled := true }
  | take (item : Queued) (phases : Multiset Phase) (hphases : a.phases = .idle ::ₘ phases) :
      Turn a [item] [] { a with phases := .holding item ::ₘ phases }
  | shift (phase phase' : Phase) (phases : Multiset Phase) (hphases : a.phases = phase ::ₘ phases)
      (hshift : Shift a.cancelled phase phase') :
      Turn a [] [] { a with phases := phase' ::ₘ phases }
  /-- an exit job is started -/
  | abort (item : Queued) (phases : Multiset Phase)
      (hphases : a.phases = .accepted item ::ₘ phases) (hoperation : item.operation = .abort) :
      Turn a [] [item]
        { a with
          phases := .exiting item ::ₘ phases
          stats := (a.stats.start item.operation).success item.operation
          exitCode := a.exitCode.or item.task.exitCode? }
  /-- a batch is started -/
  | launch (item : Queued) (phases : Multiset Phase)
      (hphases : a.phases = .accepted item ::ₘ phases)
      (hoperation : item.operation ≠ .abort) (hbatch : item.operation.isBatch = true) :
      Turn a [] [item]
        { a with
          phases := .idle ::ₘ .idle ::ₘ phases
          parents := a.parents ++ [item]
          stats := a.stats.start item.operation }
  /-- the first attempt of a job begins -/
  | call (item : Queued) (phases : Multiset Phase)
      (hphases : a.phases = .accepted item ::ₘ phases)
      (hoperation : item.operation ≠ .abort) (hbatch : item.operation.isBatch = false) :
      Turn a [] [item]
        { a with
          phases := .attempting item 1 ::ₘ phases
          stats := a.stats.start item.operation
          log := a.log ++ [.called item] }
  | exit (item : Queued) (phases : Multiset Phase)
      (hphases : a.phases = .exiting item ::ₘ phases) :
      Turn a [] []
        { a with
          phases := .finishing (finishing item (exitResult item)) ::ₘ phases
          cancelled := true }
  /-- an attempt has failed and another one is to follow -/
  | again (item : Queued) (attempt : Nat) (error : JobError) (phases : Multiset Phase)
      (hphases : a.phases = .attempting item attempt ::ₘ phases)
      (hretryable : error.isRetryable = true) (hattempt : attempt < UInt32.size) :
      Turn a [] []
        { a with
          phases := .waiting item attempt ::ₘ phases
          stats := a.stats.retry }
  | answer (item : Queued) (attempt : Nat) (answer : Except JobError Outcome)
      (phases : Multiset Phase) (hphases : a.phases = .attempting item attempt ::ₘ phases) :
      Turn a [] []
        { a with
          phases := .finishing (finishing item (answeredResult item attempt answer)) ::ₘ phases
          stats :=
            countEnd a.stats item.operation (answeredResult item attempt answer).status }
  | retry (item : Queued) (attempt : Nat) (phases : Multiset Phase)
      (hphases : a.phases = .rested item attempt ::ₘ phases) :
      Turn a [] []
        { a with
          phases := .attempting item (attempt + 1) ::ₘ phases
          log := a.log ++ [.called item] }
  | act (action : Action) (actions : List Action) (phases : Multiset Phase)
      (further : List Action) (next : Activity)
      (hphases : a.phases = .finishing (action :: actions) ::ₘ phases)
      (hdeed : Deed a action further next) :
      Turn a [] [] { next with phases := phaseOf (further ++ actions) ::ₘ phases }
  | list (parent : Queued) (hparent : parent ∈ a.parents) :
      Turn a [] [] { a with log := a.log ++ [.expanded parent] }
  /-- an entry of a batch is received that is no task -/
  | fault (batch position : Nat) (parent : Queued) (error : ExpansionError)
      (phases : Multiset Phase) (hphases : a.phases = .idle ::ₘ phases)
      (hparent : a.parents[batch]? = some parent) :
      Turn a [] []
        { a with
          phases :=
            .finishing [.report { parent with role := .entry batch position }
              (entryResult parent error)] ::ₘ phases }

theorem Turn.congr {a next next' : Activity} {taken started : List Queued}
    (h : Turn a taken started next) (hnext : next' = next) : Turn a taken started next' := by
  rw [hnext]
  exact h

/-- A step that changes nothing that parties are at. -/
theorem Turn.same {a next : Activity} (hnext : next = a) : Turn a [] [] next := by
  refine (Turn.note [] (by simp)).congr ?_
  rw [hnext, List.append_nil]

/-!
## Jobs that are started
-/

namespace State

/-- The job that is started with an event. -/
def started (state : State) : Event → List Queued
  | .start worker =>
      match state.workers[worker]? with
      | some (.accepted item) => [item]
      | _ => []
  | _ => []

/-- The jobs that are started with a sequence of events, in the order in which they are. -/
def starts (state : State) : List Event → List Queued
  | [] => []
  | event :: events =>
      match state.step event with
      | some next => state.started event ++ next.starts events
      | none => []

@[simp] theorem starts_nil (state : State) : state.starts [] = [] := rfl

theorem starts_eq_along (state : State) (events : List Event) :
    state.starts events = state.along (fun last event _ => last.started event) events := by
  induction events generalizing state with
  | nil => rfl
  | cons event events ih =>
      rw [starts, along]
      cases state.step event with
      | none => rfl
      | some next => exact congrArg (state.started event ++ ·) (ih next)

theorem starts_append {state last : State} {events events' : List Event}
    (hrun : state.run events = some last) :
    state.starts (events ++ events') = state.starts events ++ last.starts events' := by
  simp only [starts_eq_along]
  exact along_append _ hrun

theorem starts_concat {state last next : State} {events : List Event} {event : Event}
    (hrun : state.run events = some last) (hstep : last.step event = some next) :
    state.starts (events ++ [event]) = state.starts events ++ last.started event := by
  simp only [starts_eq_along]
  exact along_concat _ hrun hstep

/-!
## Every step is a turn
-/

variable {state next : State}

/-!
### Workers
-/

def besidesWorker (state : State) (worker : Nat) : Multiset Phase :=
  (state.workers.eraseIdx worker : Multiset Phase) +
    ((state.batches.map fun found => found.feeding.phase : List Phase) : Multiset Phase)

theorem phases_eq_of_worker {worker : Nat} {phase : Phase}
    (h : state.workers[worker]? = some phase) :
    state.activity.phases = phase ::ₘ state.besidesWorker worker := by
  rw [activity, coe_eq_cons_eraseIdx h, Multiset.cons_add]
  rfl

theorem mem_phases_of_worker {worker : Nat} {phase : Phase}
    (h : state.workers[worker]? = some phase) : phase ∈ state.activity.phases := by
  rw [phases_eq_of_worker h]
  exact Multiset.mem_cons_self _ _

theorem activity_setWorker (state : State) {worker : Nat} {phase : Phase}
    (h : state.workers[worker]? = some phase) (phase' : Phase) :
    (state.setWorker worker phase').activity =
      { state.activity with phases := phase' ::ₘ state.besidesWorker worker } := by
  rw [activity, activity, setWorker, coe_set_eq_cons_eraseIdx h, Multiset.cons_add]
  rfl

theorem finish_eq_setWorker (state : State) (worker : Nat) (actions : List Action) :
    state.finish worker actions = state.setWorker worker (phaseOf actions) := by
  cases actions <;> rfl

theorem activity_finish (state : State) {worker : Nat} {phase : Phase}
    (h : state.workers[worker]? = some phase) (actions : List Action) :
    (state.finish worker actions).activity =
      { state.activity with phases := phaseOf actions ::ₘ state.besidesWorker worker } := by
  rw [finish_eq_setWorker, activity_setWorker state h]

theorem activity_write (state : State) (entry : Entry) :
    (state.write entry).activity =
      { state.activity with log := state.activity.log ++ [entry] } := by
  unfold activity
  rw [log_write]
  rfl

theorem turn_take {worker : Nat} (h : Transition state (.take worker) next) :
    Turn state.activity (state.mark (.take worker)).takings [] next.activity := by
  cases h with
  | take item queue hworker hqueue =>
      have hmark : (state.mark (.take worker)).takings = [item] := by
        simp [mark, hqueue, Mark.takings]
      rw [hmark, activity_setWorker { state with queue := queue } hworker]
      exact .take item _ (phases_eq_of_worker hworker)

theorem turn_shift {worker : Nat} {phase phase' : Phase}
    (h : state.workers[worker]? = some phase) (hshift : Shift state.cancelled phase phase') :
    Turn state.activity [] [] (state.setWorker worker phase').activity := by
  rw [activity_setWorker state h]
  exact .shift phase phase' _ (phases_eq_of_worker h) hshift

theorem turn_drop {worker : Nat} {phase : Phase} {item : Queued} {result : JobResult}
    (h : state.workers[worker]? = some phase)
    (hshift : Shift state.cancelled phase (.finishing (finishing item result))) :
    Turn state.activity [] [] (state.finish worker (finishing item result)).activity := by
  rw [activity_finish state h, phaseOf_finishing]
  exact .shift phase _ _ (phases_eq_of_worker h) hshift

theorem turn_accept {worker : Nat} (h : Transition state (.accept worker) next) :
    Turn state.activity [] [] next.activity := by
  cases h with
  | accept item hworker hcancelled => exact turn_shift hworker (.accept item hcancelled)
  | refuse item hworker hcancelled => exact turn_drop hworker (.refuse item hcancelled)

theorem started_of_accepted {worker : Nat} {item : Queued}
    (h : state.workers[worker]? = some (.accepted item)) :
    state.started (.start worker) = [item] := by
  simp [started, h]

theorem turn_start {worker : Nat} (h : Transition state (.start worker) next) :
    Turn state.activity [] (state.started (.start worker)) next.activity := by
  cases h with
  | abort item hworker habort =>
      rw [started_of_accepted hworker, activity_setWorker { state with
        stats := (state.stats.start item.operation).success item.operation
        exitCode := state.exitCode.or item.task.exitCode? } hworker]
      exact .abort item _ (phases_eq_of_worker hworker) habort
  | launch item hworker habort hoperation =>
      rw [started_of_accepted hworker]
      refine (Turn.launch item _ (phases_eq_of_worker hworker) habort hoperation).congr ?_
      rw [activity_setWorker { state with
        stats := state.stats.start item.operation
        batches := state.batches ++ [{ parent := item }] } hworker]
      apply Activity.ext
      -- the task behind the new batch is one more party that is idle
      case phases =>
        simp only [besidesWorker, List.map_append, List.map_cons, List.map_nil,
          ← Multiset.coe_add, Multiset.coe_singleton, ← Multiset.singleton_add, Feeding.phase]
        ac_rfl
      case parents => exact List.map_append
      all_goals rfl
  | call item hworker habort hoperation =>
      rw [started_of_accepted hworker, activity_setWorker (State.write { state with
        stats := state.stats.start item.operation } (.called item)) hworker, activity_write]
      exact .call item _ (phases_eq_of_worker hworker) habort hoperation

theorem turn_exit {worker : Nat} (h : Transition state (.exit worker) next) :
    Turn state.activity [] [] next.activity := by
  cases h with
  | exit item hworker =>
      rw [activity_finish { state with cancelled := true } hworker, phaseOf_finishing]
      exact .exit item _ (phases_eq_of_worker hworker)

theorem turn_answer {worker : Nat} {answer : Except JobError Outcome}
    (h : Transition state (.answer worker answer) next) :
    Turn state.activity [] [] next.activity := by
  cases h with
  | again item attempt hworker hagain =>
      cases answer with
      | ok outcome => cases hagain
      | error error =>
          rw [triesAgain, Bool.and_eq_true, decide_eq_true_eq] at hagain
          rw [activity_setWorker { state with stats := state.stats.retry } hworker]
          exact .again item attempt error _ (phases_eq_of_worker hworker) hagain.1
            (Nat.lt_of_le_of_lt hagain.2 (UInt32.toNat_lt_size _))
  | answer item attempt hworker hagain =>
      refine (Turn.answer item attempt answer _ (phases_eq_of_worker hworker)).congr ?_
      rw [activity_finish { state with
        stats := countEnd state.stats item.operation
          (answeredResult item attempt answer).status } hworker, phaseOf_finishing]
      apply Activity.ext
      case stats =>
        dsimp only [activity]
        unfold countEnd
        split <;> rfl
      all_goals rfl

theorem turn_rest {worker : Nat} (h : Transition state (.rest worker) next) :
    Turn state.activity [] [] next.activity := by
  cases h with
  | rest item attempt hworker hcancelled =>
      exact turn_shift hworker (.rest item attempt hcancelled)

theorem turn_retry {worker : Nat} (h : Transition state (.retry worker) next) :
    Turn state.activity [] [] next.activity := by
  cases h with
  | retry item attempt hworker =>
      rw [activity_setWorker (state.write (.called item)) hworker, activity_write]
      exact .retry item attempt _ (phases_eq_of_worker hworker)

theorem turn_giveUp {worker : Nat} (h : Transition state (.giveUp worker) next) :
    Turn state.activity [] [] next.activity := by
  cases h with
  | giveUpWaiting item attempt hworker hcancelled =>
      exact turn_drop hworker (.giveUpWaiting item attempt hcancelled)
  | giveUpRested item attempt hworker hcancelled =>
      exact turn_drop hworker (.giveUpRested item attempt hcancelled)

/-!
### Batches
-/

/-- What all other parties than the task of a batch are at. -/
def besidesBatch (state : State) (batch : Nat) : Multiset Phase :=
  (state.workers : Multiset Phase) +
    ((state.batches.map fun found => found.feeding.phase).eraseIdx batch : Multiset Phase)

theorem phases_eq_of_batch {batch : Nat} {found : Batch}
    (h : state.batches[batch]? = some found) :
    state.activity.phases = found.feeding.phase ::ₘ state.besidesBatch batch := by
  have hphase : (state.batches.map fun found => found.feeding.phase)[batch]? =
      some found.feeding.phase := by
    rw [List.getElem?_map, h]
    rfl
  rw [activity, coe_eq_cons_eraseIdx hphase, Multiset.add_cons]
  rfl

theorem mem_phases_of_batch {batch : Nat} {found : Batch}
    (h : state.batches[batch]? = some found) : found.feeding.phase ∈ state.activity.phases := by
  rw [phases_eq_of_batch h]
  exact Multiset.mem_cons_self _ _

theorem activity_updateBatch {batch : Nat} {found : Batch} {f : Batch → Batch}
    (h : state.batches[batch]? = some found) (hparent : (f found).parent = found.parent) :
    (state.updateBatch batch f).activity =
      { state.activity with
        phases := (f found).feeding.phase ::ₘ state.besidesBatch batch } := by
  have hphase : (state.batches.map fun found => found.feeding.phase)[batch]? =
      some found.feeding.phase := by
    rw [List.getElem?_map, h]
    rfl
  have hparents : (state.batches.map Batch.parent).set batch (f found).parent =
      state.batches.map Batch.parent := by
    apply set_eq_self_of_getElem?
    rw [List.getElem?_map, h, hparent]
    rfl
  rw [activity, activity, updateBatch, modify_eq_set_of_getElem? h, List.map_set,
    List.map_set, hparents, coe_set_eq_cons_eraseIdx hphase, Multiset.add_cons]
  rfl

/-- A change to a batch that leaves what its task is at. -/
theorem activity_updateBatch_of_eq (state : State) {batch : Nat} {found : Batch}
    {f : Batch → Batch} (h : state.batches[batch]? = some found)
    (hparent : (f found).parent = found.parent)
    (hphase : (f found).feeding.phase = found.feeding.phase) :
    (state.updateBatch batch f).activity = state.activity := by
  rw [activity_updateBatch h hparent, hphase, ← phases_eq_of_batch h]

theorem parents_getElem? (batch : Nat) :
    state.activity.parents[batch]? = state.batches[batch]?.map Batch.parent :=
  List.getElem?_map

theorem turn_list {batch : Nat} {expansion : Expansion}
    (h : Transition state (.list batch expansion) next) :
    Turn state.activity [] [] next.activity := by
  cases h with
  | list found hbatch hlisting =>
      rw [activity_write, activity_updateBatch_of_eq _ hbatch rfl rfl]
      exact .list found.parent (List.mem_map_of_mem (List.mem_of_getElem? hbatch))

theorem turn_send {batch : Nat} (h : Transition state (.send batch) next) :
    Turn state.activity [] [] next.activity := by
  cases h with
  | send found item items fault checksEnd hbatch hlisting hroom =>
      exact .same (activity_updateBatch_of_eq _ hbatch rfl rfl)
  | sendEnd found fault checksEnd hbatch hlisting =>
      exact .same (activity_updateBatch_of_eq _ hbatch rfl rfl)

theorem turn_abandon {batch : Nat} (h : Transition state (.abandon batch) next) :
    Turn state.activity [] [] next.activity := by
  cases h with
  | abandon found items fault checksEnd hbatch hlisting hcancelled =>
      exact .same (activity_updateBatch_of_eq _ hbatch rfl rfl)

theorem turn_receive {batch : Nat} (h : Transition state (.receive batch) next) :
    Turn state.activity [] [] next.activity := by
  cases h with
  | receive found task channel hbatch hfeeding hchannel =>
      refine .same ((activity_updateBatch_of_eq
        { state with outstanding := state.outstanding + 1 } hbatch rfl ?_).trans rfl)
      rw [hfeeding]
      rfl
  | receiveFault found error channel hbatch hfeeding hchannel =>
      have hphases := phases_eq_of_batch hbatch
      rw [hfeeding] at hphases
      rw [activity_updateBatch hbatch rfl]
      refine .fault batch found.received found.parent error _ hphases ?_
      rw [parents_getElem?, hbatch]
      rfl

theorem turn_enqueue {batch : Nat} (h : Transition state (.enqueue batch) next) :
    Turn state.activity [] [] next.activity := by
  cases h with
  | enqueue found item hbatch hfeeding hroom =>
      refine .same ((activity_updateBatch_of_eq
        { state with queue := state.queue ++ [item] } hbatch rfl ?_).trans rfl)
      rw [hfeeding]
      rfl

theorem turn_join {batch : Nat} (h : Transition state (.join batch) next) :
    Turn state.activity [] [] next.activity := by
  cases h with
  | join found fault hbatch hfeeding hchannel hlisting =>
      have hphases := phases_eq_of_batch hbatch
      rw [hfeeding] at hphases
      rw [activity_updateBatch hbatch rfl]
      dsimp only [Feeding.phase]
      split
      · exact .shift .idle _ _ hphases (.join batch)
      · exact .same (by rw [phaseOf, ← Feeding.phase, ← hphases])

/-!
### Actions
-/

theorem deed_of_performs {action : Action} {further : List Action}
    (h : Performs state action next further) :
    Deed state.activity action further next.activity := by
  cases h with
  | report item result =>
      have hreport : (state.report item result).activity =
          { state.activity with
            log := state.activity.log ++ [.reported item.id item.role result] } := by
        rw [State.report, activity_write]
        rfl
      rw [hreport]
      exact .report item result
  | settle item status => exact .settle item status
  | tally batch status found hbatch =>
      rw [activity_updateBatch_of_eq _ hbatch rfl rfl]
      exact .tally batch status (found.group.subJobDone status).2
  | close batch found hbatch =>
      have hclose := Deed.close (a := state.activity) batch found (by
        rw [parents_getElem?, hbatch]
        rfl)
      have hstats : { countEnd state.stats found.parent.operation
            (batchResult found state.cancelled).status with parseFailures := 0 } =
          countEnd state.activity.stats found.parent.operation
            (batchResult found state.cancelled).status := by
        unfold countEnd
        split <;> rfl
      rw [activity_write]
      unfold activity at hclose hstats ⊢
      dsimp only at hclose hstats ⊢
      rw [hstats]
      exact hclose
  | release => exact .release
  | stray _ batch hbatch haction =>
      rcases haction with rfl | ⟨status, rfl⟩
      · exact .stray batch
      · exact .tally batch status false

theorem turn_act {worker : Nat} (h : Transition state (.act worker) next) :
    Turn state.activity [] [] next.activity := by
  cases h with
  | act action actions next further hworker hperforms =>
      have hdeed := deed_of_performs hperforms
      rw [← workers_of_performs hperforms] at hworker
      have hphases := phases_eq_of_worker hworker
      rw [hdeed.phases_eq] at hphases
      rw [activity_finish _ hworker]
      exact .act action actions _ _ _ hphases hdeed

/-- The two kinds of agendas differ only in where the task goes once they are done. -/
theorem turn_agenda {batch : Nat} {found : Batch} {action : Action}
    {actions further : List Action} {f : Batch → Batch}
    (hperforms : Performs state action next further) (hbatch : state.batches[batch]? = some found)
    (hfeeding : found.feeding.phase = .finishing (action :: actions))
    (hparent : ∀ found, (f found).parent = found.parent)
    (hphase : ∀ found, (f found).feeding.phase = phaseOf (further ++ actions)) :
    Turn state.activity [] [] (next.updateBatch batch f).activity := by
  have hdeed := deed_of_performs hperforms
  rcases feeding_eq_of_performs hperforms hbatch with ⟨found', hbatch', hfeeding'⟩
  have hphases := phases_eq_of_batch hbatch'
  rw [hdeed.phases_eq, hfeeding', hfeeding] at hphases
  rw [activity_updateBatch hbatch' (hparent found'), hphase]
  exact .act action actions _ _ _ hphases hdeed

theorem turn_feed {batch : Nat} (h : Transition state (.feed batch) next) :
    Turn state.activity [] [] next.activity := by
  cases h with
  | feedActing found action actions next further hbatch hfeeding hperforms =>
      refine turn_agenda hperforms hbatch (by rw [hfeeding]; rfl) (fun _ => rfl) fun found => ?_
      cases further ++ actions <;> rfl
  | feedLeaving found action actions next further hbatch hfeeding hperforms =>
      exact turn_agenda hperforms hbatch (by rw [hfeeding]; rfl) (fun _ => rfl) fun _ => rfl

/-!
### Events
-/

theorem turn_read {reading : Except ParseError (Option Job)}
    (h : Transition state (.read reading) next) : Turn state.activity [] [] next.activity := by
  cases h with
  | readJob job line submissions hoffered hsubmissions =>
      exact (Turn.note [.read line (.ok (some job))] (by simp)).congr (activity_write _ _)
  | readBlank line submissions hoffered hsubmissions =>
      exact (Turn.note [.read line (.ok none)] (by simp)).congr (activity_write _ _)
  | readFault error line submissions hoffered hsubmissions =>
      exact (Turn.note [.read line (.error error)] (by simp)).congr (activity_write _ _)

theorem takings_markOf (state : State) (action : Action) : (state.markOf action).takings = [] := by
  cases action <;> rfl

theorem takings_mark {event : Event} (hevent : ∀ worker, event ≠ .take worker) :
    (state.mark event).takings = [] := by
  unfold mark
  split
  · split <;> rfl
  · exact absurd rfl (hevent _)
  · split
    · split <;> rfl
    · rfl
  · split
    · exact takings_markOf _ _
    · rfl

theorem turn_of_step {event : Event} (h : state.step event = some next) :
    Turn state.activity (state.mark event).takings (state.started event) next.activity := by
  have h := transition_of_step h
  by_cases htake : ∃ worker, event = .take worker
  · rcases htake with ⟨worker, rfl⟩
    exact turn_take h
  · rw [takings_mark fun worker heq => htake ⟨worker, heq⟩]
    cases event with
    | cancel =>
        cases h
        exact .cancel
    | read reading => exact turn_read h
    | offer | submit | stopReading | proceed index =>
        -- what is only moved towards the queue is no party's concern
        cases h
        exact .same rfl
    | take worker => exact absurd ⟨worker, rfl⟩ htake
    | accept worker => exact turn_accept h
    | start worker => exact turn_start h
    | exit worker => exact turn_exit h
    | answer worker answer => exact turn_answer h
    | rest worker => exact turn_rest h
    | retry worker => exact turn_retry h
    | giveUp worker => exact turn_giveUp h
    | act worker => exact turn_act h
    | list batch expansion => exact turn_list h
    | send batch => exact turn_send h
    | abandon batch => exact turn_abandon h
    | receive batch => exact turn_receive h
    | enqueue batch => exact turn_enqueue h
    | join batch => exact turn_join h
    | feed batch => exact turn_feed h

end State
end Pool
end BulkTransfer
