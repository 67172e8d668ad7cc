import BulkTransfer.Proofs.Pool.Chronicle

/-!
# Transitions

What a step can do is said here once, branch by branch, with what has to hold before and the
state behind.  The steps are exactly these transitions, so a proof about a step goes through
their cases and does not open the step.
-/

namespace BulkTransfer
namespace Pool

variable {state next : State}

/-!
## Actions
-/

/-- What an action does, with the actions that it brings. -/
inductive Performs (state : State) : Action → State → List Action → Prop
  | report (item : Queued) (result : JobResult) :
      Performs state (.report item result) (state.report item result) []
  | settle (item : Queued) (status : Status) :
      Performs state (.settle item status)
        { state with
          continuations :=
            state.continuations ++ (item.successor status state.cancelled).toList
          outstanding :=
            state.outstanding + (item.successor status state.cancelled).toList.length
          unhandled :=
            state.unhandled +
              if item.isLoss status (item.successor status state.cancelled) then 1 else 0 }
        []
  | tally (batch : Nat) (status : Status) (found : Batch)
      (hbatch : state.batches[batch]? = some found) :
      Performs state (.tally batch status)
        (state.updateBatch batch fun before =>
          { before with group := (found.group.subJobDone status).1 })
        (if (found.group.subJobDone status).2 then [.close batch] else [])
  | close (batch : Nat) (found : Batch) (hbatch : state.batches[batch]? = some found) :
      Performs state (.close batch)
        (({ state with
            stats := countEnd state.stats found.parent.operation
              (batchResult found state.cancelled).status }).write
          (.reported found.parent.id found.parent.role (batchResult found state.cancelled)))
        [.settle found.parent (batchResult found state.cancelled).status, .release]
  | release :
      Performs state .release { state with outstanding := state.outstanding - 1 } []
  /-- a batch is told or closed that is not there -/
  | stray (action : Action) (batch : Nat) (hbatch : state.batches[batch]? = none)
      (haction : action = .close batch ∨ ∃ status, action = .tally batch status) :
      Performs state action state []

theorem performs (state : State) (action : Action) :
    Performs state action (state.perform action).1 (state.perform action).2 := by
  cases action with
  | report item result => exact .report item result
  | settle item status =>
      rw [State.perform, State.settle_eq]
      exact .settle item status
  | tally batch status =>
      rw [State.perform, State.tally]
      cases hbatch : state.batches[batch]? with
      | none => exact .stray _ batch hbatch (Or.inr ⟨status, rfl⟩)
      | some found => exact .tally batch status found hbatch
  | close batch =>
      rw [State.perform, State.close]
      cases hbatch : state.batches[batch]? with
      | none => exact .stray _ batch hbatch (Or.inl rfl)
      | some found => exact .close batch found hbatch
  | release => exact .release

/-- What an action does is what is said here, and nothing else. -/
theorem perform_eq_iff {action : Action} {further : List Action} :
    state.perform action = (next, further) ↔ Performs state action next further := by
  constructor
  · intro h
    have hperforms := performs state action
    rwa [h] at hperforms
  · intro h
    cases h with
    | report item result => rfl
    | settle item status => rw [State.perform, State.settle_eq]
    | tally batch status found hbatch => rw [State.perform, State.tally, hbatch]
    | close batch found hbatch => rw [State.perform, State.close, hbatch]
    | release => rfl
    | stray _ batch hbatch haction =>
        rcases haction with rfl | ⟨status, rfl⟩
        · rw [State.perform, State.close, hbatch]
        · rw [State.perform, State.tally, hbatch]

/-!
## Events
-/

/-- What happens with an event, and what has to hold for it. -/
inductive Transition (state : State) : Event → State → Prop
  | cancel : Transition state .cancel { state with cancelled := true }
  | readJob (job : Job) (line : String) (submissions : List Submission)
      (hoffered : state.offered = none)
      (hsubmissions : state.submissions = .line line :: submissions) :
      Transition state (.read (.ok (some job)))
        (({ state with submissions := .job job :: submissions }).write
          (.read line (.ok (some job))))
  | readBlank (line : String) (submissions : List Submission) (hoffered : state.offered = none)
      (hsubmissions : state.submissions = .line line :: submissions) :
      Transition state (.read (.ok none))
        (({ state with submissions := submissions }).write (.read line (.ok none)))
  | readFault (error : ParseError) (line : String) (submissions : List Submission)
      (hoffered : state.offered = none)
      (hsubmissions : state.submissions = .line line :: submissions) :
      Transition state (.read (.error error))
        (({ state with submissions := submissions, stats := state.stats.parseFailure }).write
          (.read line (.error error)))
  | offer (job : Job) (submissions : List Submission) (hoffered : state.offered = none)
      (hsubmissions : state.submissions = .job job :: submissions) :
      Transition state .offer
        { state with
          submissions := submissions, submitted := state.submitted + 1
          offered := some { job := job, id := { submission := state.submitted } }
          outstanding := state.outstanding + 1 }
  | submit (item : Queued) (hoffered : state.offered = some item)
      (hroom : state.hasRoom = true) :
      Transition state .submit { state with queue := state.queue ++ [item], offered := none }
  | stopReading (hcancelled : state.cancelled = true) (hoffered : state.offered = none)
      (hsubmissions : state.submissions ≠ []) :
      Transition state .stopReading { state with submissions := [] }
  | take {worker : Nat} (item : Queued) (queue : List Queued)
      (hworker : state.workers[worker]? = some .idle) (hqueue : state.queue = item :: queue) :
      Transition state (.take worker)
        (({ state with queue := queue }).setWorker worker (.holding item))
  | accept {worker : Nat} (item : Queued) (hworker : state.workers[worker]? = some (.holding item))
      (hcancelled : state.cancelled = false) :
      Transition state (.accept worker) (state.setWorker worker (.accepted item))
  | refuse {worker : Nat} (item : Queued) (hworker : state.workers[worker]? = some (.holding item))
      (hcancelled : state.cancelled = true) :
      Transition state (.accept worker)
        (state.finish worker (finishing item (cancelledResult item 0)))
  /-- an exit job is started -/
  | abort {worker : Nat} (item : Queued) (hworker : state.workers[worker]? = some (.accepted item))
      (habort : item.operation = .abort) :
      Transition state (.start worker)
        (({ state with
            stats := (state.stats.start item.operation).success item.operation
            exitCode := state.exitCode.or item.task.exitCode? }).setWorker worker
          (.exiting item))
  /-- a batch is started -/
  | launch {worker : Nat} (item : Queued)
      (hworker : state.workers[worker]? = some (.accepted item))
      (habort : item.operation ≠ .abort) (hoperation : item.operation.isBatch = true) :
      Transition state (.start worker)
        (({ state with
            stats := state.stats.start item.operation
            batches := state.batches ++ [({ parent := item } : Batch)] }).setWorker worker .idle)
  /-- the first attempt of a job begins -/
  | call {worker : Nat} (item : Queued) (hworker : state.workers[worker]? = some (.accepted item))
      (habort : item.operation ≠ .abort) (hoperation : item.operation.isBatch = false) :
      Transition state (.start worker)
        ((({ state with stats := state.stats.start item.operation }).write
          (.called item)).setWorker worker (.attempting item 1))
  | exit {worker : Nat} (item : Queued) (hworker : state.workers[worker]? = some (.exiting item)) :
      Transition state (.exit worker)
        (State.finish { state with cancelled := true } worker (finishing item (exitResult item)))
  /-- an attempt has failed and another one is to follow -/
  | again {worker : Nat} {answer : Except JobError Outcome} (item : Queued) (attempt : Nat)
      (hworker : state.workers[worker]? = some (.attempting item attempt))
      (hagain : triesAgain state.config.retries attempt answer = true) :
      Transition state (.answer worker answer)
        (({ state with stats := state.stats.retry }).setWorker worker (.waiting item attempt))
  | answer {worker : Nat} {answer : Except JobError Outcome} (item : Queued) (attempt : Nat)
      (hworker : state.workers[worker]? = some (.attempting item attempt))
      (hagain : triesAgain state.config.retries attempt answer = false) :
      Transition state (.answer worker answer)
        (({ state with
            stats := countEnd state.stats item.operation
              (answeredResult item attempt answer).status }).finish worker
          (finishing item (answeredResult item attempt answer)))
  | rest {worker : Nat} (item : Queued) (attempt : Nat)
      (hworker : state.workers[worker]? = some (.waiting item attempt))
      (hcancelled : state.cancelled = false) :
      Transition state (.rest worker) (state.setWorker worker (.rested item attempt))
  | retry {worker : Nat} (item : Queued) (attempt : Nat)
      (hworker : state.workers[worker]? = some (.rested item attempt)) :
      Transition state (.retry worker)
        ((state.write (.called item)).setWorker worker (.attempting item (attempt + 1)))
  | giveUpWaiting {worker : Nat} (item : Queued) (attempt : Nat)
      (hworker : state.workers[worker]? = some (.waiting item attempt))
      (hcancelled : state.cancelled = true) :
      Transition state (.giveUp worker)
        (state.finish worker (finishing item (cancelledResult item attempt)))
  | giveUpRested {worker : Nat} (item : Queued) (attempt : Nat)
      (hworker : state.workers[worker]? = some (.rested item attempt))
      (hcancelled : state.cancelled = true) :
      Transition state (.giveUp worker)
        (state.finish worker (finishing item (cancelledResult item attempt)))
  | act {worker : Nat} (action : Action) (actions : List Action) (next : State)
      (further : List Action)
      (hworker : state.workers[worker]? = some (.finishing (action :: actions)))
      (hperforms : Performs state action next further) :
      Transition state (.act worker) (next.finish worker (further ++ actions))
  | proceed {index : Nat} (item : Queued) (hitem : state.continuations[index]? = some item)
      (hroom : state.hasRoom = true) :
      Transition state (.proceed index)
        { state with
          queue := state.queue ++ [item]
          continuations := state.continuations.eraseIdx index }
  | list {batch : Nat} {expansion : Expansion} (found : Batch)
      (hbatch : state.batches[batch]? = some found) (hlisting : found.listing = .ready) :
      Transition state (.list batch expansion)
        ((state.updateBatch batch fun before =>
          { before with
            listing := .sending expansion.items expansion.fault expansion.checksEnd }).write
          (.expanded found.parent))
  | send {batch : Nat} (found : Batch) (item : Except ExpansionError SubTask)
      (items : List (Except ExpansionError SubTask)) (fault : Option ExpansionError)
      (checksEnd : Bool) (hbatch : state.batches[batch]? = some found)
      (hlisting : found.listing = .sending (item :: items) fault checksEnd)
      (hroom : found.channel.length < state.config.queueCapacity) :
      Transition state (.send batch)
        (state.updateBatch batch fun before =>
          { before with
            listing := .sending items fault checksEnd
            channel := before.channel ++ [item] })
  /-- a listing ends behind its last item -/
  | sendEnd {batch : Nat} (found : Batch) (fault : Option ExpansionError) (checksEnd : Bool)
      (hbatch : state.batches[batch]? = some found)
      (hlisting : found.listing = .sending [] fault checksEnd) :
      Transition state (.send batch)
        (state.updateBatch batch fun before => { before with listing := .ended fault })
  | abandon {batch : Nat} (found : Batch) (items : List (Except ExpansionError SubTask))
      (fault : Option ExpansionError) (checksEnd : Bool)
      (hbatch : state.batches[batch]? = some found)
      (hlisting : found.listing = .sending items fault checksEnd)
      (hcancelled : state.cancelled = true) :
      Transition state (.abandon batch)
        (state.updateBatch batch fun before => { before with listing := .ended (some .cancelled) })
  | receive {batch : Nat} (found : Batch) (task : SubTask)
      (channel : List (Except ExpansionError SubTask))
      (hbatch : state.batches[batch]? = some found) (hfeeding : found.feeding = .receiving)
      (hchannel : found.channel = .ok task :: channel) :
      Transition state (.receive batch)
        (({ state with outstanding := state.outstanding + 1 }).updateBatch batch fun before =>
          { before with
            channel := channel, received := before.received + 1
            group := before.group.addSubJob
            feeding := .queueing (State.subJob batch before task) })
  /-- an entry is received that is no task -/
  | receiveFault {batch : Nat} (found : Batch) (error : ExpansionError)
      (channel : List (Except ExpansionError SubTask))
      (hbatch : state.batches[batch]? = some found) (hfeeding : found.feeding = .receiving)
      (hchannel : found.channel = .error error :: channel) :
      Transition state (.receive batch)
        (state.updateBatch batch fun before =>
          { before with
            channel := channel, received := before.received + 1
            group := before.group.entryFailed
            feeding := .acting
              [.report { found.parent with role := .entry batch found.received }
                (entryResult before.parent error)] })
  | enqueue {batch : Nat} (found : Batch) (item : Queued)
      (hbatch : state.batches[batch]? = some found) (hfeeding : found.feeding = .queueing item)
      (hroom : state.hasRoom = true) :
      Transition state (.enqueue batch)
        (({ state with queue := state.queue ++ [item] }).updateBatch batch fun before =>
          { before with feeding := .receiving })
  | join {batch : Nat} (found : Batch) (fault : Option ExpansionError)
      (hbatch : state.batches[batch]? = some found) (hfeeding : found.feeding = .receiving)
      (hchannel : found.channel = []) (hlisting : found.listing = .ended fault) :
      Transition state (.join batch)
        (state.updateBatch batch fun before =>
          { before with
            group := (found.group.listingDone fault).1
            feeding := .leaving
              (if (found.group.listingDone fault).2 then [.close batch] else []) })
  /-- an action about a failed entry -/
  | feedActing {batch : Nat} (found : Batch) (action : Action) (actions : List Action)
      (next : State) (further : List Action) (hbatch : state.batches[batch]? = some found)
      (hfeeding : found.feeding = .acting (action :: actions))
      (hperforms : Performs state action next further) :
      Transition state (.feed batch)
        (next.updateBatch batch fun before =>
          { before with
            feeding :=
              if (further ++ actions).isEmpty then .receiving else .acting (further ++ actions) })
  /-- an action behind the listing -/
  | feedLeaving {batch : Nat} (found : Batch) (action : Action) (actions : List Action)
      (next : State) (further : List Action) (hbatch : state.batches[batch]? = some found)
      (hfeeding : found.feeding = .leaving (action :: actions))
      (hperforms : Performs state action next further) :
      Transition state (.feed batch)
        (next.updateBatch batch fun before =>
          { before with feeding := .leaving (further ++ actions) })

/-!
## Steps of those who submit
-/

namespace State

theorem transition_of_read {reading : Except ParseError (Option Job)}
    (h : state.read reading = some next) : Transition state (.read reading) next := by
  unfold State.read at h
  split at h
  · rename_i line submissions hoffered hsubmissions
    cases h
    cases reading with
    | error error => exact .readFault error line submissions hoffered hsubmissions
    | ok job? =>
        cases job? with
        | none => exact .readBlank line submissions hoffered hsubmissions
        | some job => exact .readJob job line submissions hoffered hsubmissions
  · cases h

theorem transition_of_offer (h : state.offer = some next) : Transition state .offer next := by
  unfold offer at h
  split at h
  · rename_i job submissions hoffered hsubmissions
    cases h
    exact .offer job submissions hoffered hsubmissions
  · cases h

theorem transition_of_submit (h : state.submit = some next) : Transition state .submit next := by
  unfold submit at h
  split at h
  · rename_i item hoffered
    split at h
    · rename_i hroom
      cases h
      exact .submit item hoffered hroom
    · cases h
  · cases h

theorem transition_of_stopReading (h : state.stopReading = some next) :
    Transition state .stopReading next := by
  unfold stopReading at h
  split at h
  · rename_i hstops
    cases h
    rw [Bool.and_eq_true, Bool.and_eq_true, Option.isNone_iff_eq_none, Bool.not_eq_true',
      List.isEmpty_eq_false_iff] at hstops
    exact .stopReading hstops.1.1 hstops.1.2 hstops.2
  · cases h

theorem transition_of_proceed {index : Nat} (h : state.proceed index = some next) :
    Transition state (.proceed index) next := by
  unfold proceed at h
  split at h
  · rename_i item hitem
    split at h
    · rename_i hroom
      cases h
      exact .proceed item hitem hroom
    · cases h
  · cases h

/-!
## Steps of workers
-/

section Workers

variable {worker : Nat}

theorem transition_of_take (h : state.take worker = some next) :
    Transition state (.take worker) next := by
  unfold take at h
  split at h
  · rename_i item queue hworker hqueue
    cases h
    exact .take item queue hworker hqueue
  · cases h

theorem transition_of_accept (h : state.accept worker = some next) :
    Transition state (.accept worker) next := by
  unfold accept at h
  split at h
  · rename_i item hworker
    split at h
    · rename_i hcancelled
      cases h
      exact .refuse item hworker hcancelled
    · rename_i hcancelled
      cases h
      exact .accept item hworker (Bool.eq_false_iff.mpr hcancelled)
  · cases h

theorem transition_of_start (h : state.start worker = some next) :
    Transition state (.start worker) next := by
  simp only [start] at h
  split at h
  · rename_i item hworker
    split at h
    · rename_i habort
      cases h
      exact .abort item hworker habort
    · rename_i habort
      split at h
      · rename_i hoperation
        cases h
        exact .launch item hworker habort hoperation
      · rename_i hoperation
        cases h
        exact .call item hworker habort (Bool.eq_false_iff.mpr hoperation)
  · cases h

theorem transition_of_exit (h : state.exit worker = some next) :
    Transition state (.exit worker) next := by
  unfold exit at h
  split at h
  · rename_i item hworker
    cases h
    exact .exit item hworker
  · cases h

theorem transition_of_answer {answer : Except JobError Outcome}
    (h : state.answer worker answer = some next) :
    Transition state (.answer worker answer) next := by
  unfold State.answer at h
  split at h
  · rename_i item attempt hworker
    split at h
    · rename_i hagain
      cases h
      exact .again item attempt hworker hagain
    · rename_i hagain
      cases h
      exact .answer item attempt hworker (Bool.eq_false_iff.mpr hagain)
  · cases h

theorem transition_of_rest (h : state.rest worker = some next) :
    Transition state (.rest worker) next := by
  unfold rest at h
  split at h
  · rename_i item attempt hworker
    split at h
    · cases h
    · rename_i hcancelled
      cases h
      exact .rest item attempt hworker (Bool.eq_false_iff.mpr hcancelled)
  · cases h

theorem transition_of_retry (h : state.retry worker = some next) :
    Transition state (.retry worker) next := by
  unfold retry at h
  split at h
  · rename_i item attempt hworker
    cases h
    exact .retry item attempt hworker
  · cases h

theorem transition_of_giveUp (h : state.giveUp worker = some next) :
    Transition state (.giveUp worker) next := by
  unfold giveUp at h
  split at h
  · rename_i item attempt hworker
    split at h
    · rename_i hcancelled
      cases h
      exact .giveUpWaiting item attempt hworker hcancelled
    · cases h
  · rename_i item attempt hworker
    split at h
    · rename_i hcancelled
      cases h
      exact .giveUpRested item attempt hworker hcancelled
    · cases h
  · cases h

theorem transition_of_act (h : state.act worker = some next) :
    Transition state (.act worker) next := by
  unfold act at h
  split at h
  · rename_i action actions hworker
    rw [← Option.some.inj h]
    exact .act action actions _ _ hworker (performs state action)
  · cases h

end Workers

/-!
## Steps of batches
-/

section Batches

variable {batch : Nat}

theorem transition_of_list {expansion : Expansion} (h : state.list batch expansion = some next) :
    Transition state (.list batch expansion) next := by
  unfold State.list at h
  split at h
  · rename_i found hbatch
    split at h
    · rename_i hlisting
      cases h
      exact .list found hbatch hlisting
    · cases h
  · cases h

theorem transition_of_send (h : state.send batch = some next) :
    Transition state (.send batch) next := by
  unfold send at h
  split at h
  · rename_i found hbatch
    split at h
    · rename_i item items fault checksEnd hlisting
      split at h
      · rename_i hroom
        cases h
        exact .send found item items fault checksEnd hbatch hlisting hroom
      · cases h
    · rename_i fault checksEnd hlisting
      cases h
      exact .sendEnd found fault checksEnd hbatch hlisting
    · cases h
  · cases h

theorem transition_of_abandon (h : state.abandon batch = some next) :
    Transition state (.abandon batch) next := by
  unfold abandon at h
  split at h
  · rename_i found hbatch
    split at h
    · rename_i items fault checksEnd hlisting
      split at h
      · rename_i hcancelled
        cases h
        exact .abandon found items fault checksEnd hbatch hlisting hcancelled
      · cases h
    · cases h
  · cases h

theorem transition_of_receive (h : state.receive batch = some next) :
    Transition state (.receive batch) next := by
  unfold receive at h
  split at h
  · rename_i found hbatch
    split at h
    · rename_i task channel hfeeding hchannel
      cases h
      exact .receive found task channel hbatch hfeeding hchannel
    · rename_i error channel hfeeding hchannel
      cases h
      exact .receiveFault found error channel hbatch hfeeding hchannel
    · cases h
  · cases h

theorem transition_of_enqueue (h : state.enqueue batch = some next) :
    Transition state (.enqueue batch) next := by
  unfold enqueue at h
  split at h
  · rename_i found hbatch
    split at h
    · rename_i item hfeeding
      split at h
      · rename_i hroom
        cases h
        exact .enqueue found item hbatch hfeeding hroom
      · cases h
    · cases h
  · cases h

theorem transition_of_join (h : state.join batch = some next) :
    Transition state (.join batch) next := by
  unfold State.join at h
  split at h
  · rename_i found hbatch
    split at h
    · rename_i fault hfeeding hchannel hlisting
      rw [← Option.some.inj h]
      exact .join found fault hbatch hfeeding hchannel hlisting
    · cases h
  · cases h

theorem transition_of_feed (h : state.feed batch = some next) :
    Transition state (.feed batch) next := by
  unfold feed at h
  split at h
  · rename_i found hbatch
    split at h
    · rename_i action actions hfeeding
      rw [← Option.some.inj h]
      exact .feedActing found action actions _ _ hbatch hfeeding (performs state action)
    · rename_i action actions hfeeding
      rw [← Option.some.inj h]
      exact .feedLeaving found action actions _ _ hbatch hfeeding (performs state action)
    · cases h
  · cases h

end Batches

/-!
## Steps and transitions
-/

/-- Every step is a transition. -/
theorem transition_of_step {event : Event} (h : state.step event = some next) :
    Transition state event next := by
  cases event with
  | cancel =>
      cases h
      exact .cancel
  | read reading => exact transition_of_read h
  | offer => exact transition_of_offer h
  | submit => exact transition_of_submit h
  | stopReading => exact transition_of_stopReading h
  | take worker => exact transition_of_take h
  | accept worker => exact transition_of_accept h
  | start worker => exact transition_of_start h
  | exit worker => exact transition_of_exit h
  | answer worker answer => exact transition_of_answer h
  | rest worker => exact transition_of_rest h
  | retry worker => exact transition_of_retry h
  | giveUp worker => exact transition_of_giveUp h
  | act worker => exact transition_of_act h
  | proceed index => exact transition_of_proceed h
  | list batch expansion => exact transition_of_list h
  | send batch => exact transition_of_send h
  | abandon batch => exact transition_of_abandon h
  | receive batch => exact transition_of_receive h
  | enqueue batch => exact transition_of_enqueue h
  | join batch => exact transition_of_join h
  | feed batch => exact transition_of_feed h

/-- Every transition is a step, so what has to hold for it is all that has to hold. -/
theorem step_of_transition {event : Event} (h : Transition state event next) :
    state.step event = some next := by
  cases h with
  | cancel => rfl
  | readJob job line submissions hoffered hsubmissions
  | readBlank line submissions hoffered hsubmissions
  | readFault error line submissions hoffered hsubmissions =>
      simp only [step, State.read, hoffered, hsubmissions]
  | offer job submissions hoffered hsubmissions => simp only [step, offer, hoffered, hsubmissions]
  | submit item hoffered hroom => simp only [step, submit, hoffered, if_pos hroom]
  | stopReading hcancelled hoffered hsubmissions =>
      simp [step, stopReading, hcancelled, hoffered, hsubmissions]
  | take item queue hworker hqueue => simp only [step, take, hworker, hqueue]
  | accept item hworker hcancelled =>
      simp only [step, accept, hworker, hcancelled, Bool.false_eq_true, if_false]
  | refuse item hworker hcancelled => simp only [step, accept, hworker, if_pos hcancelled]
  | abort item hworker habort => simp only [step, start, hworker, if_pos habort]
  | launch item hworker habort hoperation =>
      simp only [step, start, hworker, if_neg habort, if_pos hoperation]
  | call item hworker habort hoperation =>
      simp only [step, start, hworker, if_neg habort, hoperation, Bool.false_eq_true, if_false]
  | exit item hworker => simp only [step, exit, hworker]
  | again item attempt hworker hagain => simp only [step, State.answer, hworker, if_pos hagain]
  | answer item attempt hworker hagain =>
      simp only [step, State.answer, hworker, hagain, Bool.false_eq_true, if_false]
  | rest item attempt hworker hcancelled =>
      simp only [step, rest, hworker, hcancelled, Bool.false_eq_true, if_false]
  | retry item attempt hworker => simp only [step, retry, hworker]
  | giveUpWaiting item attempt hworker hcancelled
  | giveUpRested item attempt hworker hcancelled =>
      simp only [step, giveUp, hworker, if_pos hcancelled]
  | act action actions next further hworker hperforms =>
      simp only [step, act, hworker, perform_eq_iff.mpr hperforms]
  | proceed item hitem hroom => simp only [step, proceed, hitem, if_pos hroom]
  | list found hbatch hlisting => simp only [step, State.list, hbatch, hlisting]
  | send found item items fault checksEnd hbatch hlisting hroom =>
      simp only [step, send, hbatch, hlisting, if_pos hroom]
  | sendEnd found fault checksEnd hbatch hlisting => simp only [step, send, hbatch, hlisting]
  | abandon found items fault checksEnd hbatch hlisting hcancelled =>
      simp only [step, abandon, hbatch, hlisting, if_pos hcancelled]
  | receive found task channel hbatch hfeeding hchannel
  | receiveFault found error channel hbatch hfeeding hchannel =>
      simp only [step, receive, hbatch, hfeeding, hchannel]
  | enqueue found item hbatch hfeeding hroom =>
      simp only [step, enqueue, hbatch, hfeeding, if_pos hroom]
  | join found fault hbatch hfeeding hchannel hlisting =>
      simp only [step, State.join, hbatch, hfeeding, hchannel, hlisting]
  | feedActing found action actions next further hbatch hfeeding hperforms
  | feedLeaving found action actions next further hbatch hfeeding hperforms =>
      simp only [step, feed, hbatch, hfeeding, perform_eq_iff.mpr hperforms]

/-- The steps are the transitions. -/
theorem step_eq_some_iff {event : Event} :
    state.step event = some next ↔ Transition state event next :=
  ⟨transition_of_step, step_of_transition⟩

/-- What can happen does. -/
theorem isSome_of_transition {event : Event} (h : Transition state event next) :
    (state.step event).isSome = true := by
  rw [step_of_transition h]
  rfl

end State
end Pool
end BulkTransfer
