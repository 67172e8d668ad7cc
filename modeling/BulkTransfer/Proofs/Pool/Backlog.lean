import BulkTransfer.Proofs.Pool.Activity
import BulkTransfer.Proofs.Pool.Rest
import Mathlib.Data.Prod.Lex

/-!
# What a pool has still to do

Whatever is still to come has a price: that of the steps it takes until it is gone or has
turned into something else, and then the price of that.  A tariff says what the steps cost.
Each step lowers the price of the pool by its own, but for two kinds of steps: a line that is
read may turn out to be any job, and a batch that is listed any number of sub-jobs.  Lines and
listings therefore have prices of their own and are counted in front of the steps.
-/

namespace BulkTransfer
namespace Pool

/-- The prices of single steps. -/
structure Tariff where
  /-- how many times a task is tried again -/
  retries : Nat
  /-- what it costs to read a line, beside the step -/
  line : Nat
  /-- what it costs to list a batch -/
  listing : Nat
  step : Nat

namespace Tariff

variable (t : Tariff) (parents : List Queued)

/-!
## Prices
-/

/-- The price of a task from its start up to its result, and of the actions behind it. -/
def work (operation : Operation) : Nat :=
  (3 * t.retries + 4) * t.step + if operation.isBatch then t.listing else 0

mutual

/-- The price of a job in the queue: it is taken, accepted and started. -/
def job : Job → Nat
  | .mk task next fallback =>
      3 * t.step + t.work task.operation + (follower next + follower fallback)

/-- The price of a continuation: it is queued first. -/
def follower : Option Job → Nat
  | none => 0
  | some next => t.step + job next

end

/-- The price of the continuations of a job, only one of which can come. -/
def behind (item : Queued) : Nat :=
  t.follower item.job.onSuccess + t.follower item.job.onFailure

/-- The price of the actions behind a job. -/
def ending (item : Queued) : Nat :=
  3 * t.step + t.behind item

/-- The price of a job that waits for room in the queue. -/
def waiting (item : Queued) : Nat :=
  t.step + t.job item.job

def submission : Submission → Nat
  | .job job => 2 * t.step + t.job job
  | .line _ => t.line + t.step

/-- The price of an action, where the batches have these parents. -/
def action : Action → Nat
  | .report _ _ | .tally _ _ | .release => t.step
  | .settle item _ => t.step + t.behind item
  | .close batch => parents[batch]?.elim t.step t.ending

def agenda (actions : List Action) : Nat :=
  (actions.map (t.action parents)).sum

def phase : Phase → Nat
  | .idle => 0
  | .holding item => 2 * t.step + t.work item.operation + t.behind item
  | .accepted item => t.step + t.work item.operation + t.behind item
  | .exiting item => t.step + t.ending item
  | .attempting item attempt => 3 * ((t.retries + 1 - attempt) * t.step) + t.step + t.ending item
  | .waiting item attempt => 3 * ((t.retries - attempt) * t.step) + 3 * t.step + t.ending item
  | .rested item attempt => 3 * ((t.retries - attempt) * t.step) + 2 * t.step + t.ending item
  | .finishing actions => t.agenda parents actions

/-- The price of an item that is received: it becomes a sub-job, or is reported. -/
def item : Except ExpansionError SubTask → Nat
  | .ok task => 5 * t.step + t.work task.operation
  | .error _ => 2 * t.step

def outlook : Listing → Nat
  | .ready => t.listing
  | .sending items _ _ => t.step + (items.map fun item => t.step + t.item item).sum
  | .ended _ => 0

/-- The price of what the task behind a listing is at, with the end that it comes to. -/
def feeding : Feeding → Nat
  | .receiving => t.step
  | .queueing item => t.step + t.waiting item
  | .acting actions => t.step + t.agenda parents actions
  | .leaving actions => t.agenda parents actions

/-- The price of a batch; one that waits for something has still to be closed. -/
def batch (found : Batch) : Nat :=
  t.outlook found.listing + (found.channel.map t.item).sum + t.feeding parents found.feeding +
    if found.group.pending = 0 then 0 else t.ending found.parent

/-- The price of all that a pool has still to do. -/
def total (state : State) : Nat :=
  (state.submissions.map t.submission).sum + state.offered.elim 0 t.waiting +
    (state.queue.map fun item => t.job item.job).sum + (state.continuations.map t.waiting).sum +
    (state.workers.map (t.phase state.activity.parents)).sum +
    (state.batches.map (t.batch state.activity.parents)).sum

/-!
## Small laws
-/

theorem job_eq (item : Queued) :
    t.job item.job = 3 * t.step + t.work item.operation + t.behind item := by
  rcases item with ⟨⟨task, next, fallback⟩, id, role, recovers⟩
  rw [job]
  rfl

theorem follower_continuation_le (item : Queued) (succeeded : Bool) :
    t.follower (item.job.continuation succeeded) ≤ t.behind item := by
  cases succeeded
  · exact Nat.le_add_left _ _
  · exact Nat.le_add_right _ _

@[simp] theorem agenda_nil : t.agenda parents [] = 0 := rfl

@[simp] theorem agenda_cons (action : Action) (actions : List Action) :
    t.agenda parents (action :: actions) = t.action parents action + t.agenda parents actions :=
  rfl

@[simp] theorem agenda_append (actions actions' : List Action) :
    t.agenda parents (actions ++ actions') =
      t.agenda parents actions + t.agenda parents actions' := by
  rw [agenda, List.map_append, List.sum_append]
  rfl

theorem phase_phaseOf (actions : List Action) :
    t.phase parents (phaseOf actions) = t.agenda parents actions := by
  cases actions <;> rfl

theorem agenda_finishing_le (item : Queued) (result : JobResult) :
    t.agenda parents (finishing item result) ≤ t.ending item := by
  rw [ending]
  unfold finishing
  split <;> simp only [agenda_cons, agenda_nil, action] <;> omega

/-- A sub-job has no continuations. -/
theorem waiting_subJob (batch : Nat) (found : Batch) (task : SubTask) :
    t.waiting (State.subJob batch found task) = 4 * t.step + t.work task.operation := by
  have hbehind : t.behind (State.subJob batch found task) = 0 := by
    rw [behind, State.subJob, Job.ofTask, Job.onSuccess, Job.onFailure, follower]
  rw [waiting, job_eq, hbehind]
  show t.step + (3 * t.step + t.work task.operation + 0) = _
  omega

end Tariff

/-!
## Sums behind a change
-/

theorem sum_map_set_add {α : Type} {xs : List α} {i : Nat} {x : α} (h : xs[i]? = some x)
    (f : α → Nat) (y : α) : ((xs.set i y).map f).sum + f x = (xs.map f).sum + f y := by
  have hbefore := congrArg (fun xs : Multiset α => (xs.map f).sum) (coe_eq_cons_eraseIdx h)
  have hbehind := congrArg (fun xs : Multiset α => (xs.map f).sum) (coe_set_eq_cons_eraseIdx h y)
  simp only [Multiset.map_coe, Multiset.sum_coe, Multiset.map_cons, Multiset.sum_cons]
    at hbefore hbehind
  omega

theorem sum_map_eraseIdx_add {α : Type} {xs : List α} {i : Nat} {x : α} (h : xs[i]? = some x)
    (f : α → Nat) : ((xs.eraseIdx i).map f).sum + f x = (xs.map f).sum := by
  have hbefore := congrArg (fun xs : Multiset α => (xs.map f).sum) (coe_eq_cons_eraseIdx h)
  simp only [Multiset.map_coe, Multiset.sum_coe, Multiset.map_cons, Multiset.sum_cons] at hbefore
  omega

namespace State

variable {state next : State} {t : Tariff}

theorem total_setWorker (state : State) {worker : Nat} {phase : Phase}
    (h : state.workers[worker]? = some phase) (phase' : Phase) :
    t.total (state.setWorker worker phase') + t.phase state.activity.parents phase =
      t.total state + t.phase state.activity.parents phase' := by
  have hset := sum_map_set_add h (t.phase state.activity.parents) phase'
  simp only [Tariff.total, setWorker, activity] at hset ⊢
  omega

theorem total_finish {worker : Nat} {phase : Phase} (h : state.workers[worker]? = some phase)
    (actions : List Action) :
    t.total (state.finish worker actions) + t.phase state.activity.parents phase =
      t.total state + t.agenda state.activity.parents actions := by
  rw [finish_eq_setWorker, total_setWorker _ h, Tariff.phase_phaseOf]

theorem parents_updateBatch {batch : Nat} {found : Batch} {f : Batch → Batch}
    (h : state.batches[batch]? = some found) (hparent : (f found).parent = found.parent) :
    (state.updateBatch batch f).activity.parents = state.activity.parents := by
  simp only [activity, updateBatch, modify_eq_set_of_getElem? h, List.map_set, hparent]
  exact set_eq_self_of_getElem? (by rw [List.getElem?_map, h]; rfl)

theorem total_updateBatch (state : State) {batch : Nat} {found : Batch} {f : Batch → Batch}
    (h : state.batches[batch]? = some found) (hparent : (f found).parent = found.parent) :
    t.total (state.updateBatch batch f) + t.batch state.activity.parents found =
      t.total state + t.batch state.activity.parents (f found) := by
  have hset := sum_map_set_add h (t.batch state.activity.parents) (f found)
  have hparents := parents_updateBatch h hparent
  simp only [Tariff.total, hparents]
  simp only [updateBatch, modify_eq_set_of_getElem? h]
  omega

/-!
## Actions
-/

/-- A batch that is told something is still to be closed, be it by the action that comes with
the last thing it is told. -/
theorem agenda_told {batch : Nat} {found : Batch} {group : Group} {complete : Bool}
    (h : state.batches[batch]? = some found) (hcomplete : complete = true ↔ group.pending = 0) :
    t.agenda state.activity.parents (if complete then [.close batch] else []) +
        (if group.pending = 0 then 0 else t.ending found.parent) =
      t.ending found.parent := by
  by_cases hzero : group.pending = 0
  · rw [if_pos hzero, if_pos (hcomplete.mpr hzero), Tariff.agenda_cons, Tariff.agenda_nil,
      Tariff.action, parents_getElem?, h]
    rfl
  · rw [if_neg hzero, if_neg (fun htrue => hzero (hcomplete.mp htrue)), Tariff.agenda_nil,
      Nat.zero_add]

/-- An action and those that it brings cost what it did, and its own step is done. -/
theorem total_performs {action : Action} {further : List Action}
    (h : Performs state action next further)
    (htold : ∀ batch status found, action = .tally batch status →
      state.batches[batch]? = some found → 0 < found.group.pending) :
    t.total next + t.agenda state.activity.parents further + t.step ≤
      t.total state + t.action state.activity.parents action := by
  cases h with
  | report item result => exact Nat.le_refl _
  | settle item status =>
      have hnext : ((item.successor status state.cancelled).toList.map t.waiting).sum ≤
          t.behind item := by
        cases hsuccessor : item.successor status state.cancelled with
        | none => exact Nat.zero_le _
        | some next =>
            rcases Queued.successor_eq_some hsuccessor with ⟨job, -, hjob, rfl⟩
            have hle := t.follower_continuation_le item status.isSuccess
            rw [hjob, Tariff.follower] at hle
            simpa [Tariff.waiting] using hle
      simp only [Tariff.total, Tariff.action, Tariff.agenda_nil, List.map_append, List.sum_append,
        activity]
      omega
  | tally batch status found hbatch =>
      have hpending := htold batch status found rfl hbatch
      have htold := agenda_told (t := t) hbatch
        (Overview.pending_subJobDone found.group status hpending).2
      have hupdate := total_updateBatch (t := t) _
        (f := fun before : Batch => { before with group := (found.group.subJobDone status).1 })
        hbatch rfl
      simp only [Tariff.batch, if_neg hpending.ne'] at hupdate
      simp only [Tariff.action]
      omega
  | close batch found hbatch =>
      simp only [Tariff.agenda_cons, Tariff.agenda_nil, Tariff.action, parents_getElem?, hbatch,
        Option.map_some, Option.elim_some, Tariff.ending]
      show t.total state + _ + _ ≤ _
      omega
  | release => exact Nat.le_refl _
  | stray _ batch hbatch haction =>
      rcases haction with rfl | ⟨status, rfl⟩
      · rw [Tariff.action, parents_getElem?, hbatch]
        exact Nat.le_refl _
      · exact Nat.le_refl _

theorem parents_of_performs {action : Action} {further : List Action}
    (h : Performs state action next further) :
    next.activity.parents = state.activity.parents := by
  cases h with
  | tally batch status found hbatch => exact parents_updateBatch hbatch rfl
  | _ => rfl

/-!
## Workers
-/

theorem total_shift (state : State) {worker : Nat} {phase phase' : Phase}
    (h : state.workers[worker]? = some phase)
    (hprice : t.phase state.activity.parents phase' + t.step ≤
      t.phase state.activity.parents phase) :
    t.total (state.setWorker worker phase') + t.step ≤ t.total state := by
  have hset := total_setWorker (t := t) _ h phase'
  omega

/-- A worker is done with a job. -/
theorem total_end (state : State) {worker : Nat} {phase : Phase} {item : Queued}
    {result : JobResult} (h : state.workers[worker]? = some phase)
    (hprice : t.ending item + t.step ≤ t.phase state.activity.parents phase) :
    t.total (state.finish worker (finishing item result)) + t.step ≤ t.total state := by
  have hfinish := total_finish (t := t) h (finishing item result)
  have hending := t.agenda_finishing_le state.activity.parents item result
  omega

theorem total_take {worker : Nat} (h : Transition state (.take worker) next) :
    t.total next + t.step ≤ t.total state := by
  cases h with
  | take item queue hworker hqueue =>
      have htaken : t.total { state with queue := queue } + t.job item.job = t.total state := by
        simp only [Tariff.total, activity, hqueue, List.map_cons, List.sum_cons]
        omega
      have hset := total_setWorker (t := t) { state with queue := queue } hworker
        (.holding item)
      rw [Tariff.job_eq] at htaken
      simp only [Tariff.phase] at hset
      omega

theorem total_accept {worker : Nat} (h : Transition state (.accept worker) next) :
    t.total next + t.step ≤ t.total state := by
  cases h with
  | accept item hworker hcancelled =>
      refine total_shift _ hworker ?_
      simp only [Tariff.phase]
      omega
  | refuse item hworker hcancelled =>
      refine total_end _ hworker ?_
      simp only [Tariff.phase, Tariff.ending, Tariff.work, Nat.add_mul]
      omega

theorem total_exit {worker : Nat} (h : Transition state (.exit worker) next) :
    t.total next + t.step ≤ t.total state := by
  cases h with
  | exit item hworker =>
      refine total_end { state with cancelled := true } hworker ?_
      simp only [Tariff.phase]
      omega

theorem le_retries_of_triesAgain {retries : UInt32} {attempt : Nat}
    {answer : Except JobError Outcome} (h : triesAgain retries attempt answer = true) :
    attempt ≤ retries.toNat := by
  cases answer with
  | ok outcome => cases h
  | error error => exact of_decide_eq_true (Bool.and_eq_true_iff.mp h).2

theorem total_answer {worker : Nat} {answer : Except JobError Outcome}
    (hretries : t.retries = state.config.retries.toNat)
    (h : Transition state (.answer worker answer) next) :
    t.total next + t.step ≤ t.total state := by
  cases h with
  | again item attempt hworker hagain =>
      have hattempt : attempt ≤ t.retries := hretries ▸ le_retries_of_triesAgain hagain
      have hleft : t.retries + 1 - attempt = t.retries - attempt + 1 := by omega
      refine total_shift { state with stats := state.stats.retry } hworker ?_
      simp only [Tariff.phase, hleft, Nat.add_mul]
      omega
  | answer item attempt hworker hagain =>
      refine total_end { state with stats := countEnd _ _ _ } hworker ?_
      simp only [Tariff.phase]
      omega

theorem total_rest {worker : Nat} (h : Transition state (.rest worker) next) :
    t.total next + t.step ≤ t.total state := by
  cases h with
  | rest item attempt hworker hcancelled =>
      refine total_shift _ hworker ?_
      simp only [Tariff.phase]
      omega

theorem total_retry {worker : Nat} (h : Transition state (.retry worker) next) :
    t.total next + t.step ≤ t.total state := by
  cases h with
  | retry item attempt hworker =>
      refine total_shift (state.write (.called item)) hworker ?_
      simp only [Tariff.phase, Nat.add_sub_add_right]
      omega

theorem total_giveUp {worker : Nat} (h : Transition state (.giveUp worker) next) :
    t.total next + t.step ≤ t.total state := by
  cases h with
  | giveUpWaiting item attempt hworker hcancelled | giveUpRested item attempt hworker hcancelled =>
      refine total_end _ hworker ?_
      simp only [Tariff.phase]
      omega

/-- A batch waits for a sub-job that is about to be told to it. -/
theorem pending_pos_of_agendas (h : state.overview.Balanced) {action : Action}
    {actions : List Action} {agendas : Multiset (List Action)}
    (hagendas : state.overview.agendas = (action :: actions) ::ₘ agendas) (batch : Nat)
    (status : Status) (found : Batch) (haction : action = .tally batch status)
    (hfound : state.batches[batch]? = some found) : 0 < found.group.pending := by
  rw [haction] at hagendas
  have haccount := account_of_batch hfound
  have hpending := h.pendingOf_pos hagendas
  rwa [Overview.pendingOf_eq haccount] at hpending

theorem total_act (hbalanced : state.overview.Balanced) {worker : Nat}
    (h : Transition state (.act worker) next) : t.total next + t.step ≤ t.total state := by
  cases h with
  | act action actions next further hworker hperforms =>
      rcases overview_finish hworker with ⟨agendas, hagendas, -⟩
      have hperformed := total_performs (t := t) hperforms
        (pending_pos_of_agendas hbalanced hagendas)
      rw [← workers_of_performs hperforms] at hworker
      have hfinish := total_finish (t := t) hworker (further ++ actions)
      rw [parents_of_performs hperforms, Tariff.agenda_append] at hfinish
      simp only [Tariff.phase, Tariff.agenda_cons] at hfinish
      omega

/-!
## Submissions and continuations
-/

theorem total_offer (h : Transition state .offer next) :
    t.total next + t.step ≤ t.total state := by
  cases h with
  | offer job submissions hoffered hsubmissions =>
      simp only [Tariff.total, activity, hoffered, hsubmissions, List.map_cons, List.sum_cons,
        Option.elim_none, Option.elim_some, Tariff.submission, Tariff.waiting]
      omega

theorem total_submit (h : Transition state .submit next) :
    t.total next + t.step ≤ t.total state := by
  cases h with
  | submit item hoffered hroom =>
      simp only [Tariff.total, activity, hoffered, List.map_append, List.map_cons, List.map_nil,
        List.sum_append, List.sum_cons, List.sum_nil, Option.elim_none, Option.elim_some,
        Tariff.waiting]
      omega

theorem total_stopReading (h : Transition state .stopReading next) :
    t.total next + t.step ≤ t.total state := by
  cases h with
  | stopReading hcancelled hoffered hsubmissions =>
      rcases List.exists_cons_of_ne_nil hsubmissions with ⟨submission, submissions, hall⟩
      have hfirst : t.step ≤ t.submission submission := by
        cases submission <;> simp only [Tariff.submission] <;> omega
      simp only [Tariff.total, activity, hall, List.map_cons, List.sum_cons, List.map_nil,
        List.sum_nil]
      omega

theorem total_proceed {index : Nat} (h : Transition state (.proceed index) next) :
    t.total next + t.step ≤ t.total state := by
  cases h with
  | proceed item hitem hroom =>
      have herase := sum_map_eraseIdx_add hitem t.waiting
      simp only [Tariff.waiting] at herase
      simp only [Tariff.total, activity, List.map_append, List.map_cons, List.map_nil,
        List.sum_append, List.sum_cons, List.sum_nil]
      omega

/-!
## Batches
-/

/-- A batch that goes on by itself. -/
theorem total_goOn (state : State) {batch : Nat} {found : Batch} {f : Batch → Batch}
    (h : state.batches[batch]? = some found) (hparent : (f found).parent = found.parent)
    (hprice : t.batch state.activity.parents (f found) + t.step ≤
      t.batch state.activity.parents found) :
    t.total (state.updateBatch batch f) + t.step ≤ t.total state := by
  have hupdate := total_updateBatch (t := t) _ h hparent
  omega

theorem total_send {batch : Nat} (h : Transition state (.send batch) next) :
    t.total next + t.step ≤ t.total state := by
  cases h with
  | send found item items fault checksEnd hbatch hlisting hroom =>
      refine total_goOn _ hbatch rfl ?_
      simp only [Tariff.batch, hlisting, Tariff.outlook, List.map_append, List.map_cons,
        List.map_nil, List.sum_append, List.sum_cons, List.sum_nil]
      omega
  | sendEnd found fault checksEnd hbatch hlisting =>
      refine total_goOn _ hbatch rfl ?_
      simp only [Tariff.batch, hlisting, Tariff.outlook, List.map_nil, List.sum_nil]
      omega

theorem total_abandon {batch : Nat} (h : Transition state (.abandon batch) next) :
    t.total next + t.step ≤ t.total state := by
  cases h with
  | abandon found items fault checksEnd hbatch hlisting hcancelled =>
      refine total_goOn _ hbatch rfl ?_
      simp only [Tariff.batch, hlisting, Tariff.outlook]
      omega

/-- A batch waits for something until the task behind its listing has left. -/
theorem pending_pos_of_feeding (h : state.overview.Balanced) {batch : Nat} {found : Batch}
    (hfound : state.batches[batch]? = some found) (hjoined : found.feeding.joined = false) :
    0 < found.group.pending := by
  have haccount := account_of_batch hfound
  exact h.pending_pos haccount hjoined

theorem total_receive (hbalanced : state.overview.Balanced) {batch : Nat}
    (h : Transition state (.receive batch) next) : t.total next + t.step ≤ t.total state := by
  cases h with
  | receive found task channel hbatch hfeeding hchannel =>
      have hpending := pending_pos_of_feeding hbalanced hbatch (by rw [hfeeding]; rfl)
      have hadded : found.group.addSubJob.pending ≠ 0 := Nat.succ_ne_zero _
      refine total_goOn { state with outstanding := state.outstanding + 1 } hbatch rfl ?_
      simp only [Tariff.batch, hfeeding, hchannel, Tariff.feeding, Tariff.waiting_subJob,
        List.map_cons, List.sum_cons, Tariff.item, if_neg hpending.ne', if_neg hadded]
      omega
  | receiveFault found error channel hbatch hfeeding hchannel =>
      have hpending : found.group.entryFailed.pending = found.group.pending := rfl
      refine total_goOn _ hbatch rfl ?_
      simp only [Tariff.batch, hfeeding, hchannel, Tariff.feeding, List.map_cons, List.sum_cons,
        Tariff.item, Tariff.agenda_cons, Tariff.agenda_nil, Tariff.action, hpending]
      omega

theorem total_enqueue {batch : Nat} (h : Transition state (.enqueue batch) next) :
    t.total next + t.step ≤ t.total state := by
  cases h with
  | enqueue found item hbatch hfeeding hroom =>
      have hqueue : t.total { state with queue := state.queue ++ [item] } =
          t.total state + t.job item.job := by
        simp only [Tariff.total, activity, List.map_append, List.map_cons, List.map_nil,
          List.sum_append, List.sum_cons, List.sum_nil]
        omega
      have hupdate := total_updateBatch (t := t)
        { state with queue := state.queue ++ [item] }
        (f := fun found : Batch => { found with feeding := .receiving }) hbatch rfl
      simp only [Tariff.batch, hfeeding, Tariff.feeding, Tariff.waiting] at hupdate
      omega

theorem total_join (hbalanced : state.overview.Balanced) {batch : Nat}
    (h : Transition state (.join batch) next) : t.total next + t.step ≤ t.total state := by
  cases h with
  | join found fault hbatch hfeeding hchannel hlisting =>
      have hpending := pending_pos_of_feeding hbalanced hbatch (by rw [hfeeding]; rfl)
      have htold := agenda_told (t := t) hbatch
        (Overview.pending_listingDone found.group fault hpending).2
      refine total_goOn _ hbatch rfl ?_
      simp only [Tariff.batch, hfeeding, Tariff.feeding, if_neg hpending.ne']
      omega

/-- A feeder does its next action. -/
theorem total_feeder {batch : Nat} {found : Batch} {action : Action} {further : List Action}
    {feeding : Feeding} (hperforms : Performs state action next further)
    (hbatch : state.batches[batch]? = some found)
    (htold : ∀ batch status found, action = .tally batch status →
      state.batches[batch]? = some found → 0 < found.group.pending)
    (hprice : t.feeding state.activity.parents feeding +
        t.action state.activity.parents action ≤
      t.feeding state.activity.parents found.feeding +
        t.agenda state.activity.parents further) :
    t.total (next.updateBatch batch fun found => { found with feeding := feeding }) + t.step ≤
      t.total state := by
  have hperformed := total_performs (t := t) hperforms htold
  rcases feeding_eq_of_performs hperforms hbatch with ⟨found', hbatch', hfeeding⟩
  have hupdate := total_updateBatch (t := t) _
    (f := fun found : Batch => { found with feeding := feeding }) hbatch' rfl
  rw [parents_of_performs hperforms] at hupdate
  simp only [Tariff.batch, hfeeding] at hupdate
  omega

theorem total_feed (hbalanced : state.overview.Balanced) {batch : Nat}
    (h : Transition state (.feed batch) next) : t.total next + t.step ≤ t.total state := by
  cases h with
  | feedActing found action actions next further hbatch hfeeding hperforms =>
      refine total_feeder hperforms hbatch ?_ ?_
      · -- behind a failed entry there is only its report
        have haccount := account_of_batch hbatch
        intro batch' status found' haction
        rcases hbalanced.telling batch _ haccount with hnone | ⟨item, result, position, hone, -⟩
        · simp [Batch.account, hfeeding, Feeding.notice] at hnone
        · simp [Batch.account, hfeeding, Feeding.notice, haction] at hone
      · rw [hfeeding]
        split
        · rename_i hempty
          rw [List.isEmpty_iff, List.append_eq_nil_iff] at hempty
          simp only [Tariff.feeding, hempty.1, hempty.2, Tariff.agenda_cons, Tariff.agenda_nil]
          omega
        · simp only [Tariff.feeding, Tariff.agenda_cons, Tariff.agenda_append]
          omega
  | feedLeaving found action actions next further hbatch hfeeding hperforms =>
      rcases overview_leave hbatch hfeeding with ⟨agendas, hagendas, -⟩
      refine total_feeder hperforms hbatch (pending_pos_of_agendas hbalanced hagendas) ?_
      simp only [hfeeding, Tariff.feeding, Tariff.agenda_cons, Tariff.agenda_append]
      omega

/-!
## Batches that are started
-/

/-- Only batches that are there are about to be closed. -/
theorem close_lt (h : state.overview.Balanced) {batch : Nat} {actions : List Action}
    (hmem : .close batch ∈ actions)
    (hactions : actions ∈ state.overview.agendas ∨
      ∃ account ∈ state.overview.accounts, actions = account.notice) :
    batch < state.activity.parents.length := by
  have hlength : state.overview.accounts.length = state.activity.parents.length := by
    rw [overview, activity, List.length_map, List.length_map]
  rw [← hlength]
  rcases h.closing batch with hnone | ⟨-, -, hlt⟩
  · rw [Overview.left_eq_zero_iff] at hnone
    have hfalse : Action.isCloseOf batch (.close batch) = false := by
      rcases hactions with hagenda | ⟨account, haccount, rfl⟩
      · exact hnone.1 actions hagenda _ hmem
      · exact hnone.2 account haccount _ hmem
    simp [Action.isCloseOf] at hfalse
  · exact hlt

theorem agenda_concat {parents : List Queued} {actions : List Action}
    (h : ∀ batch, .close batch ∈ actions → batch < parents.length) (item : Queued) :
    t.agenda (parents ++ [item]) actions = t.agenda parents actions := by
  refine congrArg List.sum (List.map_congr_left fun action haction => ?_)
  cases action with
  | close batch =>
      rw [Tariff.action, Tariff.action, List.getElem?_append_left (h batch haction)]
  | report | settle | tally | release => rfl

theorem phase_concat (h : state.overview.Balanced) {phase : Phase} (hphase : phase ∈ state.workers)
    (item : Queued) :
    t.phase (state.activity.parents ++ [item]) phase = t.phase state.activity.parents phase := by
  cases phase with
  | finishing actions =>
      refine agenda_concat (fun batch hmem => close_lt h hmem (Or.inl ?_)) item
      refine Multiset.mem_add.mpr (Or.inl (Multiset.mem_bind.mpr ⟨_, hphase, ?_⟩))
      exact Multiset.mem_singleton_self actions
  | _ => rfl

theorem batch_concat (h : state.overview.Balanced) {found : Batch} (hfound : found ∈ state.batches)
    (item : Queued) :
    t.batch (state.activity.parents ++ [item]) found = t.batch state.activity.parents found := by
  have hfeeding : t.feeding (state.activity.parents ++ [item]) found.feeding =
      t.feeding state.activity.parents found.feeding := by
    cases hat : found.feeding with
    | receiving | queueing => rfl
    | acting actions =>
        refine congrArg (t.step + ·) (agenda_concat (fun batch hmem => close_lt h hmem ?_) item)
        exact Or.inr ⟨found.account, List.mem_map_of_mem hfound,
          by rw [Batch.account, hat, Feeding.notice]⟩
    | leaving actions =>
        refine agenda_concat (fun batch hmem => close_lt h hmem (Or.inl ?_)) item
        refine Multiset.mem_add.mpr (Or.inr (Multiset.mem_bind.mpr ⟨found, hfound, ?_⟩))
        rw [hat, Feeding.agendas_leaving, mem_agendaOf]
        exact ⟨rfl, List.ne_nil_of_mem hmem⟩
  rw [Tariff.batch, Tariff.batch, hfeeding]

/-- The price of a batch that has just been started. -/
theorem total_launch (h : state.overview.Balanced) (item : Queued) :
    t.total { state with batches := state.batches ++ [{ parent := item }] } =
      t.total state + (t.listing + t.step + t.ending item) := by
  have hparents : ({ state with batches := state.batches ++ [{ parent := item }] } :
      State).activity.parents = state.activity.parents ++ [item] := by
    simp only [activity, List.map_append, List.map_cons, List.map_nil]
  have hworkers := List.map_congr_left fun phase hphase => phase_concat (t := t) h hphase item
  have hbatches := List.map_congr_left fun found hfound => batch_concat (t := t) h hfound item
  simp only [Tariff.total, hparents, hworkers, List.map_append, hbatches, List.map_cons,
    List.map_nil, List.sum_append, List.sum_cons, List.sum_nil]
  simp only [Tariff.batch, Tariff.outlook, Tariff.feeding, List.map_nil, List.sum_nil]
  rw [if_neg Nat.one_ne_zero]
  omega

theorem total_start (hbalanced : state.overview.Balanced) {worker : Nat}
    (h : Transition state (.start worker) next) : t.total next + t.step ≤ t.total state := by
  cases h with
  | abort item hworker habort =>
      refine total_shift { state with stats := _, exitCode := _ } hworker ?_
      simp only [Tariff.phase, Tariff.ending, Tariff.work, Nat.add_mul]
      omega
  | launch item hworker habort hoperation =>
      have hlaunch := total_launch (t := t) hbalanced item
      have hset := total_setWorker (t := t)
        { state with
            stats := state.stats.start item.operation
            batches := state.batches ++ [{ parent := item }] } hworker .idle
      have hstats : t.total { state with
          stats := state.stats.start item.operation
          batches := state.batches ++ [{ parent := item }] } =
            t.total { state with batches := state.batches ++ [{ parent := item }] } := rfl
      simp only [Tariff.phase, Tariff.work, hoperation, if_true, Nat.add_mul] at hset
      simp only [Tariff.ending] at hlaunch
      omega
  | call item hworker habort hoperation =>
      refine total_shift (State.write { state with stats := _ } _) hworker ?_
      simp only [Tariff.phase, Tariff.ending, Tariff.work, Nat.add_mul, Nat.mul_assoc,
        Nat.add_sub_cancel]
      omega

/-!
## Lines and listings
-/

end State

namespace Tariff

variable {t : Tariff}

theorem work_eq_zero (hstep : t.step = 0) (hlisting : t.listing = 0) (operation : Operation) :
    t.work operation = 0 := by
  rw [work, hstep, hlisting, ite_self]
  rfl

mutual

/-- Jobs cost steps and listings only. -/
theorem job_eq_zero (hstep : t.step = 0) (hlisting : t.listing = 0) :
    (job : Job) → t.job job = 0
  | .mk task next fallback => by
      rw [Tariff.job, follower_eq_zero hstep hlisting next,
        follower_eq_zero hstep hlisting fallback, work_eq_zero hstep hlisting, hstep]

theorem follower_eq_zero (hstep : t.step = 0) (hlisting : t.listing = 0) :
    (next : Option Job) → t.follower next = 0
  | none => by rw [follower]
  | some next => by rw [follower, job_eq_zero hstep hlisting next, hstep]

end

/-- Items that are no batches cost steps only. -/
theorem item_eq_zero (hstep : t.step = 0) {item : Except ExpansionError SubTask}
    (hconcrete : ∀ task, item = .ok task → task.operation.isBatch = false) : t.item item = 0 := by
  cases item with
  | error error => rw [Tariff.item, hstep]
  | ok task =>
      rw [Tariff.item, work, hstep, hconcrete task rfl, if_neg Bool.false_ne_true]
      rfl

end Tariff

/-- Whether what a batch stands for, where an event lists one, is no batch itself. -/
def Event.IsConcrete : Event → Prop
  | .list _ expansion => ∀ task, .ok task ∈ expansion.items → task.operation.isBatch = false
  | _ => True

namespace State

variable {state next : State} {t : Tariff}

theorem total_read (hstep : t.step = 0) (hlisting : t.listing = 0)
    {reading : Except ParseError (Option Job)} (h : Transition state (.read reading) next) :
    t.total next + t.line ≤ t.total state := by
  cases h with
  | readJob job line submissions hoffered hsubmissions =>
      have hjob : t.submission (.job job) = 0 := by
        rw [Tariff.submission, Tariff.job_eq_zero hstep hlisting, hstep]
      simp only [Tariff.total, write, activity, hsubmissions, List.map_cons, List.sum_cons, hjob]
      simp only [Tariff.submission]
      omega
  | readBlank line submissions hoffered hsubmissions
  | readFault error line submissions hoffered hsubmissions =>
      simp only [Tariff.total, write, activity, hsubmissions, List.map_cons, List.sum_cons,
        Tariff.submission]
      omega

theorem total_list (hstep : t.step = 0) {batch : Nat} {expansion : Expansion}
    (hconcrete : (Event.list batch expansion).IsConcrete)
    (h : Transition state (.list batch expansion) next) :
    t.total next + t.listing ≤ t.total state := by
  cases h with
  | list found hbatch hlisting =>
      have hupdate := total_updateBatch (t := t) _
        (f := fun found : Batch =>
          { found with listing := .sending expansion.items expansion.fault expansion.checksEnd })
        hbatch rfl
      have hitems : (expansion.items.map fun item => t.step + t.item item).sum = 0 := by
        rw [List.sum_eq_zero_iff_forall_eq_nat, List.forall_mem_map]
        intro item hitem
        rw [Tariff.item_eq_zero hstep fun task htask => hconcrete task (htask ▸ hitem), hstep]
      simp only [Tariff.batch, hlisting, Tariff.outlook, hitems] at hupdate
      show t.total (state.updateBatch batch _) + _ ≤ _
      omega

/-- What no step changes: the settings and the number of workers. -/
structure SameFrame (state next : State) : Prop where
  config : next.config = state.config
  workers : next.workers.length = state.workers.length

theorem sameFrame_of_performs {action : Action} {further : List Action}
    (h : Performs state action next further) : SameFrame state next := by
  cases h <;> exact ⟨rfl, rfl⟩

theorem sameFrame_of_step {event : Event} (h : state.step event = some next) :
    SameFrame state next := by
  cases transition_of_step h with
  | act action actions next further hworker hperforms =>
      have hframe := sameFrame_of_performs hperforms
      exact ⟨hframe.config, List.length_set.trans hframe.workers⟩
  | feedActing found action actions next further hbatch hfeeding hperforms
  | feedLeaving found action actions next further hbatch hfeeding hperforms =>
      have hframe := sameFrame_of_performs hperforms
      exact ⟨hframe.config, hframe.workers⟩
  | take | accept | refuse | abort | launch | call | exit | again | answer | rest | retry
  | giveUpWaiting | giveUpRested => exact ⟨rfl, List.length_set⟩
  | _ => exact ⟨rfl, rfl⟩

/-!
## The backlog
-/

/-- What a pool has still to do: the lines to be read, the batches to be listed and the steps
to be taken, and whether it can still be cancelled. -/
def backlog (state : State) : ℕ ×ₗ ℕ ×ₗ ℕ ×ₗ ℕ :=
  let retries := state.config.retries.toNat
  toLex (Tariff.total ⟨retries, 1, 0, 0⟩ state,
    toLex (Tariff.total ⟨retries, 0, 1, 0⟩ state,
      toLex (Tariff.total ⟨retries, 0, 0, 1⟩ state, if state.cancelled then 0 else 1)))

/-- An event that neither reads nor lists nor cancels. -/
theorem total_of_transition (hbalanced : state.overview.Balanced)
    (hretries : t.retries = state.config.retries.toNat) {event : Event}
    (hcancel : event ≠ .cancel) (hread : ∀ reading, event ≠ .read reading)
    (hlist : ∀ batch expansion, event ≠ .list batch expansion)
    (h : Transition state event next) : t.total next + t.step ≤ t.total state := by
  cases event with
  | cancel => exact absurd rfl hcancel
  | read reading => exact absurd rfl (hread reading)
  | offer => exact total_offer h
  | submit => exact total_submit h
  | stopReading => exact total_stopReading h
  | take worker => exact total_take h
  | accept worker => exact total_accept h
  | start worker => exact total_start hbalanced h
  | exit worker => exact total_exit h
  | answer worker answer => exact total_answer hretries h
  | rest worker => exact total_rest h
  | retry worker => exact total_retry h
  | giveUp worker => exact total_giveUp h
  | act worker => exact total_act hbalanced h
  | proceed index => exact total_proceed h
  | list batch expansion => exact absurd rfl (hlist batch expansion)
  | send batch => exact total_send h
  | abandon batch => exact total_abandon h
  | receive batch => exact total_receive hbalanced h
  | enqueue batch => exact total_enqueue h
  | join batch => exact total_join hbalanced h
  | feed batch => exact total_feed hbalanced h

theorem toLex_lt_of_le {α β : Type} [PartialOrder α] [Preorder β] {a a' : α} {b b' : β}
    (ha : a ≤ a') (hb : b < b') : toLex (a, b) < toLex (a', b') := by
  rcases ha.eq_or_lt with rfl | hlt
  · exact Prod.Lex.toLex_lt_toLex.mpr (Or.inr ⟨rfl, hb⟩)
  · exact Prod.Lex.toLex_lt_toLex.mpr (Or.inl hlt)

theorem toLex_lt_of_lt {α β : Type} [PartialOrder α] [Preorder β] {a a' : α} {b b' : β}
    (ha : a < a') : toLex (a, b) < toLex (a', b') :=
  Prod.Lex.toLex_lt_toLex.mpr (Or.inl ha)

/-- Every event lowers the backlog, but for the cancellation of a run that is cancelled. -/
theorem backlog_lt (hbalanced : state.overview.Balanced) {event : Event}
    (hconcrete : event.IsConcrete) (h : state.step event = some next) :
    next.backlog < state.backlog ∨ event = .cancel ∧ next = state := by
  have hconfig := (sameFrame_of_step h).config
  by_cases hcancel : event = .cancel
  · subst hcancel
    cases h
    cases hcancelled : state.cancelled with
    | true =>
        right
        rw [← hcancelled]
        exact ⟨rfl, rfl⟩
    | false =>
        left
        refine toLex_lt_of_le (Nat.le_refl _) (toLex_lt_of_le (Nat.le_refl _)
          (toLex_lt_of_le (Nat.le_refl _) ?_))
        rw [hcancelled]
        exact Nat.one_pos
  left
  have h := transition_of_step h
  rw [backlog, backlog, hconfig]
  by_cases hread : ∃ reading, event = .read reading
  · rcases hread with ⟨reading, rfl⟩
    exact toLex_lt_of_lt (total_read (t := ⟨_, 1, 0, 0⟩) rfl rfl h)
  by_cases hlist : ∃ batch expansion, event = .list batch expansion
  · rcases hlist with ⟨batch, expansion, rfl⟩
    exact toLex_lt_of_le (total_list (t := ⟨_, 1, 0, 0⟩) rfl hconcrete h)
      (toLex_lt_of_lt (total_list (t := ⟨_, 0, 1, 0⟩) rfl hconcrete h))
  · have hlower : ∀ t : Tariff, t.retries = state.config.retries.toNat →
        t.total next + t.step ≤ t.total state := fun t hretries =>
      total_of_transition hbalanced hretries hcancel (fun reading heq => hread ⟨reading, heq⟩)
        (fun batch expansion heq => hlist ⟨batch, expansion, heq⟩) h
    exact toLex_lt_of_le (hlower ⟨_, 1, 0, 0⟩ rfl) (toLex_lt_of_le (hlower ⟨_, 0, 1, 0⟩ rfl)
      (toLex_lt_of_lt (hlower ⟨_, 0, 0, 1⟩ rfl)))

end State
end Pool
end BulkTransfer
