import BulkTransfer.Proofs.Pool.Move
import BulkTransfer.Proofs.Pool.Transition

/-!
# Every step is a move

Each transition is looked at once.  What it does to the overview is one of the moves, with
the mark that the chronicle has for its event.
-/

namespace BulkTransfer
namespace Pool

open Overview

/-- Whether an event keeps to this: an answer that says that it was cancelled comes when
the run is cancelled. -/
def Event.IsTrusted (state : State) : Event → Prop
  | .answer _ (.error .cancelled) => state.cancelled = true
  | _ => True

/-- Whether all events of a run keep to this. -/
def State.Trusts (state : State) : List Event → Prop
  | [] => True
  | event :: events =>
      event.IsTrusted state ∧ ∀ next, state.step event = some next → next.Trusts events

theorem State.trusts_concat {state : State} {events : List Event} {event : Event}
    (h : state.Trusts (events ++ [event])) :
    state.Trusts events ∧ ∀ last, state.run events = some last → event.IsTrusted last := by
  induction events generalizing state with
  | nil =>
      constructor
      · trivial
      · intro last hlast
        cases hlast
        exact h.1
  | cons first events ih =>
      rw [List.cons_append, Trusts] at h
      constructor
      · exact ⟨h.1, fun next hnext => (ih (h.2 next hnext)).1⟩
      · intro last hlast
        rw [run_cons] at hlast
        cases hfirst : state.step first with
        | none =>
            rw [hfirst] at hlast
            cases hlast
        | some next =>
            rw [hfirst] at hlast
            exact (ih (h.2 next hfirst)).2 last hlast

/-- Whether an answer says that it was cancelled. -/
def Event.isCancelledAnswer : Event → Bool
  | .answer _ (.error .cancelled) => true
  | _ => false

/-- Events without such answers can be trusted anywhere. -/
theorem State.trusts_of_all {state : State} {events : List Event}
    (h : ∀ event ∈ events, event.isCancelledAnswer = false) : state.Trusts events := by
  induction events generalizing state with
  | nil => trivial
  | cons event events ih =>
      constructor
      · have hevent := h event List.mem_cons_self
        unfold Event.IsTrusted
        split
        · cases hevent
        · trivial
      · intro next _
        exact ih fun event hmem => h event (List.mem_cons_of_mem _ hmem)

/-!
## Results are those of their jobs
-/

theorem ticketOf_cancelledResult (item : Queued) (attempts : Nat) :
    ticketOf item.id item.role (cancelledResult item attempts) = item.ticket := rfl

theorem ticketOf_exitResult (item : Queued) :
    ticketOf item.id item.role (exitResult item) = item.ticket := rfl

theorem ticketOf_answeredResult (item : Queued) (attempts : Nat)
    (answer : Except JobError Outcome) :
    ticketOf item.id item.role (answeredResult item attempts answer) = item.ticket := by
  cases answer with
  | ok outcome => rfl
  | error error => cases error <;> rfl

theorem eq_cancelled_of_answeredResult {item : Queued} {attempts : Nat}
    {answer : Except JobError Outcome}
    (h : (answeredResult item attempts answer).status = .cancelled) :
    answer = .error .cancelled := by
  cases answer with
  | ok outcome =>
      simp only [answeredResult, JobResult.ofTask] at h
      split at h <;> cases h
  | error error =>
      cases error <;> first | rfl | cases h

namespace State

variable {trusted : Prop} {state next : State}

/-!
## Workers
-/

/-- A worker that stays at its job changes nothing. -/
theorem overview_setWorker {worker : Nat} {phase : Phase} (phase' : Phase)
    (h : state.workers[worker]? = some phase) (hheld : phase'.held = phase.held)
    (hagendas : phase'.agendas = phase.agendas) :
    (state.setWorker worker phase').overview = state.overview := by
  apply Overview.ext <;> simp [overview, setWorker, bind_set h hheld, bind_set h hagendas, log]

/-- A worker that calls the executor stays at its job. -/
theorem move_call {worker : Nat} {phase : Phase} {item : Queued} {attempt : Nat}
    {stats : Statistics} (h : state.workers[worker]? = some phase) (hheld : phase.held = {item})
    (hagendas : phase.agendas = 0) (hstats : stats.parseFailures = state.stats.parseFailures) :
    Move trusted state.overview .nothing
      ((({ state with stats := stats }).write (.called item)).setWorker worker
        (.attempting item attempt)).overview := by
  refine (Move.note [.called item] state.overview.rejections state.overview.submissions
    (by simp [Entry.ticket?]) (by simp) (fun job hjob => Or.inl hjob)).congr ?_
  have hheld' := bind_set h (g := Phase.held) (y := .attempting item attempt) (by
    rw [hheld]
    rfl)
  have hagendas' := bind_set h (g := Phase.agendas) (y := .attempting item attempt) (by
    rw [hagendas]
    rfl)
  apply Overview.ext <;> simp [overview, setWorker, write, log, hstats, hheld', hagendas']

/-- A worker that is done with its job turns to what is left to do behind it. -/
theorem move_finish {worker : Nat} {phase : Phase} {item : Queued} {result : JobResult}
    {cancelled : Bool} {stats : Statistics} (h : state.workers[worker]? = some phase)
    (hheld : phase.held = {item}) (hagendas : phase.agendas = 0)
    (hstats : stats.parseFailures = state.stats.parseFailures)
    (hresult : ticketOf item.id item.role result = item.ticket)
    (hcancelled : state.cancelled = true → cancelled = true)
    (htrusted : trusted → result.status = .cancelled → cancelled = true) :
    Move trusted state.overview .nothing
      (({ state with cancelled := cancelled, stats := stats }).finish worker
        (finishing item result)).overview := by
  have hnonempty : (finishing item result).isEmpty = false := by
    unfold finishing
    split <;> rfl
  rcases exists_bind_set h Phase.held with ⟨held, hbefore, hbehind⟩
  rcases exists_bind_set h Phase.agendas with ⟨agendas, hbefore', hbehind'⟩
  rw [hheld] at hbefore
  rw [hagendas, zero_add] at hbefore'
  refine (Move.finish item held result cancelled hbefore hresult hcancelled htrusted).congr ?_
  apply Overview.ext <;>
    simp [finish, hnonempty, setWorker, overview, hbehind, hbefore', hbehind', Phase.held,
      Phase.agendas, hstats, log]

theorem move_take {worker : Nat} (h : Transition state (.take worker) next) :
    Move trusted state.overview (state.mark (.take worker)) next.overview := by
  cases h with
  | take item queue hworker hqueue =>
      rcases exists_bind_set hworker Phase.held with ⟨held, hbefore, hbehind⟩
      have hwaiting : state.overview.waiting =
          item ::ₘ ({ state with queue := queue }).overview.waiting := by
        simp only [overview, hqueue, ← Multiset.cons_coe, ← Multiset.singleton_add]
        ac_rfl
      have hagendas := bind_set hworker (g := Phase.agendas) (y := .holding item) rfl
      have hmark : state.mark (.take worker) = .taken item := by
        simp [mark, hqueue]
      rw [hmark]
      refine (Move.take item _ hwaiting).congr ?_
      apply Overview.ext <;>
        simp [setWorker, overview, hbefore, hbehind, hagendas, Phase.held, log]

theorem move_accept {worker : Nat} (h : Transition state (.accept worker) next) :
    Move trusted state.overview .nothing next.overview := by
  cases h with
  | accept item hworker hcancelled => exact .same (overview_setWorker _ hworker rfl rfl)
  | refuse item hworker hcancelled =>
      exact move_finish hworker rfl rfl rfl (ticketOf_cancelledResult item 0) (fun h => h)
        (fun _ _ => hcancelled)

theorem move_start {worker : Nat} (h : Transition state (.start worker) next) :
    Move trusted state.overview .nothing next.overview := by
  cases h with
  | abort item hworker habort => exact .same (overview_setWorker (.exiting item) hworker rfl rfl)
  | launch item hworker habort hoperation =>
      rcases exists_bind_set hworker Phase.held with ⟨held, hbefore, hbehind⟩
      have hagendas := bind_set hworker (g := Phase.agendas) (y := .idle) rfl
      refine (Move.launch item held hbefore).congr ?_
      apply Overview.ext <;>
        simp [setWorker, overview, hbehind, hagendas, Phase.held, log, ← Multiset.coe_add,
          Multiset.add_bind, Feeding.waiting, Feeding.agendas, Batch.account, Feeding.notice,
          Feeding.joined, Statistics.start, Statistics.update]
  | call item hworker habort hoperation => exact move_call hworker rfl rfl rfl

theorem move_exit {worker : Nat} (h : Transition state (.exit worker) next) :
    Move trusted state.overview .nothing next.overview := by
  cases h with
  | exit item hworker =>
      exact move_finish hworker rfl rfl rfl (ticketOf_exitResult item) (fun _ => rfl)
        (fun _ _ => rfl)

theorem move_answer {worker : Nat} {answer : Except JobError Outcome}
    (htrusted : trusted → Event.IsTrusted state (.answer worker answer))
    (h : Transition state (.answer worker answer) next) :
    Move trusted state.overview .nothing next.overview := by
  cases h with
  | again item attempt hworker hagain =>
      exact .same (overview_setWorker (.waiting item attempt) hworker rfl rfl)
  | answer item attempt hworker hagain =>
      refine move_finish hworker rfl rfl ?_ (ticketOf_answeredResult item attempt answer)
        (fun h => h) ?_
      · unfold countEnd
        split <;> rfl
      · intro htrust hstatus
        have hanswer := eq_cancelled_of_answeredResult hstatus
        subst hanswer
        exact htrusted htrust

theorem move_rest {worker : Nat} (h : Transition state (.rest worker) next) :
    Move trusted state.overview .nothing next.overview := by
  cases h with
  | rest item attempt hworker hcancelled => exact .same (overview_setWorker _ hworker rfl rfl)

theorem move_retry {worker : Nat} (h : Transition state (.retry worker) next) :
    Move trusted state.overview .nothing next.overview := by
  cases h with
  | retry item attempt hworker => exact move_call hworker rfl rfl rfl

theorem move_giveUp {worker : Nat} (h : Transition state (.giveUp worker) next) :
    Move trusted state.overview .nothing next.overview := by
  cases h with
  | giveUpWaiting item attempt hworker hcancelled | giveUpRested item attempt hworker hcancelled =>
      exact move_finish hworker rfl rfl rfl (ticketOf_cancelledResult item attempt) (fun h => h)
        (fun _ _ => hcancelled)

/-!
## Submitting
-/

/-- A line is read, which may put a job in its place. -/
theorem move_reading (entries : List Entry) (later : List Submission) {line : String}
    {submissions : List Submission} {rejections : UInt64}
    (hsubmissions : state.submissions = .line line :: submissions)
    (hentries : ∀ entry ∈ entries, entry.ticket? = none)
    (hrejections : rejections = state.stats.parseFailures +
      UInt64.ofNat (entries.countP fun entry => entry matches .read _ (.error _)))
    (hlater : ∀ job, .job job ∈ later →
      .job job ∈ submissions ∨ ∃ line, .read line (.ok (some job)) ∈ entries) :
    Move trusted state.overview .nothing
      { state.overview with
        log := state.overview.log ++ entries, rejections := rejections, submissions := later } := by
  refine Move.note entries rejections later hentries hrejections fun job hjob => ?_
  refine (hlater job hjob).imp_left fun hmem => ?_
  change .job job ∈ state.submissions
  rw [hsubmissions]
  exact List.mem_cons_of_mem _ hmem

theorem move_read {reading : Except ParseError (Option Job)}
    (h : Transition state (.read reading) next) :
    Move trusted state.overview .nothing next.overview := by
  cases h with
  | readJob job line submissions hoffered hsubmissions =>
      refine (move_reading [.read line (.ok (some job))] (.job job :: submissions) hsubmissions
        (by simp [Entry.ticket?]) rfl ?_).congr ?_
      · intro job' hjob'
        rcases List.mem_cons.mp hjob' with hnew | hmem
        · cases hnew
          exact Or.inr ⟨line, List.mem_singleton_self _⟩
        · exact Or.inl hmem
      · apply Overview.ext <;> simp [overview, write, log]
  | readBlank line submissions hoffered hsubmissions =>
      refine (move_reading [.read line (.ok none)] submissions hsubmissions
        (by simp [Entry.ticket?]) rfl fun job hjob => Or.inl hjob).congr ?_
      apply Overview.ext <;> simp [overview, write, log]
  | readFault error line submissions hoffered hsubmissions =>
      refine (move_reading [.read line (.error error)] submissions hsubmissions
        (by simp [Entry.ticket?]) rfl fun job hjob => Or.inl hjob).congr ?_
      apply Overview.ext <;> simp [overview, write, log, Statistics.parseFailure]

theorem move_offer (h : Transition state .offer next) :
    Move trusted state.overview (state.mark .offer) next.overview := by
  cases h with
  | offer job submissions hoffered hsubmissions =>
      have hmark : state.mark .offer =
          .entered { job := job, id := { submission := state.submitted } } := by
        simp [mark, hsubmissions]
      rw [hmark]
      refine (Move.offer job _ submissions rfl hsubmissions).congr ?_
      apply Overview.ext <;> simp [overview, hoffered, log, ← Multiset.singleton_add, add_assoc]

theorem move_submit (h : Transition state .submit next) :
    Move trusted state.overview .nothing next.overview := by
  cases h with
  | submit item hoffered hroom =>
      apply Move.same
      apply Overview.ext
      case waiting =>
        simp only [overview, hoffered, Option.toList_some, Option.toList_none, Multiset.coe_nil,
          zero_add, ← Multiset.coe_add]
        ac_rfl
      all_goals rfl

theorem move_stopReading (h : Transition state .stopReading next) :
    Move trusted state.overview .nothing next.overview := by
  cases h with
  | stopReading hcancelled hoffered hsubmissions =>
      refine (Move.note [] state.overview.rejections [] (by simp) (by simp)
        (fun job hjob => absurd hjob List.not_mem_nil)).congr ?_
      apply Overview.ext <;> simp [overview, log]

theorem move_proceed {index : Nat} (h : Transition state (.proceed index) next) :
    Move trusted state.overview .nothing next.overview := by
  cases h with
  | proceed item hitem hroom =>
      apply Move.same
      apply Overview.ext
      case waiting =>
        simp only [overview, coe_eq_cons_eraseIdx hitem, ← Multiset.coe_add,
          ← Multiset.singleton_add, Multiset.coe_singleton]
        ac_rfl
      all_goals rfl

/-!
## Actions
-/

theorem overview_write (entry : Entry) :
    (state.write entry).overview =
      { state.overview with log := state.overview.log ++ [entry] } := by
  apply Overview.ext
  case log => exact log_write state entry
  all_goals rfl

theorem accounts_getElem? (batch : Nat) :
    state.overview.accounts[batch]? = state.batches[batch]?.map Batch.account :=
  List.getElem?_map

theorem account_of_batch {batch : Nat} {found : Batch} (h : state.batches[batch]? = some found) :
    state.overview.accounts[batch]? = some found.account := by
  rw [accounts_getElem?, h]
  rfl

/-- A change to a batch whose feeder is at no job and no agenda before or behind it. -/
theorem overview_updateBatch {batch : Nat} {found : Batch} {f : Batch → Batch}
    (h : state.batches[batch]? = some found)
    (hwaiting : (f found).feeding.waiting = found.feeding.waiting)
    (hagendas : (f found).feeding.agendas = found.feeding.agendas) :
    (state.updateBatch batch f).overview =
      { state.overview with
        accounts := state.overview.accounts.set batch (f found).account } := by
  have hwaiting' := bind_set h (g := fun found => found.feeding.waiting) hwaiting
  have hagendas' := bind_set h (g := fun found => found.feeding.agendas) hagendas
  apply Overview.ext <;>
    simp [overview, updateBatch, modify_eq_set_of_getElem? h, hwaiting', hagendas', log,
      List.map_set]

theorem effect_of_performs {action : Action} {further : List Action}
    (h : Performs state action next further) :
    Effect state.overview action next.overview further (state.markOf action) := by
  cases h with
  | report item result =>
      have hreport : (state.report item result).overview =
          { state.overview with
            log := state.overview.log ++ [.reported item.id item.role result] } := by
        apply Overview.ext <;> simp [overview, State.report, write, log]
      rw [hreport]
      exact .report item result
  | settle item status =>
      rw [markOf_settle]
      refine (Effect.settle item status _ rfl).congr ?_
      apply Overview.ext
      case waiting =>
        simp only [overview, ← Multiset.coe_add]
        ac_rfl
      all_goals rfl
  | tally batch status found hbatch =>
      rw [overview_updateBatch hbatch rfl rfl]
      exact .tally batch status found.account (account_of_batch hbatch)
  | close batch found hbatch =>
      refine (Effect.close batch found.account (account_of_batch hbatch)).congr ?_
      apply Overview.ext
      case rejections =>
        change (countEnd _ _ _).parseFailures = _
        unfold countEnd
        split <;> rfl
      case log => exact log_write _ _
      all_goals rfl
  | release => exact .release
  | stray _ batch hbatch haction =>
      have hmark : state.markOf action = .nothing := by
        rcases haction with rfl | ⟨status, rfl⟩ <;> rfl
      rw [hmark]
      exact .stray _ batch (by rw [accounts_getElem?, hbatch]; rfl) haction

theorem workers_of_performs {action : Action} {further : List Action}
    (h : Performs state action next further) : next.workers = state.workers := by
  cases h <;> rfl

/-- An action leaves the feeder of every batch where it is. -/
theorem feeding_of_performs {action : Action} {further : List Action}
    (h : Performs state action next further) (batch : Nat) :
    next.batches[batch]?.map Batch.feeding = state.batches[batch]?.map Batch.feeding := by
  cases h with
  | tally batch' status found hbatch =>
      simp only [updateBatch, List.getElem?_modify]
      split
      · rename_i heq
        subst heq
        simp [hbatch]
      · simp
  | _ => rfl

theorem feeding_eq_of_performs {action : Action} {further : List Action} {batch : Nat}
    {found : Batch} (h : Performs state action next further)
    (hbatch : state.batches[batch]? = some found) :
    ∃ found', next.batches[batch]? = some found' ∧ found'.feeding = found.feeding := by
  have hfeeding := feeding_of_performs h batch
  rw [hbatch, Option.map_some, Option.map_eq_some_iff] at hfeeding
  exact hfeeding

/-- The agenda of a worker, and what there is besides. -/
theorem overview_finish {worker : Nat} {actions : List Action}
    (h : state.workers[worker]? = some (.finishing actions)) :
    ∃ agendas, state.overview.agendas = actions ::ₘ agendas ∧
      ∀ left, (state.finish worker left).overview =
        { state.overview with agendas := agendaOf left + agendas } := by
  rcases exists_bind_set h Phase.agendas with ⟨rest, hbefore, hbehind⟩
  exists rest + (state.batches : Multiset Batch).bind fun found => found.feeding.agendas
  constructor
  · simp only [overview, hbefore, Phase.agendas, ← Multiset.singleton_add, add_assoc]
  · intro left
    cases left with
    | nil =>
        have hheld := bind_set h (g := Phase.held) (y := .idle) rfl
        apply Overview.ext <;>
          simp [finish, setWorker, overview, hheld, hbehind, Phase.agendas, agendaOf, log]
    | cons action left =>
        have hheld := bind_set h (g := Phase.held) (y := .finishing (action :: left)) rfl
        apply Overview.ext <;>
          simp [finish, setWorker, overview, hheld, hbehind, Phase.agendas, agendaOf, log]

/-- The agenda of a feeder that leaves, and what there is besides. -/
theorem overview_leave {batch : Nat} {found : Batch} {actions : List Action}
    (h : state.batches[batch]? = some found) (hfeeding : found.feeding = .leaving actions) :
    ∃ agendas, state.overview.agendas = agendaOf actions + agendas ∧
      ∀ left, (state.updateBatch batch fun found =>
        { found with feeding := .leaving left }).overview =
          { state.overview with agendas := agendaOf left + agendas } := by
  rcases exists_bind_set h (fun found => found.feeding.agendas) with ⟨rest, hbefore, hbehind⟩
  exists (state.workers : Multiset Phase).bind Phase.agendas + rest
  constructor
  · simp only [overview, hbefore, hfeeding, Feeding.agendas_leaving]
    ac_rfl
  · intro left
    have hwaiting := bind_set h (g := fun found => found.feeding.waiting)
      (y := { found with feeding := .leaving left }) (by rw [hfeeding]; rfl)
    have haccounts : (state.batches.map Batch.account).set batch
        ({ found with feeding := .leaving left } : Batch).account =
          state.batches.map Batch.account := by
      apply set_eq_self_of_getElem?
      simp [h, Batch.account, hfeeding, Feeding.notice, Feeding.joined]
    apply Overview.ext <;>
      simp only [overview, updateBatch, modify_eq_set_of_getElem? h, hwaiting, hbehind, haccounts,
        Feeding.agendas_leaving, log, List.map_set]
    ac_rfl

theorem move_act {worker : Nat} (h : Transition state (.act worker) next) :
    Move trusted state.overview (state.mark (.act worker)) next.overview := by
  cases h with
  | act action actions next further hworker hperforms =>
      have hmark : state.mark (.act worker) = state.markOf action := by
        simp [mark, nextAction?, hworker]
      have heffect := effect_of_performs hperforms
      rw [← workers_of_performs hperforms] at hworker
      rcases overview_finish hworker with ⟨agendas, hbefore, hbehind⟩
      rw [heffect.agendas_eq] at hbefore
      rw [hmark, hbehind]
      exact .perform action actions agendas _ _ _ hbefore heffect

/-!
## Batches
-/

theorem move_list {batch : Nat} {expansion : Expansion}
    (h : Transition state (.list batch expansion) next) :
    Move trusted state.overview .nothing next.overview := by
  cases h with
  | list found hbatch hlisting =>
      refine (Move.list batch found.account
        (.sending expansion.items expansion.fault expansion.checksEnd) found.channel
        [.expanded found.parent] (account_of_batch hbatch) ?_ (by simp)).congr ?_
      · simp [Batch.account, hlisting]
      · rw [overview_write, overview_updateBatch hbatch rfl rfl]
        rfl

/-- A change to the listing or the channel of a batch. -/
theorem move_updateBatch {batch : Nat} {found : Batch} {f : Batch → Batch}
    (h : state.batches[batch]? = some found) (hlisting : ∀ fault, found.listing ≠ .ended fault)
    (hf : f found =
      { found with listing := (f found).listing, channel := (f found).channel }) :
    Move trusted state.overview .nothing (state.updateBatch batch f).overview := by
  refine (Move.list batch found.account (f found).listing (f found).channel []
    (account_of_batch h) hlisting (by simp)).congr ?_
  rw [overview_updateBatch h (by rw [hf]) (by rw [hf]), hf]
  simp [Batch.account]

theorem move_send {batch : Nat} (h : Transition state (.send batch) next) :
    Move trusted state.overview .nothing next.overview := by
  cases h with
  | send found item items fault checksEnd hbatch hlisting hroom =>
      exact move_updateBatch hbatch (by simp [hlisting]) rfl
  | sendEnd found fault checksEnd hbatch hlisting =>
      exact move_updateBatch hbatch (by simp [hlisting]) rfl

theorem move_abandon {batch : Nat} (h : Transition state (.abandon batch) next) :
    Move trusted state.overview .nothing next.overview := by
  cases h with
  | abandon found items fault checksEnd hbatch hlisting hcancelled =>
      exact move_updateBatch hbatch (by simp [hlisting]) rfl

theorem move_receive {batch : Nat} (h : Transition state (.receive batch) next) :
    Move trusted state.overview (state.mark (.receive batch)) next.overview := by
  cases h with
  | receive found task channel hbatch hfeeding hchannel =>
      have hmark : state.mark (.receive batch) = .entered (subJob batch found task) := by
        simp [mark, hbatch, hchannel]
      rw [hmark]
      refine (Move.receive batch found.account task channel _ (account_of_batch hbatch)
        (by simp [Batch.account, hfeeding, Feeding.joined]) hchannel rfl).congr ?_
      rcases exists_bind_set hbatch (fun found => found.feeding.waiting) with
        ⟨rest, hbefore, hbehind⟩
      have hagendas := bind_set hbatch (g := fun found => found.feeding.agendas)
        (y := { found with
          channel := channel, received := found.received + 1,
          group := found.group.addSubJob, feeding := .queueing (subJob batch found task) })
        (by rw [hfeeding]; rfl)
      apply Overview.ext
      case waiting =>
        simp only [overview, updateBatch, modify_eq_set_of_getElem? hbatch, hbefore, hbehind,
          hfeeding, Feeding.waiting_receiving, Feeding.waiting_queueing, subJob, Batch.account,
          ← Multiset.singleton_add, zero_add]
        ac_rfl
      case agendas =>
        simp only [overview, updateBatch, modify_eq_set_of_getElem? hbatch, hagendas]
      case accounts =>
        simp only [overview, updateBatch, modify_eq_set_of_getElem? hbatch, List.map_set]
        simp [Batch.account, hfeeding, Feeding.notice, Feeding.joined]
      all_goals rfl
  | receiveFault found error channel hbatch hfeeding hchannel =>
      have hmark : state.mark (.receive batch) =
          .entered { found.parent with role := .entry batch found.received } := by
        simp [mark, hbatch, hchannel]
      rw [hmark]
      refine (Move.refuse batch found.account error channel _ (account_of_batch hbatch)
        (by simp [Batch.account, hfeeding, Feeding.joined])
        (by simp [Batch.account, hfeeding, Feeding.notice]) hchannel rfl).congr ?_
      rw [overview_updateBatch hbatch (by rw [hfeeding]; rfl) (by rw [hfeeding]; rfl)]
      simp [Batch.account, hfeeding, Feeding.notice, Feeding.joined]

theorem move_enqueue {batch : Nat} (h : Transition state (.enqueue batch) next) :
    Move trusted state.overview .nothing next.overview := by
  cases h with
  | enqueue found item hbatch hfeeding hroom =>
      apply Move.same
      rcases exists_bind_set hbatch (fun found => found.feeding.waiting) with
        ⟨rest, hbefore, hbehind⟩
      have hagendas := bind_set hbatch (g := fun found => found.feeding.agendas)
        (y := { found with feeding := .receiving }) (by rw [hfeeding]; rfl)
      have haccounts : (state.batches.map Batch.account).set batch
          ({ found with feeding := .receiving } : Batch).account =
            state.batches.map Batch.account := by
        apply set_eq_self_of_getElem?
        simp [hbatch, Batch.account, hfeeding, Feeding.notice, Feeding.joined]
      apply Overview.ext
      case waiting =>
        simp only [overview, updateBatch, modify_eq_set_of_getElem? hbatch, hbefore, hbehind,
          hfeeding, Feeding.waiting_receiving, Feeding.waiting_queueing, ← Multiset.coe_add,
          Multiset.coe_singleton, zero_add]
        ac_rfl
      case agendas =>
        simp only [overview, updateBatch, modify_eq_set_of_getElem? hbatch, hagendas]
      case accounts =>
        simp only [overview, updateBatch, modify_eq_set_of_getElem? hbatch, List.map_set,
          haccounts]
      all_goals rfl

theorem move_join {batch : Nat} (h : Transition state (.join batch) next) :
    Move trusted state.overview .nothing next.overview := by
  cases h with
  | join found fault hbatch hfeeding hchannel hlisting =>
      refine (Move.join batch found.account fault (account_of_batch hbatch)
        (by simp [Batch.account, hfeeding, Feeding.joined])
        (by simp [Batch.account, hfeeding, Feeding.notice]) hchannel hlisting).congr ?_
      rcases exists_bind_set hbatch (fun found => found.feeding.agendas) with
        ⟨rest, hbefore, hbehind⟩
      have hwaiting := bind_set hbatch (g := fun found => found.feeding.waiting)
        (y := { found with
          group := (found.group.listingDone fault).1
          feeding := .leaving
            (if (found.group.listingDone fault).2 then [.close batch] else []) })
        (by rw [hfeeding]; rfl)
      apply Overview.ext
      case waiting =>
        simp only [overview, updateBatch, modify_eq_set_of_getElem? hbatch, hwaiting]
      case agendas =>
        simp only [overview, updateBatch, modify_eq_set_of_getElem? hbatch, hbefore, hbehind,
          hfeeding, Feeding.agendas_receiving, Feeding.agendas_leaving, Batch.account, zero_add]
        ac_rfl
      case accounts =>
        simp only [overview, updateBatch, modify_eq_set_of_getElem? hbatch, List.map_set]
        simp [Batch.account, hfeeding, Feeding.notice, Feeding.joined]
      all_goals rfl

theorem move_feed {batch : Nat} (htells : TellsEntries state.overview)
    (h : Transition state (.feed batch) next) :
    Move trusted state.overview (state.mark (.feed batch)) next.overview := by
  cases h with
  | feedActing found action actions next further hbatch hfeeding hperforms =>
      have haccount := account_of_batch hbatch
      rcases htells batch found.account haccount with hnone | ⟨item, result, position, hnotice, -⟩
      · simp [Batch.account, hfeeding, Feeding.notice] at hnone
      · have hactions : action :: actions = [.report item result] := by
          simpa [Batch.account, hfeeding, Feeding.notice] using hnotice
        cases hactions
        cases hperforms with
        | stray _ batch' hbatch' haction =>
            rcases haction with haction | ⟨status, haction⟩ <;> cases haction
        | report =>
            have hmark : state.mark (.feed batch) = .nothing := by
              simp [mark, nextAction?, hbatch, hfeeding, markOf]
            rw [hmark]
            have hbatch' : (state.report item result).batches[batch]? = some found := hbatch
            refine (Move.tell batch found.account item result haccount hnotice).congr
              ((overview_updateBatch hbatch' (by rw [hfeeding]; rfl)
                (by rw [hfeeding]; rfl)).trans ?_)
            apply Overview.ext
            case log => exact log_write _ _
            case accounts =>
              simp [overview, State.report, write, Batch.account, hfeeding, Feeding.notice,
                Feeding.joined]
            all_goals rfl
  | feedLeaving found action actions next further hbatch hfeeding hperforms =>
      have hmark : state.mark (.feed batch) = state.markOf action := by
        simp [mark, nextAction?, hbatch, hfeeding]
      have heffect := effect_of_performs hperforms
      rcases feeding_eq_of_performs hperforms hbatch with ⟨found', hbatch', hfeeding'⟩
      rcases overview_leave hbatch' (hfeeding'.trans hfeeding) with ⟨agendas, hbefore, hbehind⟩
      rw [heffect.agendas_eq, agendaOf, Multiset.singleton_add] at hbefore
      rw [hmark, hbehind]
      exact .perform action actions agendas _ _ _ hbefore heffect

/-- Every step of a pool is a move. -/
theorem move_of_step {event : Event} (htrusted : trusted → event.IsTrusted state)
    (htells : TellsEntries state.overview) (h : state.step event = some next) :
    Move trusted state.overview (state.mark event) next.overview := by
  have h := transition_of_step h
  cases event with
  | cancel =>
      cases h
      exact .cancel
  | read reading => exact move_read h
  | offer => exact move_offer h
  | submit => exact move_submit h
  | stopReading => exact move_stopReading h
  | take worker => exact move_take h
  | accept worker => exact move_accept h
  | start worker => exact move_start h
  | exit worker => exact move_exit h
  | answer worker answer => exact move_answer htrusted h
  | rest worker => exact move_rest h
  | retry worker => exact move_retry h
  | giveUp worker => exact move_giveUp h
  | act worker => exact move_act h
  | proceed index => exact move_proceed h
  | list batch expansion => exact move_list h
  | send batch => exact move_send h
  | abandon batch => exact move_abandon h
  | receive batch => exact move_receive h
  | enqueue batch => exact move_enqueue h
  | join batch => exact move_join h
  | feed batch => exact move_feed htells h

end State
end Pool
end BulkTransfer
