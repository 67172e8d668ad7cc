import BulkTransfer.Proofs.Pool.Backlog
import BulkTransfer.Proofs.Pool.Starts
import Mathlib.Order.WellFounded

/-!
# Progress

A pool in which work is outstanding goes on by itself.  Parties that are at something can go
on with it, unless they wait for room in the queue.  If the queue is empty, there is room; if
it is not, a worker that is idle can take a job.  And if no party is at anything, the work
that is outstanding would be a batch whose sub-jobs are all done and whose listing has ended,
and such a batch has been closed.

Every step lowers the backlog, so a pool comes to rest on every schedule.
-/

namespace BulkTransfer
namespace Pool

/-- Whether an event is a step of a worker, of a listing, of the task behind a listing or of a
continuation, and not of those who submit or cancel. -/
def Event.isWork : Event → Bool
  | .cancel | .read _ | .offer | .submit | .stopReading => false
  | _ => true

/-- Whether the executor and the listing answer as given, where an event asks them. -/
def Event.Replies (reply : Except JobError Outcome) (expansion : Expansion) : Event → Prop
  | .answer _ given => given = reply
  | .list _ given => given = expansion
  | _ => True

/-- A listing without items lists no batches. -/
theorem Event.isConcrete_of_replies {event : Event} {reply : Except JobError Outcome}
    (h : event.Replies reply {}) : event.IsConcrete := by
  cases event with
  | list batch expansion =>
      cases h
      exact fun task htask => absurd htask List.not_mem_nil
  | _ => trivial

namespace State

variable {state next : State}

/-- Whether the pool can take a step of its own, if it gets these answers. -/
def CanWork (state : State) (reply : Except JobError Outcome) (expansion : Expansion) : Prop :=
  ∃ event : Event, event.isWork = true ∧ event.Replies reply expansion ∧
    (state.step event).isSome = true

/-!
## Parties that are at something
-/

section Parties

variable {reply : Except JobError Outcome} {expansion : Expansion}

theorem canWork_of_transition {event : Event} (h : Transition state event next)
    (hwork : event.isWork = true) (hreplies : event.Replies reply expansion) :
    state.CanWork reply expansion :=
  ⟨event, hwork, hreplies, isSome_of_transition h⟩

theorem canWork_of_worker {worker : Nat} {phase : Phase}
    (h : state.workers[worker]? = some phase) (hidle : phase ≠ .idle)
    (hfinishing : phase ≠ .finishing []) : state.CanWork reply expansion := by
  cases phase with
  | idle => exact absurd rfl hidle
  | holding item =>
      cases hcancelled : state.cancelled with
      | true => exact canWork_of_transition (.refuse item h hcancelled) rfl trivial
      | false => exact canWork_of_transition (.accept item h hcancelled) rfl trivial
  | accepted item =>
      by_cases habort : item.operation = .abort
      · exact canWork_of_transition (.abort item h habort) rfl trivial
      · cases hoperation : item.operation.isBatch with
        | true => exact canWork_of_transition (.launch item h habort hoperation) rfl trivial
        | false => exact canWork_of_transition (.call item h habort hoperation) rfl trivial
  | exiting item => exact canWork_of_transition (.exit item h) rfl trivial
  | attempting item attempt =>
      cases hagain : triesAgain state.config.retries attempt reply with
      | true => exact canWork_of_transition (.again item attempt h hagain) rfl rfl
      | false => exact canWork_of_transition (.answer item attempt h hagain) rfl rfl
  | waiting item attempt =>
      cases hcancelled : state.cancelled with
      | true => exact canWork_of_transition (.giveUpWaiting item attempt h hcancelled) rfl trivial
      | false => exact canWork_of_transition (.rest item attempt h hcancelled) rfl trivial
  | rested item attempt => exact canWork_of_transition (.retry item attempt h) rfl trivial
  | finishing actions =>
      cases actions with
      | nil => exact absurd rfl hfinishing
      | cons action actions =>
          exact canWork_of_transition (.act action actions _ _ h (performs state action))
            rfl trivial

/-- A listing goes on to its end if there is room in its channel. -/
theorem canWork_of_listing {batch : Nat} {found : Batch} (h : state.batches[batch]? = some found)
    (hlisting : ∀ fault, found.listing ≠ .ended fault)
    (hroom : found.channel.length < state.config.queueCapacity) :
    state.CanWork reply expansion := by
  cases hat : found.listing with
  | ready => exact canWork_of_transition (.list found h hat) rfl rfl
  | sending items fault checksEnd =>
      cases items with
      | nil => exact canWork_of_transition (.sendEnd found fault checksEnd h hat) rfl trivial
      | cons item items =>
          exact canWork_of_transition (.send found item items fault checksEnd h hat hroom)
            rfl trivial
  | ended fault => exact absurd hat (hlisting fault)

/-- The task behind a listing goes on until it leaves, if there is room in the queue. -/
theorem canWork_of_feeding {batch : Nat} {found : Batch} (h : state.batches[batch]? = some found)
    (hacting : found.feeding ≠ .acting []) (hleaving : found.feeding ≠ .leaving [])
    (hroom : state.hasRoom = true) (hcapacity : 0 < state.config.queueCapacity) :
    state.CanWork reply expansion := by
  cases hfeeding : found.feeding with
  | receiving =>
      cases hchannel : found.channel with
      | nil =>
          by_cases hended : ∃ fault, found.listing = .ended fault
          · rcases hended with ⟨fault, hlisting⟩
            exact canWork_of_transition (.join found fault h hfeeding hchannel hlisting) rfl trivial
          · refine canWork_of_listing h (fun fault hfault => hended ⟨fault, hfault⟩) ?_
            rw [hchannel]
            exact hcapacity
      | cons item channel =>
          cases item with
          | ok task =>
              exact canWork_of_transition (.receive found task channel h hfeeding hchannel)
                rfl trivial
          | error error =>
              exact canWork_of_transition (.receiveFault found error channel h hfeeding hchannel)
                rfl trivial
  | queueing item =>
      exact canWork_of_transition (.enqueue found item h hfeeding hroom) rfl trivial
  | acting actions =>
      cases actions with
      | nil => exact absurd hfeeding hacting
      | cons action actions =>
          exact canWork_of_transition
            (.feedActing found action actions _ _ h hfeeding (performs state action)) rfl trivial
  | leaving actions =>
      cases actions with
      | nil => exact absurd hfeeding hleaving
      | cons action actions =>
          exact canWork_of_transition
            (.feedLeaving found action actions _ _ h hfeeding (performs state action)) rfl trivial

/-- A worker that is idle takes a job. -/
theorem canWork_of_queue (worker : Nat) (h : state.workers[worker]? = some .idle)
    (hqueue : state.queue ≠ []) : state.CanWork reply expansion := by
  rcases List.exists_cons_of_ne_nil hqueue with ⟨item, queue, hjobs⟩
  exact canWork_of_transition (.take item queue h hjobs) rfl trivial

theorem canWork_of_continuations (h : state.continuations ≠ []) (hroom : state.hasRoom = true) :
    state.CanWork reply expansion := by
  rcases List.exists_cons_of_ne_nil h with ⟨item, items, hitems⟩
  have hproceeds : Transition state (.proceed 0) _ := .proceed item (by rw [hitems]; rfl) hroom
  exact canWork_of_transition hproceeds rfl trivial

end Parties

/-- Those who submit go on until everything is submitted. -/
theorem canSubmit (hoffered : state.offered = none) (hsubmissions : state.submissions ≠ []) :
    (state.step .offer).isSome = true ∨ (state.step (.read (.ok none))).isSome = true := by
  rcases List.exists_cons_of_ne_nil hsubmissions with ⟨submission, submissions, hall⟩
  cases submission with
  | job job => exact Or.inl (isSome_of_transition (.offer job submissions hoffered hall))
  | line line => exact Or.inr (isSome_of_transition (.readBlank line submissions hoffered hall))

end State

/-!
## Concrete sub-jobs
-/

/-- The items that are still to be sent. -/
def Listing.items : Listing → List (Except ExpansionError SubTask)
  | .sending items _ _ => items
  | _ => []

/-- A batch of tasks that are no batches themselves, with a feeder that is not stuck. -/
structure Batch.IsPlain (found : Batch) : Prop where
  items : ∀ task, .ok task ∈ found.channel ++ found.listing.items → task.operation.isBatch = false
  feeding : found.feeding ≠ .acting []

structure State.IsPlain (state : State) : Prop where
  offered : ∀ item ∈ state.offered, item.role = .top
  batches : ∀ found ∈ state.batches, found.IsPlain

namespace State

variable {state next : State}

theorem plain_updateBatch (h : state.IsPlain) {batch : Nat} {found : Batch} {f : Batch → Batch}
    (hbatch : state.batches[batch]? = some found) (hf : (f found).IsPlain) :
    (state.updateBatch batch f).IsPlain := by
  refine ⟨h.offered, fun found' hmem => ?_⟩
  rw [updateBatch, modify_eq_set_of_getElem? hbatch] at hmem
  rcases List.mem_or_eq_of_mem_set hmem with hmem | rfl
  · exact h.batches found' hmem
  · exact hf

theorem plain_of_performs (h : state.IsPlain) {action : Action} {further : List Action}
    (hperforms : Performs state action next further) : next.IsPlain := by
  cases hperforms with
  | tally batch status found hbatch =>
      have hplain := h.batches found (List.mem_of_getElem? hbatch)
      exact plain_updateBatch h hbatch ⟨hplain.items, hplain.feeding⟩
  | _ => exact ⟨h.offered, h.batches⟩

theorem plain_launch (h : state.IsPlain) (item : Queued) :
    ({ state with batches := state.batches ++ [{ parent := item }] } : State).IsPlain := by
  refine ⟨h.offered, fun found hfound => ?_⟩
  rcases List.mem_append.mp hfound with hfound | hfound
  · exact h.batches found hfound
  · rw [List.mem_singleton.mp hfound]
    exact ⟨fun task htask => (by cases htask), Feeding.noConfusion⟩

/-- A batch stays plain when some of its items go from the listing to the channel or are gone. -/
theorem plain_items (h : state.IsPlain) {batch : Nat} {found : Batch} {f : Batch → Batch}
    (hbatch : state.batches[batch]? = some found)
    (hitems : ∀ task, .ok task ∈ (f found).channel ++ (f found).listing.items →
      .ok task ∈ found.channel ++ found.listing.items)
    (hfeeding : (f found).feeding ≠ .acting []) : (state.updateBatch batch f).IsPlain :=
  plain_updateBatch h hbatch
    ⟨fun task htask =>
      (h.batches found (List.mem_of_getElem? hbatch)).items task (hitems task htask), hfeeding⟩

theorem plain_list (h : state.IsPlain) {batch : Nat} {expansion : Expansion}
    (hconcrete : (Event.list batch expansion).IsConcrete)
    (hstep : Transition state (.list batch expansion) next) : next.IsPlain := by
  cases hstep with
  | list found hbatch hlisting =>
      have hplain := h.batches found (List.mem_of_getElem? hbatch)
      have hitems : ∀ task, .ok task ∈ found.channel ++ expansion.items →
          task.operation.isBatch = false := by
        intro task htask
        rcases List.mem_append.mp htask with hold | hnew
        · exact hplain.items task (List.mem_append_left _ hold)
        · exact hconcrete task hnew
      have hlisted := plain_updateBatch h hbatch
        (f := fun found : Batch =>
          { found with listing := .sending expansion.items expansion.fault expansion.checksEnd })
        ⟨hitems, hplain.feeding⟩
      exact ⟨hlisted.offered, hlisted.batches⟩

theorem plain_send (h : state.IsPlain) {batch : Nat}
    (hstep : Transition state (.send batch) next) : next.IsPlain := by
  cases hstep with
  | send found item items fault checksEnd hbatch hlisting hroom =>
      have hplain := h.batches found (List.mem_of_getElem? hbatch)
      refine plain_items h hbatch (fun task htask => ?_) hplain.feeding
      rw [hlisting]
      rwa [List.append_assoc] at htask
  | sendEnd found fault checksEnd hbatch hlisting =>
      have hplain := h.batches found (List.mem_of_getElem? hbatch)
      refine plain_items h hbatch (fun task htask => ?_) hplain.feeding
      rw [hlisting]
      exact htask

theorem plain_abandon (h : state.IsPlain) {batch : Nat}
    (hstep : Transition state (.abandon batch) next) : next.IsPlain := by
  cases hstep with
  | abandon found items fault checksEnd hbatch hlisting hcancelled =>
      have hplain := h.batches found (List.mem_of_getElem? hbatch)
      refine plain_items h hbatch (fun task htask => ?_) hplain.feeding
      rcases List.mem_append.mp htask with hold | hnew
      · exact List.mem_append_left _ hold
      · cases hnew

theorem plain_receive (h : state.IsPlain) {batch : Nat}
    (hstep : Transition state (.receive batch) next) : next.IsPlain := by
  cases hstep with
  | receive found task channel hbatch hfeeding hchannel =>
      have hcounted : IsPlain { state with outstanding := state.outstanding + 1 } :=
        ⟨h.offered, h.batches⟩
      refine plain_items hcounted hbatch (fun task htask => ?_) Feeding.noConfusion
      rw [hchannel]
      exact List.mem_cons_of_mem _ htask
  | receiveFault found error channel hbatch hfeeding hchannel =>
      refine plain_items h hbatch (fun task htask => ?_) (fun hacting => by cases hacting)
      rw [hchannel]
      exact List.mem_cons_of_mem _ htask

theorem plain_enqueue (h : state.IsPlain) {batch : Nat}
    (hstep : Transition state (.enqueue batch) next) : next.IsPlain := by
  cases hstep with
  | enqueue found item hbatch hfeeding hroom =>
      have hqueued : IsPlain { state with queue := state.queue ++ [item] } :=
        ⟨h.offered, h.batches⟩
      exact plain_items hqueued hbatch (fun task htask => htask) Feeding.noConfusion

theorem plain_join (h : state.IsPlain) {batch : Nat}
    (hstep : Transition state (.join batch) next) : next.IsPlain := by
  cases hstep with
  | join found fault hbatch hfeeding hchannel hlisting =>
      exact plain_items h hbatch (fun task htask => htask) Feeding.noConfusion

/-- A feeder that has done an action is not stuck. -/
theorem plain_feeder (h : state.IsPlain) {batch : Nat} {found : Batch} {action : Action}
    {further : List Action} {feeding : Feeding} (hperforms : Performs state action next further)
    (hbatch : state.batches[batch]? = some found) (hfeeding : feeding ≠ .acting []) :
    (next.updateBatch batch fun found => { found with feeding := feeding }).IsPlain := by
  rcases feeding_eq_of_performs hperforms hbatch with ⟨found', hbatch', -⟩
  exact plain_items (plain_of_performs h hperforms) hbatch' (fun task htask => htask) hfeeding

theorem plain_feed (h : state.IsPlain) {batch : Nat}
    (hstep : Transition state (.feed batch) next) : next.IsPlain := by
  cases hstep with
  | feedActing found action actions next further hbatch hfeeding hperforms =>
      refine plain_feeder h hperforms hbatch ?_
      split
      · exact Feeding.noConfusion
      · rename_i hleft
        rw [List.isEmpty_iff] at hleft
        exact fun hacting => hleft (Feeding.acting.inj hacting)
  | feedLeaving found action actions next further hbatch hfeeding hperforms =>
      exact plain_feeder h hperforms hbatch Feeding.noConfusion

theorem plain_of_step (h : state.IsPlain) {event : Event} (hconcrete : event.IsConcrete)
    (hstep : state.step event = some next) : next.IsPlain := by
  have hstep := transition_of_step hstep
  cases event with
  | offer =>
      cases hstep with
      | offer job submissions hoffered hsubmissions =>
          refine ⟨fun item hitem => ?_, h.batches⟩
          cases hitem
          rfl
  | submit =>
      cases hstep with
      | submit item hoffered hroom => exact ⟨fun item hitem => (by cases hitem), h.batches⟩
  | act worker =>
      cases hstep with
      | act action actions next further hworker hperforms =>
          have hplain := plain_of_performs h hperforms
          exact ⟨hplain.offered, hplain.batches⟩
  | start worker =>
      cases hstep with
      | launch item hworker habort hoperation =>
          exact ⟨h.offered, (plain_launch h item).batches⟩
      | _ => exact ⟨h.offered, h.batches⟩
  | list batch expansion => exact plain_list h hconcrete hstep
  | send batch => exact plain_send h hstep
  | abandon batch => exact plain_abandon h hstep
  | receive batch => exact plain_receive h hstep
  | enqueue batch => exact plain_enqueue h hstep
  | join batch => exact plain_join h hstep
  | feed batch => exact plain_feed h hstep
  | _ => cases hstep <;> exact ⟨h.offered, h.batches⟩

end State

/-- A sub-job comes from an item of a batch. -/
theorem Overview.Move.member_inv {trusted : Prop} {o next : Overview} {mark : Mark}
    (h : Move trusted o mark next) {item : Queued} (hitem : item ∈ mark.entrants) {batch : Nat}
    (hmember : item.isMemberOf batch = true) :
    ∃ account ∈ o.accounts, ∃ task, .ok task ∈ account.channel ∧
      item.operation = task.operation := by
  cases h with
  | offer job item' submissions hitem' hsubmissions =>
      rw [List.mem_singleton.mp hitem, hitem'] at hmember
      cases hmember
  | receive batch' account task channel item' haccount hjoined hchannel hitem' =>
      refine ⟨account, List.mem_of_getElem? haccount, task, ?_, ?_⟩
      · rw [hchannel]
        exact List.mem_cons_self
      · rw [List.mem_singleton.mp hitem, hitem']
        rfl
  | refuse batch' account error channel entry haccount hjoined hnotice hchannel hentry =>
      rw [List.mem_singleton.mp hitem, hentry] at hmember
      cases hmember
  | perform action actions agendas next further mark hagendas heffect =>
      cases heffect with
      | settle before status following hfollowing =>
          rw [Mark.entrants, Option.mem_toList, hfollowing] at hitem
          rw [Queued.isMemberOf, Queued.role_successor hitem] at hmember
          cases hmember
      | _ => cases hitem
  | _ => cases hitem

namespace State

variable {config : PoolConfig} {submissions : List Submission} {state next : State}
  {events : List Event}

/-- What a run with concrete sub-jobs has come to. -/
structure IsConcrete (state : State) (entered : List Queued) : Prop where
  plain : state.IsPlain
  members : ∀ item ∈ entered, ∀ batch, item.isMemberOf batch = true →
    item.operation.isBatch = false

theorem concrete_of_run (h : (initial config submissions).run events = some state)
    (hconcrete : ∀ event ∈ events, event.IsConcrete) :
    state.IsConcrete (entrants ((initial config submissions).chronicle events)) := by
  refine run_induction (P := fun events state => (∀ event ∈ events, event.IsConcrete) →
    state.IsConcrete (entrants ((initial config submissions).chronicle events))) h ?_ ?_ hconcrete
  · intro _
    exact ⟨⟨fun item hitem => (by cases hitem), fun found hfound => absurd hfound List.not_mem_nil⟩,
      fun item hitem => absurd hitem List.not_mem_nil⟩
  · intro events last event next hrun hstep ih hevents
    have hlast := ih fun event hmem => hevents event (List.mem_append_left _ hmem)
    have hevent := hevents event (List.mem_append_right _ List.mem_cons_self)
    refine ⟨plain_of_step hlast.plain hevent hstep, fun item hitem batch hmember => ?_⟩
    rw [chronicle_concat hrun hstep, entrants_append, entrants_singleton] at hitem
    rcases List.mem_append.mp hitem with hold | hnew
    · exact hlast.members item hold batch hmember
    · have hmove := move_of_step (fun hfalse : False => hfalse.elim)
        (balanced_of_run hrun).telling hstep
      rcases hmove.member_inv hnew hmember with ⟨account, haccount, task, htask, hoperation⟩
      rcases List.mem_map.mp haccount with ⟨found, hfound, rfl⟩
      rw [hoperation]
      exact (hlast.plain.batches found hfound).items task (List.mem_append_left _ htask)

/-- No batch is the sub-job of another one. -/
theorem parent_not_member (h : (initial config submissions).run events = some state)
    (hconcrete : ∀ event ∈ events, event.IsConcrete) {account : Account}
    (haccount : account ∈ state.overview.accounts) (batch : Nat) :
    account.parent.isMemberOf batch = false := by
  rw [Bool.eq_false_iff]
  intro hmember
  have hentered := ((present_of_run h).holds.parents account haccount).1
  have hparent : account.parent ∈ state.activity.parents := by
    rcases List.mem_map.mp haccount with ⟨found, hfound, rfl⟩
    exact List.mem_map_of_mem hfound
  have hbatch := ((founded_of_run h).parents _ hparent).2
  rw [(concrete_of_run h hconcrete).members _ hentered batch hmember] at hbatch
  cases hbatch

/-!
## Outstanding work
-/

theorem bind_eq_zero {α β : Type} {xs : Multiset α} {g : α → Multiset β}
    (h : ∀ x ∈ xs, g x = 0) : xs.bind g = 0 := by
  rw [Multiset.bind_congr h, Multiset.bind_zero]

/-- A pool in which no party is at anything. -/
structure IsStill (state : State) : Prop where
  workers : ∀ phase ∈ state.workers, phase = .idle
  queue : state.queue = []
  continuations : state.continuations = []
  batches : ∀ found ∈ state.batches, found.feeding = .leaving []

theorem IsStill.waiting (h : state.IsStill) : state.overview.waiting = state.offered.toList := by
  have hfeeding : (state.batches : Multiset Batch).bind (·.feeding.waiting) = 0 := by
    refine bind_eq_zero fun found hfound => ?_
    rw [h.batches found hfound]
    rfl
  simp only [overview, h.queue, h.continuations, hfeeding, Multiset.coe_nil, add_zero]

theorem IsStill.held (h : state.IsStill) : state.overview.held = 0 := by
  show (state.workers : Multiset Phase).bind Phase.held = 0
  refine bind_eq_zero fun phase hphase => ?_
  rw [h.workers phase hphase]
  rfl

theorem IsStill.left (h : state.IsStill) (q : Action → Bool) : state.overview.left q = 0 := by
  rw [Overview.left_eq_zero_iff]
  constructor
  · intro agenda hagenda
    rcases Multiset.mem_add.mp hagenda with hworker | hfeeder
    · rcases Multiset.mem_bind.mp hworker with ⟨phase, hphase, hmem⟩
      rw [h.workers phase hphase] at hmem
      exact absurd hmem (Multiset.notMem_zero agenda)
    · rcases Multiset.mem_bind.mp hfeeder with ⟨found, hfound, hmem⟩
      rw [h.batches found hfound] at hmem
      exact absurd hmem (Multiset.notMem_zero agenda)
  · intro account haccount
    rcases List.mem_map.mp haccount with ⟨found, hfound, rfl⟩
    rw [Batch.account, h.batches found hfound]
    exact fun action haction => absurd haction List.not_mem_nil

theorem IsStill.joined (h : state.IsStill) {account : Account}
    (haccount : account ∈ state.overview.accounts) : account.joined = true := by
  rcases List.mem_map.mp haccount with ⟨found, hfound, rfl⟩
  rw [Batch.account, h.batches found hfound]
  rfl

/-- A batch waits for nothing if it has no batches below it. -/
theorem IsStill.pending (h : state.IsStill) (hbalanced : state.overview.Balanced)
    (hplain : state.IsPlain) {batch : Nat} {account : Account}
    (hbatch : state.overview.accounts[batch]? = some account)
    (hparents : ∀ account ∈ state.overview.accounts, account.parent.isMemberOf batch = false) :
    account.group.pending = 0 := by
  have hmembers : state.overview.accounts.countP (·.parent.isMemberOf batch) = 0 := by
    rw [List.countP_eq_zero]
    intro account' haccount'
    rw [hparents account' haccount']
    exact Bool.false_ne_true
  have hoffered : Multiset.countP (fun item : Queued => item.isMemberOf batch = true)
      (state.offered.toList : Multiset Queued) = 0 := by
    rw [Multiset.countP_eq_zero]
    intro item hitem
    rw [Queued.isMemberOf, hplain.offered item (Option.mem_toList.mp hitem)]
    exact Bool.false_ne_true
  have hpending := hbalanced.pending batch
  rw [Overview.pendingOf_eq hbatch, Overview.awaited, Overview.underWay, h.waiting, h.held, h.left,
    hmembers, Overview.listingsOf_eq hbatch, h.joined (List.mem_of_getElem? hbatch),
    hoffered] at hpending
  exact hpending

/-- Where no party is at anything, nothing is outstanding but a job that is being submitted. -/
theorem IsStill.outstanding (h : state.IsStill) (hbalanced : state.overview.Balanced)
    (hplain : state.IsPlain)
    (hparents : ∀ account ∈ state.overview.accounts, ∀ batch,
      account.parent.isMemberOf batch = false) :
    state.outstanding = state.offered.toList.length := by
  have howing : Overview.owing state.overview.accounts (fun _ => true) = 0 := by
    rw [Overview.owing, List.countP_eq_zero]
    intro account haccount
    rcases List.getElem?_of_mem haccount with ⟨batch, hbatch⟩
    rw [Account.isOpen, h.pending hbalanced hplain hbatch fun account haccount =>
      hparents account haccount batch]
    exact Bool.false_ne_true
  have hunits := hbalanced.outstanding
  rw [Overview.units, h.waiting, h.held, h.left, howing] at hunits
  exact hunits

theorem sameFrame_of_run (h : (initial config submissions).run events = some state) :
    SameFrame (initial config submissions) state := by
  refine run_induction (P := fun _ state => SameFrame (initial config submissions) state) h
    ⟨rfl, rfl⟩ ?_
  intro events last event next _ hstep hlast
  have hnext := sameFrame_of_step hstep
  exact ⟨hnext.config.trans hlast.config, hnext.workers.trans hlast.workers⟩

section Runs

variable (hworkers : 0 < config.workers) (hcapacity : 0 < config.queueCapacity)
include hworkers hcapacity

/-- A pool is still if none of its parties can go on, whatever answers they get. -/
theorem isStill_of_not_canWork (h : (initial config submissions).run events = some state)
    (hplain : state.IsPlain) {reply : Except JobError Outcome} {expansion : Expansion}
    (hwork : ¬ state.CanWork reply expansion) : state.hasRoom = true ∧ state.IsStill := by
  have hframe := sameFrame_of_run h
  have hidle : ∀ phase ∈ state.workers, phase = .idle := by
    intro phase hphase
    by_contra hbusy
    rcases List.getElem?_of_mem hphase with ⟨worker, hworker⟩
    refine hwork (canWork_of_worker hworker hbusy ?_)
    rintro rfl
    have hagenda : [] ∈ state.overview.agendas :=
      Multiset.mem_add.mpr (Or.inl (Multiset.mem_bind.mpr
        ⟨_, hphase, Multiset.mem_singleton_self _⟩))
    cases (balanced_of_run h).agendas _ hagenda
  have hqueue : state.queue = [] := by
    by_contra hjobs
    have hlength : 0 < state.workers.length := by
      rw [hframe.workers, initial, List.length_replicate]
      exact hworkers
    refine hwork (canWork_of_queue 0 ?_ hjobs)
    rw [List.getElem?_eq_getElem hlength, hidle _ (List.getElem_mem hlength)]
  have hcapacity : 0 < state.config.queueCapacity := by
    rw [hframe.config]
    exact hcapacity
  have hroom : state.hasRoom = true := by
    rw [hasRoom, hqueue]
    exact decide_eq_true hcapacity
  refine ⟨hroom, hidle, hqueue, ?_, ?_⟩
  · by_contra hitems
    exact hwork (canWork_of_continuations hitems hroom)
  · intro found hfound
    by_contra hleaving
    rcases List.getElem?_of_mem hfound with ⟨batch, hbatch⟩
    exact hwork (canWork_of_feeding hbatch (hplain.batches found hfound).feeding hleaving hroom
      hcapacity)

/-- A pool with outstanding work can take a step of its own, unless that work is one job that is
just being submitted and for which there is room. -/
theorem canWork_of_outstanding (h : (initial config submissions).run events = some state)
    (hconcrete : ∀ event ∈ events, event.IsConcrete) (houtstanding : 0 < state.outstanding)
    (reply : Except JobError Outcome) (expansion : Expansion) :
    state.CanWork reply expansion ∨
      state.outstanding = 1 ∧ state.offered.isSome = true ∧ (state.step .submit).isSome = true := by
  by_cases hwork : state.CanWork reply expansion
  · exact Or.inl hwork
  right
  have hplain := (concrete_of_run h hconcrete).plain
  rcases isStill_of_not_canWork hworkers hcapacity h hplain hwork with ⟨hroom, hstill⟩
  have hunits := hstill.outstanding (balanced_of_run h) hplain fun account haccount =>
    parent_not_member h hconcrete haccount
  cases hoffered : state.offered with
  | none =>
      rw [hunits, hoffered] at houtstanding
      exact absurd houtstanding (Nat.lt_irrefl 0)
  | some item =>
      exact ⟨by rw [hunits, hoffered]; rfl, rfl, isSome_of_transition (.submit item hoffered hroom)⟩

/-- A run that cannot go on, unless it is cancelled, has no outstanding work. -/
theorem outstanding_of_halted (h : (initial config submissions).run events = some state)
    (hconcrete : ∀ event ∈ events, event.IsConcrete)
    (hhalted : ∀ event : Event, event.IsConcrete → event ≠ .cancel → state.step event = none) :
    state.outstanding = 0 := by
  by_contra hne
  rcases canWork_of_outstanding hworkers hcapacity h hconcrete (Nat.pos_of_ne_zero hne)
    (.ok {}) {} with ⟨event, hwork, hreplies, hstep⟩ | ⟨-, -, hstep⟩
  · rw [hhalted event (Event.isConcrete_of_replies hreplies) (by rintro rfl; cases hwork)] at hstep
    cases hstep
  · rw [hhalted .submit trivial Event.noConfusion] at hstep
    cases hstep

/-- A run that cannot go on, unless it is cancelled, has come to rest. -/
theorem isQuiescent_of_halted (h : (initial config submissions).run events = some state)
    (hconcrete : ∀ event ∈ events, event.IsConcrete)
    (hhalted : ∀ event : Event, event.IsConcrete → event ≠ .cancel → state.step event = none) :
    state.isQuiescent = true := by
  have hzero := outstanding_of_halted hworkers hcapacity h hconcrete hhalted
  have hoffered : state.offered = none := by
    have hwaiting := ((balanced_of_run h).isAtRest hzero).waiting
    simp only [overview, add_eq_zero, Multiset.coe_eq_zero] at hwaiting
    exact Option.toList_eq_nil_iff.mp hwaiting.1.1.1
  have hsubmissions : state.submissions = [] := by
    by_contra hnonempty
    rcases canSubmit hoffered hnonempty with hoffer | hread
    · rw [hhalted .offer trivial Event.noConfusion] at hoffer
      cases hoffer
    · rw [hhalted (.read (.ok none)) trivial Event.noConfusion] at hread
      cases hread
  rw [isQuiescent, hsubmissions, hoffered, hzero]
  rfl

end Runs

/-!
## Runs without end
-/

/-- A backlog that no event raises, and that only stays as it is when a run is cancelled again,
is lowered for the last time. -/
theorem eventually_cancel (states : ℕ → State) (events : ℕ → Event)
    (hbacklog : ∀ n, (states (n + 1)).backlog < (states n).backlog ∨
      events n = .cancel ∧ states (n + 1) = states n) :
    ∃ n, ∀ m, n ≤ m → events m = .cancel := by
  have hantitone : Antitone fun n => (states n).backlog := by
    refine antitone_nat_of_succ_le fun n => ?_
    rcases hbacklog n with hlt | ⟨-, heq⟩
    · exact hlt.le
    · rw [heq]
  rcases WellFounded.has_min wellFounded_lt
    (Set.range fun n => (states n).backlog) (Set.range_nonempty _) with ⟨_, ⟨n, rfl⟩, hmin⟩
  refine ⟨n, fun m hm => ?_⟩
  rcases hbacklog m with hlt | ⟨hcancel, -⟩
  · exact absurd (lt_of_lt_of_le hlt (hantitone hm)) (hmin _ ⟨m + 1, rfl⟩)
  · exact hcancel

theorem run_of_trace {states : ℕ → State} {events : ℕ → Event}
    (hstart : states 0 = initial config submissions)
    (hstep : ∀ n, (states n).step (events n) = some (states (n + 1))) (n : ℕ) :
    (initial config submissions).run ((List.range n).map events) = some (states n) := by
  induction n with
  | zero =>
      rw [hstart]
      rfl
  | succ n ih =>
      rw [List.range_succ, List.map_append]
      exact run_concat_of_step ih (hstep n)

end State

/-!
## A listing larger than the queue

One worker has room for one job, and a batch lists three.  The first job is in the queue, the
task behind the listing waits with the second one, and the third one is in its channel.
-/

def wideExpansion : Expansion :=
  { items := List.replicate 3 (.ok { operation := .upload, arguments := [] }) }

def wideStart : State :=
  State.initial { workers := 1, queueCapacity := 1 } [.job (.ofTask (sampleTask .batchUpload))]

def wideEvents : List Event :=
  [.offer, .submit, .take 0, .accept 0, .start 0, .list 0 wideExpansion, .send 0, .receive 0,
    .enqueue 0, .send 0, .receive 0, .send 0]

theorem wideEvents_isConcrete : ∀ event ∈ wideEvents, event.IsConcrete := by
  intro event hevent
  cases event with
  | list batch expansion =>
      intro task htask
      simp only [wideEvents, List.mem_cons, reduceCtorEq, Event.list.injEq, List.not_mem_nil,
        false_or, or_false] at hevent
      rw [hevent.2, wideExpansion, List.mem_replicate, Except.ok.injEq] at htask
      rw [htask.2]
      rfl
  | _ => trivial

end Pool
end BulkTransfer
