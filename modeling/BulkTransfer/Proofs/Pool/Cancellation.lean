import BulkTransfer.Proofs.Pool.Changes
import BulkTransfer.Proofs.Pool.Outcomes

/-!
# Cancellation

A run that is cancelled goes on until nothing is left to do, but it starts only what had
passed the check for cancellation before.  Whatever a worker takes from then on is
reported as cancelled, and that changes no counter.  The exit code is the one of the
exit job that was started first among those with a code.
-/

namespace BulkTransfer
namespace Pool

/-!
## What a cancelled run still starts
-/

theorem Turn.accepted_of_cancelled {a next : Activity} {taken started : List Queued}
    (h : Turn a taken started next) (hcancelled : a.cancelled = true) {item : Queued}
    (hitem : .accepted item ∈ next.phases ∨ item ∈ started) : .accepted item ∈ a.phases := by
  have hcons : ∀ {phase phase' : Phase} {phases : Multiset Phase}, a.phases = phase ::ₘ phases →
      .accepted item ≠ phase' → .accepted item ∈ phase' ::ₘ phases ∨ item ∈ ([] : List Queued) →
        .accepted item ∈ a.phases := by
    intro phase phase' phases hphases hne hmem
    rw [hphases]
    rcases hmem with hmem | hmem
    · exact Multiset.mem_cons_of_mem ((Multiset.mem_cons.mp hmem).resolve_left hne)
    · cases hmem
  have hstart : ∀ {item' : Queued} {phase' : Phase} {phases : Multiset Phase},
      a.phases = .accepted item' ::ₘ phases → .accepted item ≠ phase' →
        .accepted item ∈ phase' ::ₘ phases ∨ item ∈ [item'] → .accepted item ∈ a.phases := by
    intro item' phase' phases hphases hne hmem
    rw [hphases]
    rcases hmem with hmem | hmem
    · exact Multiset.mem_cons_of_mem ((Multiset.mem_cons.mp hmem).resolve_left hne)
    · rw [List.mem_singleton.mp hmem]
      exact Multiset.mem_cons_self _ _
  cases h with
  | note entries hentries => exact hitem.resolve_right List.not_mem_nil
  | cancel => exact hitem.resolve_right List.not_mem_nil
  | take item' phases hphases => exact hcons hphases Phase.noConfusion hitem
  | shift phase phase' phases hphases hshift =>
      refine hcons hphases ?_ hitem
      -- only one shift leads to an accepted job, and not in a cancelled run
      rintro rfl
      cases hshift with
      | accept item' hfalse =>
          rw [hcancelled] at hfalse
          cases hfalse
  | abort item' phases hphases hoperation => exact hstart hphases Phase.noConfusion hitem
  | launch item' phases hphases hoperation hbatch =>
      have hmem : .accepted item ∈ .idle ::ₘ phases ∨ item ∈ [item'] := hitem.imp_left
        fun hmem => (Multiset.mem_cons.mp hmem).resolve_left Phase.noConfusion
      exact hstart hphases Phase.noConfusion hmem
  | call item' phases hphases hoperation hbatch => exact hstart hphases Phase.noConfusion hitem
  | exit item' phases hphases => exact hcons hphases Phase.noConfusion hitem
  | again item' attempt error phases hphases hretryable hattempt =>
      exact hcons hphases Phase.noConfusion hitem
  | answer item' attempt answer phases hphases => exact hcons hphases Phase.noConfusion hitem
  | retry item' attempt phases hphases => exact hcons hphases Phase.noConfusion hitem
  | act action actions phases further next hphases hdeed =>
      refine hcons hphases ?_ hitem
      cases further ++ actions <;> exact Phase.noConfusion
  | list parent hparent => exact hitem.resolve_right List.not_mem_nil
  | fault batch position parent error phases hphases hparent =>
      exact hcons hphases Phase.noConfusion hitem

namespace State

variable {config : PoolConfig} {submissions : List Submission} {state : State}
  {events : List Event}

/-- A run that is cancelled starts only jobs that had passed the check before. -/
theorem starts_of_cancelled {last : State} (hcancelled : last.cancelled = true)
    (hrun : last.run events = some state) :
    state.cancelled = true ∧
      (∀ item, .accepted item ∈ state.activity.phases → .accepted item ∈ last.activity.phases) ∧
        ∀ item ∈ last.starts events, .accepted item ∈ last.activity.phases := by
  refine run_induction (P := fun events state => state.cancelled = true ∧
    (∀ item, .accepted item ∈ state.activity.phases → .accepted item ∈ last.activity.phases) ∧
      ∀ item ∈ last.starts events, .accepted item ∈ last.activity.phases) hrun ?_ ?_
  · exact ⟨hcancelled, fun item hitem => hitem, fun item hitem => absurd hitem List.not_mem_nil⟩
  · intro events before event next hbefore hstep hkept
    rcases hkept with ⟨htrue, hphases, hstarts⟩
    have hturn := turn_of_step hstep
    refine ⟨hturn.cancelled_mono htrue, ?_, ?_⟩
    · intro item hitem
      exact hphases item (Turn.accepted_of_cancelled hturn htrue (Or.inl hitem))
    · intro item hitem
      rw [starts_concat hbefore hstep] at hitem
      rcases List.mem_append.mp hitem with hitem | hitem
      · exact hstarts item hitem
      · exact hphases item (Turn.accepted_of_cancelled hturn htrue (Or.inr hitem))

/-- Jobs that are taken later have other names. -/
theorem name_ne_of_taken {before after : List Event} {last : State}
    (h : (initial config submissions).run (before ++ after) = some state)
    (hbefore : (initial config submissions).run before = some last) {item item' : Queued}
    (hitem : item ∈ takings ((initial config submissions).chronicle before))
    (hitem' : item' ∈ takings (last.chronicle after)) :
    (item.id, item.role) ≠ (item'.id, item'.role) := by
  have hnames := nodup_takings h
  rw [chronicle_append hbefore, takings_append, List.map_append, List.nodup_append] at hnames
  exact hnames.2.2 _ (List.mem_map_of_mem hitem) _ (List.mem_map_of_mem hitem')

/-- What is taken from the queue of a cancelled run is never started. -/
theorem not_started_of_taken {before after : List Event} {last : State}
    (h : (initial config submissions).run (before ++ after) = some state)
    (hbefore : (initial config submissions).run before = some last)
    (hcancelled : last.cancelled = true) {item : Queued}
    (hitem : item ∈ takings (last.chronicle after)) :
    ∀ item' ∈ (initial config submissions).starts (before ++ after),
      (item'.id, item'.role) ≠ (item.id, item.role) := by
  have hrun := (run_append_iff hbefore).mp h
  have hearlier : ∀ item' ∈ takings ((initial config submissions).chronicle before),
      (item'.id, item'.role) ≠ (item.id, item.role) :=
    fun item' hitem' => name_ne_of_taken h hbefore hitem' hitem
  have hfounded := founded_of_run hbefore
  intro item' hitem'
  rw [starts_append hbefore] at hitem'
  rcases List.mem_append.mp hitem' with hitem' | hitem'
  · exact hearlier item' (hfounded.mem_taken hitem')
  · have hphase := (starts_of_cancelled hcancelled hrun).2.2 item' hitem'
    exact hearlier item' (hfounded.unstarted_mem_taken hphase (Multiset.mem_singleton_self item'))

end State

/-!
## Answers that are cancelled
-/

/-- Whether an entry of the log is a call of the executor in a name. -/
def Entry.calls (name : JobId × Role) : Entry → Bool
  | .called item => (item.id, item.role) == name
  | _ => false

/-- Whether no party is at a job of a name. -/
def Activity.Spared (a : Activity) (name : JobId × Role) : Prop :=
  ∀ phase ∈ a.phases, ∀ item ∈ phase.held, (item.id, item.role) ≠ name

theorem held_phaseOf (actions : List Action) : (phaseOf actions).held = 0 := by
  cases actions <;> rfl

theorem Shift.held_subset {cancelled : Bool} {phase phase' : Phase}
    (h : Shift cancelled phase phase') : ∀ item ∈ phase'.held, item ∈ phase.held := by
  cases h <;> simp [Phase.held]

theorem countP_calls_append {name : JobId × Role} {entries : List Entry} (log : List Entry)
    (h : ∀ entry ∈ entries, entry.calls name = false) :
    (log ++ entries).countP (Entry.calls name) = log.countP (Entry.calls name) := by
  rw [List.countP_append, List.countP_eq_zero.mpr fun entry hentry =>
    Bool.eq_false_iff.mp (h entry hentry)]
  rfl

namespace Activity.Spared

variable {a : Activity} {name : JobId × Role} {phase phase' : Phase} {phases : Multiset Phase}

/-- The first of the phases and the other ones, when no party is at a job of a name. -/
theorem cons (h : a.Spared name) (hphases : a.phases = phase ::ₘ phases) :
    (∀ item ∈ phase.held, (item.id, item.role) ≠ name) ∧
      ∀ phase ∈ phases, ∀ item ∈ phase.held, (item.id, item.role) ≠ name := by
  rw [Activity.Spared, hphases, Multiset.forall_mem_cons] at h
  exact h

/-- A party that keeps its job or leaves it comes to no other one. -/
theorem keep (h : a.Spared name) (hphases : a.phases = phase ::ₘ phases)
    (hheld : ∀ item ∈ phase'.held, item ∈ phase.held) :
    ∀ phase ∈ phase' ::ₘ phases, ∀ item ∈ phase.held, (item.id, item.role) ≠ name :=
  Multiset.forall_mem_cons.mpr
    ⟨fun item hitem => (h.cons hphases).1 item (hheld item hitem), (h.cons hphases).2⟩

theorem leave (h : a.Spared name) (hphases : a.phases = phase ::ₘ phases)
    (hheld : phase'.held = 0) :
    ∀ phase ∈ phase' ::ₘ phases, ∀ item ∈ phase.held, (item.id, item.role) ≠ name := by
  refine h.keep hphases fun item hitem => ?_
  rw [hheld] at hitem
  exact absurd hitem (Multiset.notMem_zero item)

theorem calls_eq_false {item : Queued} (h : a.Spared name)
    (hphases : a.phases = phase ::ₘ phases) (hitem : item ∈ phase.held) :
    ∀ entry ∈ [Entry.called item], entry.calls name = false :=
  List.forall_mem_singleton.mpr (beq_eq_false_iff_ne.mpr ((h.cons hphases).1 item hitem))

end Activity.Spared

/-- A name that no party is at stays so until a job of that name is taken, and the executor
is not called in it. -/
theorem Turn.spared {a next : Activity} {taken started : List Queued} {name : JobId × Role}
    (h : Turn a taken started next) (hspared : a.Spared name)
    (htaken : ∀ item ∈ taken, (item.id, item.role) ≠ name) :
    next.Spared name ∧ next.log.countP (Entry.calls name) = a.log.countP (Entry.calls name) := by
  cases h with
  | note entries hentries =>
      refine ⟨hspared, countP_calls_append a.log ?_⟩
      intro entry hentry
      rcases hentries entry hentry with ⟨line, reading, rfl⟩
      rfl
  | cancel => exact ⟨hspared, rfl⟩
  | take item phases hphases =>
      refine ⟨Multiset.forall_mem_cons.mpr ⟨?_, (hspared.cons hphases).2⟩, rfl⟩
      intro item' hitem'
      rw [Multiset.mem_singleton.mp hitem']
      exact htaken item List.mem_cons_self
  | shift phase phase' phases hphases hshift =>
      exact ⟨hspared.keep hphases hshift.held_subset, rfl⟩
  | abort item phases hphases hoperation =>
      exact ⟨hspared.keep hphases fun _ hitem => hitem, rfl⟩
  | launch item phases hphases hoperation hbatch =>
      exact ⟨Multiset.forall_mem_cons.mpr ⟨fun _ hitem => absurd hitem (Multiset.notMem_zero _),
        hspared.leave hphases rfl⟩, rfl⟩
  | call item phases hphases hoperation hbatch =>
      exact ⟨hspared.keep hphases fun _ hitem => hitem, countP_calls_append a.log
        (hspared.calls_eq_false hphases (Multiset.mem_singleton_self item))⟩
  | exit item phases hphases => exact ⟨hspared.leave hphases rfl, rfl⟩
  | again item attempt error phases hphases hretryable hattempt =>
      exact ⟨hspared.keep hphases fun _ hitem => hitem, rfl⟩
  | answer item attempt answer phases hphases => exact ⟨hspared.leave hphases rfl, rfl⟩
  | retry item attempt phases hphases =>
      exact ⟨hspared.keep hphases fun _ hitem => hitem, countP_calls_append a.log
        (hspared.calls_eq_false hphases (Multiset.mem_singleton_self item))⟩
  | act action actions phases further next hphases hdeed =>
      refine ⟨hspared.leave hphases (held_phaseOf _), ?_⟩
      cases hdeed with
      | report item result => exact countP_calls_append a.log (List.forall_mem_singleton.mpr rfl)
      | close batch found hparent =>
          exact countP_calls_append a.log (List.forall_mem_singleton.mpr rfl)
      | _ => rfl
  | list parent hparent =>
      exact ⟨hspared, countP_calls_append a.log (List.forall_mem_singleton.mpr rfl)⟩
  | fault batch position parent error phases hphases hparent =>
      exact ⟨hspared.leave hphases rfl, rfl⟩

namespace State

variable {config : PoolConfig} {submissions : List Submission} {state : State}
  {events : List Event}

/-- How often the executor has been called in the name of a job. -/
def callsOf (state : State) (item : Queued) : Nat :=
  state.log.countP (Entry.calls (item.id, item.role))

theorem held_feeding (feeding : Feeding) : feeding.phase.held = 0 := by
  cases feeding with
  | acting actions | leaving actions => exact held_phaseOf actions
  | receiving | queueing => rfl

theorem mem_held {phase : Phase} (hphase : phase ∈ state.activity.phases) {item : Queued}
    (hitem : item ∈ phase.held) : item ∈ state.overview.held := by
  rcases Multiset.mem_add.mp hphase with hworker | hbatch
  · exact Multiset.mem_bind.mpr ⟨phase, hworker, hitem⟩
  · rcases List.mem_map.mp (Multiset.mem_coe.mp hbatch) with ⟨found, -, rfl⟩
    rw [held_feeding] at hitem
    exact absurd hitem (Multiset.notMem_zero item)

theorem exists_report_finishing (item : Queued) (result : JobResult) :
    ∃ actions, finishing item result =
      .report item { result with isSubJob := item.role != .top } :: actions := by
  unfold finishing
  split <;> exact ⟨_, rfl⟩

/-- A name is used once: for a result that was sent, for a job that a worker is at, or for a
result that is still to be sent. -/
theorem told_once (h : (initial config submissions).run events = some state) (id : JobId)
    (role : Role) :
    (receipts state.log).countP (Ticket.isNamed id role) +
        state.overview.held.countP (fun item => item.ticket.isNamed id role) +
        state.overview.left (Action.tells state.overview.accounts (Ticket.isNamed id role)) ≤ 1 := by
  have haccounted := accounted_of_run h (Ticket.isNamed id role)
  have hname := countP_name_le_one h id role
  have hlog : state.overview.log = state.log := rfl
  rw [Overview.Accounted, Overview.underWay, hlog] at haccounted
  omega

theorem receipts_pos {id : JobId} {role : Role} {result : JobResult}
    (hreported : .reported id role result ∈ state.log) :
    0 < (receipts state.log).countP (Ticket.isNamed id role) :=
  List.countP_pos_iff.mpr ⟨ticketOf id role result, List.mem_filterMap.mpr ⟨_, hreported, rfl⟩,
    Ticket.isNamed_iff.mpr ⟨rfl, rfl⟩⟩

theorem left_pos {item : Queued} {result : JobResult}
    (hphase : .finishing (finishing item result) ∈ state.workers) :
    0 < state.overview.left
      (Action.tells state.overview.accounts (Ticket.isNamed item.id item.role)) := by
  have hagenda : finishing item result ∈ state.overview.agendas :=
    Multiset.mem_add.mpr (Or.inl (Multiset.mem_bind.mpr
      ⟨_, Multiset.mem_coe.mpr hphase, Multiset.mem_singleton_self _⟩))
  rcases exists_report_finishing item result with ⟨actions, hactions⟩
  rw [hactions] at hagenda
  refine Nat.add_pos_left (planned_pos hagenda ?_) _
  rw [Overview.tells_report]
  exact Ticket.isNamed_iff.mpr ⟨rfl, rfl⟩

/-- A name that is used for a result is that of no job that a party is at. -/
theorem spared_of_told (h : (initial config submissions).run events = some state) {id : JobId}
    {role : Role}
    (htold : 0 < (receipts state.log).countP (Ticket.isNamed id role) +
      state.overview.left (Action.tells state.overview.accounts (Ticket.isNamed id role))) :
    state.activity.Spared (id, role) := by
  have honce := told_once h id role
  have hheld : state.overview.held.countP (fun item => item.ticket.isNamed id role) = 0 := by
    omega
  rw [Multiset.countP_eq_zero] at hheld
  intro phase hphase item hitem hname
  have heq := Prod.mk.inj hname
  exact hheld item (mem_held hphase hitem) (Ticket.isNamed_iff.mpr ⟨heq.2, heq.1⟩)

/-- A job whose result is about to be sent is at no party. -/
theorem spared_of_finishing (h : (initial config submissions).run events = some state)
    {item : Queued} {result : JobResult}
    (hphase : .finishing (finishing item result) ∈ state.workers) :
    state.activity.Spared (item.id, item.role) :=
  spared_of_told h (Nat.add_pos_right _ (left_pos hphase))

/-- A name that no party is at, of a job that was taken, is spared from then on. -/
theorem callsOf_eq_of_spared {before after : List Event} {last : State}
    (h : (initial config submissions).run (before ++ after) = some state)
    (hbefore : (initial config submissions).run before = some last) {item : Queued}
    (hitem : item ∈ takings ((initial config submissions).chronicle before))
    (hspared : last.activity.Spared (item.id, item.role)) :
    state.callsOf item = last.callsOf item := by
  have hrun := (run_append_iff hbefore).mp h
  refine (run_induction (P := fun _ state => state.activity.Spared (item.id, item.role) ∧
    state.callsOf item = last.callsOf item) hrun ⟨hspared, rfl⟩ ?_).2
  intro events middle event next hmiddle hstep hkept
  have hnext := (run_append_iff hbefore).mpr (run_concat_of_step hmiddle hstep)
  have hturn := (turn_of_step hstep).spared hkept.1 (by
    intro item' hitem'
    refine (name_ne_of_taken hnext hbefore hitem ?_).symm
    rw [takings_concat hmiddle hstep]
    exact List.mem_append_right _ hitem')
  exact ⟨hturn.1, hturn.2.trans hkept.2⟩

/-- A job that has been cancelled by its executor is not tried again. -/
theorem calls_of_cancelled_answer {before after : List Event} {last : State} {worker : Nat}
    {item : Queued} {attempt : Nat}
    (h : (initial config submissions).run
      (before ++ .answer worker (.error .cancelled) :: after) = some state)
    (hbefore : (initial config submissions).run before = some last)
    (hworker : last.workers[worker]? = some (.attempting item attempt)) :
    ∃ next, last.step (.answer worker (.error .cancelled)) = some next ∧
      next.workers[worker]? =
        some (.finishing (finishing item (cancelledResult item attempt))) ∧
      next.CountsLike last ∧ state.callsOf item = last.callsOf item := by
  have hlt := (List.getElem?_eq_some_iff.mp hworker).1
  have hphases := phases_eq_of_worker hworker
  have hstart := ((founded_of_run hbefore).phase_of_eq hphases).1
  have hstep : last.step (.answer worker (.error .cancelled)) =
      some (last.setWorker worker
        (.finishing (finishing item (cancelledResult item attempt)))) := by
    rw [step, State.answer, hworker]
    simp only [triesAgain, JobError.isRetryable, Bool.false_and, Bool.false_eq_true, if_false,
      finish_eq_setWorker, answeredResult, phaseOf_finishing]
    rfl
  have hnext := run_concat_of_step hbefore hstep
  have hafter : (initial config submissions).run
      ((before ++ [.answer worker (.error .cancelled)]) ++ after) = some state := by
    rw [List.append_assoc]
    exact h
  have hworker' : (last.setWorker worker (.finishing
      (finishing item (cancelledResult item attempt)))).workers[worker]? =
        some (.finishing (finishing item (cancelledResult item attempt))) := by
    rw [setWorker, List.getElem?_set_self hlt]
  refine ⟨_, hstep, hworker', ⟨rfl, rfl, rfl⟩, ?_⟩
  refine callsOf_eq_of_spared hafter hnext ?_
    (spared_of_finishing hnext (List.mem_of_getElem? hworker'))
  rw [takings_concat hbefore hstep]
  exact List.mem_append_left _ ((founded_of_run hbefore).mem_taken hstart)

/-!
## Exit codes
-/

/-- The code that an exit job asks for. -/
def codeOf? (item : Queued) : Option Nat :=
  if item.operation = .abort then item.task.exitCode? else none

end State

theorem Turn.exitCode_eq {a next : Activity} {taken started : List Queued}
    (h : Turn a taken started next) :
    next.exitCode = a.exitCode.or (started.findSome? State.codeOf?) := by
  have hother : ∀ {item : Queued}, item.operation ≠ .abort →
      a.exitCode.or ([item].findSome? State.codeOf?) = a.exitCode := by
    intro item hoperation
    simp [State.codeOf?, hoperation]
  cases h with
  | abort item phases hphases hoperation => simp [State.codeOf?, hoperation]
  | launch item phases hphases hoperation hbatch => exact (hother hoperation).symm
  | call item phases hphases hoperation hbatch => exact (hother hoperation).symm
  | act action actions phases further next hphases hdeed =>
      cases hdeed <;> exact Option.or_none.symm
  | _ => exact Option.or_none.symm

namespace State

variable {config : PoolConfig} {submissions : List Submission} {state : State}
  {events : List Event}

/-- An exit code that is recorded stays. -/
theorem exitCode_of_run {last : State} (hrun : last.run events = some state) {code : Nat}
    (hcode : last.exitCode = some code) : state.exitCode = some code := by
  refine run_induction (P := fun _ state => state.exitCode = some code) hrun hcode ?_
  intro events middle event next _ hstep hmiddle
  have heq := (turn_of_step hstep).exitCode_eq
  rw [show middle.activity.exitCode = some code from hmiddle] at heq
  exact heq

/-- The exit code is that of the first exit job that was started and has one. -/
theorem exitCode_eq (h : (initial config submissions).run events = some state) :
    state.exitCode = ((initial config submissions).starts events).findSome? codeOf? := by
  refine run_turns (P := fun started a => a.exitCode = started.findSome? codeOf?) h rfl ?_
  intro taken started a taken' started' next _ _ hcode hturn
  rw [hturn.exitCode_eq, hcode, List.findSome?_append]

/-- When an exit job with a code cancels the run, its code or an earlier one is recorded. -/
theorem exitCode_of_exiting (h : (initial config submissions).run events = some state)
    {worker : Nat} {item : Queued} {code : Nat}
    (hworker : state.workers[worker]? = some (.exiting item))
    (hcode : item.task.exitCode? = some code) :
    ∃ earlier first later,
      (initial config submissions).starts events = earlier ++ first :: later ∧
        item ∈ first :: later ∧ first.operation = .abort ∧ state.exitCode = first.task.exitCode? ∧
          state.exitCode.isSome = true := by
  rcases (founded_of_run h).phase_of_eq (phases_eq_of_worker hworker) with ⟨hitem, hoperation⟩
  have hasks : codeOf? item = some code := by
    rw [codeOf?, if_pos hoperation, hcode]
  have hsome : (((initial config submissions).starts events).findSome? codeOf?).isSome = true := by
    rw [List.findSome?_isSome_iff]
    exact ⟨item, hitem, by rw [hasks]; rfl⟩
  rcases Option.isSome_iff_exists.mp hsome with ⟨recorded, hrecorded⟩
  rcases List.findSome?_eq_some_iff.mp hrecorded with
    ⟨earlier, first, later, hstarts, hfirst, hearlier⟩
  have habort : first.operation = .abort := by
    by_contra hne
    rw [codeOf?, if_neg hne] at hfirst
    cases hfirst
  rw [codeOf?, if_pos habort] at hfirst
  refine ⟨earlier, first, later, hstarts, ?_, habort, ?_, ?_⟩
  · rw [hstarts] at hitem
    -- a job in front of the first one that asks for a code asks for none
    refine (List.mem_append.mp hitem).resolve_left ?_
    intro hmem
    rw [hearlier item hmem] at hasks
    cases hasks
  · rw [exitCode_eq h, hrecorded, hfirst]
  · rw [exitCode_eq h, hrecorded]
    rfl

/-!
## Cancellation is final
-/

/-- Nothing is called in the name of a job that is taken from the queue of a cancelled run,
and its results are cancellations. -/
theorem refused_of_taken {before after : List Event} {last : State}
    (h : (initial config submissions).run (before ++ after) = some state)
    (hbefore : (initial config submissions).run before = some last)
    (hcancelled : last.cancelled = true) {item : Queued}
    (hitem : item ∈ takings (last.chronicle after)) :
    (∀ result, .reported item.id item.role result ∈ state.log → result.status = .cancelled) ∧
      ∀ item', .called item' ∈ state.log ∨ .expanded item' ∈ state.log →
        (item'.id, item'.role) ≠ (item.id, item.role) := by
  have hnot := not_started_of_taken h hbefore hcancelled hitem
  have htaken : item ∈ takings ((initial config submissions).chronicle (before ++ after)) := by
    rw [chronicle_append hbefore, takings_append]
    exact List.mem_append_right _ hitem
  have hjob := (mem_takings h htaken).2
  constructor
  · intro result hreported
    rcases started_of_reported h hreported (Queued.isFault_of_isJob hjob) with
      hstatus | ⟨item', hitem', hticket⟩
    · exact hstatus
    · exact absurd (Prod.ext (congrArg Ticket.id hticket).symm (congrArg Ticket.role hticket).symm)
        (hnot item' hitem')
  · rintro item' (hcalled | hexpanded)
    · exact hnot item' ((founded_of_run h).log _ hcalled)
    · exact hnot item' ((founded_of_run h).log _ hexpanded)

/-- What changes a counter or the exit code is not about a job that is taken from the queue of
a cancelled run. -/
theorem countsLike_of_taken {before front back : List Event} {event : Event}
    {last middle next : State}
    (h : (initial config submissions).run (before ++ (front ++ event :: back)) = some state)
    (hbefore : (initial config submissions).run before = some last)
    (hcancelled : last.cancelled = true) (hfront : last.run front = some middle)
    (hstep : middle.step event = some next) {item : Queued}
    (hitem : item ∈ takings (last.chronicle (front ++ event :: back))) :
    next.CountsLike middle ∨ (∃ reading, event = .read reading) ∨
      ∃ other, middle.subject? event = some other ∧
        (other.id, other.role) ≠ (item.id, item.role) := by
  have hmiddle := (run_append_iff hbefore).mpr hfront
  have hnext := run_concat_of_step hmiddle hstep
  have hsplit : before ++ (front ++ event :: back) = before ++ front ++ [event] ++ back := by
    simp
  have hnot := not_started_of_taken h hbefore hcancelled hitem
  rw [hsplit, starts_append hnext] at hnot
  have htaken : item ∈
      takings ((initial config submissions).chronicle (before ++ (front ++ event :: back))) := by
    rw [chronicle_append hbefore, takings_append]
    exact List.mem_append_right _ hitem
  rcases started_of_change hmiddle hstep with hlike | hread | ⟨other, hsubject, hother⟩
  · exact Or.inl hlike
  · exact Or.inr (Or.inl hread)
  · refine Or.inr (Or.inr ⟨other, hsubject, ?_⟩)
    intro hname
    rcases hother with hfault | ⟨item', hitem', hname'⟩
    · have hjob := (mem_takings h htaken).2
      rw [Queued.isJob, (Prod.mk.inj hname).2] at hfault
      exact absurd (hfault.symm.trans hjob) Bool.false_ne_true
    · exact hnot item' (List.mem_append_left _ hitem') (hname'.trans hname)

theorem continuations_of_cancelled {last : State} (hrun : last.run events = some state)
    (hcancelled : last.cancelled = true) :
    state.continuations.Sublist last.continuations ∧
      ∀ item status next, .settled item status next ∈ last.chronicle events → next = none := by
  refine (run_induction (P := fun events state => state.cancelled = true ∧
    state.continuations.Sublist last.continuations ∧
      ∀ item status next, .settled item status next ∈ last.chronicle events → next = none)
    hrun ?_ ?_).2
  · exact ⟨hcancelled, List.Sublist.refl _, fun _ _ _ hmem => absurd hmem List.not_mem_nil⟩
  · intro events middle event next hmiddle hstep hkept
    rcases hkept with ⟨htrue, hsublist, hmarks⟩
    refine ⟨(turn_of_step hstep).cancelled_mono htrue,
      (continuations_of_step htrue hstep).trans hsublist, ?_⟩
    intro item status following hmem
    rw [chronicle_concat hmiddle hstep] at hmem
    rcases List.mem_append.mp hmem with hmem | hmem
    · exact hmarks item status following hmem
    · exact next_of_settled htrue (List.mem_singleton.mp hmem).symm

end State

/-!
## A run

An exit job cancels a run in which an upload is under way and another one is queued.
-/

def exitTask : Task :=
  Task.make "sample" .abort .none [.plain "3"]

def exitStart : State :=
  State.initial { workers := 2, queueCapacity := 1 }
    [.job (.ofTask (sampleTask .upload)), .job (.ofTask exitTask),
      .job (.ofTask (sampleTask .upload))]

/-- The last upload is queued before the exit job cancels the run. -/
def exitPrelude : List Event :=
  [.offer, .submit, .take 0, .accept 0, .start 0, .offer, .submit, .take 1, .accept 1, .start 1,
    .offer, .submit, .exit 1]

def exitAftermath : List Event :=
  [.answer 0 (.error .cancelled), .act 0, .act 0, .act 0, .take 0, .accept 0, .act 0, .act 0,
    .act 0, .act 1, .act 1, .act 1]

end Pool
end BulkTransfer
