import BulkTransfer.Proofs.Pool.Delivery

/-!
# Continuations

A continuation comes in behind the result that it is for, and nothing else brings one
in.  A job has one result, so it is followed once at most.  While a run is not
cancelled, what is to follow a result does follow it.
-/

namespace BulkTransfer
namespace Pool

namespace Overview

variable {trusted : Prop} {o next : Overview} {mark : Mark} {marks : List Mark}

/-!
## Runs that are not cancelled
-/

/-- Unless a run is cancelled, what is to follow a job follows it. -/
theorem successor_of_not_cancelled
    (h : o.cancelled = false → ∀ item status next', .settled item status next' ∈ marks →
      next' = item.successor status false)
    (hmove : Move trusted o mark next) (hcancelled : next.cancelled = false) (item : Queued)
    (status : Status) (next' : Option Queued)
    (hmark : .settled item status next' ∈ marks ++ [mark]) :
    next' = item.successor status false := by
  have hbefore : o.cancelled = false := by
    rw [Bool.eq_false_iff]
    intro htrue
    exact absurd (cancelled_move hmove htrue) (Bool.eq_false_iff.mp hcancelled)
  rcases List.mem_append.mp hmark with hmark | hmark
  · exact h hbefore item status next' hmark
  · rw [List.mem_singleton] at hmark
    subst hmark
    rw [← hbefore]
    exact hmove.settled_inv.2

end Overview

namespace State

variable {config : PoolConfig} {submissions : List Submission} {state : State}
  {events : List Event}

/-!
## Behind a result
-/

theorem told_ofTop (h : (initial config submissions).run events = some state) (id : JobId)
    (status : Status) :
    state.overview.Told ((initial config submissions).chronicle events) (ofTop id status) :=
  told_of_run h fun _ _ _ htrue => (ofTop_iff.mp htrue).1

/-- A top-level job that is settled has its result before. -/
theorem exists_reported_of_settled {last next : State} {event : Event} {item : Queued}
    {status : Status} {following : Option Queued}
    (h : (initial config submissions).run events = some last) (hstep : last.step event = some next)
    (hmark : last.mark event = .settled item status following) (hrole : item.role = .top) :
    ∃ result, .reported item.id .top result ∈ last.log ∧ result.status = status := by
  have hbalanced := balanced_of_run h
  have htold := told_ofTop h item.id status
  have hmove := move_of_step (fun hfalse : False => hfalse.elim) hbalanced.telling hstep
  rw [hmark] at hmove
  rcases hmove.settled_inv with ⟨⟨actions, agendas, hagendas⟩, -⟩
  have hsettles : Action.settles (ofTop item.id status) (.settle item status) = true :=
    ofTop_iff.mpr ⟨hrole, rfl, rfl⟩
  rw [Overview.Told, hagendas, Overview.headed_cons, List.head?_cons, Option.any_some,
    hsettles, if_pos rfl] at htold
  rw [← countP_reports_pos_iff, show last.log = last.overview.log from rfl, htold]
  omega

theorem successor_of_not_cancelled (h : (initial config submissions).run events = some state)
    (hcancelled : state.cancelled = false) {item : Queued} {status : Status}
    {following : Option Queued}
    (hmark : .settled item status following ∈ (initial config submissions).chronicle events) :
    following = item.successor status false := by
  refine run_moves (P := fun marks o => o.cancelled = false →
    ∀ item status following, .settled item status following ∈ marks →
      following = item.successor status false) h (False.elim : False → _) ?_ ?_
    hcancelled item status following hmark
  · exact fun _ _ _ _ hmark => absurd hmark List.not_mem_nil
  · intro marks o mark next _ hmarks hmove hnext
    exact Overview.successor_of_not_cancelled hmarks hmove hnext

/-!
## Names belong to one job
-/

theorem eq_of_name_eq (h : (initial config submissions).run events = some state)
    {item item' : Queued} (hitem : item ∈ entrants ((initial config submissions).chronicle events))
    (hitem' : item' ∈ entrants ((initial config submissions).chronicle events))
    (hid : item'.id = item.id) (hrole : item'.role = item.role) : item' = item := by
  apply List.inj_on_of_nodup_map (nodup_names h) hitem' hitem
  rw [hid, hrole]

/-- A top-level job that has its result has been settled with it when the pool is at rest. -/
theorem exists_settled_of_reported (h : (initial config submissions).run events = some state)
    (hrest : state.overview.IsAtRest) {item : Queued} {result : JobResult}
    (hitem : item ∈ entrants ((initial config submissions).chronicle events))
    (hrole : item.role = .top) (hreported : .reported item.id .top result ∈ state.log) :
    ∃ following, .settled item result.status following ∈
      (initial config submissions).chronicle events := by
  have htold := told_ofTop h item.id result.status
  have hlog : 0 < state.log.countP (Entry.reports (ofTop item.id result.status)) :=
    countP_reports_pos_iff.mpr ⟨result, hreported, rfl⟩
  rw [Overview.Told, hrest.agendas, Overview.headed_zero, Nat.add_zero,
    show state.overview.log = state.log from rfl] at htold
  rw [htold, settled, List.countP_pos_iff] at hlog
  rcases hlog with ⟨mark, hmark, hsettles⟩
  cases mark with
  | settled item' status following =>
      rcases ofTop_iff.mp hsettles with ⟨hrole', hid, rfl⟩
      have hitem' := ((present_of_run h).settled item' _ following hmark).1.1
      rw [eq_of_name_eq h hitem hitem' hid (hrole'.trans hrole.symm)] at hmark
      exact ⟨following, hmark⟩
  | _ => cases hsettles

/-!
## Where continuations come from
-/

/-- What comes in under the name of a continuation follows a job that is settled. -/
theorem exists_settled_of_entrant {last next : State} {event : Event} {item : Queued}
    {id : JobId} {succeeded : Bool} (h : (initial config submissions).run events = some last)
    (hstep : last.step event = some next) (hitem : item ∈ (last.mark event).entrants)
    (hrole : item.role = .top) (hid : item.id = id.next succeeded) :
    ∃ before status, last.mark event = .settled before status (some item) ∧
      before ∈ entrants ((initial config submissions).chronicle events) ∧
      before.role = .top ∧ before.id = id ∧ status.isSuccess = succeeded ∧
      status ≠ .cancelled ∧ before.job.continuation succeeded = some item.job := by
  have hmove := move_of_step (fun hfalse : False => hfalse.elim) (balanced_of_run h).telling hstep
  have hroute : item.id.route ≠ [] := by
    rw [hid]
    exact Overview.route_next_ne_nil id succeeded
  rcases hmove.entrant_inv hitem hrole hroute with ⟨before, status, hmark⟩
  have hmem : .settled before status (some item) ∈
      (initial config submissions).chronicle (events ++ [event]) := by
    rw [chronicle_concat h hstep, hmark]
    exact List.mem_append_right _ (List.mem_singleton_self _)
  have hrole' := role_eq_top_of_settled (run_concat_of_step h hstep) hmem
  rw [hmark] at hmove
  rcases hmove.settled_inv with ⟨⟨actions, agendas, hagendas⟩, hfollowing⟩
  rcases Queued.successor_eq_some hfollowing.symm with ⟨job, hstatus, hjob, hitem'⟩
  have hbefore := (present_of_run h).holds.settling _ (Overview.mem_agendas hagendas) before status
    List.mem_cons_self
  rw [hitem'] at hid
  rcases Overview.next_eq_next_iff.mp hid with ⟨hid', hsucceeded⟩
  refine ⟨before, status, hmark, hbefore.1, hrole', hid', hsucceeded, hstatus, ?_⟩
  rw [← hsucceeded, hjob, hitem']

theorem entrantsOf_next_add_le (h : (initial config submissions).run events = some state)
    (id : JobId) :
    Overview.entrantsOf ((initial config submissions).chronicle events) (id.next true) +
        Overview.entrantsOf ((initial config submissions).chronicle events) (id.next false) ≤
      1 := by
  rw [(named_of_run h).followed, (named_of_run h).followed]
  have hfollowers := followersOf_add_le h id
  have hsettled := settledOf_le h id
  have hentrants := entrantsOf_le_one h id
  omega

/-!
## What comes of continuations
-/

/-- When the pool is at rest, workers have taken every top-level job that came in once. -/
theorem takings_filter_eq (h : (initial config submissions).run events = some state)
    (hrest : state.overview.IsAtRest) {item : Queued}
    (hitem : item ∈ entrants ((initial config submissions).chronicle events))
    (hrole : item.role = .top) :
    (takings ((initial config submissions).chronicle events)).filter (fun taken =>
      taken.role == .top && taken.id == item.id) = [item] := by
  have htakings := takings_of_run h
  rw [hrest.waiting, add_zero, Multiset.coe_eq_coe] at htakings
  have hperm := htakings.filter fun taken => taken.role == .top && taken.id == item.id
  apply List.perm_singleton.mp
  refine hperm.trans (List.Perm.of_eq (eq_singleton_of_mem ?_ ?_))
  · refine List.mem_filter.mpr ⟨List.mem_filter.mpr ⟨hitem, ?_⟩, ?_⟩
    · rw [Queued.isJob, hrole]
    · rw [hrole, beq_self_eq_true, beq_self_eq_true]
      rfl
  · rw [← List.countP_eq_length_filter, List.countP_filter]
    refine le_trans (List.countP_mono_left ?_) (entrantsOf_le_one h item.id)
    intro taken _ htrue
    exact (Bool.and_eq_true_iff.mp htrue).1

/-!
## Continuations follow results
-/

/-- A continuation comes in behind a result of its job, a top-level one, that it is for;
a job has one continuation that comes in at most.  When a run that is not cancelled is
quiescent, what is to follow a result has been taken once and has one result itself. -/
theorem continuations_follow (h : (initial config submissions).run events = some state) :
    (∀ before event after last next, events = before ++ event :: after →
      (initial config submissions).run before = some last →
      next ∈ (last.mark event).entrants → next.role = .top →
      ∀ (id : JobId) succeeded, next.id = id.next succeeded →
        ∃ item result,
          item ∈ entrants ((initial config submissions).chronicle before) ∧ item.role = .top ∧
          item.id = id ∧ item.job.continuation succeeded = some next.job ∧
          .reported id .top result ∈ last.log ∧ result.status.isSuccess = succeeded ∧
          result.status ≠ .cancelled) ∧
    (∀ id : JobId,
      Overview.entrantsOf ((initial config submissions).chronicle events) (id.next true) +
        Overview.entrantsOf ((initial config submissions).chronicle events) (id.next false) ≤
          1) ∧
    (state.isQuiescent = true → state.cancelled = false →
      ∀ item ∈ entrants ((initial config submissions).chronicle events), item.role = .top →
      ∀ result, .reported item.id .top result ∈ state.log → result.status ≠ .cancelled →
      ∀ job, item.job.continuation result.status.isSuccess = some job →
        ((takings ((initial config submissions).chronicle events)).filter fun taken =>
          taken.role == .top && taken.id == item.id.next result.status.isSuccess).map Queued.job =
            [job] ∧
        (receipts state.log).countP (fun ticket =>
          ticket.role == .top && ticket.id == item.id.next result.status.isSuccess) = 1) := by
  refine ⟨?_, entrantsOf_next_add_le h, ?_⟩
  · intro before event after last next hevents hbefore hnext hrole id succeeded hid
    rw [hevents] at h
    rcases exists_step_of_run h hbefore with ⟨behind, hstep⟩
    rcases exists_settled_of_entrant hbefore hstep hnext hrole hid with
      ⟨item, status, hmark, hitem, hrole', hid', hsucceeded, hstatus, hjob⟩
    rcases exists_reported_of_settled hbefore hstep hmark hrole' with ⟨result, hreported, hresult⟩
    rw [hid'] at hreported
    rw [← hresult] at hsucceeded hstatus
    exact ⟨item, result, hitem, hrole', hid', hjob, hreported, hsucceeded, hstatus⟩
  · intro hquiescent hcancelled item hitem hrole result hreported hstatus job hjob
    have hrest := isAtRest_of_isQuiescent h hquiescent
    rcases exists_settled_of_reported h hrest hitem hrole hreported with ⟨following, hmark⟩
    have hfollowing := successor_of_not_cancelled h hcancelled hmark
    rw [Queued.successor_of_continuation hstatus hjob] at hfollowing
    rw [hfollowing] at hmark
    have hnext := mem_entrants_of_mem hmark (List.mem_singleton_self _)
    constructor
    · rw [takings_filter_eq h hrest hnext rfl]
      rfl
    · exact countP_receipts_eq_one h hrest hnext

end State

/-- What follows the failure of the batch has been taken once. -/
theorem continuations_follow_sample :
    ∃ state, sampleStart.run sampleEvents = some state ∧ state.isQuiescent = true ∧
      state.cancelled = false ∧
      ((takings (sampleStart.chronicle sampleEvents)).filter fun taken =>
        taken.role == .top && taken.id == { submission := 0, route := [false] }).map Queued.job =
          [.ofTask (sampleTask .upload)] := by
  have hany : (sampleStart.run sampleEvents).any (fun state =>
      state.isQuiescent && (!state.cancelled &&
        state.log.any (Entry.reports (ofTop { submission := 0 } .failed)))) = true := by
    decide
  rcases (Option.any_eq_true _ _).mp hany with ⟨state, hrun, hstate⟩
  simp only [Bool.and_eq_true, Bool.not_eq_true'] at hstate
  rcases hstate with ⟨hquiescent, hcancelled, hfailed⟩
  rw [← List.countP_pos_iff.trans List.any_eq_true.symm] at hfailed
  rcases countP_reports_pos_iff.mp hfailed with ⟨result, hreported, hstatus⟩
  have hbatch : { job := sampleBatch, id := { submission := 0 } } ∈
      entrants (sampleStart.chronicle sampleEvents) := by
    have hmark : .entered { job := sampleBatch, id := { submission := 0 } } ∈
        sampleStart.chronicle sampleEvents :=
      List.mem_cons_of_mem _ List.mem_cons_self
    exact mem_entrants_of_mem hmark (List.mem_singleton_self _)
  have hfollow := (State.continuations_follow hrun).2.2 hquiescent hcancelled _ hbatch rfl result
    hreported
  rw [hstatus] at hfollow
  exact ⟨state, hrun, hquiescent, hcancelled, (hfollow (by decide) _ rfl).1⟩

end Pool
end BulkTransfer
