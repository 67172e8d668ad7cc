import BulkTransfer.Proofs.Pool.Closing
import BulkTransfer.Proofs.Pool.Continuations
import BulkTransfer.Proofs.Pool.Starts

/-!
# Causality

Results are sent by many parties, and each of them waits for room on its own.  Still the
result of a batch is behind those of everything that the batch has brought, and the result
of a continuation is behind that of the job that it continues.  A result is sent in one
step, so what is in front of it in the log is the log of the state before that step.
-/

namespace BulkTransfer
namespace Pool

/-!
## The step that sends a result
-/

/-- An element of two joined lists is in one of them, with what is in front of it there and
what is behind it. -/
theorem append_eq_append_cons {α : Type} {xs added front back : List α} {x : α}
    (h : xs ++ added = front ++ x :: back) :
    (∃ back', xs = front ++ x :: back') ∨
      ∃ front', added = front' ++ x :: back ∧ front = xs ++ front' := by
  rcases List.append_eq_append_iff.mp h with ⟨front', hfront, hadded⟩ | ⟨behind, hxs, hback⟩
  · exact Or.inr ⟨front', hadded, hfront⟩
  · cases behind with
    | nil =>
        rw [List.append_nil] at hxs
        rw [List.nil_append] at hback
        exact Or.inr ⟨[], hback.symm, by rw [hxs, List.append_nil]⟩
    | cons y behind =>
        rw [List.cons_append, List.cons.injEq] at hback
        rw [← hback.1] at hxs
        exact Or.inl ⟨behind, hxs⟩

namespace Overview

variable {trusted : Prop} {o next : Overview} {mark : Mark}

/-- A move that sends a result sends no other, brings nothing in, and leaves the batches
with the items that they had. -/
theorem Move.sends (hmove : Move trusted o mark next) :
    ∃ added, next.log = o.log ++ added ∧
      ((∀ entry ∈ added, entry.ticket? = none) ∨
        (∃ entry, added = [entry]) ∧ mark.entrants = [] ∧
          receivedOf next.accounts = receivedOf o.accounts) := by
  cases hmove with
  | note entries rejections submissions hentries hrejections hsubmissions =>
      exact ⟨entries, rfl, Or.inl hentries⟩
  | list batch account listing channel entries haccount hlisting hentries =>
      exact ⟨entries, rfl, Or.inl (ticket?_eq_none_of_expanded hentries)⟩
  | tell batch account item result haccount hnotice =>
      exact ⟨[.reported item.id item.role result], rfl,
        Or.inr ⟨⟨_, rfl⟩, rfl, receivedOf_set_of_eq haccount rfl⟩⟩
  | perform action actions agendas next further mark hagendas heffect =>
      cases heffect with
      | report item result =>
          exact ⟨[.reported item.id item.role result], rfl, Or.inr ⟨⟨_, rfl⟩, rfl, rfl⟩⟩
      | close batch account haccount =>
          exact ⟨[.reported account.parent.id account.parent.role (account.result o.cancelled)],
            rfl, Or.inr ⟨⟨_, rfl⟩, rfl, rfl⟩⟩
      | _ => exact ⟨[], (List.append_nil _).symm, Or.inl (List.forall_mem_nil _)⟩
  | _ => exact ⟨[], (List.append_nil _).symm, Or.inl (List.forall_mem_nil _)⟩

end Overview

namespace State

/-- A step of a run that sends a result. -/
structure Sends (start : State) (before : List Event) (event : Event) (last next : State)
    (entry : Entry) : Prop where
  run : start.run before = some last
  step : last.step event = some next
  log : next.log = last.log ++ [entry]
  entrants : (last.mark event).entrants = []
  received : Overview.receivedOf next.overview.accounts =
    Overview.receivedOf last.overview.accounts

variable {config : PoolConfig} {submissions : List Submission} {state last next : State}
  {events before : List Event} {event : Event} {front back : List Entry} {entry : Entry}
  {id : JobId} {role : Role} {result : JobResult}

theorem entrants_of_sends
    (h : (initial config submissions).Sends before event last next entry) :
    entrants ((initial config submissions).chronicle (before ++ [event])) =
      entrants ((initial config submissions).chronicle before) := by
  rw [chronicle_concat h.run h.step, entrants_append, entrants_singleton, h.entrants,
    List.append_nil]

/-- A run with a result in its log has come to a state in which all that is in front of the
result had happened, and sent it with the next step. -/
theorem exists_sends (h : (initial config submissions).run events = some state)
    (hlog : state.log = front ++ .reported id role result :: back) :
    ∃ before event last next after,
      (initial config submissions).Sends before event last next (.reported id role result) ∧
        last.log = front ∧ next.run after = some state := by
  refine run_induction (P := fun _ state => ∀ back,
    state.log = front ++ .reported id role result :: back →
      ∃ before event last next after,
        (initial config submissions).Sends before event last next (.reported id role result) ∧
          last.log = front ∧ next.run after = some state) h ?_ ?_ back hlog
  · intro back hback
    simp [initial, log] at hback
  · intro events last event next hrun hstep ih back hback
    have hmove := move_of_step (fun hfalse : False => hfalse.elim) (balanced_of_run hrun).telling
      hstep
    rcases hmove.sends with ⟨added, hadded, hsends⟩
    change next.log = last.log ++ added at hadded
    rw [hadded] at hback
    rcases append_eq_append_cons hback with ⟨back', hlast⟩ | ⟨front', hnew, hfront⟩
    · rcases ih back' hlast with ⟨before, event', last', next', after, hsends, hfront, hafter⟩
      exact ⟨before, event', last', next', after ++ [event], hsends, hfront,
        run_concat_of_step hafter hstep⟩
    · rcases hsends with hnone | ⟨⟨entry, hentry⟩, hentrants, hreceived⟩
      · have hmem : .reported id role result ∈ added := by
          rw [hnew]
          exact List.mem_append_right _ List.mem_cons_self
        exact absurd hmem (Overview.not_mem_of_ticket?_eq_none hnone)
      · rw [hentry] at hnew
        rcases List.singleton_eq_append_iff.mp hnew with ⟨rfl, hcons⟩ | ⟨-, hcons⟩
        · rw [List.cons.injEq] at hcons
          rw [hentry, ← hcons.1] at hadded
          rw [List.append_nil] at hfront
          exact ⟨events, event, last, next, [], ⟨hrun, hstep, hadded, hentrants, hreceived⟩,
            hfront.symm, rfl⟩
        · cases hcons

/-- What has a result has come in before the step that sends it. -/
theorem mem_entrants_of_sends
    (h : (initial config submissions).Sends before event last next (.reported id role result)) :
    ∃ item ∈ entrants ((initial config submissions).chronicle before),
      item.id = id ∧ item.role = role := by
  rw [← entrants_of_sends h]
  apply exists_entrant_of_reported (run_concat_of_step h.run h.step)
  rw [h.log]
  exact List.mem_append_right _ (List.mem_singleton_self _)

/-!
## Batches
-/

/-- A batch that has been started keeps its place and its parent. -/
theorem parents_of_run (hrun : last.run events = some state) :
    last.activity.parents <+: state.activity.parents := by
  refine run_induction (P := fun _ state => last.activity.parents <+: state.activity.parents) hrun
    List.prefix_rfl ?_
  intro events before event next _ hstep hbefore
  rw [Founded.parents_eq_of_turn (turn_of_step hstep)]
  exact hbefore.trans (List.prefix_append _ _)

theorem parent_of_run (hrun : last.run events = some state) {batch : Nat} {found : Batch}
    {account : Account} (hfound : state.batches[batch]? = some found)
    (haccount : last.overview.accounts[batch]? = some account) : account.parent = found.parent := by
  rw [accounts_getElem?] at haccount
  rcases Option.map_eq_some_iff.mp haccount with ⟨found', hfound', rfl⟩
  have hbefore : last.activity.parents[batch]? = some found'.parent := by
    rw [parents_getElem?, hfound']
    rfl
  have hparent := getElem?_of_prefix (parents_of_run hrun) hbefore
  rw [parents_getElem?, hfound] at hparent
  exact (Option.some.inj hparent).symm

/-- Once a batch has its result, each item that it has received has one. -/
theorem countP_isItem_of_reported (h : (initial config submissions).run events = some state)
    {batch position : Nat}
    (hposition : position < Overview.receivedOf state.overview.accounts batch)
    (hreported : ∀ account, state.overview.accounts[batch]? = some account →
      ∃ result, .reported account.parent.id account.parent.role result ∈ state.log) :
    state.log.countP (Entry.reports fun _ role _ => role.isItem batch position) = 1 := by
  cases haccount : state.overview.accounts[batch]? with
  | none =>
      rw [Overview.receivedOf, haccount] at hposition
      exact absurd hposition (Nat.not_lt_zero _)
  | some account =>
      rcases hreported account haccount with ⟨result, hresult⟩
      have hpending := (pending_of_reported h haccount hresult).1
      rw [Overview.receivedOf_eq haccount] at hposition
      rw [countP_isItem h haccount hpending, if_pos hposition]

/-- Nothing that a batch has brought has its result behind that of the batch. -/
theorem isOf_eq_false_behind (h : (initial config submissions).run events = some state)
    {batch : Nat} {found : Batch} (hfound : state.batches[batch]? = some found)
    {result' : JobResult} (hparent : .reported found.parent.id found.parent.role result' ∈ front)
    (hlog : state.log = front ++ .reported id role result :: back) : role.isOf batch = false := by
  rcases exists_sends h hlog with ⟨before, event, last, next, after, hsends, hfront, hafter⟩
  have hnext := run_concat_of_step hsends.run hsends.step
  have hlast : last.run (event :: after) = some state := by
    rw [run_cons, hsends.step]
    exact hafter
  by_contra htrue
  rcases Role.isOf_iff.mp (Bool.eq_true_of_not_eq_false htrue) with ⟨position, hitem⟩
  have hposition : position < Overview.receivedOf last.overview.accounts batch := by
    rcases mem_entrants_of_sends hsends with ⟨item, hmem, -, hrole⟩
    have hitems : 0 < Overview.itemsOf ((initial config submissions).chronicle before) batch
        position := List.countP_pos_iff.mpr ⟨item, hmem, by rw [hrole]; exact hitem⟩
    rw [(named_of_run hsends.run).received] at hitems
    by_contra hnot
    rw [if_neg hnot] at hitems
    exact absurd hitems (Nat.lt_irrefl 0)
  have hone : last.log.countP (Entry.reports fun _ role _ => role.isItem batch position) = 1 := by
    refine countP_isItem_of_reported hsends.run hposition ?_
    intro account haccount
    rw [parent_of_run hlast hfound haccount, hfront]
    exact ⟨result', hparent⟩
  have htwo : next.log.countP (Entry.reports fun _ role _ => role.isItem batch position) = 1 := by
    refine countP_isItem_of_reported hnext (by rwa [hsends.received]) ?_
    intro account haccount
    rw [parent_of_run hafter hfound haccount, hsends.log, hfront]
    exact ⟨result', List.mem_append_left _ hparent⟩
  rw [hsends.log, List.countP_append, hone, List.countP_singleton, Entry.reports, hitem] at htwo
  cases htwo

/-- Once a batch has its result, everything that it has brought has one. -/
theorem exists_reported_of_isOf (h : (initial config submissions).run events = some state)
    {batch : Nat} {account : Account} (haccount : state.overview.accounts[batch]? = some account)
    (hpending : account.group.pending = 0) {item : Queued}
    (hitem : item ∈ entrants ((initial config submissions).chronicle events))
    (hrole : item.role.isOf batch = true) :
    ∃ result, .reported item.id item.role result ∈ state.log := by
  have hbalanced := balanced_of_run h
  have hspent := hbalanced.spent (by rw [Overview.pendingOf_eq haccount, hpending])
  have hnot : ∀ ticket : Ticket, ticket.role.isOf batch = false →
      ticket.isNamed item.id item.role = false := by
    intro ticket hticket
    rw [Bool.eq_false_iff]
    intro hnamed
    rw [(Ticket.isNamed_iff.mp hnamed).1, hrole] at hticket
    cases hticket
  have hreceipts := Overview.countP_receipts_of_spent hbalanced (present_of_run h) hspent haccount
    (hbalanced.ended haccount hpending).1 hnot (accounted_of_run h _)
  have hpos : 0 < (entrants ((initial config submissions).chronicle events)).countP fun item' =>
      item'.ticket.isNamed item.id item.role :=
    List.countP_pos_iff.mpr ⟨item, hitem, Ticket.isNamed_iff.mpr ⟨rfl, rfl⟩⟩
  rw [← hreceipts] at hpos
  rcases List.countP_pos_iff.mp hpos with ⟨ticket, hticket, hnamed⟩
  rcases List.mem_filterMap.mp hticket with ⟨entry, hentry, hsome⟩
  cases entry with
  | reported id role result =>
      cases hsome
      rcases Ticket.isNamed_iff.mp hnamed with ⟨hrole', hid⟩
      rw [← hrole', ← hid]
      exact ⟨result, hentry⟩
  | _ => cases hsome

/-!
## Continuations
-/

/-- A continuation has come in behind the result that it is for. -/
theorem exists_reported_of_next (h : (initial config submissions).run events = some state)
    {item : Queued} (hitem : item ∈ entrants ((initial config submissions).chronicle events))
    (hrole : item.role = .top) {succeeded : Bool} (hid : item.id = id.next succeeded) :
    ∃ result, .reported id .top result ∈ state.log ∧ result.status.isSuccess = succeeded ∧
      result.status ≠ .cancelled := by
  refine run_induction (P := fun events state =>
    item ∈ entrants ((initial config submissions).chronicle events) →
      ∃ result, .reported id .top result ∈ state.log ∧ result.status.isSuccess = succeeded ∧
        result.status ≠ .cancelled) h ?_ ?_ hitem
  · exact fun hnone => absurd hnone List.not_mem_nil
  · intro events last event next hrun hstep ih hmem
    have hfront := log_prefix_of_step hrun hstep
    have hlast : ∃ result, .reported id .top result ∈ last.log ∧
        result.status.isSuccess = succeeded ∧ result.status ≠ .cancelled := by
      rw [chronicle_concat hrun hstep, entrants_append, entrants_singleton] at hmem
      rcases List.mem_append.mp hmem with hbefore | hnew
      · exact ih hbefore
      · rcases exists_settled_of_entrant hrun hstep hnew hrole hid with
          ⟨before, status, hmark, -, hrole', hid', hsucceeded, hstatus, -⟩
        rcases exists_reported_of_settled hrun hstep hmark hrole' with ⟨result, hreported, heq⟩
        rw [hid'] at hreported
        rw [← heq] at hsucceeded hstatus
        exact ⟨result, hreported, hsucceeded, hstatus⟩
    rcases hlast with ⟨result, hreported, hresult⟩
    exact ⟨result, hfront.subset hreported, hresult⟩

/-- A name that has a result has none behind it. -/
theorem not_reported_behind (h : (initial config submissions).run events = some state)
    (hlog : state.log = front ++ back) (hfront : .reported id role result ∈ front)
    (result' : JobResult) : .reported id role result' ∉ back := by
  intro hback
  have hone := countP_reports_le_one h id role
  have hname : ∀ result, Entry.reports (fun id' role' _ => role' == role && id' == id)
      (.reported id role result) = true := by
    intro result
    rw [Entry.reports, beq_self_eq_true, beq_self_eq_true]
    rfl
  have hfirst := List.countP_pos_iff.mpr ⟨_, hfront, hname result⟩
  have hsecond := List.countP_pos_iff.mpr ⟨_, hback, hname result'⟩
  rw [hlog, List.countP_append] at hone
  omega

/-!
## Results in order
-/

/-- In front of the result of a batch are the results of all its sub-jobs and failed entries,
of all that ever come in, and none of them is behind it.  In front of the result of a
continuation is the result of the job that it continues, with the outcome that it is for,
and that has no other result behind it. -/
theorem results_causal (h : (initial config submissions).run events = some state)
    (hlog : state.log = front ++ .reported id role result :: back) :
    (∀ batch found, state.batches[batch]? = some found → found.parent.id = id →
      found.parent.role = role →
        (∀ item ∈ entrants ((initial config submissions).chronicle events),
          item.role.isOf batch = true → ∃ result', .reported item.id item.role result' ∈ front) ∧
        ∀ id' role' result', .reported id' role' result' ∈ back → role'.isOf batch = false) ∧
    (∀ (before : JobId) succeeded, role = .top → id = before.next succeeded →
      (∃ result', .reported before .top result' ∈ front ∧
        result'.status.isSuccess = succeeded ∧ result'.status ≠ .cancelled) ∧
        ∀ result', .reported before .top result' ∉ .reported id role result :: back) := by
  constructor
  · rintro batch found hfound rfl rfl
    have hbehind : ∀ id' role' result', .reported id' role' result' ∈ back →
        role'.isOf batch = false := by
      intro id' role' result' hback
      rcases List.append_of_mem hback with ⟨between, behind, rfl⟩
      rw [← List.cons_append, ← List.append_assoc] at hlog
      exact isOf_eq_false_behind h hfound (List.mem_append_right _ List.mem_cons_self) hlog
    refine ⟨?_, hbehind⟩
    intro item hitem hrole
    have haccount : state.overview.accounts[batch]? = some found.account := by
      rw [accounts_getElem?, hfound]
      rfl
    have hreported : .reported found.parent.id found.parent.role result ∈ state.log := by
      rw [hlog]
      exact List.mem_append_right _ List.mem_cons_self
    have hpending := (pending_of_reported h haccount hreported).1
    rcases exists_reported_of_isOf h haccount hpending hitem hrole with ⟨result', hresult'⟩
    rw [hlog] at hresult'
    rcases List.mem_append.mp hresult' with hfront | hrest
    · exact ⟨result', hfront⟩
    · rcases List.mem_cons.mp hrest with heq | hback
      -- a batch is no item of its own
      · have hspent := (balanced_of_run h).spent
          (by rw [Overview.pendingOf_eq haccount]; exact hpending)
        have hmem := List.mem_of_getElem? haccount
        have hnot := Overview.isOf_eq_false_of_isJob
          ((present_of_run h).holds.parents _ hmem).2 (hspent.parents _ hmem)
        rw [(Entry.reported.inj heq).2.1] at hrole
        exact absurd hrole (Bool.eq_false_iff.mp hnot)
      · rw [hbehind _ _ _ hback] at hrole
        cases hrole
  · rintro before succeeded rfl rfl
    rcases exists_sends h hlog with ⟨earlier, event, last, next, after, hsends, hfront, hafter⟩
    rcases mem_entrants_of_sends hsends with ⟨item, hitem, hid, hrole⟩
    rcases exists_reported_of_next hsends.run hitem hrole hid with
      ⟨result', hreported, hsucceeded, hstatus⟩
    rw [hfront] at hreported
    exact ⟨⟨result', hreported, hsucceeded, hstatus⟩, not_reported_behind h hlog hreported⟩

end State

/-- The batch of the sample has its result behind a sub-job and a failed entry, and in front
of what follows its failure. -/
theorem results_causal_sample :
    ∃ state front middle back result next,
      sampleStart.run sampleEvents = some state ∧
      state.log = front ++ .reported { submission := 0 } .top result :: middle ++
        .reported { submission := 0, route := [false] } .top next :: back ∧
      (∃ result, .reported { submission := 0 } (.member 0 0) result ∈ front) ∧
      ∃ result, .reported { submission := 0 } (.entry 0 1) result ∈ front := by
  have hany : (sampleStart.run sampleEvents).any (fun state =>
      state.batches[0]?.any (fun found => found.parent.id == { submission := 0 } &&
        found.parent.role == .top) &&
      state.log.any (Entry.reports
        (ofTop { submission := 0, route := [false] } .succeeded))) = true := by
    decide
  have hmember : (entrants (sampleStart.chronicle sampleEvents)).any (fun item =>
      item.role == .member 0 0 && item.id == { submission := 0 }) = true := by
    decide
  have hentry : (entrants (sampleStart.chronicle sampleEvents)).any (fun item =>
      item.role == .entry 0 1 && item.id == { submission := 0 }) = true := by
    decide
  rcases (Option.any_eq_true _ _).mp hany with ⟨state, hrun, hstate⟩
  rcases List.any_eq_true.mp hmember with ⟨member, hmember, hname⟩
  rcases List.any_eq_true.mp hentry with ⟨entry, hentry, hname'⟩
  simp only [Bool.and_eq_true, Option.any_eq_true, beq_iff_eq] at hstate hname hname'
  rcases hstate with ⟨⟨found, hfound, hid, hrole⟩, hlog⟩
  rw [← List.countP_pos_iff.trans List.any_eq_true.symm] at hlog
  rcases countP_reports_pos_iff.mp hlog with ⟨next, hnext, -⟩
  rcases List.append_of_mem hnext with ⟨front', back, hlog⟩
  rcases ((State.results_causal hrun hlog).2 { submission := 0 } false rfl rfl).1 with
    ⟨result, hresult, -⟩
  rcases List.append_of_mem hresult with ⟨front, middle, rfl⟩
  have hitems := ((State.results_causal hrun (hlog.trans (List.append_assoc _ _ _))).1 0 found
    hfound hid hrole).1
  refine ⟨state, front, middle, back, result, next, hrun, hlog, ?_, ?_⟩
  · rw [← hname.1, ← hname.2]
    exact hitems member hmember (by rw [hname.1]; rfl)
  · rw [← hname'.1, ← hname'.2]
    exact hitems entry hentry (by rw [hname'.1]; rfl)

end Pool
end BulkTransfer
