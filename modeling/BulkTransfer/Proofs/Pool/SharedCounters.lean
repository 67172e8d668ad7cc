import BulkTransfer.Proofs.Pool.Changes
import BulkTransfer.Proofs.Pool.Families

/-!
# Shared counters

A job and its sub-jobs have counters in common.  These are changed with every result that is
sent but for the summaries of batches, and a batch keeps a group of its own that is told of
its items before or after that.  Both count the results in the log, so they agree when the
batch has its result, whatever order things happen in.
-/

namespace BulkTransfer
namespace Pool

/-!
## Summaries

Only a batch has a result with a summary, and that is sent when the batch is closed.
-/

theorem subJobs_answeredResult (item : Queued) (attempts : Nat)
    (answer : Except JobError Outcome) : (answeredResult item attempts answer).subJobs = none := by
  unfold answeredResult
  split <;> rfl

/-- Whether a party is about to send no result with a summary by itself. -/
def Phase.SendsNoSummary : Phase → Prop
  | .finishing actions => ∀ item result, .report item result ∈ actions → result.subJobs = none
  | _ => True

/-- Whether all results with summaries are those of batches. -/
structure SumsBatches (a : Activity) : Prop where
  phases : ∀ phase ∈ a.phases, phase.SendsNoSummary
  log : ∀ id role result, .reported id role result ∈ a.log → result.subJobs ≠ none →
    ∃ parent ∈ a.parents, parent.id = id ∧ parent.role = role

namespace SumsBatches

variable {a next : Activity} {taken started : List Queued}

theorem finishing_sendsNoSummary {item : Queued} {result : JobResult}
    (h : result.subJobs = none) : (Phase.finishing (finishing item result)).SendsNoSummary := by
  intro item' result' hmem
  rcases report_of_mem_finishing hmem with ⟨rfl, rfl⟩
  exact h

theorem shift_sendsNoSummary {cancelled : Bool} {phase phase' : Phase}
    (h : Shift cancelled phase phase') : phase'.SendsNoSummary := by
  cases h with
  | refuse item hcancelled => exact finishing_sendsNoSummary rfl
  | giveUpWaiting item attempt hcancelled => exact finishing_sendsNoSummary rfl
  | giveUpRested item attempt hcancelled => exact finishing_sendsNoSummary rfl
  | join batch => simp [Phase.SendsNoSummary]
  | _ => trivial

theorem phaseOf_sendsNoSummary {actions : List Action}
    (h : ∀ item result, .report item result ∈ actions → result.subJobs = none) :
    (phaseOf actions).SendsNoSummary := by
  cases actions with
  | nil => trivial
  | cons action actions => exact h

theorem phase_of_eq (h : SumsBatches a) {phase : Phase} {phases : Multiset Phase}
    (hphases : a.phases = phase ::ₘ phases) : phase.SendsNoSummary := by
  apply h.phases
  rw [hphases]
  exact Multiset.mem_cons_self _ _

theorem phases_turn (h : SumsBatches a) (hturn : Turn a taken started next) :
    ∀ phase ∈ next.phases, phase.SendsNoSummary := by
  have hphases := h.phases
  have hcons : ∀ {phase phase' : Phase} {phases : Multiset Phase}, a.phases = phase ::ₘ phases →
      phase'.SendsNoSummary → ∀ phase ∈ phase' ::ₘ phases, phase.SendsNoSummary := by
    intro phase phase' phases heq hphase'
    rw [heq, Multiset.forall_mem_cons] at hphases
    exact Multiset.forall_mem_cons.mpr ⟨hphase', hphases.2⟩
  cases hturn with
  | note entries hentries => exact hphases
  | cancel => exact hphases
  | take item phases heq => exact hcons heq trivial
  | shift phase phase' phases heq hshift => exact hcons heq (shift_sendsNoSummary hshift)
  | abort item phases heq hoperation => exact hcons heq trivial
  | launch item phases heq hoperation hbatch =>
      exact Multiset.forall_mem_cons.mpr ⟨trivial, hcons heq trivial⟩
  | call item phases heq hoperation hbatch => exact hcons heq trivial
  | exit item phases heq => exact hcons heq (finishing_sendsNoSummary rfl)
  | again item attempt error phases heq hretryable hattempt => exact hcons heq trivial
  | answer item attempt answer phases heq =>
      exact hcons heq (finishing_sendsNoSummary (subJobs_answeredResult item attempt answer))
  | retry item attempt phases heq => exact hcons heq trivial
  | act action actions phases further next heq hdeed =>
      refine hcons heq (phaseOf_sendsNoSummary ?_)
      intro item result hmem
      rcases List.mem_append.mp hmem with hfurther | hleft
      · exact absurd hfurther (Founded.report_mem_of_deed hdeed item result)
      · exact h.phase_of_eq heq item result (List.mem_cons_of_mem _ hleft)
  | list parent hparent => exact hphases
  | fault batch position parent error phases heq hparent =>
      refine hcons heq ?_
      intro item result hmem
      rw [List.mem_singleton, Action.report.injEq] at hmem
      rw [hmem.2]
      rfl

theorem log_turn (h : SumsBatches a) (hturn : Turn a taken started next) :
    ∀ id role result, .reported id role result ∈ next.log → result.subJobs ≠ none →
      ∃ parent ∈ next.parents, parent.id = id ∧ parent.role = role := by
  intro id role result hreported hsome
  have hbefore : .reported id role result ∈ a.log →
      ∃ parent ∈ next.parents, parent.id = id ∧ parent.role = role := by
    intro hmem
    rcases h.log id role result hmem hsome with ⟨parent, hparent, hname⟩
    rw [Founded.parents_eq_of_turn hturn]
    exact ⟨parent, List.mem_append_left _ hparent, hname⟩
  have hwrite : ∀ entry : Entry, entry.ticket? = none →
      .reported id role result ∈ a.log ++ [entry] →
        ∃ parent ∈ next.parents, parent.id = id ∧ parent.role = role := by
    intro entry hentry hmem
    rcases List.mem_append.mp hmem with hlog | hnew
    · exact hbefore hlog
    · rw [← List.mem_singleton.mp hnew] at hentry
      cases hentry
  cases hturn with
  | note entries hentries =>
      rcases List.mem_append.mp hreported with hmem | hnew
      · exact hbefore hmem
      · rcases hentries _ hnew with ⟨line, reading, hread⟩
        cases hread
  | call item phases heq hoperation hbatch => exact hwrite (.called item) rfl hreported
  | retry item attempt phases heq => exact hwrite (.called item) rfl hreported
  | list parent hparent => exact hwrite (.expanded parent) rfl hreported
  | act action actions phases further next heq hdeed =>
      cases hdeed with
      | report item result' =>
          rcases List.mem_append.mp hreported with hmem | hnew
          · exact hbefore hmem
          · rcases Entry.reported.inj (List.mem_singleton.mp hnew) with ⟨-, -, rfl⟩
            exact absurd (h.phase_of_eq heq item result List.mem_cons_self) hsome
      | close batch found hparent =>
          rcases List.mem_append.mp hreported with hmem | hnew
          · exact hbefore hmem
          · rcases Entry.reported.inj (List.mem_singleton.mp hnew) with ⟨rfl, rfl, -⟩
            exact ⟨found.parent, List.mem_of_getElem? hparent, rfl, rfl⟩
      | _ => exact hbefore hreported
  | _ => exact hbefore hreported

theorem turn (h : SumsBatches a) (hturn : Turn a taken started next) : SumsBatches next where
  phases := h.phases_turn hturn
  log := h.log_turn hturn

end SumsBatches

/-!
## Results that are counted
-/

/-- Whether a result is counted for the jobs of an identity, as a success or as a failure. -/
def Entry.countsFor (id : JobId) (success : Bool) : Entry → Bool
  | .reported id' _ result =>
      id' == id && result.subJobs.isNone && result.status != .cancelled &&
        result.status.isSuccess == success
  | _ => false

theorem Entry.countsFor_iff {id : JobId} {success : Bool} {entry : Entry} :
    entry.countsFor id success = true ↔
      ∃ role result, entry = .reported id role result ∧ result.subJobs = none ∧
        result.status ≠ .cancelled ∧ result.status.isSuccess = success := by
  constructor
  · intro htrue
    cases entry with
    | reported id' role result =>
        simp only [countsFor, Bool.and_eq_true, beq_iff_eq, bne_iff_ne, ne_eq,
          Option.isNone_iff_eq_none] at htrue
        rcases htrue with ⟨⟨⟨rfl, hnone⟩, hstatus⟩, hsuccess⟩
        exact ⟨role, result, rfl, hnone, hstatus, hsuccess⟩
    | _ => cases htrue
  · rintro ⟨role, result, rfl, hnone, hstatus, hsuccess⟩
    simp [countsFor, hnone, hstatus, hsuccess]

theorem Entry.countsFor_eq_false {entry : Entry} (h : entry.ticket? = none) (id : JobId)
    (success : Bool) : entry.countsFor id success = false := by
  cases entry with
  | reported id' role result => cases h
  | _ => rfl

/-- The results that are counted for the jobs of an identity. -/
def tallyOfLog (log : List Entry) (id : JobId) : Tally :=
  { succeeded := UInt32.ofNat (log.countP (Entry.countsFor id true)),
    failed := UInt32.ofNat (log.countP (Entry.countsFor id false)) }

theorem tallyOfLog_append {log added : List Entry} {id : JobId}
    (h : ∀ entry ∈ added, ∀ success, entry.countsFor id success = false) :
    tallyOfLog (log ++ added) id = tallyOfLog log id := by
  have hnone : ∀ success, added.countP (Entry.countsFor id success) = 0 := by
    intro success
    rw [List.countP_eq_zero]
    intro entry hentry
    rw [h entry hentry success]
    exact Bool.false_ne_true
  rw [tallyOfLog, List.countP_append, List.countP_append, hnone, hnone]
  rfl

theorem tallyOfLog_concat {log : List Entry} {id : JobId} {role : Role} {result : JobResult}
    (hnone : result.subJobs = none) (hstatus : result.status ≠ .cancelled) :
    tallyOfLog (log ++ [.reported id role result]) id =
      (tallyOfLog log id).record result.status.isSuccess := by
  have hcounts : ∀ success, Entry.countsFor id success (.reported id role result) =
      (result.status.isSuccess == success) := by
    intro success
    simp [Entry.countsFor, hnone, hstatus]
  rw [tallyOfLog, List.countP_append, List.countP_append, List.countP_singleton,
    List.countP_singleton, hcounts, hcounts]
  cases result.status.isSuccess with
  | true => simp [tallyOfLog, Tally.record, UInt32.ofNat_add]
  | false => simp [tallyOfLog, Tally.record, UInt32.ofNat_add]

namespace State

variable {config : PoolConfig} {submissions : List Submission} {state next : State}
  {events : List Event}

theorem sumsBatches_of_run (h : (initial config submissions).run events = some state) :
    SumsBatches state.activity := by
  refine run_turns (P := fun _ a => SumsBatches a) h ?_ ?_
  · rw [activity_initial]
    constructor
    · intro phase hphase
      rw [List.eq_of_mem_replicate (Multiset.mem_coe.mp hphase)]
      trivial
    · exact fun id role result hreported => absurd hreported List.not_mem_nil
  · intro taken started a taken' started' next _ _ hsums hturn
    exact hsums.turn hturn

/-!
## Counters tell results
-/

/-- A step at which nothing is taken off an agenda sends no result and counts none. -/
theorem sends_none_of_step {event : Event} (hact : ∀ worker, event ≠ .act worker)
    (hfeed : ∀ batch, event ≠ .feed batch) (h : state.step event = some next) :
    next.tallies = state.tallies ∧
      ∃ added, next.log = state.log ++ added ∧ ∀ entry ∈ added, entry.ticket? = none := by
  cases transition_of_step h with
  | act => exact absurd rfl (hact _)
  | feedActing | feedLeaving => exact absurd rfl (hfeed _)
  | readJob | readBlank | readFault | call | retry | list =>
      exact ⟨rfl, [_], List.reverse_cons, List.forall_mem_singleton.mpr rfl⟩
  | _ => exact ⟨rfl, [], (List.append_nil _).symm, List.forall_mem_nil _⟩

theorem tallyOf_congr (h : next.tallies = state.tallies) (id : JobId) :
    next.tallyOf id = state.tallyOf id := by
  rw [tallyOf, tallyOf, h]

/-- A result that is sent by itself is counted for its job alone. -/
theorem tallyOf_report (state : State) (item : Queued) {result : JobResult} {id : JobId}
    (hnone : result.subJobs = none) (htally : state.tallyOf id = tallyOfLog state.log id) :
    (state.report item result).tallyOf id = tallyOfLog (state.report item result).log id := by
  have hlog : (state.report item result).log =
      state.log ++ [.reported item.id item.role result] := log_write _ _
  rw [hlog]
  by_cases hstatus : result.status = .cancelled
  · rw [State.report, if_pos hstatus, tallyOfLog_append]
    · exact htally
    · intro entry hentry success
      rw [List.mem_singleton.mp hentry]
      simp [Entry.countsFor, hstatus]
  · rw [State.report, if_neg hstatus]
    by_cases hid : item.id = id
    · subst hid
      rw [tallyOfLog_concat hnone hstatus, ← htally]
      exact Std.HashMap.getD_insert_self
    · rw [tallyOfLog_append, ← htally]
      · change (state.tallies.insert item.id _).getD id {} = state.tallies.getD id {}
        rw [Std.HashMap.getD_insert, if_neg (by simpa using hid)]
      · intro entry hentry success
        rw [List.mem_singleton.mp hentry]
        simp [Entry.countsFor, hid]

/-- An action counts what it sends, but for the summary of a batch. -/
theorem tallyOf_of_performs {action : Action} {further : List Action} {id : JobId}
    (h : Performs state action next further)
    (hnone : ∀ item result, action = .report item result → result.subJobs = none)
    (htally : state.tallyOf id = tallyOfLog state.log id) :
    next.tallyOf id = tallyOfLog next.log id := by
  cases h with
  | report item result => exact tallyOf_report state item (hnone item result rfl) htally
  | close batch found hbatch =>
      rw [log_write, tallyOfLog_append]
      · exact htally
      · intro entry hentry success
        rw [List.mem_singleton.mp hentry]
        simp [Entry.countsFor, batchResult]
  | _ => exact htally

theorem tallyOf_step {event : Event} {id : JobId} (hsums : SumsBatches state.activity)
    (h : state.step event = some next) (htally : state.tallyOf id = tallyOfLog state.log id) :
    next.tallyOf id = tallyOfLog next.log id := by
  by_cases hevent : (∃ worker, event = .act worker) ∨ ∃ batch, event = .feed batch
  · rcases performs_of_step hevent h with
      ⟨action, actions, after, further, hperforms, -, hphase, hlike, hlog⟩
    rw [tallyOf_congr hlike.tallies, hlog]
    refine tallyOf_of_performs hperforms ?_ htally
    rintro item result rfl
    exact hsums.phases _ hphase item result List.mem_cons_self
  · rcases sends_none_of_step (fun worker heq => hevent (Or.inl ⟨worker, heq⟩))
      (fun batch heq => hevent (Or.inr ⟨batch, heq⟩)) h with ⟨htallies, added, hlog, hadded⟩
    rw [tallyOf_congr htallies, hlog, htally, tallyOfLog_append]
    exact fun entry hentry success => Entry.countsFor_eq_false (hadded entry hentry) id success

/-- The counters of a job are the numbers of results that are counted for it, modulo 2^32. -/
theorem tallyOf_of_run (h : (initial config submissions).run events = some state) (id : JobId) :
    state.tallyOf id = tallyOfLog state.log id := by
  refine run_induction (P := fun _ state => state.tallyOf id = tallyOfLog state.log id) h ?_ ?_
  · exact Std.HashMap.getD_empty
  · intro events last event next hrun hstep hlast
    exact tallyOf_step (sumsBatches_of_run hrun) hstep hlast

/-!
## The summary of a batch
-/

/-- The result of a batch has the tally of its group, which nothing changes any more. -/
theorem subJobs_of_reported (h : (initial config submissions).run events = some state)
    {batch : Nat} {found : Batch} (hfound : state.batches[batch]? = some found)
    {result : JobResult}
    (hreported : .reported found.parent.id found.parent.role result ∈ state.log) :
    result.subJobs = some found.group.tally := by
  have hclosed : ∀ batch account, state.overview.accounts[batch]? = some account →
      account.group.pending = 0 → state.overview.left (Action.isCloseOf batch) = 0 →
        ∃ cancelled, .reported account.parent.id account.parent.role (account.result cancelled) ∈
          state.overview.log := by
    refine run_moves (P := fun _ o => ∀ batch account, o.accounts[batch]? = some account →
      account.group.pending = 0 → o.left (Action.isCloseOf batch) = 0 →
        ∃ cancelled, .reported account.parent.id account.parent.role (account.result cancelled) ∈
          o.log) h (False.elim : False → _) ?_ ?_
    · rw [overview_initial]
      simp
    · intro marks o mark next hbalanced hbatches hmove
      refine Overview.closed_move hbalanced hmove ?_ ?_ hbatches
      · rintro account account' ⟨cancelled, hmem⟩ hparent hgroup
        refine ⟨cancelled, ?_⟩
        rw [Account.result, hparent, hgroup]
        exact (Overview.log_prefix_move hmove).subset hmem
      · intro account account' _ hmem hparent hgroup
        refine ⟨o.cancelled, ?_⟩
        rw [Account.result, hparent, hgroup]
        exact hmem
  have haccount := account_of_batch hfound
  rcases pending_of_reported h haccount hreported with ⟨hpending, hleft⟩
  rcases hclosed batch found.account haccount hpending hleft with ⟨cancelled, hresult⟩
  rw [eq_of_reported h hresult hreported]
  rfl

/-- A batch with a result has been started, or was cancelled before that. -/
theorem started_or_cancelled (h : (initial config submissions).run events = some state)
    {item : Queued} (hitem : item ∈ entrants ((initial config submissions).chronicle events))
    (hrole : item.role = .top) (hbatch : item.operation.isBatch = true) {result : JobResult}
    (hreported : .reported item.id .top result ∈ state.log) :
    item ∈ state.activity.parents ∨ result.status = .cancelled ∧ result.subJobs = none := by
  rw [← hrole] at hreported
  by_cases hparent : item ∈ state.activity.parents
  · exact Or.inl hparent
  · refine Or.inr ⟨?_, ?_⟩
    · rcases started_of_reported h hreported (by rw [hrole]; rfl) with
        hcancelled | ⟨item', hitem', hticket⟩
      · exact hcancelled
      · have heq := eq_of_name_eq h hitem (mem_entrants_of_start h hitem').1
          (congrArg Ticket.id hticket).symm (congrArg Ticket.role hticket).symm
        rw [parents_eq_starts h, ← heq] at hparent
        rw [← heq] at hbatch
        exact absurd (List.mem_filter.mpr ⟨hitem', hbatch⟩) hparent
    · by_contra hsome
      rcases (sumsBatches_of_run h).log _ _ _ hreported hsome with ⟨parent, hmem, hid, hname⟩
      rw [parent_eq_of_name_eq h hitem hmem hid hname] at hmem
      exact hparent hmem

/-- What is counted for a batch is a result of an item. -/
theorem exists_isOf_of_countsFor (h : (initial config submissions).run events = some state)
    {item : Queued} (hitem : item ∈ entrants ((initial config submissions).chronicle events))
    (hrole : item.role = .top) (hbatch : item.operation.isBatch = true) {success : Bool}
    {entry : Entry} (hentry : entry ∈ state.log)
    (hcounts : entry.countsFor item.id success = true) :
    ∃ role result batch, entry = .reported item.id role result ∧ role.isOf batch = true := by
  rcases Entry.countsFor_iff.mp hcounts with ⟨role, result, rfl, hnone, hstatus, -⟩
  cases role with
  | top =>
      rcases started_or_cancelled h hitem hrole hbatch hentry with hparent | ⟨hcancelled, -⟩
      · rcases exists_batch_of_parent hparent with ⟨batch, found, hfound, rfl⟩
        rw [← hrole] at hentry
        rw [subJobs_of_reported h hfound hentry] at hnone
        cases hnone
      · exact absurd hcancelled hstatus
  | member batch position =>
      exact ⟨.member batch position, result, batch, rfl, beq_self_eq_true batch⟩
  | entry batch position =>
      exact ⟨.entry batch position, result, batch, rfl, beq_self_eq_true batch⟩

/-- The results that are counted for a batch with a summary are those of its items, since
there is no other batch of the job. -/
theorem countP_countsFor (h : (initial config submissions).run events = some state)
    {batch : Nat} {found : Batch} (hfound : state.batches[batch]? = some found)
    (hrole : found.parent.role = .top) (hpending : found.group.pending = 0) (kind : Status)
    (success : Bool)
    (hkind : ∀ status : Status,
      status.isLike kind = true ↔ status ≠ .cancelled ∧ status.isSuccess = success) :
    state.log.countP (Entry.countsFor found.parent.id success) =
      state.log.countP (Entry.reports (ofBatch batch kind)) := by
  have hmem : found.parent ∈ state.activity.parents :=
    List.mem_map_of_mem (List.mem_of_getElem? hfound)
  have hparent := (founded_of_run h).parents found.parent hmem
  have hspent := (balanced_of_run h).spent
    ((Overview.pendingOf_eq (account_of_batch hfound)).trans hpending)
  apply List.countP_congr
  intro entry hentry
  constructor
  · intro htrue
    rcases exists_isOf_of_countsFor h (mem_entrants_of_start h hparent.1).1 hrole hparent.2
      hentry htrue with ⟨role, result, batch', rfl, hof⟩
    rcases exists_batch_of_reported h hentry hof with ⟨found', hfound', hid⟩
    rw [batch_eq_of_id_eq h hfound hrole hpending hfound' hid] at hof
    rcases Entry.countsFor_iff.mp htrue with ⟨role', result', heq, -, hstatus, hsuccess⟩
    rcases Entry.reported.inj heq with ⟨-, rfl, rfl⟩
    exact Bool.and_eq_true_iff.mpr ⟨hof, (hkind result.status).mpr ⟨hstatus, hsuccess⟩⟩
  · intro htrue
    cases entry with
    | reported id role result =>
        rcases Bool.and_eq_true_iff.mp htrue with ⟨hof, hlike⟩
        rcases exists_batch_of_reported h hentry hof with ⟨found', hfound', rfl⟩
        rw [hfound] at hfound'
        cases hfound'
        refine Entry.countsFor_iff.mpr ⟨role, result, rfl, ?_, (hkind result.status).mp hlike⟩
        -- no item of this batch is a batch, or it would still wait for it
        by_contra hsome
        rcases (sumsBatches_of_run h).log _ _ _ hentry hsome with ⟨parent, hparent, -, rfl⟩
        rw [← parents_overview] at hparent
        rcases List.mem_map.mp hparent with ⟨account, haccount, rfl⟩
        have hjob := ((present_of_run h).holds.parents account haccount).2
        rw [Overview.isOf_eq_false_of_isJob hjob (hspent.parents account haccount)] at hof
        cases hof
    | _ => cases htrue

theorem countP_countsFor_true (h : (initial config submissions).run events = some state)
    {batch : Nat} {found : Batch} (hfound : state.batches[batch]? = some found)
    (hrole : found.parent.role = .top) (hpending : found.group.pending = 0) :
    state.log.countP (Entry.countsFor found.parent.id true) =
      state.memberResults batch Status.isSuccess := by
  rw [countP_countsFor h hfound hrole hpending .succeeded true,
    countP_ofBatch (entriesFail_of_run h) Status.isLike_succeeded]
  · rfl
  · intro status
    cases status <;> decide

theorem countP_countsFor_false (h : (initial config submissions).run events = some state)
    {batch : Nat} {found : Batch} (hfound : state.batches[batch]? = some found)
    (hrole : found.parent.role = .top) (hpending : found.group.pending = 0) :
    state.log.countP (Entry.countsFor found.parent.id false) =
      state.memberResults batch (· == .failed) + state.entryResults batch := by
  rw [countP_countsFor h hfound hrole hpending .failed false,
    countP_ofBatch (entriesFail_of_run h) Status.isLike_failed]
  · rfl
  · intro status
    cases status <;> decide

/-- The counters of a batch that waits for nothing more are those of its group. -/
theorem tallyOf_eq_tally (h : (initial config submissions).run events = some state)
    {batch : Nat} {found : Batch} (hfound : state.batches[batch]? = some found)
    (hrole : found.parent.role = .top) (hpending : found.group.pending = 0) :
    state.tallyOf found.parent.id = found.group.tally := by
  rcases counters_eq h (account_of_batch hfound) hpending with ⟨hsucceeded, hfailed, -⟩
  rw [tallyOf_of_run h, tallyOfLog, countP_countsFor_true h hfound hrole hpending,
    countP_countsFor_false h hfound hrole hpending, ← hsucceeded, ← hfailed]
  rfl

/-- A job without a batch has no items. -/
theorem tallyOf_eq_empty (h : (initial config submissions).run events = some state)
    {item : Queued} (hitem : item ∈ entrants ((initial config submissions).chronicle events))
    (hrole : item.role = .top) (hbatch : item.operation.isBatch = true)
    (hparent : item ∉ state.activity.parents) : state.tallyOf item.id = {} := by
  have hnone : ∀ success, state.log.countP (Entry.countsFor item.id success) = 0 := by
    intro success
    rw [List.countP_eq_zero]
    intro entry hentry htrue
    rcases exists_isOf_of_countsFor h hitem hrole hbatch hentry htrue with
      ⟨role, result, batch, rfl, hof⟩
    rcases exists_batch_of_reported h hentry hof with ⟨found, hfound, hid⟩
    rcases exists_top_batch h hfound with ⟨root, top, htop, hrole', hid', -⟩
    have hmem : top.parent ∈ state.activity.parents :=
      List.mem_map_of_mem (List.mem_of_getElem? htop)
    rw [parent_eq_of_name_eq h hitem hmem (hid'.trans hid) (hrole'.trans hrole.symm)] at hmem
    exact hparent hmem
  rw [tallyOf_of_run h, tallyOfLog, hnone, hnone]
  rfl

/-- Once a batch has its result, its counters are those of the summary, and zero if there is
none. -/
theorem tallyOf_of_reported (h : (initial config submissions).run events = some state)
    {item : Queued} (hitem : item ∈ entrants ((initial config submissions).chronicle events))
    (hrole : item.role = .top) (hbatch : item.operation.isBatch = true) {result : JobResult}
    (hreported : .reported item.id .top result ∈ state.log) :
    state.tallyOf item.id = result.subJobs.getD {} := by
  by_cases hparent : item ∈ state.activity.parents
  · rcases exists_batch_of_parent hparent with ⟨batch, found, hfound, rfl⟩
    rw [← hrole] at hreported
    have hpending := (pending_of_reported h (account_of_batch hfound) hreported).1
    rw [subJobs_of_reported h hfound hreported]
    exact tallyOf_eq_tally h hfound hrole hpending
  · rcases started_or_cancelled h hitem hrole hbatch hreported with hmem | ⟨-, hnone⟩
    · exact absurd hmem hparent
    · rw [tallyOf_eq_empty h hitem hrole hbatch hparent, hnone]
      rfl

/-!
## Counters as numbers
-/

/-- Counters that do not overflow are numbers of results. -/
theorem toNat_tallyOf (h : (initial config submissions).run events = some state)
    {item : Queued} (hitem : item ∈ entrants ((initial config submissions).chronicle events))
    (hrole : item.role = .top) (hbatch : item.operation.isBatch = true)
    (hsize : state.matchesOf item.id < UInt32.size) :
    (state.tallyOf item.id).succeeded.toNat =
        state.log.countP (Entry.countsFor item.id true) ∧
      (state.tallyOf item.id).failed.toNat =
        state.log.countP (Entry.countsFor item.id false) := by
  have hle : ∀ success,
      state.log.countP (Entry.countsFor item.id success) < UInt32.size := fun success =>
    Nat.lt_of_le_of_lt (countP_le_matchesOf h fun entry hentry htrue =>
      exists_isOf_of_countsFor h hitem hrole hbatch hentry htrue) hsize
  rw [tallyOf_of_run h]
  exact ⟨UInt32.toNat_ofNat_of_lt' (hle true), UInt32.toNat_ofNat_of_lt' (hle false)⟩

/-- Counters do not go down as long as they do not overflow. -/
theorem tallyOf_mono {earlier : State} {before after : List Event}
    (hbefore : (initial config submissions).run before = some earlier)
    (hafter : earlier.run after = some state) {item : Queued}
    (hitem : item ∈ entrants ((initial config submissions).chronicle (before ++ after)))
    (hrole : item.role = .top) (hbatch : item.operation.isBatch = true)
    (hsize : state.matchesOf item.id < UInt32.size) :
    (earlier.tallyOf item.id).succeeded ≤ (state.tallyOf item.id).succeeded ∧
      (earlier.tallyOf item.id).failed ≤ (state.tallyOf item.id).failed := by
  have hstate := toNat_tallyOf ((run_append_iff hbefore).mpr hafter) hitem hrole hbatch hsize
  have hcount : ∀ success, earlier.log.countP (Entry.countsFor item.id success) ≤
      state.log.countP (Entry.countsFor item.id success) := fun success =>
    (log_prefix_of_run hbefore hafter).sublist.countP_le
  rw [UInt32.le_iff_toNat_le, UInt32.le_iff_toNat_le, hstate.1, hstate.2, tallyOf_of_run hbefore]
  constructor
  · exact le_trans (Nat.mod_le _ _) (hcount true)
  · exact le_trans (Nat.mod_le _ _) (hcount false)

/-- The results of the items of a batch are successes, failures and cancellations of sub-jobs,
and failures of entries. -/
theorem memberResults_add (h : (initial config submissions).run events = some state)
    {batch : Nat} {account : Account} (haccount : state.overview.accounts[batch]? = some account)
    (hpending : account.group.pending = 0) :
    state.memberResults batch Status.isSuccess +
        (state.memberResults batch (· == .failed) + state.entryResults batch) +
        state.memberResults batch (· == .cancelled) = account.received := by
  have hitems : state.log.countP (Entry.reports fun _ role _ => role.isOf batch) =
      state.log.countP (Entry.reports fun _ role _ => role.isMember batch) +
        state.entryResults batch := by
    apply countP_eq_add
    intro entry _
    cases entry with
    | reported id role result =>
        cases role <;> simp [Entry.reports, Role.isOf, Role.isMember, Role.isEntry]
    | _ => rfl
  have hmembers : state.log.countP (Entry.reports fun _ role _ => role.isMember batch) =
      state.memberResults batch Status.isSuccess +
        state.memberResults batch (fun status => !status.isSuccess) := by
    apply countP_eq_add
    intro entry _
    cases entry with
    | reported id role result =>
        change (if role.isMember batch then 1 else 0) =
          (if role.isMember batch && result.status.isSuccess then 1 else 0) +
            if role.isMember batch && !result.status.isSuccess then 1 else 0
        cases role.isMember batch <;> cases result.status.isSuccess <;> rfl
    | _ => rfl
  have hall := countP_isOf h haccount hpending
  rw [hitems, hmembers, memberResults_not_isSuccess] at hall
  omega

/-!
## Counters and summaries
-/

/-- Once the result of a batch is sent, its counters are those of the summary; there is none
if the batch was cancelled before it was started, and then they are zero.  As long as they do
not overflow, they tell how many sub-jobs succeeded and how many sub-jobs and entries failed,
and all other matches are cancelled sub-jobs.  They never go down then, and once the result is
sent they do not change any more. -/
theorem shared_counters_agree (h : (initial config submissions).run events = some state)
    {item : Queued} (hitem : item ∈ entrants ((initial config submissions).chronicle events))
    (hrole : item.role = .top) (hbatch : item.operation.isBatch = true) :
    (∀ result, .reported item.id .top result ∈ state.log →
      result.status = .cancelled ∧ result.subJobs = none ∧ state.tallyOf item.id = {} ∨
      ∃ batch found, state.batches[batch]? = some found ∧ found.parent = item ∧
        result.subJobs = some (state.tallyOf item.id) ∧
        state.matchesOf item.id = found.received ∧
        (found.received < UInt32.size →
          (state.tallyOf item.id).succeeded.toNat = state.memberResults batch Status.isSuccess ∧
          (state.tallyOf item.id).failed.toNat =
            state.memberResults batch (· == .failed) + state.entryResults batch ∧
          (state.tallyOf item.id).succeeded.toNat + (state.tallyOf item.id).failed.toNat +
            state.memberResults batch (· == .cancelled) = found.received)) ∧
    ∀ before after earlier, events = before ++ after →
      (initial config submissions).run before = some earlier →
        (state.matchesOf item.id < UInt32.size →
          (earlier.tallyOf item.id).succeeded ≤ (state.tallyOf item.id).succeeded ∧
            (earlier.tallyOf item.id).failed ≤ (state.tallyOf item.id).failed) ∧
        ∀ result, .reported item.id .top result ∈ earlier.log →
          state.tallyOf item.id = earlier.tallyOf item.id := by
  constructor
  · intro result hreported
    have htally := tallyOf_of_reported h hitem hrole hbatch hreported
    rcases started_or_cancelled h hitem hrole hbatch hreported with hparent | ⟨hstatus, hnone⟩
    · right
      rcases exists_batch_of_parent hparent with ⟨batch, found, hfound, rfl⟩
      rw [← hrole] at hreported
      have haccount := account_of_batch hfound
      have hpending := (pending_of_reported h haccount hreported).1
      have hmatches := matchesOf_eq_received h hfound hrole hpending
      refine ⟨batch, found, hfound, rfl, ?_, hmatches, ?_⟩
      · rw [htally, subJobs_of_reported h hfound hreported]
        rfl
      · intro hsize
        rcases toNat_tallyOf h hitem hrole hbatch (hmatches ▸ hsize) with ⟨hsucceeded, hfailed⟩
        rw [countP_countsFor_true h hfound hrole hpending] at hsucceeded
        rw [countP_countsFor_false h hfound hrole hpending] at hfailed
        refine ⟨hsucceeded, hfailed, ?_⟩
        rw [hsucceeded, hfailed]
        exact memberResults_add h haccount hpending
    · refine Or.inl ⟨hstatus, hnone, ?_⟩
      rw [htally, hnone]
      rfl
  · rintro before after earlier rfl hbefore
    have hafter := (run_append_iff hbefore).mp h
    refine ⟨tallyOf_mono hbefore hafter hitem hrole hbatch, ?_⟩
    intro result hreported
    have hearlier : item ∈ entrants ((initial config submissions).chronicle before) := by
      rcases exists_entrant_of_reported hbefore hreported with ⟨item', hitem', hid, hrole'⟩
      have hmem := mem_entrants_of_front hbefore hitem' after
      rwa [eq_of_name_eq h hitem hmem hid (hrole'.trans hrole.symm)] at hitem'
    have hstate := (log_prefix_of_run hbefore hafter).subset hreported
    rw [tallyOf_of_reported h hitem hrole hbatch hstate,
      tallyOf_of_reported hbefore hearlier hrole hbatch hreported]

end State

/-- The batch of the sample has the counters of its summary from its result on. -/
theorem shared_counters_agree_sample :
    ∃ earlier state result, sampleStart.run (sampleEvents.take 23) = some earlier ∧
      sampleStart.run sampleEvents = some state ∧
      .reported { submission := 0 } .top result ∈ earlier.log ∧
      result.subJobs = some (earlier.tallyOf { submission := 0 }) ∧
      (earlier.tallyOf { submission := 0 }).succeeded.toNat = 1 ∧
      (earlier.tallyOf { submission := 0 }).failed.toNat = 1 ∧
      state.tallyOf { submission := 0 } = earlier.tallyOf { submission := 0 } ∧
      (earlier.tallyOf { submission := 0 }).succeeded ≤
        (state.tallyOf { submission := 0 }).succeeded := by
  have hany : (sampleStart.run (sampleEvents.take 23)).any (fun earlier =>
      (earlier.batches.map Batch.received == [2] &&
        earlier.log.any (Entry.reports (ofTop { submission := 0 } .failed))) &&
      (earlier.memberResults 0 Status.isSuccess == 1 &&
        earlier.memberResults 0 (· == .failed) + earlier.entryResults 0 == 1)) = true := by
    decide
  have hany' : (sampleStart.run sampleEvents).any (fun state =>
      state.matchesOf { submission := 0 } == 2) = true := by
    decide
  have hentrant : (entrants (sampleStart.chronicle (sampleEvents.take 23))).any (fun item =>
      item.id == { submission := 0 } && item.role == .top && item.operation.isBatch) = true := by
    decide
  have hsplit : sampleEvents = sampleEvents.take 23 ++ sampleEvents.drop 23 :=
    (List.take_append_drop 23 sampleEvents).symm
  rcases (Option.any_eq_true _ _).mp hany with ⟨earlier, hrun, hearlier⟩
  rcases (Option.any_eq_true _ _).mp hany' with ⟨state, hrun', hmatches⟩
  rcases List.any_eq_true.mp hentrant with ⟨item, hitem, hname⟩
  simp only [Bool.and_eq_true, beq_iff_eq] at hearlier hmatches hname
  rcases hearlier with ⟨⟨hreceived, hlog⟩, hones, hone⟩
  rcases hname with ⟨⟨hid, hrole⟩, hbatch⟩
  have hitem' : item ∈ entrants (sampleStart.chronicle sampleEvents) := by
    rw [hsplit]
    exact State.mem_entrants_of_front hrun hitem _
  rw [← List.countP_pos_iff.trans List.any_eq_true.symm] at hlog
  rcases countP_reports_pos_iff.mp hlog with ⟨result, hreported, hfailed⟩
  have hagree := (State.shared_counters_agree hrun hitem hrole hbatch).1 result
  have hlater := (State.shared_counters_agree hrun' hitem' hrole hbatch).2 _ _ earlier hsplit hrun
  rw [hid] at hagree hlater
  rw [hmatches] at hlater
  rcases hagree hreported with ⟨hcancelled, -⟩ | ⟨batch, found, hfound, -, htally, -, hnumbers⟩
  · rw [hfailed] at hcancelled
    cases hcancelled
  · have hget : (earlier.batches.map Batch.received)[batch]? = some found.received := by
      rw [List.getElem?_map, hfound]
      rfl
    rw [hreceived, List.getElem?_singleton] at hget
    split at hget
    · rename_i hzero
      rw [← Option.some.inj hget, hzero, hones, hone] at hnumbers
      rcases hnumbers (by decide) with ⟨hsucceeded, hfailures, -⟩
      exact ⟨earlier, state, result, hrun, hrun', hreported, htally, hsucceeded, hfailures,
        hlater.2 result hreported, (hlater.1 (by decide)).1⟩
    · cases hget

end Pool
end BulkTransfer
