import BulkTransfer.Proofs.Pool.Activity
import BulkTransfer.Proofs.Pool.Continuations

/-!
# Jobs that are started

A worker starts a job once, after it has taken it.  Whatever calls the executor, lists
the tasks of a batch or earns a result other than cancellation is a job that has been
started; only a failed entry of a batch has a result without that.
-/

namespace BulkTransfer
namespace Pool

namespace Phase

/-- The job that a worker has taken and not started yet. -/
def unstarted : Phase → Multiset Queued
  | .holding item | .accepted item => {item}
  | _ => 0

end Phase

theorem unstarted_phaseOf (actions : List Action) : (phaseOf actions).unstarted = 0 := by
  cases actions <;> rfl

/-- Whether it is the role of a failed entry. -/
def Role.isFault : Role → Bool
  | .entry _ _ => true
  | _ => false

theorem Queued.isFault_of_isJob {item : Queued} (h : item.isJob = true) :
    item.role.isFault = false := by
  unfold Queued.isJob at h
  cases hrole : item.role with
  | entry batch position =>
      rw [hrole] at h
      cases h
  | _ => rfl

/-- Whether a result is one that a job that was started or a failed entry can have. -/
def Earned (started parents : List Queued) (id : JobId) (role : Role) (result : JobResult) :
    Prop :=
  match role with
  | .entry batch _ =>
      ∃ parent error, parents[batch]? = some parent ∧ result = entryResult parent error
  | _ => result.status = .cancelled ∨ ∃ item ∈ started, ticketOf id role result = item.ticket

theorem earned_of_isJob {started parents : List Queued} {item : Queued} {result : JobResult}
    (hjob : item.isJob = true)
    (h : result.status = .cancelled ∨
      ∃ item' ∈ started, ticketOf item.id item.role result = item'.ticket) :
    Earned started parents item.id item.role result := by
  unfold Queued.isJob at hjob
  unfold Earned
  split
  · rename_i hrole
    rw [hrole] at hjob
    cases hjob
  · exact h

theorem Earned.mono {started parents started' parents' : List Queued} {id : JobId} {role : Role}
    {result : JobResult} (h : Earned started parents id role result) :
    Earned (started ++ started') (parents ++ parents') id role result := by
  cases role with
  | entry batch position =>
      rcases h with ⟨parent, error, hparent, hresult⟩
      exact ⟨parent, error, getElem?_of_prefix (List.prefix_append _ _) hparent, hresult⟩
  | _ =>
      rcases h with hcancelled | ⟨item, hitem, hticket⟩
      · exact Or.inl hcancelled
      · exact Or.inr ⟨item, List.mem_append_left _ hitem, hticket⟩

theorem report_of_mem_finishing {item item' : Queued} {result result' : JobResult}
    (h : .report item' result' ∈ finishing item result) :
    item' = item ∧ result' = { result with isSubJob := item.role != .top } := by
  unfold finishing at h
  split at h <;> simpa using h

/-- Whether all that a party is at goes back to jobs that have been started. -/
def Phase.IsFounded (started parents : List Queued) : Phase → Prop
  | .idle | .holding _ | .accepted _ => True
  | .exiting item => item ∈ started ∧ item.operation = .abort
  | .attempting item attempt | .waiting item attempt | .rested item attempt =>
      item ∈ started ∧ item.operation.isBatch = false ∧ 1 ≤ attempt
  | .finishing actions => ∀ item result, .report item result ∈ actions →
      Earned started parents item.id item.role result

/-- Whether an entry of the log goes back to a job that has been started. -/
def Entry.IsFounded (started parents : List Queued) : Entry → Prop
  | .called item | .expanded item => item ∈ started
  | .reported id role result => Earned started parents id role result
  | .read _ _ => True

theorem Phase.IsFounded.mono {started parents started' parents' : List Queued} {phase : Phase}
    (h : phase.IsFounded started parents) :
    phase.IsFounded (started ++ started') (parents ++ parents') := by
  cases phase with
  | idle | holding | accepted => trivial
  | exiting item => exact ⟨List.mem_append_left _ h.1, h.2⟩
  | attempting item attempt | waiting item attempt | rested item attempt =>
      exact ⟨List.mem_append_left _ h.1, h.2⟩
  | finishing actions => exact fun item result hmem => (h item result hmem).mono

theorem Entry.IsFounded.mono {started parents started' parents' : List Queued} {entry : Entry}
    (h : entry.IsFounded started parents) :
    entry.IsFounded (started ++ started') (parents ++ parents') := by
  cases entry with
  | called item | expanded item => exact List.mem_append_left _ h
  | reported id role result => exact Earned.mono h
  | read line reading => trivial

structure Founded (taken started : List Queued) (a : Activity) : Prop where
  /-- a job is started at most as often as it is taken -/
  within : (started : Multiset Queued) + a.phases.bind Phase.unstarted ≤ (taken : Multiset Queued)
  parents : ∀ parent ∈ a.parents, parent ∈ started ∧ parent.operation.isBatch = true
  phases : ∀ phase ∈ a.phases, phase.IsFounded started a.parents
  log : ∀ entry ∈ a.log, entry.IsFounded started a.parents

namespace Founded

variable {a next : Activity} {taken started taken' started' : List Queued}

theorem mem_taken (h : Founded taken started a) {item : Queued} (hitem : item ∈ started) :
    item ∈ taken :=
  Multiset.mem_of_le h.within (Multiset.mem_add.mpr (Or.inl hitem))

theorem unstarted_mem_taken (h : Founded taken started a) {phase : Phase}
    (hphase : phase ∈ a.phases) {item : Queued} (hitem : item ∈ phase.unstarted) : item ∈ taken :=
  Multiset.mem_of_le h.within
    (Multiset.mem_add.mpr (Or.inr (Multiset.mem_bind.mpr ⟨phase, hphase, hitem⟩)))

theorem phase_of_eq (h : Founded taken started a) {phase : Phase} {phases : Multiset Phase}
    (hphases : a.phases = phase ::ₘ phases) : phase.IsFounded started a.parents := by
  apply h.phases
  rw [hphases]
  exact Multiset.mem_cons_self _ _

/-!
## Every turn is founded
-/

theorem finishing_isFounded {parents : List Queued} {item : Queued} {result : JobResult}
    (hjob : item.isJob = true)
    (h : result.status = .cancelled ∨
      item ∈ started ∧ ticketOf item.id item.role result = item.ticket) :
    (Phase.finishing (finishing item result)).IsFounded started parents := by
  intro item' result' hmem
  rcases report_of_mem_finishing hmem with ⟨rfl, rfl⟩
  apply earned_of_isJob hjob
  rcases h with hcancelled | ⟨hitem, hticket⟩
  · exact Or.inl hcancelled
  · exact Or.inr ⟨item', hitem, hticket⟩

theorem phaseOf_isFounded {parents : List Queued} {actions : List Action}
    (h : ∀ item result, .report item result ∈ actions →
      Earned started parents item.id item.role result) :
    (phaseOf actions).IsFounded started parents := by
  cases actions with
  | nil => trivial
  | cons action actions => exact h

theorem shift_unstarted_le {cancelled : Bool} {phase phase' : Phase}
    (h : Shift cancelled phase phase') : phase'.unstarted ≤ phase.unstarted := by
  cases h <;> simp [Phase.unstarted]

/-- A job that is started or taken up was taken before, or is taken with the turn. -/
theorem unstarted_turn (hturn : Turn a taken' started' next) :
    (started' : Multiset Queued) + next.phases.bind Phase.unstarted ≤
      (taken' : Multiset Queued) + a.phases.bind Phase.unstarted := by
  cases hturn with
  | note entries hentries => exact le_rfl
  | cancel => exact le_rfl
  | take item phases hphases => simp [hphases, Phase.unstarted]
  | shift phase phase' phases hphases hshift =>
      rw [hphases, Multiset.cons_bind, Multiset.cons_bind]
      exact Multiset.add_le_add_left (Multiset.add_le_add_right (shift_unstarted_le hshift))
  | act action actions phases further next hphases hdeed =>
      rw [hphases, Multiset.cons_bind, Multiset.cons_bind, unstarted_phaseOf]
      simp
  | list parent hparent => exact le_rfl
  | abort item phases hphases hoperation => simp [hphases, Phase.unstarted]
  | launch item phases hphases hoperation hbatch => simp [hphases, Phase.unstarted]
  | call item phases hphases hoperation hbatch => simp [hphases, Phase.unstarted]
  | exit item phases hphases => simp [hphases, Phase.unstarted]
  | again item attempt error phases hphases hretryable hattempt =>
      simp [hphases, Phase.unstarted]
  | answer item attempt answer phases hphases => simp [hphases, Phase.unstarted]
  | retry item attempt phases hphases => simp [hphases, Phase.unstarted]
  | fault batch position parent error phases hphases hparent => simp [hphases, Phase.unstarted]

theorem within_turn (h : Founded taken started a) (hturn : Turn a taken' started' next) :
    ((started ++ started' : List Queued) : Multiset Queued) + next.phases.bind Phase.unstarted ≤
      ((taken ++ taken' : List Queued) : Multiset Queued) := by
  rw [← Multiset.coe_add, ← Multiset.coe_add]
  calc (started : Multiset Queued) + started' + next.phases.bind Phase.unstarted
      = started + (started' + next.phases.bind Phase.unstarted) := add_assoc _ _ _
    _ ≤ started + (taken' + a.phases.bind Phase.unstarted) :=
        Multiset.add_le_add_left (unstarted_turn hturn)
    _ = taken' + (started + a.phases.bind Phase.unstarted) := add_left_comm _ _ _
    _ ≤ taken' + taken := Multiset.add_le_add_left h.within
    _ = taken + taken' := add_comm _ _

theorem parents_eq_of_turn (hturn : Turn a taken' started' next) :
    next.parents = a.parents ++ started'.filter fun item => item.operation.isBatch := by
  cases hturn with
  | abort item phases hphases hoperation => simp [hoperation, Operation.isBatch]
  | launch item phases hphases hoperation hbatch => simp [hbatch]
  | call item phases hphases hoperation hbatch => simp [hbatch]
  | act action actions phases further next hphases hdeed => cases hdeed <;> simp
  | _ => simp

theorem parents_turn (h : Founded taken started a) (hturn : Turn a taken' started' next) :
    ∀ parent ∈ next.parents, parent ∈ started ++ started' ∧ parent.operation.isBatch = true := by
  intro parent hparent
  rw [parents_eq_of_turn hturn] at hparent
  rcases List.mem_append.mp hparent with hparent | hparent
  · exact ⟨List.mem_append_left _ (h.parents parent hparent).1, (h.parents parent hparent).2⟩
  · rcases List.mem_filter.mp hparent with ⟨hstarted, hbatch⟩
    exact ⟨List.mem_append_right _ hstarted, hbatch⟩

theorem phases_mono (h : Founded taken started a) (hturn : Turn a taken' started' next)
    {phase : Phase} (hphase : phase ∈ a.phases) :
    phase.IsFounded (started ++ started') next.parents := by
  rw [parents_eq_of_turn hturn]
  exact (h.phases phase hphase).mono

theorem log_mono (h : Founded taken started a) (hturn : Turn a taken' started' next)
    {entry : Entry} (hentry : entry ∈ a.log) :
    entry.IsFounded (started ++ started') next.parents := by
  rw [parents_eq_of_turn hturn]
  exact (h.log entry hentry).mono

theorem shift_isFounded {cancelled : Bool} {parents : List Queued} {phase phase' : Phase}
    (h : Shift cancelled phase phase') (hphase : phase.IsFounded started parents)
    (hstarted : ∀ item ∈ started, item.isJob = true)
    (hunstarted : ∀ item ∈ phase.unstarted, item.isJob = true) :
    phase'.IsFounded started parents := by
  cases h with
  | accept item hcancelled => trivial
  | refuse item hcancelled =>
      exact finishing_isFounded (hunstarted item (Multiset.mem_singleton_self item)) (Or.inl rfl)
  | rest item attempt hcancelled => exact hphase
  | giveUpWaiting item attempt hcancelled =>
      exact finishing_isFounded (hstarted item hphase.1) (Or.inl rfl)
  | giveUpRested item attempt hcancelled =>
      exact finishing_isFounded (hstarted item hphase.1) (Or.inl rfl)
  | join batch => simp [Phase.IsFounded]

theorem report_mem_of_deed {action : Action} {further : List Action}
    (hdeed : Deed a action further next) (item : Queued) (result : JobResult) :
    .report item result ∉ further := by
  cases hdeed with
  | tally batch status complete => cases complete <;> simp
  | _ => simp

theorem phases_turn (h : Founded taken started a) (hjobs : ∀ item ∈ taken, item.isJob = true)
    (hturn : Turn a taken' started' next) :
    ∀ phase ∈ next.phases, phase.IsFounded (started ++ started') next.parents := by
  have hmono : ∀ phase ∈ a.phases, phase.IsFounded (started ++ started') next.parents :=
    fun phase hphase => h.phases_mono hturn hphase
  have hstarted : ∀ item ∈ started, item.isJob = true := fun item hitem =>
    hjobs item (h.mem_taken hitem)
  have hcons : ∀ {phase phase' : Phase} {phases : Multiset Phase}, a.phases = phase ::ₘ phases →
      phase'.IsFounded (started ++ started') next.parents →
        ∀ phase ∈ phase' ::ₘ phases, phase.IsFounded (started ++ started') next.parents := by
    intro phase phase' phases hphases hphase'
    rw [hphases, Multiset.forall_mem_cons] at hmono
    exact Multiset.forall_mem_cons.mpr ⟨hphase', hmono.2⟩
  cases hturn with
  | note entries hentries => exact hmono
  | cancel => exact hmono
  | take item phases hphases => exact hcons hphases trivial
  | shift phase phase' phases hphases hshift =>
      -- a job that is refused has not been started, but it has been taken
      have hmem : phase ∈ a.phases := by
        rw [hphases]
        exact Multiset.mem_cons_self _ _
      rw [List.append_nil]
      rw [List.append_nil] at hcons
      exact hcons hphases (shift_isFounded hshift (h.phases phase hmem) hstarted
        fun item hitem => hjobs item (h.unstarted_mem_taken hmem hitem))
  | abort item phases hphases hoperation =>
      exact hcons hphases ⟨List.mem_append_right _ List.mem_cons_self, hoperation⟩
  | launch item phases hphases hoperation hbatch =>
      exact Multiset.forall_mem_cons.mpr ⟨trivial, hcons hphases trivial⟩
  | call item phases hphases hoperation hbatch =>
      exact hcons hphases ⟨List.mem_append_right _ List.mem_cons_self, hbatch, le_rfl⟩
  | exit item phases hphases =>
      have hitem := (h.phase_of_eq hphases).1
      refine hcons hphases (finishing_isFounded (hstarted item hitem) (Or.inr ⟨?_, rfl⟩))
      exact List.mem_append_left _ hitem
  | again item attempt error phases hphases hretryable hattempt =>
      have hphase := h.phase_of_eq hphases
      exact hcons hphases ⟨List.mem_append_left _ hphase.1, hphase.2⟩
  | answer item attempt answer phases hphases =>
      have hitem := (h.phase_of_eq hphases).1
      refine hcons hphases (finishing_isFounded (hstarted item hitem)
        (Or.inr ⟨?_, ticketOf_answeredResult item attempt answer⟩))
      exact List.mem_append_left _ hitem
  | retry item attempt phases hphases =>
      have hphase := h.phase_of_eq hphases
      exact hcons hphases
        ⟨List.mem_append_left _ hphase.1, hphase.2.1, Nat.le_succ_of_le hphase.2.2⟩
  | act action actions phases further next hphases hdeed =>
      have hphase : (Phase.finishing (action :: actions)).IsFounded (started ++ []) next.parents :=
        hmono _ (by
          rw [hphases]
          exact Multiset.mem_cons_self _ _)
      refine hcons hphases (phaseOf_isFounded ?_)
      intro item result hmem
      rcases List.mem_append.mp hmem with hfurther | hleft
      · exact absurd hfurther (report_mem_of_deed hdeed item result)
      · exact hphase item result (List.mem_cons_of_mem _ hleft)
  | list parent hparent => exact hmono
  | fault batch position parent error phases hphases hparent =>
      refine hcons hphases ?_
      intro item result hmem
      rw [List.mem_singleton, Action.report.injEq] at hmem
      rcases hmem with ⟨rfl, rfl⟩
      exact ⟨parent, error, hparent, rfl⟩

theorem log_turn (h : Founded taken started a) (hjobs : ∀ item ∈ taken, item.isJob = true)
    (hturn : Turn a taken' started' next) :
    ∀ entry ∈ next.log, entry.IsFounded (started ++ started') next.parents := by
  have hmono : ∀ entry ∈ a.log, entry.IsFounded (started ++ started') next.parents :=
    fun entry hentry => h.log_mono hturn hentry
  have hconcat : ∀ entry, entry.IsFounded (started ++ started') next.parents →
      ∀ entry' ∈ a.log ++ [entry], entry'.IsFounded (started ++ started') next.parents :=
    fun entry hentry =>
      List.forall_mem_append.mpr ⟨hmono, List.forall_mem_singleton.mpr hentry⟩
  cases hturn with
  | note entries hentries =>
      refine List.forall_mem_append.mpr ⟨hmono, ?_⟩
      intro entry hentry
      rcases hentries entry hentry with ⟨line, reading, rfl⟩
      trivial
  | call item phases hphases hoperation hbatch =>
      exact hconcat (.called item) (List.mem_append_right _ List.mem_cons_self)
  | retry item attempt phases hphases =>
      exact hconcat (.called item) (List.mem_append_left _ (h.phase_of_eq hphases).1)
  | list parent hparent =>
      exact hconcat (.expanded parent) (List.mem_append_left _ (h.parents parent hparent).1)
  | act action actions phases further next hphases hdeed =>
      have hphase := h.phase_of_eq hphases
      cases hdeed with
      | report item result =>
          refine hconcat (.reported item.id item.role result) ?_
          rw [List.append_nil]
          exact hphase item result List.mem_cons_self
      | close batch found hparent =>
          have hitem := (h.parents _ (List.mem_of_getElem? hparent)).1
          refine hconcat (.reported _ _ _)
            (earned_of_isJob (hjobs _ (h.mem_taken hitem)) (Or.inr ?_))
          exact ⟨found.parent, List.mem_append_left _ hitem, rfl⟩
      | _ => exact hmono
  | _ => exact hmono

theorem turn (h : Founded taken started a) (hjobs : ∀ item ∈ taken, item.isJob = true)
    (hturn : Turn a taken' started' next) :
    Founded (taken ++ taken') (started ++ started') next where
  within := h.within_turn hturn
  parents := h.parents_turn hturn
  phases := h.phases_turn hjobs hturn
  log := h.log_turn hjobs hturn

end Founded

namespace State

variable {config : PoolConfig} {submissions : List Submission} {state : State}
  {events : List Event}

/-!
## Runs
-/

theorem activity_initial (config : PoolConfig) (submissions : List Submission) :
    (initial config submissions).activity =
      { phases := (List.replicate config.workers .idle : List Phase), parents := [], stats := {},
        exitCode := none, cancelled := false, log := [] } := by
  apply Activity.ext
  case phases => exact add_zero _
  all_goals rfl

theorem founded_initial (config : PoolConfig) (submissions : List Submission) :
    Founded [] [] (initial config submissions).activity := by
  rw [activity_initial]
  constructor
  case within =>
    rw [Multiset.coe_nil, zero_add]
    exact (bind_replicate_eq_zero (g := Phase.unstarted) (x := .idle) rfl config.workers).le
  case parents => exact fun parent hparent => absurd hparent List.not_mem_nil
  case phases =>
    intro phase hphase
    rw [List.eq_of_mem_replicate (Multiset.mem_coe.mp hphase)]
    trivial
  case log => exact fun entry hentry => absurd hentry List.not_mem_nil

theorem mem_takings (h : (initial config submissions).run events = some state) {item : Queued}
    (hitem : item ∈ takings ((initial config submissions).chronicle events)) :
    item ∈ entrants ((initial config submissions).chronicle events) ∧ item.isJob = true := by
  have hmem : item ∈ (takings ((initial config submissions).chronicle events) : Multiset Queued) +
      state.overview.waiting := Multiset.mem_add.mpr (Or.inl hitem)
  rw [takings_of_run h] at hmem
  exact List.mem_filter.mp hmem

theorem takings_concat {state last next : State} {events : List Event} {event : Event}
    (hrun : state.run events = some last) (hstep : last.step event = some next) :
    takings (state.chronicle (events ++ [event])) =
      takings (state.chronicle events) ++ (last.mark event).takings := by
  rw [chronicle_concat hrun hstep, takings_append, takings_singleton]

theorem founded_of_run (h : (initial config submissions).run events = some state) :
    Founded (takings ((initial config submissions).chronicle events))
      ((initial config submissions).starts events) state.activity := by
  refine run_induction (P := fun events state =>
    Founded (takings ((initial config submissions).chronicle events))
      ((initial config submissions).starts events) state.activity) h
    (founded_initial config submissions) ?_
  intro events last event next hrun hstep hlast
  rw [takings_concat hrun hstep, starts_concat hrun hstep]
  exact hlast.turn (fun item hitem => (mem_takings hrun hitem).2) (turn_of_step hstep)

/-- What holds at the start and is kept by every turn of a run holds at its end. -/
theorem run_turns {P : List Queued → Activity → Prop}
    (h : (initial config submissions).run events = some state)
    (hstart : P [] (initial config submissions).activity)
    (hturn : ∀ taken started a taken' started' next, Founded taken started a →
      (∀ item ∈ taken, item.isJob = true) → P started a → Turn a taken' started' next →
      P (started ++ started') next) :
    P ((initial config submissions).starts events) state.activity := by
  refine run_induction (P := fun events state =>
    P ((initial config submissions).starts events) state.activity) h hstart ?_
  intro events last event next hrun hstep hlast
  rw [starts_concat hrun hstep]
  exact hturn _ _ _ _ _ _ (founded_of_run hrun) (fun item hitem => (mem_takings hrun hitem).2)
    hlast (turn_of_step hstep)

/-!
## Names
-/

theorem mem_entrants_of_start (h : (initial config submissions).run events = some state)
    {item : Queued} (hitem : item ∈ (initial config submissions).starts events) :
    item ∈ entrants ((initial config submissions).chronicle events) ∧ item.isJob = true :=
  mem_takings h ((founded_of_run h).mem_taken hitem)

theorem nodup_takings (h : (initial config submissions).run events = some state) :
    ((takings ((initial config submissions).chronicle events)).map fun item =>
      (item.id, item.role)).Nodup := by
  have hle : (takings ((initial config submissions).chronicle events) : Multiset Queued) ≤
      entrants ((initial config submissions).chronicle events) :=
    calc (takings ((initial config submissions).chronicle events) : Multiset Queued)
        ≤ takings ((initial config submissions).chronicle events) + state.overview.waiting :=
          Multiset.le_add_right _ _
      _ = (entrants ((initial config submissions).chronicle events)).filter Queued.isJob :=
          takings_of_run h
      _ ≤ entrants ((initial config submissions).chronicle events) :=
          Multiset.coe_le.mpr List.filter_sublist.subperm
  exact Multiset.coe_nodup.mp
    (Multiset.nodup_of_le (Multiset.map_le_map hle) (Multiset.coe_nodup.mpr (nodup_names h)))

/-- A job is started once. -/
theorem nodup_starts (h : (initial config submissions).run events = some state) :
    (((initial config submissions).starts events).map fun item => (item.id, item.role)).Nodup := by
  have hle : ((initial config submissions).starts events : Multiset Queued) ≤
      takings ((initial config submissions).chronicle events) :=
    le_trans (Multiset.le_add_right _ _) (founded_of_run h).within
  exact Multiset.coe_nodup.mp
    (Multiset.nodup_of_le (Multiset.map_le_map hle) (Multiset.coe_nodup.mpr (nodup_takings h)))

/-- A result with the name of a job is a result of that job. -/
theorem ticket_of_reported (h : (initial config submissions).run events = some state)
    {item : Queued} (hitem : item ∈ entrants ((initial config submissions).chronicle events))
    {result : JobResult} (hreported : .reported item.id item.role result ∈ state.log) :
    ticketOf item.id item.role result = item.ticket := by
  have hreceipt : ticketOf item.id item.role result ∈ receipts state.log :=
    List.mem_filterMap.mpr ⟨_, hreported, rfl⟩
  have hpos : 0 < (receipts state.log).countP (· == ticketOf item.id item.role result) :=
    List.countP_pos_iff.mpr ⟨_, hreceipt, beq_self_eq_true _⟩
  have hentrants := lt_of_lt_of_le hpos (countP_receipts_le h _)
  rcases List.countP_pos_iff.mp hentrants with ⟨item', hitem', hticket⟩
  have hticket := beq_iff_eq.mp hticket
  rw [← hticket, eq_of_name_eq h hitem hitem' (congrArg Ticket.id hticket)
    (congrArg Ticket.role hticket)]

end State
end Pool
end BulkTransfer
