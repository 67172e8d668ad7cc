import BulkTransfer.Proofs.Pool.Names

/-!
# Delivery

A pool counts down only the units that are there, and it is quiescent only when nothing
is left to do.  Then every job and every failed entry that came into the run has its
one result.
-/

namespace BulkTransfer
namespace Pool

namespace State

variable {config : PoolConfig} {submissions : List Submission} {state : State}
  {events : List Event}

/-!
## Units that are released
-/

theorem planned_pos {agendas : Multiset (List Action)} {action : Action} {actions : List Action}
    {q : Action → Bool} (hagenda : action :: actions ∈ agendas) (hq : q action = true) :
    0 < Overview.planned agendas q := by
  rcases Multiset.exists_cons_of_mem hagenda with ⟨rest, hrest⟩
  rw [hrest, Overview.planned_cons, List.countP_cons, if_pos hq]
  omega

theorem noticed_pos {accounts : List Account} {i : Nat} {account : Account} {action : Action}
    {actions : List Action} {q : Action → Bool} (haccount : accounts[i]? = some account)
    (hnotice : account.notice = action :: actions) (hq : q action = true) :
    0 < Overview.noticed accounts q := by
  have hset := Overview.noticed_set_add haccount { account with notice := [] } q
  rw [hnotice, List.countP_nil, List.countP_cons, if_pos hq] at hset
  omega

/-- The action that is next is one of those that are left. -/
theorem left_pos_of_nextAction {event : Event} {action : Action} {q : Action → Bool}
    (h : state.nextAction? event = some action) (hq : q action = true) :
    0 < state.overview.left q := by
  unfold nextAction? at h
  split at h
  · rename_i worker
    split at h
    · rename_i action' actions hworker
      cases h
      have hagenda : action :: actions ∈ state.overview.agendas := by
        refine Multiset.mem_add.mpr (Or.inl (Multiset.mem_bind.mpr
          ⟨_, List.mem_of_getElem? hworker, ?_⟩))
        exact Multiset.mem_singleton_self _
      exact Nat.add_pos_left (planned_pos hagenda hq) _
    · cases h
  · rename_i batch
    split at h
    · rename_i found hbatch
      split at h
      · rename_i action' actions hfeeding
        cases h
        have haccount := account_of_batch hbatch
        have hnotice : found.account.notice = action :: actions := by
          rw [Batch.account, hfeeding]
          rfl
        exact Nat.add_pos_right _ (noticed_pos haccount hnotice hq)
      · rename_i action' actions hfeeding
        cases h
        have hagenda : action :: actions ∈ state.overview.agendas := by
          refine Multiset.mem_add.mpr (Or.inr (Multiset.mem_bind.mpr
            ⟨found, List.mem_of_getElem? hbatch, ?_⟩))
          rw [hfeeding]
          exact Multiset.mem_singleton_self _
        exact Nat.add_pos_left (planned_pos hagenda hq) _
      · cases h
    · cases h
  · cases h

theorem isAtRest_of_isQuiescent (h : (initial config submissions).run events = some state)
    (hquiescent : state.isQuiescent = true) : state.overview.IsAtRest := by
  rw [isQuiescent, Bool.and_eq_true, beq_iff_eq] at hquiescent
  exact (balanced_of_run h).isAtRest hquiescent.2

/-!
## Every job has one result
-/

end State

/-!
## A run

A batch with a sub-job and a failed entry fails, and what follows its failure succeeds.
-/

def sampleTask (operation : Operation) : Task :=
  Task.make "sample" operation .none []

def sampleBatch : Job :=
  .mk (sampleTask .batchUpload) none (some (.ofTask (sampleTask .upload)))

def sampleSubmissions : List Submission :=
  [.line "sample", .job sampleBatch]

def sampleExpansion : Expansion :=
  { items := [.ok { operation := .upload, arguments := [] }, .error (.entry "sample" "sample")] }

/-- A worker takes a job and has an answer at its first attempt. -/
def attempted (answer : Except JobError Outcome) : List Event :=
  [.take 0, .accept 0, .start 0, .answer 0 answer, .act 0, .act 0, .act 0]

def sampleEvents : List Event :=
  [.read (.error .nestedCommand), .offer, .submit, .take 0, .accept 0, .start 0,
    .list 0 sampleExpansion, .send 0, .receive 0, .enqueue 0, .send 0, .send 0] ++
  attempted (.ok {}) ++
  [.receive 0, .feed 0, .join 0, .feed 0, .feed 0, .feed 0, .proceed 0] ++ attempted (.ok {})

/-- A pool with one worker and room for one job. -/
def sampleStart : State :=
  State.initial { workers := 1, queueCapacity := 1 } sampleSubmissions

theorem sample_quiescent :
    ∃ state, sampleStart.run sampleEvents = some state ∧ state.isQuiescent = true := by
  have hany : (sampleStart.run sampleEvents).any State.isQuiescent = true := by decide
  exact (Option.any_eq_true _ _).mp hany

end Pool
end BulkTransfer
