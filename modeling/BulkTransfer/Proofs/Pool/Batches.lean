import BulkTransfer.Proofs.Pool.Closing
import BulkTransfer.Proofs.Pool.Delivery

/-!
# Batches

The result of a batch says what the log says about its items: how many sub-jobs ended
in which way, and how many entries failed.  Its status is made of these and of how its
listing ended, and does not depend on when anything happened.
-/

namespace BulkTransfer
namespace Pool

namespace Group

/-!
## How a group ends
-/

theorem status_of_fault {group : Group} {fault : ExpansionError}
    (h : group.listingFault = some fault) (hfault : fault ≠ .cancelled) (cancelled : Bool) :
    group.status cancelled = .failed := by
  rw [status, h]
  cases fault with
  | cancelled => exact absurd rfl hfault
  | _ => rfl

theorem status_of_failed {group : Group} (h : group.listingFault = none)
    (hfailed : group.tally.failed ≠ 0) (cancelled : Bool) : group.status cancelled = .failed := by
  rw [status, h]
  exact if_pos (bne_iff_ne.mpr hfailed)

theorem status_eq_succeeded_iff {group : Group} {cancelled : Bool}
    (h : group.cancelled ≠ 0 → cancelled = true) :
    group.status cancelled = .succeeded ↔
      group.listingFault = none ∧ group.tally.failed = 0 ∧ group.cancelled = 0 := by
  unfold status
  split
  · rename_i hfault
    simp [hfault]
  · rename_i hfault
    simp [hfault]
  · rename_i hfault
    by_cases hfailed : group.tally.failed = 0
    · by_cases hcancelled : group.cancelled = 0
      · simp [hfault, hfailed, hcancelled]
      · simp [hfault, hfailed, hcancelled, h hcancelled]
    · simp [hfault, hfailed]

end Group

theorem ofNat_eq_zero_iff {n : Nat} (h : n < UInt32.size) : UInt32.ofNat n = 0 ↔ n = 0 := by
  rw [← UInt32.toNat_inj, UInt32.toNat_ofNat_of_lt' h]
  rfl

namespace State

variable {config : PoolConfig} {submissions : List Submission} {state : State}
  {events : List Event}

/-!
## What the log says about a batch
-/

/-- How many sub-jobs of a batch have a result with a status of a kind. -/
def memberResults (state : State) (batch : Nat) (p : Status → Bool) : Nat :=
  state.log.countP (Entry.reports fun _ role status => role.isMember batch && p status)

/-- How many failed entries of a batch have a result. -/
def entryResults (state : State) (batch : Nat) : Nat :=
  state.log.countP (Entry.reports fun _ role _ => role.isEntry batch)

theorem countP_ofBatch {kind : Status} {p : Status → Bool}
    (hentries : state.overview.EntriesFail) (hp : ∀ status : Status, status.isLike kind = p status)
    (batch : Nat) :
    state.log.countP (Entry.reports (ofBatch batch kind)) =
      state.memberResults batch p + if p .failed then state.entryResults batch else 0 := by
  have hsplit : state.log.countP (Entry.reports (ofBatch batch kind)) =
      state.memberResults batch p +
        state.log.countP (Entry.reports fun _ role _ => role.isEntry batch && p .failed) := by
    apply countP_eq_add
    intro entry hentry
    cases entry with
    | reported id role result =>
        cases role with
        | top => rfl
        | member batch' position =>
            change (if batch == batch' && result.status.isLike kind then 1 else 0) =
              (if batch == batch' && p result.status then 1 else 0) + 0
            rw [hp, Nat.add_zero]
        | entry batch' position =>
            change (if batch == batch' && result.status.isLike kind then 1 else 0) =
              0 + if batch == batch' && p .failed then 1 else 0
            rw [hp, hentries id batch' position result hentry, Nat.zero_add]
    | _ => rfl
  rw [hsplit]
  cases p .failed with
  | false =>
      simp only [Bool.and_false, Bool.false_eq_true, if_false, Nat.add_left_cancel_iff,
        List.countP_eq_zero]
      intro entry _
      cases entry <;> exact Bool.false_ne_true
  | true =>
      simp only [Bool.and_true, if_true]
      rfl

/-- The sub-jobs that have failed and those that have been cancelled are no successes. -/
theorem memberResults_not_isSuccess (state : State) (batch : Nat) :
    state.memberResults batch (fun status => !status.isSuccess) =
      state.memberResults batch (· == .failed) + state.memberResults batch (· == .cancelled) := by
  apply countP_eq_add
  intro entry _
  cases entry with
  | reported id role result =>
      change (if role.isMember batch && !result.status.isSuccess then 1 else 0) =
        (if role.isMember batch && result.status == .failed then 1 else 0) +
          if role.isMember batch && result.status == .cancelled then 1 else 0
      cases role.isMember batch with
      | false => rfl
      | true => cases result.status <;> rfl
  | _ => rfl

/-- The counters of a closed batch. -/
theorem counters_eq (h : (initial config submissions).run events = some state)
    {batch : Nat} {account : Account} (haccount : state.overview.accounts[batch]? = some account)
    (hpending : account.group.pending = 0) :
    account.group.tally.succeeded = UInt32.ofNat (state.memberResults batch Status.isSuccess) ∧
      account.group.tally.failed = UInt32.ofNat
        (state.memberResults batch (· == .failed) + state.entryResults batch) ∧
      account.group.cancelled = UInt32.ofNat (state.memberResults batch (· == .cancelled)) := by
  have hentries := entriesFail_of_run h
  have hcounter := counter_eq h haccount hpending
  refine ⟨(hcounter .succeeded).trans ?_, (hcounter .failed).trans ?_,
    (hcounter .cancelled).trans ?_⟩
  · rw [countP_ofBatch hentries Status.isLike_succeeded]
    rfl
  · rw [countP_ofBatch hentries Status.isLike_failed]
    rfl
  · rw [countP_ofBatch hentries Status.isLike_cancelled]
    rfl

/-- A batch has no more results than items. -/
theorem memberResults_add_le (h : (initial config submissions).run events = some state)
    {batch : Nat} {account : Account} (haccount : state.overview.accounts[batch]? = some account)
    (hpending : account.group.pending = 0) (p : Status → Bool) :
    state.memberResults batch p + state.entryResults batch ≤ account.received := by
  rw [← countP_isOf h haccount hpending]
  apply countP_add_le
  · intro entry _ htrue
    cases entry with
    | reported id role result =>
        cases role with
        | member batch' position => rfl
        | _ => cases htrue
    | _ => cases htrue
  · intro entry _ htrue
    cases entry with
    | reported id role result =>
        cases role with
        | member batch' position => exact (Bool.and_eq_true_iff.mp htrue).1
        | _ => cases htrue
    | _ => cases htrue
  · intro entry _ htrue
    cases entry with
    | reported id role result =>
        cases role with
        | entry batch' position => exact htrue
        | _ => cases htrue
    | _ => cases htrue

end State

theorem sample_trusts : sampleStart.Trusts sampleEvents := by
  apply State.trusts_of_all
  have hall : (sampleEvents.all fun event => !event.isCancelledAnswer) = true := by decide
  simpa using hall

end Pool
end BulkTransfer
