import BulkTransfer.Proofs.Pool.Attempts
import BulkTransfer.Proofs.Pool.Progress

/-!
# Retries

A worker tries a job again as long as the answers are retryable errors and the pool allows
another retry.  So the answers to a job settle how often its executor is called, whatever
happens in between at other places: up to the first answer that is no retryable error, or one
attempt more than there are retries.  The result of the job is what the last of these answers
says, unless the run is cancelled while the worker waits for an attempt.
-/

namespace BulkTransfer
namespace Pool

/-!
## Answers
-/

/-- Whether an answer is an error that another attempt may be spared. -/
def isRetryable : Except JobError Outcome → Bool
  | .ok _ => false
  | .error error => error.isRetryable

/-- The status that an answer gives to a job. -/
def statusOf : Except JobError Outcome → Status
  | .ok outcome => if outcome.warning.isSome then .warning else .succeeded
  | .error .cancelled => .cancelled
  | .error _ => .failed

/-- The warning or error that an answer tells. -/
def errorOf : Except JobError Outcome → Option String
  | .ok outcome => outcome.warning
  | .error error => some error.message

/-- The smaller of a limit and the position of the first answer that is no retryable error.
Positions are counted from one. -/
def lastAttempt (limit : Nat) (reply : Nat → Except JobError Outcome) : Nat :=
  ((List.range' 1 limit).find? fun n => !isRetryable (reply n)).getD limit

theorem triesAgain_eq (retries : UInt32) (attempt : Nat) (answer : Except JobError Outcome) :
    triesAgain retries attempt answer =
      (isRetryable answer && decide (attempt ≤ retries.toNat)) := by
  cases answer <;> rfl

theorem status_answeredResult (item : Queued) (attempt : Nat)
    (answer : Except JobError Outcome) :
    (answeredResult item attempt answer).status = statusOf answer := by
  cases answer with
  | ok outcome => rfl
  | error error => cases error <;> rfl

theorem error_answeredResult (item : Queued) (attempt : Nat)
    (answer : Except JobError Outcome) :
    (answeredResult item attempt answer).error = errorOf answer := by
  cases answer with
  | ok outcome => rfl
  | error error => cases error <;> rfl

section LastAttempt

variable {limit n : Nat} {reply : Nat → Except JobError Outcome}

theorem lastAttempt_eq_limit
    (h : ∀ m, 1 ≤ m → m ≤ limit → isRetryable (reply m) = true) :
    lastAttempt limit reply = limit := by
  have hfind : (List.range' 1 limit).find? (fun m => !isRetryable (reply m)) = none := by
    refine List.find?_eq_none.mpr fun m hm => ?_
    have hrange := List.mem_range'_1.mp hm
    simp [h m hrange.1 (by omega)]
  rw [lastAttempt, hfind]
  rfl

theorem lastAttempt_eq_min (hpos : 1 ≤ n) (hreply : isRetryable (reply n) = false)
    (hearlier : ∀ m, 1 ≤ m → m < n → isRetryable (reply m) = true) :
    lastAttempt limit reply = min limit n := by
  rcases Nat.lt_or_ge limit n with hlt | hle
  · rw [Nat.min_eq_left hlt.le]
    exact lastAttempt_eq_limit fun m hm hle => hearlier m hm (Nat.lt_of_le_of_lt hle hlt)
  · have hmem : n ∈ List.range' 1 limit := List.mem_range'_1.mpr ⟨hpos, by omega⟩
    have hfind : (List.range' 1 limit).find? (fun m => !isRetryable (reply m)) = some n := by
      refine List.find?_range'_eq_some.mpr ⟨by simp [hreply], hmem, fun m hm hlt => ?_⟩
      simp [hearlier m hm hlt]
    rw [lastAttempt, hfind, Nat.min_eq_right hle]
    rfl

end LastAttempt

namespace State

variable {config : PoolConfig} {submissions : List Submission} {state last next : State}
  {events : List Event} {event : Event} {worker attempt : Nat} {phase : Phase} {item : Queued}
  {result : JobResult}

/-!
## A worker at the attempts of a job
-/

/-- An attempt ends with its answer. -/
theorem step_of_attempting (hworker : state.workers[worker]? = some (.attempting item attempt))
    (hevent : event.worker? = some worker) (hstep : state.step event = some next) :
    ∃ answer, event = .answer worker answer ∧
      next =
        if triesAgain state.config.retries attempt answer then
          ({ state with stats := state.stats.retry }).setWorker worker (.waiting item attempt)
        else
          ({ state with
            stats := countEnd state.stats item.operation
              (answeredResult item attempt answer).status }).setWorker worker
            (.finishing (finishing item (answeredResult item attempt answer))) := by
  have hallows := allows_of_step hworker hevent hstep
  cases event with
  | answer worker' answer =>
      obtain rfl : worker' = worker := Option.some.inj hevent
      refine ⟨answer, rfl, ?_⟩
      cases transition_of_step hstep with
      | again item' attempt' hworker' hagain =>
          cases hworker.symm.trans hworker'
          rw [if_pos hagain]
      | answer item' attempt' hworker' hagain =>
          cases hworker.symm.trans hworker'
          rw [if_neg (Bool.eq_false_iff.mp hagain), finish_eq_setWorker, phaseOf_finishing]
  | _ => cases hallows

/-- A delay ends, or the next attempt begins, or the run is cancelled before. -/
theorem step_of_pausing (hworker : state.workers[worker]? = some phase)
    (hphase : phase = .waiting item attempt ∨ phase = .rested item attempt)
    (hevent : event.worker? = some worker) (hstep : state.step event = some next) :
    (event = .rest worker ∧ state.cancelled = false ∧
      next = state.setWorker worker (.rested item attempt)) ∨
    (event = .retry worker ∧ phase = .rested item attempt ∧
      next = (state.write (.called item)).setWorker worker (.attempting item (attempt + 1))) ∨
    (event = .giveUp worker ∧ state.cancelled = true ∧
      next = state.setWorker worker
        (.finishing (finishing item (cancelledResult item attempt)))) := by
  have hfinish : state.finish worker (finishing item (cancelledResult item attempt)) =
      state.setWorker worker (.finishing (finishing item (cancelledResult item attempt))) := by
    rw [finish_eq_setWorker, phaseOf_finishing]
  have hallows := allows_of_step hworker hevent hstep
  cases event with
  | rest worker' =>
      obtain rfl : worker' = worker := Option.some.inj hevent
      cases transition_of_step hstep with
      | rest item' attempt' hworker' hcancelled =>
          rcases hphase with rfl | rfl <;> cases hworker.symm.trans hworker'
          exact Or.inl ⟨rfl, hcancelled, rfl⟩
  | retry worker' =>
      obtain rfl : worker' = worker := Option.some.inj hevent
      cases transition_of_step hstep with
      | retry item' attempt' hworker' =>
          rcases hphase with rfl | rfl <;> cases hworker.symm.trans hworker'
          exact Or.inr (Or.inl ⟨rfl, rfl, rfl⟩)
  | giveUp worker' =>
      obtain rfl : worker' = worker := Option.some.inj hevent
      cases transition_of_step hstep with
      | giveUpWaiting item' attempt' hworker' hcancelled
      | giveUpRested item' attempt' hworker' hcancelled =>
          rcases hphase with rfl | rfl <;> cases hworker.symm.trans hworker'
          exact Or.inr (Or.inr ⟨rfl, hcancelled, hfinish⟩)
  | _ => rcases hphase with rfl | rfl <;> cases hallows

theorem getElem?_setWorker (hworker : state.workers[worker]? = some phase) (phase' : Phase) :
    (state.setWorker worker phase').workers[worker]? = some phase' :=
  List.getElem?_set_self (List.getElem?_eq_some_iff.mp hworker).1

/-!
## The course of a job
-/

/-- Whether all answers that a job has had ask for another attempt, and that is granted. -/
structure Failing (retries : UInt32) (answers : List (Except JobError Outcome)) : Prop where
  retryable : ∀ answer ∈ answers, isRetryable answer = true
  length_le : answers.length ≤ retries.toNat

/-- How far a job has come that has had some answers, and by how much the counted retries have
grown. -/
inductive Course (retries : UInt32) (state : State) (item : Queued) :
    List (Except JobError Outcome) → Nat → Prop
  | calling (answers : List (Except JobError Outcome)) (hfailing : Failing retries answers)
      (worker : Nat)
      (hworker : state.workers[worker]? = some (.attempting item (answers.length + 1)))
      (hcalls : state.callsOf item = answers.length + 1) :
      Course retries state item answers answers.length
  | pausing (answers : List (Except JobError Outcome)) (hfailing : Failing retries answers)
      (worker : Nat) (phase : Phase) (hworker : state.workers[worker]? = some phase)
      (hphase : phase = .waiting item answers.length ∨ phase = .rested item answers.length)
      (hcalls : state.callsOf item = answers.length) :
      Course retries state item answers answers.length
  | answered (earlier : List (Except JobError Outcome)) (hfailing : Failing retries earlier)
      (answer : Except JobError Outcome)
      (hlast : triesAgain retries (earlier.length + 1) answer = false)
      (hresult : state.HasResult item (answeredResult item (earlier.length + 1) answer))
      (hcalls : state.callsOf item = earlier.length + 1) :
      Course retries state item (earlier ++ [answer]) earlier.length
  | givenUp (answers : List (Except JobError Outcome)) (hfailing : Failing retries answers)
      (hcancelled : state.cancelled = true)
      (hresult : state.HasResult item (cancelledResult item answers.length))
      (hcalls : state.callsOf item = answers.length) :
      Course retries state item answers answers.length

theorem Failing.concat {retries : UInt32} {answers : List (Except JobError Outcome)}
    {answer : Except JobError Outcome} (h : Failing retries answers)
    (hagain : triesAgain retries (answers.length + 1) answer = true) :
    Failing retries (answers ++ [answer]) := by
  rw [triesAgain_eq, Bool.and_eq_true, decide_eq_true_eq] at hagain
  refine ⟨?_, by rw [List.length_append]; exact hagain.2⟩
  intro answer' hanswer'
  rcases List.mem_append.mp hanswer' with hmem | hmem
  · exact h.retryable answer' hmem
  · rw [List.mem_singleton.mp hmem]
    exact hagain.1

namespace Course

variable {answers : List (Except JobError Outcome)} {growth : Nat}

/-- A step that brings no answer and counts no retry. -/
theorem keep (hevent : ∀ worker answer, event ≠ .answer worker answer)
    (hretries : next.stats.retries = state.stats.retries)
    (hcourse : Course config.retries next item answers growth) :
    Course config.retries next item (answers ++ state.answered item event)
      (growth + state.retried item event next) := by
  rw [answered_eq_nil item hevent, retried_eq_zero item event hretries, List.append_nil]
  exact hcourse

/-- A worker that waits for an attempt goes on to it, unless it finds the run cancelled. -/
theorem step_pausing (h : (initial config submissions).run events = some state)
    (hfailing : Failing config.retries answers)
    (hworker : state.workers[worker]? = some phase)
    (hphase : phase = .waiting item answers.length ∨ phase = .rested item answers.length)
    (hcalls : state.callsOf item = answers.length) (hstep : state.step event = some next) :
    Course config.retries next item (answers ++ state.answered item event)
      (answers.length + state.retried item event next) := by
  by_cases hevent : event.worker? = some worker
  · have hset : ∀ phase', (state.setWorker worker phase').workers[worker]? = some phase' :=
      getElem?_setWorker hworker
    rcases step_of_pausing hworker hphase hevent hstep with
      ⟨rfl, -, rfl⟩ | ⟨rfl, -, rfl⟩ | ⟨rfl, hcancelled, rfl⟩
    · refine keep (fun _ _ => Event.noConfusion) rfl ?_
      exact .pausing answers hfailing worker _ (hset _) (Or.inr rfl) hcalls
    · refine keep (fun _ _ => Event.noConfusion) rfl ?_
      exact .calling answers hfailing worker (hset _)
        ((callsOf_called state item).trans (congrArg (· + 1) hcalls))
    · refine keep (fun _ _ => Event.noConfusion) rfl ?_
      exact .givenUp answers hfailing hcancelled (Or.inl ⟨worker, hset _⟩) hcalls
  · have hheld : item ∈ phase.held := by
      rcases hphase with rfl | rfl <;> exact Multiset.mem_singleton_self _
    have hpasses := passes_elsewhere h hworker hheld hevent hstep
    rw [hpasses.answers, hpasses.retries, List.append_nil]
    exact .pausing answers hfailing worker phase ((workers_of_step hevent hstep).trans hworker)
      hphase (hpasses.calls.trans hcalls)

/-- An attempt that has an answer is the last one, or a worker waits for another one. -/
theorem step_calling (h : (initial config submissions).run events = some state)
    (hfailing : Failing config.retries answers)
    (hworker : state.workers[worker]? = some (.attempting item (answers.length + 1)))
    (hcalls : state.callsOf item = answers.length + 1) (hstep : state.step event = some next) :
    Course config.retries next item (answers ++ state.answered item event)
      (answers.length + state.retried item event next) := by
  by_cases hevent : event.worker? = some worker
  · rcases step_of_attempting hworker hevent hstep with ⟨answer, rfl, hnext⟩
    have hconcerns : state.concerns item (.answer worker answer) = true :=
      concerns_of_worker hworker rfl rfl
    have hanswered : state.answered item (.answer worker answer) = [answer] := if_pos hconcerns
    have hretries : state.config.retries = config.retries :=
      congrArg PoolConfig.retries (sameFrame_of_run h).config
    rw [hretries] at hnext
    rw [hanswered]
    cases hagain : triesAgain config.retries (answers.length + 1) answer with
    | true =>
        rw [hagain, if_pos rfl] at hnext
        have hretried : state.retried item (.answer worker answer) next = 1 := by
          rw [retried, if_pos hconcerns, hnext]
          change (state.stats.retries + 1 - state.stats.retries).toNat = 1
          rw [UInt64.add_comm, UInt64.add_sub_cancel]
          rfl
        have hlength : (answers ++ [answer]).length = answers.length + 1 := List.length_append
        rw [hretried, ← hlength]
        rw [← hlength] at hnext hcalls
        rw [hnext]
        exact .pausing _ (hfailing.concat hagain) worker _ (getElem?_setWorker hworker _)
          (Or.inl rfl) hcalls
    | false =>
        rw [hagain, if_neg Bool.false_ne_true] at hnext
        have hretried : state.retried item (.answer worker answer) next = 0 := by
          refine retried_eq_zero item _ ?_
          rw [hnext]
          exact Measure.retries_countEnd _ _ _
        rw [hretried, Nat.add_zero, hnext]
        exact .answered answers hfailing answer hagain
          (Or.inl ⟨worker, getElem?_setWorker hworker _⟩) hcalls
  · have hpasses := passes_elsewhere h hworker (Multiset.mem_singleton_self _) hevent hstep
    rw [hpasses.answers, hpasses.retries, List.append_nil]
    exact .calling answers hfailing worker ((workers_of_step hevent hstep).trans hworker)
      (hpasses.calls.trans hcalls)

theorem step (h : (initial config submissions).run events = some state)
    (hcourse : Course config.retries state item answers growth)
    (hstep : state.step event = some next) :
    Course config.retries next item (answers ++ state.answered item event)
      (growth + state.retried item event next) := by
  cases hcourse with
  | calling _ hfailing worker hworker hcalls => exact step_calling h hfailing hworker hcalls hstep
  | pausing _ hfailing worker phase hworker hphase hcalls =>
      exact step_pausing h hfailing hworker hphase hcalls hstep
  | answered earlier hfailing answer hlast hresult hcalls =>
      have hpasses := passes_of_spared (hresult.spared h) hstep
      rw [hpasses.answers, hpasses.retries, List.append_nil]
      exact .answered earlier hfailing answer hlast (hresult.step h hstep)
        (hpasses.calls.trans hcalls)
  | givenUp _ hfailing hcancelled hresult hcalls =>
      have hpasses := passes_of_spared (hresult.spared h) hstep
      rw [hpasses.answers, hpasses.retries, List.append_nil]
      exact .givenUp answers hfailing ((turn_of_step hstep).cancelled_mono hcancelled)
        (hresult.step h hstep) (hpasses.calls.trans hcalls)

end Course

/-!
## Jobs from their start on
-/

/-- A job that is started is called for the first time. -/
theorem course_of_started (h : (initial config submissions).run events = some state)
    (hstep : state.step event = some next) (hitem : item ∈ state.started event)
    (habort : item.operation ≠ .abort) (hbatch : item.operation.isBatch = false) :
    Course config.retries next item
      ((initial config submissions).answersTo item (events ++ [event]))
      ((initial config submissions).retriesOf item (events ++ [event])) := by
  have hnames := nodup_starts (run_concat_of_step h hstep)
  rw [starts_concat h hstep, List.map_append, List.nodup_append] at hnames
  rcases untouched_of_not_started h fun item' hitem' =>
    hnames.2.2 _ (List.mem_map_of_mem hitem') _ (List.mem_map_of_mem hitem) with
      ⟨hcalls, hanswers, hretries⟩
  rw [answersTo_concat item h hstep, retriesOf_concat item h hstep, hanswers, hretries,
    List.nil_append, Nat.zero_add]
  cases transition_of_step hstep with
  | call item' hworker _ _ =>
      rw [started_of_accepted hworker] at hitem
      cases List.mem_singleton.mp hitem
      rw [retried_eq_zero item _ (by rfl)]
      exact .calling [] ⟨fun _ hmem => absurd hmem List.not_mem_nil, Nat.zero_le _⟩ _
        (getElem?_setWorker hworker _) ((callsOf_called _ item).trans (congrArg (· + 1) hcalls))
  | abort item' hworker habort' =>
      rw [started_of_accepted hworker] at hitem
      cases List.mem_singleton.mp hitem
      exact absurd habort' habort
  | launch item' hworker _ hbatch' =>
      rw [started_of_accepted hworker] at hitem
      cases List.mem_singleton.mp hitem
      exact absurd (hbatch.symm.trans hbatch') Bool.false_ne_true
  | _ => exact absurd hitem List.not_mem_nil

theorem course_of_run (h : (initial config submissions).run events = some state)
    (hitem : item ∈ (initial config submissions).starts events)
    (habort : item.operation ≠ .abort) (hbatch : item.operation.isBatch = false) :
    Course config.retries state item ((initial config submissions).answersTo item events)
      ((initial config submissions).retriesOf item events) := by
  refine run_induction (P := fun events state =>
    item ∈ (initial config submissions).starts events →
    Course config.retries state item ((initial config submissions).answersTo item events)
      ((initial config submissions).retriesOf item events)) h ?_ ?_ hitem
  · exact fun hitem => absurd hitem List.not_mem_nil
  · intro events last event next hrun hstep hcourse hitem
    rw [starts_concat hrun hstep] at hitem
    rcases List.mem_append.mp hitem with hitem | hitem
    · rw [answersTo_concat item hrun hstep, retriesOf_concat item hrun hstep]
      exact (hcourse hitem).step hrun hstep
    · exact course_of_started hrun hstep hitem habort hbatch

/-!
## Answers and results
-/

theorem lastAttempt_of_answers {retries : UInt32} {earlier : List (Except JobError Outcome)}
    {answer : Except JobError Outcome} {reply : Nat → Except JobError Outcome}
    (hfailing : Failing retries earlier)
    (hlast : triesAgain retries (earlier.length + 1) answer = false)
    (hreply : ∀ n answer', (earlier ++ [answer])[n]? = some answer' → answer' = reply (n + 1)) :
    lastAttempt (retries.toNat + 1) reply = earlier.length + 1 ∧
      answer = reply (earlier.length + 1) := by
  have hanswer : answer = reply (earlier.length + 1) :=
    hreply earlier.length answer List.getElem?_concat_length
  have hearlier : ∀ m, 1 ≤ m → m < earlier.length + 1 → isRetryable (reply m) = true := by
    intro m hm hlt
    have hindex : m - 1 < earlier.length := by omega
    have hget : (earlier ++ [answer])[m - 1]? = some earlier[m - 1] := by
      rw [List.getElem?_append_left hindex, List.getElem?_eq_getElem hindex]
    have hretryable := hfailing.retryable _ (List.getElem_mem hindex)
    rw [hreply _ _ hget, Nat.sub_add_cancel hm] at hretryable
    exact hretryable
  have hle := Nat.succ_le_succ hfailing.length_le
  refine ⟨?_, hanswer⟩
  rw [triesAgain_eq, hanswer, Bool.and_eq_false_iff, decide_eq_false_iff_not] at hlast
  rcases hlast with hfinal | hspent
  · rw [lastAttempt_eq_min (Nat.le_add_left 1 _) hfinal hearlier]
    exact Nat.min_eq_right hle
  · -- all retries are made, so the last attempt is the last one that is allowed
    have hlimit : earlier.length = retries.toNat := by omega
    rw [← hlimit]
    cases hreplied : isRetryable (reply (earlier.length + 1)) with
    | false =>
        rw [lastAttempt_eq_min (Nat.le_add_left 1 _) hreplied hearlier]
        exact Nat.min_self _
    | true =>
        refine lastAttempt_eq_limit fun m hm hle => ?_
        rcases Nat.lt_or_eq_of_le hle with hlt | rfl
        · exact hearlier m hm hlt
        · exact hreplied

/-- What a job has come to that has its result while the run is not cancelled. -/
theorem Course.of_reported {retries : UInt32} {answers : List (Except JobError Outcome)}
    {growth : Nat} (h : (initial config submissions).run events = some state)
    (hcourse : Course retries state item answers growth) (hcancelled : state.cancelled = false)
    (hreported : .reported item.id item.role result ∈ state.log) :
    ∃ earlier answer, answers = earlier ++ [answer] ∧ growth = earlier.length ∧
      Failing retries earlier ∧ triesAgain retries (earlier.length + 1) answer = false ∧
      state.HasResult item (answeredResult item (earlier.length + 1) answer) ∧
      state.callsOf item = earlier.length + 1 := by
  cases hcourse with
  | calling _ hfailing worker hworker hcalls =>
      exact absurd hreported (not_reported_of_held h hworker (Multiset.mem_singleton_self _))
  | pausing _ hfailing worker phase hworker hphase hcalls =>
      refine absurd hreported (not_reported_of_held h hworker ?_)
      rcases hphase with rfl | rfl <;> exact Multiset.mem_singleton_self _
  | answered earlier hfailing answer hlast hresult hcalls =>
      exact ⟨earlier, answer, rfl, rfl, hfailing, hlast, hresult, hcalls⟩
  | givenUp _ hfailing htrue hresult hcalls =>
      rw [hcancelled] at htrue
      cases htrue

/-- A job that has its result before the run is cancelled has it from the last of its answers,
and neither the answers nor the calls change any more. -/
theorem answered_of_reported {before after : List Event}
    (hbefore : (initial config submissions).run before = some last)
    (hcancelled : last.cancelled = false)
    (hreported : .reported item.id item.role result ∈ last.log)
    (hrun : last.run after = some state)
    (hitem : item ∈ (initial config submissions).starts (before ++ after))
    (habort : item.operation ≠ .abort) (hbatch : item.operation.isBatch = false) :
    ∃ earlier answer,
      (initial config submissions).answersTo item (before ++ after) = earlier ++ [answer] ∧
      Failing config.retries earlier ∧
      triesAgain config.retries (earlier.length + 1) answer = false ∧
      result = item.sent (answeredResult item (earlier.length + 1) answer) ∧
      state.callsOf item = earlier.length + 1 ∧
      (initial config submissions).retriesOf item (before ++ after) = earlier.length := by
  rw [starts_append hbefore] at hitem
  have hstart := (List.mem_append.mp hitem).resolve_right
    (not_started_of_reported hbefore hreported hrun)
  have hcourse := course_of_run hbefore hstart habort hbatch
  rcases hcourse.of_reported hbefore hcancelled hreported with
    ⟨earlier, answer, hanswers, hgrowth, hfailing, hlast, hresult, hcalls⟩
  rcases hresult.run hbefore hrun with ⟨-, hcalls', hanswers', hgrowth'⟩
  exact ⟨earlier, answer, hanswers'.trans hanswers, hfailing, hlast,
    hresult.eq_of_reported hbefore hreported, hcalls'.trans hcalls, hgrowth'.trans hgrowth⟩

/-- How far a job has come whose worker waits for an attempt. -/
theorem Course.of_waiting {retries : UInt32} {answers : List (Except JobError Outcome)}
    {growth attempt : Nat} (h : (initial config submissions).run events = some state)
    (hcourse : Course retries state item answers growth)
    (hworker : state.workers[worker]? = some (.waiting item attempt)) :
    state.callsOf item = attempt ∧ attempt ≤ retries.toNat := by
  have hother : ∀ {worker' phase}, state.workers[worker']? = some phase → item ∈ phase.held →
      worker' = worker := by
    intro worker' phase hphase hheld
    by_contra hne
    exact name_ne_of_worker h hworker (Multiset.mem_singleton_self _) hphase hheld hne rfl
  have hnot := not_spared_of_held hworker (Multiset.mem_singleton_self item)
  cases hcourse with
  | calling _ hfailing worker' hworker' hcalls =>
      obtain rfl := hother hworker' (Multiset.mem_singleton_self _)
      rw [hworker] at hworker'
      cases hworker'
  | pausing _ hfailing worker' phase hworker' hphase hcalls =>
      obtain rfl := hother hworker' (by
        rcases hphase with rfl | rfl <;> exact Multiset.mem_singleton_self _)
      rw [hworker, Option.some.injEq] at hworker'
      rw [← hworker'] at hphase
      rcases hphase with hphase | hphase
      · obtain rfl := (Phase.waiting.inj hphase).2
        exact ⟨hcalls, hfailing.length_le⟩
      · cases hphase
  | answered earlier hfailing answer hlast hresult hcalls => exact absurd (hresult.spared h) hnot
  | givenUp _ hfailing hcancelled hresult hcalls => exact absurd (hresult.spared h) hnot

/-- A job whose worker waits when the run is cancelled is given up. -/
theorem givenUp_of_run {before after : List Event} {attempt : Nat}
    (h : (initial config submissions).run before = some last)
    (hworker : last.workers[worker]? = some (.waiting item attempt))
    (hcancelled : last.cancelled = true) (hrun : last.run after = some state) :
    state.callsOf item = last.callsOf item ∧
      (state.workers[worker]? = some (.waiting item attempt) ∨
        state.HasResult item (cancelledResult item attempt)) := by
  refine (run_induction (P := fun _ state => state.cancelled = true ∧
    state.callsOf item = last.callsOf item ∧
      (state.workers[worker]? = some (.waiting item attempt) ∨
        state.HasResult item (cancelledResult item attempt))) hrun
    ⟨hcancelled, rfl, Or.inl hworker⟩ ?_).2
  intro after middle event next hmiddle hstep hkept
  rcases hkept with ⟨htrue, hcalls, hkept⟩
  have hbefore := (run_append_iff h).mpr hmiddle
  refine ⟨(turn_of_step hstep).cancelled_mono htrue, ?_⟩
  rcases hkept with hworker | hresult
  · by_cases hevent : event.worker? = some worker
    · rcases step_of_pausing hworker (Or.inl rfl) hevent hstep with
        ⟨-, hfalse, -⟩ | ⟨-, hphase, -⟩ | ⟨-, -, rfl⟩
      · rw [htrue] at hfalse
        cases hfalse
      · cases hphase
      · exact ⟨hcalls, Or.inr (Or.inl ⟨worker, getElem?_setWorker hworker _⟩)⟩
    · have hpasses := passes_elsewhere hbefore hworker (Multiset.mem_singleton_self _) hevent hstep
      exact ⟨hpasses.calls.trans hcalls, Or.inl ((workers_of_step hevent hstep).trans hworker)⟩
  · have hpasses := passes_of_spared (hresult.spared hbefore) hstep
    exact ⟨hpasses.calls.trans hcalls, Or.inr (hresult.step hbefore hstep)⟩

/-- A job whose worker waits when the run is cancelled has the attempts that were made. -/
theorem cancelled_of_waiting {before after : List Event} {attempt : Nat}
    (hbefore : (initial config submissions).run before = some last)
    (hcancelled : last.cancelled = true)
    (hworker : last.workers[worker]? = some (.waiting item attempt))
    (hrun : last.run after = some state)
    (habort : item.operation ≠ .abort) (hbatch : item.operation.isBatch = false) :
    last.callsOf item = attempt ∧ state.callsOf item = attempt ∧
      attempt ≤ config.retries.toNat ∧
      ∀ result, .reported item.id item.role result ∈ state.log →
        result = item.sent (cancelledResult item attempt) := by
  have hstart := ((founded_of_run hbefore).phase_of_eq (phases_eq_of_worker hworker)).1
  rcases (course_of_run hbefore hstart habort hbatch).of_waiting hbefore hworker with
    ⟨hcalls, hle⟩
  rcases givenUp_of_run hbefore hworker hcancelled hrun with ⟨hcalls', hkept⟩
  have h := (run_append_iff hbefore).mpr hrun
  refine ⟨hcalls, hcalls'.trans hcalls, hle, fun result hreported => ?_⟩
  rcases hkept with hworker' | hresult
  · exact absurd hreported (not_reported_of_held h hworker' (Multiset.mem_singleton_self _))
  · exact hresult.eq_of_reported h hreported

/-- Something can happen for a job until its result has been sent, whatever its next answer. -/
theorem exists_step_of_course {retries : UInt32} {answers : List (Except JobError Outcome)}
    {growth : Nat} (hcourse : Course retries state item answers growth)
    (hreported : ∀ result, .reported item.id item.role result ∉ state.log)
    (answer : Except JobError Outcome) :
    ∃ event, state.concerns item event = true ∧ (state.step event).isSome = true ∧
      ∀ worker answer', event = .answer worker answer' → answer' = answer := by
  have hresult : ∀ {result}, state.HasResult item result →
      ∃ event, state.concerns item event = true ∧ (state.step event).isSome = true ∧
        ∀ worker answer', event = .answer worker answer' → answer' = answer := by
    rintro result (⟨worker, hworker⟩ | hsent)
    · rcases exists_report_finishing item result with ⟨actions, hactions⟩
      rw [hactions] at hworker
      refine ⟨.act worker, ?_,
        isSome_of_transition (.act _ actions _ _ hworker (performs state _)),
        fun _ _ => Event.noConfusion⟩
      simp [concerns, subject?, nextAction?, hworker, Action.subject?]
    · exact absurd hsent (hreported _)
  cases hcourse with
  | calling _ hfailing worker hworker hcalls =>
      refine ⟨.answer worker answer, concerns_of_worker hworker rfl rfl, ?_,
        fun _ _ heq => (Event.answer.inj heq).2.symm⟩
      cases hagain : triesAgain state.config.retries (answers.length + 1) answer with
      | true => exact isSome_of_transition (.again item _ hworker hagain)
      | false => exact isSome_of_transition (.answer item _ hworker hagain)
  | pausing _ hfailing worker phase hworker hphase hcalls =>
      rcases hphase with rfl | rfl
      · cases hcancelled : state.cancelled with
        | true =>
            exact ⟨.giveUp worker, concerns_of_worker hworker rfl rfl,
              isSome_of_transition (.giveUpWaiting item _ hworker hcancelled),
              fun _ _ => Event.noConfusion⟩
        | false =>
            exact ⟨.rest worker, concerns_of_worker hworker rfl rfl,
              isSome_of_transition (.rest item _ hworker hcancelled),
              fun _ _ => Event.noConfusion⟩
      · exact ⟨.retry worker, concerns_of_worker hworker rfl rfl,
          isSome_of_transition (.retry item _ hworker), fun _ _ => Event.noConfusion⟩
  | answered earlier hfailing answer hlast hresult' hcalls => exact hresult hresult'
  | givenUp _ hfailing hcancelled hresult' hcalls => exact hresult hresult'

end State

/-!
## Two runs

An upload that may be tried three times succeeds at its second attempt.  In the other run the
pool is cancelled while a worker waits for that attempt.
-/

def patientConfig : PoolConfig :=
  { workers := 1, queueCapacity := 1, retries := 2 }

def patientItem : Queued :=
  { job := .ofTask (sampleTask .upload), id := { submission := 0 } }

def patientStart : State :=
  State.initial patientConfig [.job patientItem.job]

/-- The first attempt has timed out. -/
def patientPrelude : List Event :=
  [.offer, .submit, .take 0, .accept 0, .start 0, .answer 0 (.error (.timeout 5))]

def patientEvents : List Event :=
  patientPrelude ++ [.rest 0, .retry 0, .answer 0 (.ok {}), .act 0, .act 0, .act 0]

def impatientPrelude : List Event :=
  patientPrelude ++ [.cancel]

def impatientEvents : List Event :=
  impatientPrelude ++ [.giveUp 0, .act 0, .act 0, .act 0]

/-- The first answer is an error, and all others are none. -/
def patientReply : Nat → Except JobError Outcome
  | 1 => .error (.timeout 5)
  | _ => .ok {}

theorem patientReply_of_front {answers : List (Except JobError Outcome)}
    (h : answers <+: [.error (.timeout 5), .ok {}]) (n : Nat) (answer : Except JobError Outcome)
    (hget : answers[n]? = some answer) : answer = patientReply (n + 1) := by
  rcases h with ⟨rest, hrest⟩
  have hboth : (answers ++ rest)[n]? = answers[n]? :=
    List.getElem?_append_left (List.getElem?_eq_some_iff.mp hget).1
  rw [hrest, hget] at hboth
  match n with
  | 0 | 1 =>
      cases hboth
      rfl
  | n + 2 => cases hboth

end Pool
end BulkTransfer
