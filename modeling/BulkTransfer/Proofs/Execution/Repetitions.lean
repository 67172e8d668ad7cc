import BulkTransfer.Proofs.Execution.Transfers
import BulkTransfer.Proofs.Pool.Retries
import BulkTransfer.Proofs.Store.Calls

/-!
# Repeated attempts of a transfer

A pool tries a transfer again when an attempt has failed with an error that another attempt may be
spared.  Each attempt starts from what the one before it has left, and it cannot tell a target that
an earlier attempt has brought there from one that was there before the first.
-/

namespace BulkTransfer

namespace Pool.State

variable {config : PoolConfig} {submissions : List Submission} {state : State}
  {events : List Event} {item : Queued} {result : JobResult}

/-- A job that is not cancelled has its result from the last of its answers, and another attempt
followed all of the others. -/
theorem answered_of_not_cancelled (h : (initial config submissions).run events = some state)
    (hitem : item ∈ (initial config submissions).starts events)
    (habort : item.operation ≠ .abort) (hbatch : item.operation.isBatch = false)
    (hreported : .reported item.id item.role result ∈ state.log)
    (hstatus : result.status ≠ .cancelled) :
    ∃ earlier answer, (initial config submissions).answersTo item events = earlier ++ [answer] ∧
      (∀ answer' ∈ earlier, isRetryable answer' = true) ∧
      result.status = statusOf answer ∧ result.error = errorOf answer := by
  have hcourse := course_of_run h hitem habort hbatch
  generalize (initial config submissions).answersTo item events = answers at hcourse ⊢
  generalize (initial config submissions).retriesOf item events = growth at hcourse
  cases hcourse with
  | calling _ hfailing worker hworker hcalls =>
      exact absurd hreported (not_reported_of_held h hworker (Multiset.mem_singleton_self _))
  | pausing _ hfailing worker phase hworker hphase hcalls =>
      refine absurd hreported (not_reported_of_held h hworker ?_)
      rcases hphase with rfl | rfl <;> exact Multiset.mem_singleton_self _
  | answered earlier hfailing answer hlast hresult hcalls =>
      rw [hresult.eq_of_reported h hreported]
      exact ⟨earlier, answer, rfl, hfailing.retryable, status_answeredResult item _ answer,
        error_answeredResult item _ answer⟩
  | givenUp _ hfailing hcancelled hresult hcalls =>
      rw [hresult.eq_of_reported h hreported] at hstatus
      exact absurd rfl hstatus

end Pool.State

namespace Executor

open Endpoint (Ground Placed Parted)

/-- What the attempts at a task meet: the tree in front of the first one, and for each of them the
faults that strike its operations and the moment of a cancellation. -/
structure Conditions where
  tree : FileTree
  faults : Nat → List (Option IoError)
  cancel : Nat → CancelAfter

namespace Conditions

variable (conditions : Conditions) (exec : Executor) (task : Task)

/-- The tree behind some attempts. -/
def treeBehind : Nat → FileTree
  | 0 => conditions.tree
  | n + 1 =>
      (exec.execute task (conditions.cancel n)
        { tree := treeBehind n, faults := conditions.faults n }).2.tree

/-- The disk in front of an attempt; attempts are counted from zero. -/
def disk (n : Nat) : Disk :=
  { tree := conditions.treeBehind exec task n, faults := conditions.faults n }

/-- An attempt. -/
def attempt (n : Nat) : Except JobError Outcome × Disk :=
  exec.execute task (conditions.cancel n) (conditions.disk exec task n)

/-- Whether an attempt fails with an error that another one may be spared. -/
def FailsRetryably (n : Nat) : Prop :=
  Pool.isRetryable (conditions.attempt exec task n).1 = true

/-- Whether two operations of an attempt have been stopped by faults. -/
def StruckTwice (n : Nat) : Prop :=
  (conditions.attempt exec task n).2.strikes + 2 ≤ (conditions.disk exec task n).strikes

/-- Whether an attempt in front of one has not found the target and has left it complete. -/
def Completed (source target : Endpoint) (k : Nat) : Prop :=
  ∃ n < k, ¬ target.Present exec.store (conditions.treeBehind exec task n) ∧
    ∃ content, source.content? exec.store conditions.tree = some content ∧
      target.content? exec.store (conditions.treeBehind exec task (n + 1)) = some content

end Conditions

variable {exec : Executor} {task : Task} {source target : Endpoint} {root : Place}
  {conditions : Conditions} {cancel : CancelAfter} {disk later : Disk}
  {outcome : Except JobError Outcome} {k n : Nat}

/-!
## One attempt among others
-/

/-- An attempt is cancelled before it begins, or it is one of the transfer. -/
theorem execute_cases (hends : ends? task = some (source, target))
    (hskip : task.options.has .ifNotExists = true)
    (h : exec.execute task cancel disk = (outcome, later)) :
    (outcome = .error .cancelled ∧ later = disk) ∨
      transferUnlessPresent exec.store source target (StorageClass.ofOptions task.options)
        (task.options.has .deleteSource) cancel disk = (outcome, later) := by
  rw [execute] at h
  split at h
  · cases h
    exact Or.inl ⟨rfl, rfl⟩
  · rw [perform_eq_transfer exec hends hskip] at h
    exact Or.inr h

namespace Conditions

theorem treeBehind_succ (conditions : Conditions) (exec : Executor) (task : Task) (n : Nat) :
    conditions.treeBehind exec task (n + 1) = (conditions.attempt exec task n).2.tree := rfl

theorem tree_disk (conditions : Conditions) (exec : Executor) (task : Task) (n : Nat) :
    (conditions.disk exec task n).tree = conditions.treeBehind exec task n := rfl

section Attempt

variable (hends : ends? task = some (source, target))
  (hskip : task.options.has .ifNotExists = true)
include hends hskip

/-- An attempt that fails and is tried again is one of the transfer. -/
theorem transfer_of_failsRetryably (h : conditions.FailsRetryably exec task n) :
    ∃ error later, error.isRetryable = true ∧
      conditions.attempt exec task n = (.error error, later) ∧
      transferUnlessPresent exec.store source target (StorageClass.ofOptions task.options)
        (task.options.has .deleteSource) (conditions.cancel n) (conditions.disk exec task n) =
        (.error error, later) := by
  rw [FailsRetryably] at h
  rcases hattempt : conditions.attempt exec task n with ⟨error | outcome, later⟩ <;>
    rw [hattempt] at h
  · rcases execute_cases hends hskip hattempt with ⟨hcancelled, -⟩ | htransfer
    · cases hcancelled
      cases h
    · exact ⟨error, later, h, rfl, htransfer⟩
  · cases h

/-!
## Many attempts
-/

theorem ground_treeBehind (hground : Ground exec.store root source target conditions.tree)
    (hfails : ∀ n < k, conditions.FailsRetryably exec task n) :
    Ground exec.store root source target (conditions.treeBehind exec task k) := by
  induction k with
  | zero => exact hground
  | succ k ih =>
      have hbefore := ih fun n hn => hfails n (Nat.lt_succ_of_lt hn)
      rcases transfer_of_failsRetryably hends hskip (hfails k (Nat.lt_succ_self k)) with
        ⟨error, later, -, hattempt, htransfer⟩
      rw [treeBehind_succ, hattempt]
      rw [← tree_disk] at hbefore
      exact ground_of_error hbefore htransfer

/-- A target that is there from the start is left alone by all attempts, as long as none is struck
twice. -/
theorem treeBehind_of_present (hsound : conditions.tree.Sound)
    (hpresent : target.Present exec.store conditions.tree)
    (hfails : ∀ n < k, conditions.FailsRetryably exec task n) :
    conditions.treeBehind exec task k = conditions.tree ∨
      ∃ n < k, conditions.StruckTwice exec task n := by
  -- while nothing has changed, an attempt finds the target that the first one has found
  induction k with
  | zero => exact Or.inl rfl
  | succ k ih =>
      rcases ih fun n hn => hfails n (Nat.lt_succ_of_lt hn) with hsame | ⟨n, hn, hstruck⟩
      · rcases transfer_of_failsRetryably hends hskip (hfails k (Nat.lt_succ_self k)) with
          ⟨error, later, hagain, hattempt, htransfer⟩
        rw [← tree_disk] at hsame
        rw [← hsame] at hsound hpresent
        rcases unchanged_of_present hsound hpresent htransfer hagain with hkept | hstruck
        · left
          rw [treeBehind_succ, hattempt, ← hsame]
          exact hkept
        · refine Or.inr ⟨k, Nat.lt_succ_self k, ?_⟩
          rw [StruckTwice, hattempt]
          exact hstruck
      · exact Or.inr ⟨n, Nat.lt_succ_of_lt hn, hstruck⟩

/-- Attempts that fail keep the ends apart and the source as it was. -/
theorem parted_treeBehind (hparted : Parted exec.store root source target conditions.tree)
    (hfails : ∀ n < k, conditions.FailsRetryably exec task n) :
    Parted exec.store root source target (conditions.treeBehind exec task k) ∧
      source.content? exec.store (conditions.treeBehind exec task k) =
        source.content? exec.store conditions.tree := by
  induction k with
  | zero => exact ⟨hparted, rfl⟩
  | succ k ih =>
      rcases ih fun n hn => hfails n (Nat.lt_succ_of_lt hn) with ⟨hbefore, hsame⟩
      rcases transfer_of_failsRetryably hends hskip (hfails k (Nat.lt_succ_self k)) with
        ⟨error, later, -, hattempt, htransfer⟩
      rw [← tree_disk] at hbefore hsame
      rcases parted_of_error hbefore htransfer with ⟨hafter, hsame'⟩
      rw [treeBehind_succ, hattempt]
      exact ⟨hafter, hsame'.trans hsame⟩

/-- A target that comes to be there under attempts that fail has been completed by one of them that
did not find it, unless one has been struck twice. -/
theorem missing_treeBehind (hparted : Parted exec.store root source target conditions.tree)
    (hmissing : ¬ target.Present exec.store conditions.tree)
    (hfails : ∀ n < k, conditions.FailsRetryably exec task n) :
    ¬ target.Present exec.store (conditions.treeBehind exec task k) ∨
      conditions.Completed exec task source target k ∨
      ∃ n < k, conditions.StruckTwice exec task n := by
  -- nothing is said about the attempts behind the first one that leaves the target there
  induction k with
  | zero => exact Or.inl hmissing
  | succ k ih =>
      have hfails' : ∀ n < k, conditions.FailsRetryably exec task n :=
        fun n hn => hfails n (Nat.lt_succ_of_lt hn)
      rcases ih hfails' with hstill | ⟨n, hn, hcomplete⟩ | ⟨n, hn, hstruck⟩
      · rcases parted_treeBehind hends hskip hparted hfails' with ⟨hbefore, hsame⟩
        rcases transfer_of_failsRetryably hends hskip (hfails k (Nat.lt_succ_self k)) with
          ⟨error, later, hagain, hattempt, htransfer⟩
        rw [← tree_disk] at hbefore hstill hsame
        rcases missing_or_complete hbefore hstill htransfer hagain with
          hlater | ⟨content, hsource, htarget⟩ | hstruck
        · left
          rw [treeBehind_succ, hattempt]
          exact hlater
        · rw [hsame] at hsource
          refine Or.inr (Or.inl ⟨k, Nat.lt_succ_self k, hstill, content, hsource, ?_⟩)
          rw [treeBehind_succ, hattempt]
          exact htarget
        · refine Or.inr (Or.inr ⟨k, Nat.lt_succ_self k, ?_⟩)
          rw [StruckTwice, hattempt]
          exact hstruck
      · exact Or.inr (Or.inl ⟨n, Nat.lt_succ_of_lt hn, hcomplete⟩)
      · exact Or.inr (Or.inr ⟨n, Nat.lt_succ_of_lt hn, hstruck⟩)

/-!
## The last attempt
-/

theorem attempt_of_ok {said : Outcome}
    (h : (conditions.attempt exec task k).1 = .ok said) :
    transferUnlessPresent exec.store source target (StorageClass.ofOptions task.options)
      (task.options.has .deleteSource) (conditions.cancel k) (conditions.disk exec task k) =
        (.ok said, (conditions.attempt exec task k).2) := by
  rcases hattempt : conditions.attempt exec task k with ⟨outcome, later⟩
  rw [hattempt] at h
  obtain rfl : outcome = .ok said := h
  rcases execute_cases hends hskip hattempt with ⟨hcancelled, -⟩ | htransfer
  · cases hcancelled
  · exact htransfer

/-- How the target has come to be there that the last attempt finds. -/
theorem warning_of_attempts {said : Outcome}
    (hplaced : Placed exec.store root source target conditions.tree)
    (hfails : ∀ n < k, conditions.FailsRetryably exec task n)
    (h : (conditions.attempt exec task k).1 = .ok said) (hwarning : said.warning ≠ none) :
    said = skipped ∧
      conditions.treeBehind exec task (k + 1) = conditions.treeBehind exec task k ∧
      target.Present exec.store (conditions.treeBehind exec task k) ∧
      (target.Present exec.store conditions.tree ∧
          conditions.treeBehind exec task (k + 1) = conditions.tree ∨
        ¬ target.Present exec.store conditions.tree ∧
          conditions.Completed exec task source target k ∨
        ∃ n < k, conditions.StruckTwice exec task n) ∧
      (¬ target.Present exec.store conditions.tree →
        source.content? exec.store (conditions.treeBehind exec task (k + 1)) =
          source.content? exec.store conditions.tree) := by
  have hground := ground_treeBehind hends hskip hplaced.toGround hfails
  rw [← tree_disk] at hground
  rcases present_of_warning hground.sound (attempt_of_ok hends hskip h) hwarning with
    ⟨hskipped, hpresent, hlast⟩
  rw [← treeBehind_succ, tree_disk] at hlast
  rw [tree_disk] at hpresent
  refine ⟨hskipped, hlast, hpresent, ?_, ?_⟩
  · by_cases hfirst : target.Present exec.store conditions.tree
    · rcases treeBehind_of_present hends hskip hplaced.sound hfirst hfails with hsame | hstruck
      · exact Or.inl ⟨hfirst, hlast.trans hsame⟩
      · exact Or.inr (Or.inr hstruck)
    · rcases missing_treeBehind hends hskip (hplaced.parted hfirst) hfirst hfails with
        hstill | hcomplete | hstruck
      · exact absurd hpresent hstill
      · exact Or.inr (Or.inl ⟨hfirst, hcomplete⟩)
      · exact Or.inr (Or.inr hstruck)
  · intro hfirst
    rw [hlast]
    exact (parted_treeBehind hends hskip (hplaced.parted hfirst) hfails).2

/-- What the last attempt has done that succeeds, if the target was not there before the first. -/
theorem transferred_of_attempts {said : Outcome}
    (hplaced : Placed exec.store root source target conditions.tree)
    (hmissing : ¬ target.Present exec.store conditions.tree)
    (hfails : ∀ n < k, conditions.FailsRetryably exec task n)
    (h : (conditions.attempt exec task k).1 = .ok said) (hwarning : said.warning = none) :
    ∃ content, source.content? exec.store conditions.tree = some content ∧
      target.content? exec.store (conditions.treeBehind exec task (k + 1)) = some content ∧
      (if task.options.has .deleteSource then
        ¬ source.Present exec.store (conditions.treeBehind exec task (k + 1))
      else
        source.content? exec.store (conditions.treeBehind exec task (k + 1)) = some content) := by
  rcases parted_treeBehind hends hskip (hplaced.parted hmissing) hfails with ⟨hparted, hsame⟩
  rw [← tree_disk] at hparted hsame
  rcases transferred_of_ok hparted (attempt_of_ok hends hskip h) hwarning with
    ⟨content, hsource, -, hlast⟩
  rw [hsame] at hsource
  exact ⟨content, hsource, hlast⟩

end Attempt

end Conditions

/-!
## The pool
-/

open Pool (State Submission Event Queued statusOf errorOf)

theorem operation_of_ends {task : Task} (h : ends? task = some (source, target)) :
    task.operation ≠ .abort ∧ task.operation.isBatch = false := by
  rw [ends?] at h
  dsimp only at h
  split at h
  case h_5 => cases h
  all_goals
    rename_i hoperation
    rw [hoperation]
    exact ⟨Operation.noConfusion, rfl⟩

/-- The answers of a pool to a task are those of attempts at it. -/
def Conditions.Answer (conditions : Conditions) (exec : Executor) (task : Task)
    (answers : List (Except JobError Outcome)) : Prop :=
  ∀ n answer, answers[n]? = some answer → answer = (conditions.attempt exec task n).1

theorem Conditions.Answer.split {earlier : List (Except JobError Outcome)}
    {answer : Except JobError Outcome}
    (h : conditions.Answer exec task (earlier ++ [answer]))
    (hearlier : ∀ answer' ∈ earlier, Pool.isRetryable answer' = true) :
    (∀ n < earlier.length, conditions.FailsRetryably exec task n) ∧
      answer = (conditions.attempt exec task earlier.length).1 := by
  constructor
  · intro n hn
    have hget : (earlier ++ [answer])[n]? = some earlier[n] := by
      rw [List.getElem?_append_left hn, List.getElem?_eq_getElem hn]
    rw [FailsRetryably, ← h n _ hget]
    exact hearlier _ (List.getElem_mem hn)
  · exact h _ _ List.getElem?_concat_length

theorem ok_of_warning {answer : Except JobError Outcome} (h : statusOf answer = .warning) :
    ∃ said, answer = .ok said ∧ said.warning ≠ none := by
  cases answer with
  | ok said =>
      refine ⟨said, rfl, fun hnone => ?_⟩
      rw [statusOf, hnone] at h
      cases h
  | error error => cases error <;> cases h

theorem ok_of_succeeded {answer : Except JobError Outcome} (h : statusOf answer = .succeeded) :
    ∃ said, answer = .ok said ∧ said.warning = none := by
  cases answer with
  | ok said =>
      refine ⟨said, rfl, ?_⟩
      cases hwarning : said.warning with
      | none => rfl
      | some text =>
          rw [statusOf, hwarning] at h
          cases h
  | error error => cases error <;> cases h

/-- Faults in the first attempt, and none in any other. -/
def struckFirst (tree : FileTree) (faults : List (Option IoError)) : Conditions :=
  { tree := tree, faults := fun n => if n = 0 then faults else [], cancel := fun _ => none }

/-- Some operations in a row time out behind some others. -/
def timeouts (front struck : Nat) : List (Option IoError) :=
  List.replicate front none ++ List.replicate struck (some (.plain .timedOut))

def movingExecutor : Executor :=
  { store := Store.sampleStore }

def vacantLocation : Location :=
  { bucket := "b", key := "n" }

def moveTask (operation : Operation) (source target : Argument) : Task :=
  .make "mv" operation (.ofList [.deleteSource, .ifNotExists]) [source, target]

def storeTask : Task :=
  moveTask .upload (.plain "src") (.storage vacantLocation)

def storeItem : Queued :=
  { job := .ofTask storeTask, id := { submission := 0 } }

def storeStart : State :=
  State.initial Pool.patientConfig [.job storeItem.job]

/-- The job is started and has two answers. -/
def storeEvents (first second : Except JobError Outcome) : List Event :=
  [.offer, .submit, .take 0, .accept 0, .start 0, .answer 0 first, .rest 0, .retry 0,
    .answer 0 second, .act 0, .act 0, .act 0]

/-- A job has the result of its second attempt if the first has failed for a while. -/
theorem run_storeEvents (text : String) (said : Outcome) :
    let events := storeEvents (.error (.transient text)) (.ok said)
    storeItem ∈ storeStart.starts events ∧
      storeStart.answersTo storeItem events = [.error (.transient text), .ok said] ∧
      ∃ state result, storeStart.run events = some state ∧
        .reported storeItem.id storeItem.role result ∈ state.log ∧
        result.status = statusOf (.ok said) ∧ result.error = said.warning := by
  intro events
  have hany : (storeStart.run events).any
      (fun state => state.isQuiescent && !state.cancelled) = true := by
    rcases said with ⟨bytes, messages, _ | warning⟩ <;> rfl
  have hitem : storeItem ∈ storeStart.starts events := List.mem_of_mem_head? rfl
  have hanswers : storeStart.answersTo storeItem events =
      [.error (.transient text), .ok said] := by
    rcases said with ⟨bytes, messages, _ | warning⟩ <;> rfl
  refine ⟨hitem, hanswers, ?_⟩
  rcases (Option.any_eq_true _ _).mp hany with ⟨state, hrun, hstate⟩
  rw [Bool.and_eq_true, Bool.not_eq_true'] at hstate
  rcases State.exists_reported hrun hstate.1 (State.mem_entrants_of_start hrun hitem).1 with
    ⟨result, hreported⟩
  have hcourse := State.course_of_run hrun hitem (by decide) rfl
  rcases hcourse.of_reported hrun hstate.2 hreported with
    ⟨earlier, answer, hall, -, -, -, hresult, -⟩
  have hlast : answer = .ok said := by
    have hall' := hanswers.symm.trans hall
    rcases earlier with _ | ⟨first, _ | ⟨second, earlier⟩⟩
    · cases hall'
    · cases hall'
      rfl
    · cases earlier <;> cases hall'
  rw [hlast] at hresult
  refine ⟨state, result, hrun, hreported, ?_⟩
  rw [hresult.eq_of_reported hrun hreported]
  exact ⟨rfl, rfl⟩

theorem answer_pair {task : Task} {first second : Except JobError Outcome}
    (hfirst : (conditions.attempt exec task 0).1 = first)
    (hsecond : (conditions.attempt exec task 1).1 = second) :
    conditions.Answer exec task [first, second] := by
  intro n answer hget
  match n with
  | 0 =>
      cases hget
      exact hfirst.symm
  | 1 =>
      cases hget
      exact hsecond.symm
  | n + 2 => cases hget

theorem placed_sample :
    Placed Store.sampleStore ["store"] (.path "src") (.object vacantLocation)
      Store.sampleTree := by
  have hstat : Store.sampleTree.stat "src" = .ok (["src"], .file "hello".toUTF8 1) := by rfl
  refine ⟨⟨Store.sampleTree_evolves.sound, fun _ => Store.sampleTree_roots, fun _ => Endpoint.noConfusion,
    fun h => h.elim⟩, ?_⟩
  rintro - _ ⟨⟩ place content modified hfile
  rw [hstat] at hfile
  cases hfile
  decide

theorem warned_storeEvents {text : String}
    (hfirst : (conditions.attempt movingExecutor storeTask 0).1 = .error (.transient text))
    (hsecond : (conditions.attempt movingExecutor storeTask 1).1 = .ok skipped) :
    ∃ state result,
      storeStart.run (storeEvents (conditions.attempt movingExecutor storeTask 0).1
        (conditions.attempt movingExecutor storeTask 1).1) = some state ∧
      .reported storeItem.id storeItem.role result ∈ state.log ∧
      result.status = .warning ∧ result.error = some "object already exists" := by
  rw [hfirst, hsecond]
  rcases run_storeEvents text skipped with
    ⟨-, -, state, result, hrun, hreported, hstatus, herror⟩
  exact ⟨state, result, hrun, hreported, hstatus, herror⟩

/-- A store with an object in the standard class, and with a link to where its class would be
kept. -/
def strayTree : FileTree :=
  (Store.sampleTree.put ["store", "b", "n"] (.file "data".toUTF8 4)).put ["store", "b", "t"]
    (.link "../.xf-meta/b/n")

/-- What a move does to a tree that it is not retried on. -/
def moveOnce (operation : Operation) (source target : Argument) :
    Except JobError Outcome × Disk :=
  movingExecutor.execute (moveTask operation source target) none { tree := strayTree }

end Executor

end BulkTransfer
