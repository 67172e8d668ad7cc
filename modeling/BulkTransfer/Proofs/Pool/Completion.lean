import Mathlib.Data.List.Induction
import BulkTransfer.Proofs.Pool.Tallies

/-!
# Completion of a group

A group is called by its listing and by its sub-jobs, in any order that the rules of an
expansion allow: everything is found before the listing ends, and a sub-job ends once and after
it was added.  Then a group waits for exactly what is still to come, each call that ends
something finds something to wait for, and only the last one is told that nothing is left.
The calls that a run of a pool makes are in such an order.
-/

namespace BulkTransfer
namespace Pool
namespace Group

/-!
## Calls
-/

/-- A call to a group. -/
inductive Call
  | addSubJob
  | subJobDone (status : Status)
  | entryFailed
  | listingDone (fault : Option ExpansionError)
deriving DecidableEq, Repr

namespace Call

/-- What a call makes of a group, and its answer if it has one. -/
def apply (group : Group) : Call → Group × Option Bool
  | .addSubJob => (group.addSubJob, none)
  | .subJobDone status => ((group.subJobDone status).1, some (group.subJobDone status).2)
  | .entryFailed => (group.entryFailed, none)
  | .listingDone fault => ((group.listingDone fault).1, some (group.listingDone fault).2)

def isSubJobDone : Call → Bool
  | .subJobDone _ => true
  | _ => false

def isListingDone : Call → Bool
  | .listingDone _ => true
  | _ => false

/-- Whether a call ends something that a group waits for. -/
def endsOne (call : Call) : Bool :=
  call.isSubJobDone || call.isListingDone

/-- Whether a call is counted with a status. -/
def isCountedAs (kind : Status) : Call → Bool
  | .subJobDone status => status.isLike kind
  | .entryFailed => Status.failed.isLike kind
  | _ => false

end Call

/-- The group behind some calls. -/
def after (calls : List Call) : Group :=
  calls.foldl (fun group call => (call.apply group).1) {}

/-- What the calls are answered, those that have an answer. -/
def answers : Group → List Call → List Bool
  | _, [] => []
  | group, call :: calls => (call.apply group).2.toList ++ answers (call.apply group).1 calls

def added (calls : List Call) : Nat :=
  calls.count .addSubJob

def done (calls : List Call) : Nat :=
  calls.countP Call.isSubJobDone

def failedEntries (calls : List Call) : Nat :=
  calls.count .entryFailed

/-- Whether the listing has ended. -/
def listed (calls : List Call) : Bool :=
  calls.any Call.isListingDone

/-- One while the listing is running. -/
def listing (calls : List Call) : Nat :=
  if listed calls then 0 else 1

/-- Whether the rules of an expansion allow a call behind others.  Only a running listing adds
sub-jobs, has failed entries and ends; and only a sub-job that was added and has not ended yet
can end.  A group does not tell its sub-jobs apart, so it matters how many there are. -/
def Allows (calls : List Call) : Call → Prop
  | .addSubJob | .entryFailed | .listingDone _ => listed calls = false
  | .subJobDone _ => done calls < added calls

/-- Calls of which each one is allowed behind those in front of it. -/
inductive Orderly : List Call → Prop
  | nil : Orderly []
  | concat {calls : List Call} (h : Orderly calls) (call : Call) (hcall : Allows calls call) :
      Orderly (calls ++ [call])

/-- Whether the listing and all sub-jobs have ended. -/
def Complete (calls : List Call) : Prop :=
  listed calls = true ∧ done calls = added calls

variable {calls : List Call} {call : Call}

theorem after_concat (calls : List Call) (call : Call) :
    after (calls ++ [call]) = (call.apply (after calls)).1 := by
  rw [after, List.foldl_append]
  rfl

theorem answers_append (group : Group) (front rest : List Call) :
    answers group (front ++ rest) =
      answers group front ++
        answers (front.foldl (fun group call => (call.apply group).1) group) rest := by
  induction front generalizing group with
  | nil => rfl
  | cons first front ih =>
      rw [List.cons_append, answers, answers, ih, List.append_assoc]
      rfl

theorem answers_concat (calls : List Call) (call : Call) :
    answers {} (calls ++ [call]) =
      answers {} calls ++ (call.apply (after calls)).2.toList := by
  rw [answers_append, answers, answers, List.append_nil]
  rfl

theorem added_concat (calls : List Call) (call : Call) :
    added (calls ++ [call]) = added calls + if call = .addSubJob then 1 else 0 := by
  rw [added, List.count_append, List.count_singleton]
  simp only [beq_iff_eq]
  rfl

theorem done_concat (calls : List Call) (call : Call) :
    done (calls ++ [call]) = done calls + if call.isSubJobDone then 1 else 0 := by
  rw [done, List.countP_append, List.countP_singleton]
  rfl

theorem listed_concat (calls : List Call) (call : Call) :
    listed (calls ++ [call]) = (listed calls || call.isListingDone) := by
  rw [listed, listed, List.any_append, List.any_cons, List.any_nil, Bool.or_false]

theorem listing_concat (calls : List Call) (call : Call) :
    listing (calls ++ [call]) = if call.isListingDone then 0 else listing calls := by
  rw [listing, listing, listed_concat]
  cases call.isListingDone with
  | false => rw [Bool.or_false, if_neg Bool.false_ne_true]
  | true => rw [Bool.or_true, if_pos rfl, if_pos rfl]

theorem listing_eq_one (h : listed calls = false) : listing calls = 1 := by
  rw [listing, h, if_neg Bool.false_ne_true]

/-!
## Orderly calls
-/

theorem Orderly.of_append {rest : List Call} (h : Orderly (calls ++ rest)) : Orderly calls := by
  generalize hall : calls ++ rest = all at h
  induction h generalizing rest with
  | nil =>
      rw [List.append_eq_nil_iff] at hall
      rw [hall.1]
      exact .nil
  | concat h call hcall ih =>
      rcases List.eq_nil_or_concat' rest with rfl | ⟨rest', last, rfl⟩
      · rw [List.append_nil] at hall
        rw [hall]
        exact h.concat call hcall
      · rw [← List.append_assoc] at hall
        exact ih (List.append_inj' hall rfl).1

theorem Orderly.allows (h : Orderly (calls ++ [call])) : Allows calls call := by
  generalize hall : calls ++ [call] = all at h
  cases h with
  | nil => cases List.append_eq_nil_iff.mp hall |>.2
  | concat h call hcall =>
      rcases List.append_inj' hall rfl with ⟨rfl, hlast⟩
      cases hlast
      exact hcall

theorem done_le_added (h : Orderly calls) : done calls ≤ added calls := by
  induction h with
  | nil => exact Nat.le_refl 0
  | @concat calls h call hcall ih =>
      rw [done_concat, added_concat]
      cases call with
      | subJobDone status => exact hcall
      | _ => exact Nat.le_trans ih (Nat.le_add_right _ _)

/-- Nothing is allowed behind complete calls. -/
theorem not_complete_of_allows (h : Allows calls call) : ¬ Complete calls := by
  rintro ⟨hlisted, hdone⟩
  cases call with
  | subJobDone status => exact absurd hdone (Nat.ne_of_lt h)
  | _ => exact Bool.false_ne_true (h.symm.trans hlisted)

/-!
## What a group waits for
-/

/-- A group waits for the sub-jobs that were added and have not ended, and for its listing. -/
theorem pending_after (h : Orderly calls) :
    (after calls).pending + done calls = added calls + listing calls := by
  induction h with
  | nil => rfl
  | @concat calls h call hcall ih =>
      have hle := done_le_added h
      rw [after_concat, done_concat, added_concat, listing_concat]
      cases call with
      | addSubJob =>
          change (after calls).pending + 1 + (done calls + 0) = added calls + 1 + listing calls
          omega
      | subJobDone status =>
          change done calls < added calls at hcall
          have hdone := (Overview.pending_subJobDone (after calls) status (by omega)).1
          change ((after calls).subJobDone status).1.pending + (done calls + 1) =
            added calls + 0 + listing calls
          omega
      | entryFailed => exact ih
      | listingDone fault =>
          rw [listing_eq_one hcall] at ih
          have hdone := (Overview.pending_listingDone (after calls) fault (by omega)).1
          change ((after calls).listingDone fault).1.pending + (done calls + 0) =
            added calls + 0 + 0
          omega

theorem pending_eq_zero_iff (h : Orderly calls) : (after calls).pending = 0 ↔ Complete calls := by
  have hpending := pending_after h
  have hle := done_le_added h
  rw [listing] at hpending
  rw [Complete]
  split at hpending
  · rename_i hlisted
    exact ⟨fun hzero => ⟨hlisted, by omega⟩, fun hcomplete => by omega⟩
  · rename_i hlisted
    exact ⟨fun hzero => by omega, fun hcomplete => absurd hcomplete.1 hlisted⟩

/-- A call is never made to a group that waits for nothing. -/
theorem pending_pos_of_allows (h : Orderly calls) (hcall : Allows calls call) :
    0 < (after calls).pending :=
  Nat.pos_of_ne_zero (mt (pending_eq_zero_iff h).mp (not_complete_of_allows hcall))

/-- What ends something takes one from what a group waits for, and is told whether nothing is
left. -/
theorem apply_endsOne (group : Group) (h : call.endsOne = true) (hpending : 0 < group.pending) :
    (call.apply group).1.pending + 1 = group.pending ∧
      (call.apply group).2 = some ((call.apply group).1.pending == 0) := by
  cases call with
  | subJobDone status => exact ⟨(Overview.pending_subJobDone group status hpending).1, rfl⟩
  | listingDone fault => exact ⟨(Overview.pending_listingDone group fault hpending).1, rfl⟩
  | _ => cases h

theorem answer_eq_none (group : Group) (h : call.endsOne = false) :
    (call.apply group).2 = none := by
  cases call with
  | addSubJob | entryFailed => rfl
  | _ => cases h

/-!
## Answers
-/

/-- How many calls have ended something. -/
def ended (calls : List Call) : Nat :=
  calls.countP Call.endsOne

theorem ended_concat (calls : List Call) (call : Call) :
    ended (calls ++ [call]) = ended calls + if call.endsOne then 1 else 0 := by
  rw [ended, List.countP_append, List.countP_singleton]
  rfl

/-- Before it is complete no call to a group is told so. -/
theorem answers_of_not_complete (h : Orderly calls) (hcomplete : ¬ Complete calls) :
    answers {} calls = List.replicate (ended calls) false := by
  induction h with
  | nil => rfl
  | @concat calls h call hcall ih =>
      rw [answers_concat, ended_concat, ih (not_complete_of_allows hcall)]
      cases hends : call.endsOne with
      | false =>
          rw [answer_eq_none _ hends]
          exact List.append_nil _
      | true =>
          have hleft := mt (pending_eq_zero_iff (h.concat call hcall)).mp hcomplete
          have hanswer := (apply_endsOne _ hends (pending_pos_of_allows h hcall)).2
          rw [after_concat] at hleft
          rw [hanswer, beq_false_of_ne hleft, if_pos rfl, List.replicate_succ']
          rfl

theorem ended_add_listing (h : Orderly calls) : ended calls + listing calls = done calls + 1 := by
  induction h with
  | nil => rfl
  | @concat calls h call hcall ih =>
      rw [ended_concat, listing_concat, done_concat]
      cases call with
      | addSubJob | entryFailed => exact ih
      | subJobDone status =>
          change ended calls + 1 + listing calls = done calls + 1 + 1
          omega
      | listingDone fault =>
          rw [listing_eq_one hcall] at ih
          exact ih

/-- The call that completes a group ends something. -/
theorem endsOne_of_complete (h : Orderly (calls ++ [call]))
    (hcomplete : Complete (calls ++ [call])) : call.endsOne = true := by
  have hcall := h.allows
  have hlisting := listing_concat calls call
  rw [listing, if_pos hcomplete.1] at hlisting
  cases call with
  | addSubJob | entryFailed =>
      have hone := listing_eq_one hcall
      change 0 = listing calls at hlisting
      omega
  | _ => rfl

/-- The last call to a complete group is the only one that is told so. -/
theorem answers_of_complete (h : Orderly calls) (hcomplete : Complete calls) :
    answers {} calls = List.replicate (added calls) false ++ [true] ∧
      ∃ front last, calls = front ++ [last] ∧ (last.apply (after front)).2 = some true := by
  rcases List.eq_nil_or_concat' calls with rfl | ⟨front, last, rfl⟩
  · cases hcomplete.1
  · have hfront := h.of_append
    have hlast := h.allows
    have hends := endsOne_of_complete h hcomplete
    have hzero := (pending_eq_zero_iff h).mpr hcomplete
    have hanswer := (apply_endsOne _ hends (pending_pos_of_allows hfront hlast)).2
    rw [after_concat] at hzero
    rw [hzero] at hanswer
    have hended := ended_add_listing h
    rw [ended_concat, if_pos hends, listing, if_pos hcomplete.1, hcomplete.2] at hended
    refine ⟨?_, front, last, rfl, hanswer⟩
    rw [answers_concat, answers_of_not_complete hfront (not_complete_of_allows hlast), hanswer,
      show ended front = added (front ++ [last]) by omega]
    rfl

/-!
## Counters
-/

theorem counter_apply (group : Group) (call : Call) (kind : Status) :
    (call.apply group).1.counter kind =
      group.counter kind + if call.isCountedAs kind then 1 else 0 := by
  cases call with
  | subJobDone status => exact counter_subJobDone group status kind
  | entryFailed => exact counter_entryFailed group kind
  | addSubJob | listingDone => cases kind <;> exact (UInt32.add_zero _).symm

theorem counter_after (calls : List Call) (kind : Status) :
    (after calls).counter kind = UInt32.ofNat (calls.countP (Call.isCountedAs kind)) := by
  induction calls using List.reverseRecOn with
  | nil => cases kind <;> rfl
  | append_singleton calls call ih =>
      rw [after_concat, counter_apply, ih, Overview.ofNat_add_ite, List.countP_append,
        List.countP_singleton]

theorem isCountedAs_once (call : Call) :
    (if call.isCountedAs .succeeded then 1 else 0) + (if call.isCountedAs .failed then 1 else 0) +
        (if call.isCountedAs .cancelled then 1 else 0) =
      (if call.isSubJobDone then 1 else 0) + if call == .entryFailed then 1 else 0 := by
  cases call with
  | subJobDone status => cases status <;> rfl
  | _ => rfl

/-- Each sub-job that has ended is counted once, and each failed entry is. -/
theorem countP_isCountedAs (calls : List Call) :
    calls.countP (Call.isCountedAs .succeeded) + calls.countP (Call.isCountedAs .failed) +
        calls.countP (Call.isCountedAs .cancelled) =
      done calls + failedEntries calls := by
  induction calls with
  | nil => rfl
  | cons call calls ih =>
      have honce := isCountedAs_once call
      rw [done, failedEntries] at ih ⊢
      rw [List.countP_cons, List.countP_cons, List.countP_cons, List.countP_cons, List.count_cons]
      omega

theorem counters_after (calls : List Call) :
    (after calls).tally.succeeded + (after calls).tally.failed + (after calls).cancelled =
      UInt32.ofNat (done calls + failedEntries calls) := by
  have hsucceeded := counter_after calls .succeeded
  have hfailed := counter_after calls .failed
  have hcancelled := counter_after calls .cancelled
  rw [← countP_isCountedAs, UInt32.ofNat_add, UInt32.ofNat_add, ← hsucceeded, ← hfailed,
    ← hcancelled]
  rfl

/-- As long as no counter overflows their sum is exact. -/
theorem toNat_counters_after
    (h : ∀ kind, calls.countP (Call.isCountedAs kind) < UInt32.size) :
    (after calls).tally.succeeded.toNat + (after calls).tally.failed.toNat +
        (after calls).cancelled.toNat =
      done calls + failedEntries calls := by
  have hexact : ∀ kind, ((after calls).counter kind).toNat =
      calls.countP (Call.isCountedAs kind) := by
    intro kind
    rw [counter_after, UInt32.toNat_ofNat_of_lt' (h kind)]
  rw [← countP_isCountedAs, ← hexact .succeeded, ← hexact .failed, ← hexact .cancelled]
  rfl

/-- The listing ends while one of two sub-jobs is under way. -/
def sampleCalls : List Call :=
  [.addSubJob, .entryFailed, .subJobDone .failed, .addSubJob, .listingDone none,
    .subJobDone .warning]

end Group

/-!
## Groups in a pool
-/

namespace Overview

/-- Whether the group of a batch is where orderly calls have brought it, and its listing is over
for the group when it is for the batch. -/
def IsCalled (account : Account) : Prop :=
  ∃ calls, Group.Orderly calls ∧ account.group = Group.after calls ∧
    Group.listed calls = account.joined

def AllCalled (o : Overview) : Prop :=
  ∀ (batch : Nat) (account : Account), o.accounts[batch]? = some account → IsCalled account

variable {trusted : Prop} {o next : Overview} {mark : Mark} {account account' : Account}

theorem IsCalled.call (h : IsCalled account) (call : Group.Call)
    (hallows : ∀ calls, Group.Orderly calls → account.group = Group.after calls →
      Group.listed calls = account.joined → Group.Allows calls call)
    (hgroup : account'.group = (call.apply account.group).1)
    (hjoined : account'.joined = (account.joined || call.isListingDone)) : IsCalled account' := by
  rcases h with ⟨calls, horderly, hafter, hlisted⟩
  refine ⟨calls ++ [call], horderly.concat call (hallows calls horderly hafter hlisted), ?_, ?_⟩
  · rw [hgroup, hafter, Group.after_concat]
  · rw [Group.listed_concat, hlisted, hjoined]

theorem called_set {batch : Nat} (h : AllCalled o) (haccount : IsCalled account) (batch' : Nat)
    (account' : Account) (haccount' : (o.accounts.set batch account)[batch']? = some account') :
    IsCalled account' := by
  rcases getElem?_set_cases haccount' with ⟨rfl, rfl⟩ | ⟨-, hother⟩
  · exact haccount
  · exact h batch' account' hother

/-- A sub-job that is about to be told to its batch was added and has not ended. -/
theorem done_lt_added {batch : Nat} {status : Status} {actions : List Action}
    {agendas : Multiset (List Action)} {calls : List Group.Call} (hbalanced : o.Balanced)
    (hagendas : o.agendas = (.tally batch status :: actions) ::ₘ agendas)
    (haccount : o.accounts[batch]? = some account) (horderly : Group.Orderly calls)
    (hafter : account.group = Group.after calls) (hlisted : Group.listed calls = account.joined) :
    Group.done calls < Group.added calls := by
  have hpending := hbalanced.pending batch
  have hcalls := Group.pending_after horderly
  rw [awaited, left, hagendas, planned_cons, List.countP_cons, pendingOf_eq haccount,
    listingsOf_eq haccount, hafter] at hpending
  rw [Group.listing, hlisted] at hcalls
  simp only [Action.isTallyOf, beq_self_eq_true, if_true] at hpending
  omega

theorem called_move (hbalanced : o.Balanced) (h : AllCalled o)
    (hmove : Move trusted o mark next) : AllCalled next := by
  cases hmove with
  | launch item held hheld =>
      intro batch account haccount
      rw [List.getElem?_append] at haccount
      split at haccount
      · exact h batch account haccount
      · rw [List.mem_singleton.mp (List.mem_of_getElem? haccount)]
        exact ⟨[], .nil, rfl, rfl⟩
  | list batch account listing channel entries haccount hlisting hentries =>
      exact called_set h (h batch account haccount)
  | receive batch account task channel item haccount hjoined hchannel hitem =>
      refine called_set h ((h batch account haccount).call .addSubJob ?_ rfl ?_)
      · exact fun calls _ _ hlisted => hlisted.trans hjoined
      · exact (Bool.or_false _).symm
  | refuse batch account error channel entry haccount hjoined hnotice hchannel hentry =>
      refine called_set h ((h batch account haccount).call .entryFailed ?_ rfl ?_)
      · exact fun calls _ _ hlisted => hlisted.trans hjoined
      · exact (Bool.or_false _).symm
  | join batch account fault haccount hjoined hnotice hchannel hlisting =>
      refine called_set h ((h batch account haccount).call (.listingDone fault) ?_ rfl ?_)
      · exact fun calls _ _ hlisted => hlisted.trans hjoined
      · exact (Bool.or_true _).symm
  | tell batch account item result haccount hnotice =>
      exact called_set h (h batch account haccount)
  | perform action actions agendas next further mark hagendas heffect =>
      cases heffect with
      | tally batch status account haccount =>
          refine called_set h ((h batch account haccount).call (.subJobDone status) ?_ rfl ?_)
          · intro calls horderly hafter hlisted
            exact done_lt_added hbalanced hagendas haccount horderly hafter hlisted
          · exact (Bool.or_false _).symm
      | _ => exact h
  | _ => exact h

end Overview

/-- In every run of a pool the calls to the group of a batch are orderly. -/
theorem State.orderly_of_run {config : PoolConfig} {submissions : List Submission} {state : State}
    {events : List Event} (h : (initial config submissions).run events = some state)
    {batch : Nat} {found : Batch} (hbatch : state.batches[batch]? = some found) :
    ∃ calls, Group.Orderly calls ∧ found.group = Group.after calls ∧
      Group.listed calls = found.feeding.joined := by
  have hcalled : state.overview.AllCalled := by
    refine run_moves (P := fun _ o => o.AllCalled) h (False.elim : False → _) ?_ ?_
    · rw [overview_initial]
      exact fun batch account haccount => absurd haccount (by simp)
    · intro marks o mark next hbalanced hcalled hmove
      exact Overview.called_move hbalanced hcalled hmove
  refine hcalled batch found.account ?_
  rw [accounts_getElem?, hbatch]
  rfl

end Pool
end BulkTransfer
