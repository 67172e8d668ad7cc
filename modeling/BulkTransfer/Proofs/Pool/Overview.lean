import BulkTransfer.Proofs.Pool.Chronicle
import Mathlib.Algebra.GroupWithZero.Nat
import Mathlib.Data.Multiset.Bind

/-!
# Overviews of a pool

An overview forgets who does something and keeps what is there: the jobs that wait
for a worker, the jobs that workers are at, the actions that are left to do, and an
account of every batch.  The order of workers, of the queue and of the continuations
does not matter to any count of jobs, so these are multisets.
-/

namespace BulkTransfer
namespace Pool

/-!
## Tickets

A ticket names a job or a failed entry by its place in the run and by what its result
says about it.
-/

structure Ticket where
  id : JobId
  role : Role
  source : String
  text : String
  operation : Operation
deriving DecidableEq, Repr, Inhabited

/-- Whether it is the role of a sub-job of a batch. -/
def Role.isMember (batch : Nat) : Role → Bool
  | .member batch' _ => batch == batch'
  | _ => false

namespace Queued

def ticket (item : Queued) : Ticket :=
  { id := item.id, role := item.role, source := item.task.source, text := item.task.text,
    operation := item.operation }

/-- Whether it is a sub-job of a batch. -/
def isMemberOf (batch : Nat) (item : Queued) : Bool :=
  item.role.isMember batch

end Queued

/-- The ticket of a result that is sent for a job. -/
def ticketOf (id : JobId) (role : Role) (result : JobResult) : Ticket :=
  { id := id, role := role, source := result.source, text := result.job,
    operation := result.operation }

/-- The ticket of a result in the log. -/
def Entry.ticket? : Entry → Option Ticket
  | .reported id role result => some (ticketOf id role result)
  | _ => none

/-- The tickets of all results that have been sent. -/
def receipts (log : List Entry) : List Ticket :=
  log.filterMap Entry.ticket?

@[simp] theorem receipts_append (log log' : List Entry) :
    receipts (log ++ log') = receipts log ++ receipts log' :=
  List.filterMap_append

@[simp] theorem receipts_reported (id : JobId) (role : Role) (result : JobResult) :
    receipts [.reported id role result] = [ticketOf id role result] := rfl

theorem ticket?_eq_none_of_expanded {entries : List Entry}
    (h : ∀ entry ∈ entries, ∃ item, entry = .expanded item) :
    ∀ entry ∈ entries, entry.ticket? = none := by
  intro entry hentry
  rcases h entry hentry with ⟨item, rfl⟩
  rfl

theorem receipts_eq_nil {entries : List Entry} (h : ∀ entry ∈ entries, entry.ticket? = none) :
    receipts entries = [] := by
  simpa [receipts, List.filterMap_eq_nil_iff] using h

/-!
## What parties are at
-/

/-- The actions of a party as an agenda; no actions are no agenda. -/
def agendaOf : List Action → Multiset (List Action)
  | [] => 0
  | action :: actions => {action :: actions}

theorem mem_agendaOf {agenda actions : List Action} :
    agenda ∈ agendaOf actions ↔ agenda = actions ∧ actions ≠ [] := by
  cases actions <;> simp [agendaOf]

namespace Phase

def held : Phase → Multiset Queued
  | .holding item | .accepted item | .exiting item | .attempting item _ | .waiting item _
  | .rested item _ => {item}
  | .idle | .finishing _ => 0

def agendas : Phase → Multiset (List Action)
  | .finishing actions => {actions}
  | _ => 0

end Phase

namespace Feeding

def waiting : Feeding → Multiset Queued
  | .queueing item => {item}
  | _ => 0

def agendas : Feeding → Multiset (List Action)
  | .leaving actions => agendaOf actions
  | _ => 0

@[simp] theorem waiting_receiving : receiving.waiting = 0 := rfl

@[simp] theorem waiting_queueing (item : Queued) : (queueing item).waiting = {item} := rfl

@[simp] theorem agendas_receiving : receiving.agendas = 0 := rfl

@[simp] theorem agendas_leaving (actions : List Action) :
    (leaving actions).agendas = agendaOf actions := rfl

def notice : Feeding → List Action
  | .acting actions => actions
  | _ => []

def joined : Feeding → Bool
  | .leaving _ => true
  | _ => false

end Feeding

/-- What a batch has come to, without the job and the agenda of its feeder. -/
structure Account where
  parent : Queued
  group : Group := {}
  listing : Listing := .ready
  channel : List (Except ExpansionError SubTask) := []
  received : Nat := 0
  /-- what is left to do behind a failed entry -/
  notice : List Action := []
  /-- whether the feeder has come to the end of the listing -/
  joined : Bool := false
deriving Inhabited

namespace Account

/-- Whether something of the batch is still to come. -/
def isOpen (account : Account) : Bool :=
  account.group.pending != 0

/-- The result of a batch that is closed. -/
def result (account : Account) (cancelled : Bool) : JobResult :=
  batchResult { parent := account.parent, group := account.group } cancelled

end Account

def Batch.account (found : Batch) : Account :=
  { parent := found.parent, group := found.group, listing := found.listing,
    channel := found.channel, received := found.received, notice := found.feeding.notice,
    joined := found.feeding.joined }

@[ext]
structure Overview where
  /-- the jobs that no worker has taken yet -/
  waiting : Multiset Queued
  /-- the jobs that workers are at -/
  held : Multiset Queued
  agendas : Multiset (List Action)
  accounts : List Account
  submissions : List Submission
  outstanding : Nat
  unhandled : Nat
  submitted : Nat
  rejections : UInt64
  cancelled : Bool
  log : List Entry

namespace Overview

/-- How many jobs of a kind are under way. -/
def underWay (o : Overview) (p : Queued → Bool) : Nat :=
  o.waiting.countP (p ·) + o.held.countP (p ·)

/-- How many actions of a kind there are on agendas. -/
def planned (agendas : Multiset (List Action)) (q : Action → Bool) : Nat :=
  (agendas.map (List.countP q)).sum

/-- How many actions of a kind there are behind failed entries. -/
def noticed (accounts : List Account) (q : Action → Bool) : Nat :=
  (accounts.map fun account => account.notice.countP q).sum

/-- How many actions of a kind are left to do. -/
def left (o : Overview) (q : Action → Bool) : Nat :=
  planned o.agendas q + noticed o.accounts q

end Overview

/-- The overview of a state. -/
def State.overview (state : State) : Overview where
  waiting :=
    state.offered.toList + state.queue + state.continuations +
      (state.batches : Multiset Batch).bind fun found => found.feeding.waiting
  held := (state.workers : Multiset Phase).bind Phase.held
  agendas :=
    (state.workers : Multiset Phase).bind Phase.agendas +
      (state.batches : Multiset Batch).bind fun found => found.feeding.agendas
  accounts := state.batches.map Batch.account
  submissions := state.submissions
  outstanding := state.outstanding
  unhandled := state.unhandled
  submitted := state.submitted
  rejections := state.stats.parseFailures
  cancelled := state.cancelled
  log := state.log

/-!
## One element of a list

What is there besides one element stays the same when that element changes.
-/

theorem coe_eq_cons_eraseIdx {α : Type} {xs : List α} {i : Nat} {x : α}
    (h : xs[i]? = some x) : (xs : Multiset α) = x ::ₘ (xs.eraseIdx i : List α) := by
  rcases List.getElem?_eq_some_iff.mp h with ⟨hi, rfl⟩
  rw [Multiset.cons_coe]
  exact Multiset.coe_eq_coe.mpr (List.getElem_cons_eraseIdx_perm hi).symm

theorem coe_set_eq_cons_eraseIdx {α : Type} {xs : List α} {i : Nat} {x : α}
    (h : xs[i]? = some x) (y : α) :
    ((xs.set i y : List α) : Multiset α) = y ::ₘ (xs.eraseIdx i : List α) := by
  rcases List.getElem?_eq_some_iff.mp h with ⟨hi, -⟩
  rw [Multiset.cons_coe]
  exact Multiset.coe_eq_coe.mpr (List.set_perm_cons_eraseIdx hi y)

theorem exists_bind_set {α β : Type} {xs : List α} {i : Nat} {x : α} (h : xs[i]? = some x)
    (g : α → Multiset β) :
    ∃ rest, (xs : Multiset α).bind g = g x + rest ∧
      ∀ y, ((xs.set i y : List α) : Multiset α).bind g = g y + rest := by
  refine ⟨(xs.eraseIdx i : Multiset α).bind g, ?_, ?_⟩
  · rw [coe_eq_cons_eraseIdx h, Multiset.cons_bind]
  · intro y
    rw [coe_set_eq_cons_eraseIdx h, Multiset.cons_bind]

theorem bind_set {α β : Type} {xs : List α} {i : Nat} {x y : α} (h : xs[i]? = some x)
    {g : α → Multiset β} (hg : g y = g x) :
    ((xs.set i y : List α) : Multiset α).bind g = (xs : Multiset α).bind g := by
  rcases exists_bind_set h g with ⟨rest, hbefore, hbehind⟩
  rw [hbefore, hbehind, hg]

theorem modify_eq_set_of_getElem? {α : Type} {xs : List α} {i : Nat} {x : α}
    (h : xs[i]? = some x) (f : α → α) : xs.modify i f = xs.set i (f x) := by
  rw [List.modify_eq_set_getElem?, h]
  rfl

theorem set_eq_self_of_getElem? {α : Type} {xs : List α} {i : Nat} {x : α}
    (h : xs[i]? = some x) : xs.set i x = xs := by
  rcases List.getElem?_eq_some_iff.mp h with ⟨hi, rfl⟩
  exact List.set_getElem_self hi

theorem getElem?_set_cases {α : Type} {xs : List α} {i j : Nat} {x y : α}
    (h : (xs.set i y)[j]? = some x) : j = i ∧ x = y ∨ j ≠ i ∧ xs[j]? = some x := by
  rw [List.getElem?_set] at h
  split at h
  · rename_i hij
    split at h
    · cases h
      exact Or.inl ⟨hij.symm, rfl⟩
    · cases h
  · rename_i hij
    exact Or.inr ⟨Ne.symm hij, h⟩

theorem getElem?_of_prefix {α : Type} {xs ys : List α} {i : Nat} {x : α} (h : xs <+: ys)
    (hx : xs[i]? = some x) : ys[i]? = some x := by
  rcases h with ⟨rest, rfl⟩
  rw [List.getElem?_append_left (List.getElem?_eq_some_iff.mp hx).1, hx]

/-- What is read off one element depends on it alone. -/
theorem elim_set {α β : Type} {xs : List α} {i : Nat} {x : α} (h : xs[i]? = some x) (y : α)
    (b : β) (g : α → β) (j : Nat) :
    (xs.set i y)[j]?.elim b g = if j = i then g y else xs[j]?.elim b g := by
  rcases List.getElem?_eq_some_iff.mp h with ⟨hi, -⟩
  by_cases hj : j = i
  · rw [if_pos hj, hj, List.getElem?_set_self hi]
    rfl
  · rw [if_neg hj, List.getElem?_set_ne (Ne.symm hj)]

theorem elim_concat {α β : Type} (xs : List α) (x : α) (b : β) (g : α → β) (j : Nat) :
    (xs ++ [x])[j]?.elim b g = if j = xs.length then g x else xs[j]?.elim b g := by
  by_cases hj : j = xs.length
  · rw [if_pos hj, hj, List.getElem?_concat_length]
    rfl
  · rw [if_neg hj, List.getElem?_append]
    split
    · rfl
    · rw [List.getElem?_eq_none (by rw [List.length_singleton]; omega),
        List.getElem?_eq_none (by omega)]

theorem elim_length {α β : Type} (xs : List α) (b : β) (g : α → β) :
    xs[xs.length]?.elim b g = b := by
  rw [List.getElem?_length]
  rfl

theorem elim_set_of_eq {α β : Type} {xs : List α} {i : Nat} {x y : α} (h : xs[i]? = some x)
    (b : β) {g : α → β} (hg : g y = g x) (j : Nat) :
    (xs.set i y)[j]?.elim b g = xs[j]?.elim b g := by
  rw [elim_set h]
  by_cases hj : j = i
  · rw [if_pos hj, hj, h]
    exact hg
  · rw [if_neg hj]

theorem elim_concat_of_eq {α β : Type} (xs : List α) {x : α} {b : β} {g : α → β} (hg : g x = b)
    (j : Nat) : (xs ++ [x])[j]?.elim b g = xs[j]?.elim b g := by
  rw [elim_concat]
  by_cases hj : j = xs.length
  · rw [if_pos hj, hj, elim_length, hg]
  · rw [if_neg hj]

theorem elim_set_add {α : Type} {xs : List α} {i : Nat} {x : α} (h : xs[i]? = some x) (y : α)
    (g : α → Nat) (j : Nat) :
    (xs.set i y)[j]?.elim 0 g + (if j = i then g x else 0) =
      xs[j]?.elim 0 g + if j = i then g y else 0 := by
  rw [elim_set h]
  by_cases hj : j = i
  · rw [if_pos hj, if_pos hj, if_pos hj, hj, h]
    exact Nat.add_comm _ _
  · rw [if_neg hj, if_neg hj, if_neg hj]

theorem elim_concat_add {α : Type} (xs : List α) (x : α) (g : α → Nat) (j : Nat) :
    (xs ++ [x])[j]?.elim 0 g = xs[j]?.elim 0 g + if j = xs.length then g x else 0 := by
  rw [elim_concat]
  by_cases hj : j = xs.length
  · rw [if_pos hj, if_pos hj, hj, elim_length, Nat.zero_add]
  · rw [if_neg hj, if_neg hj, Nat.add_zero]

theorem countP_set_add {α : Type} {xs : List α} {i : Nat} {x : α} (h : xs[i]? = some x)
    (p : α → Bool) (y : α) :
    (xs.set i y).countP p + (if p x then 1 else 0) =
      xs.countP p + (if p y then 1 else 0) := by
  rcases List.getElem?_eq_some_iff.mp h with ⟨hi, rfl⟩
  have hle := List.boole_getElem_le_countP (p := p) hi
  rw [List.countP_set hi]
  omega

theorem countP_set_of_eq {α : Type} {xs : List α} {i : Nat} {x y : α} {p : α → Bool}
    (h : xs[i]? = some x) (hp : p y = p x) : (xs.set i y).countP p = xs.countP p := by
  have hset := countP_set_add h p y
  rw [hp] at hset
  exact Nat.add_right_cancel hset

theorem eq_singleton_of_mem {α : Type} {x : α} {xs : List α} (hmem : x ∈ xs)
    (hlength : xs.length ≤ 1) : xs = [x] := by
  cases xs with
  | nil => cases hmem
  | cons y ys =>
      cases ys with
      | nil => rw [List.mem_singleton.mp hmem]
      | cons z zs =>
          simp only [List.length_cons] at hlength
          omega

theorem filter_eq_singleton {α : Type} {xs : List α} {p : α → Bool} {x : α} (hx : x ∈ xs)
    (hp : p x = true) (hone : xs.countP p = 1) : xs.filter p = [x] := by
  apply eq_singleton_of_mem (List.mem_filter.mpr ⟨hx, hp⟩)
  rw [← List.countP_eq_length_filter, hone]

theorem countP_add_le {α : Type} {p q r : α → Bool} {xs : List α}
    (hdisjoint : ∀ x ∈ xs, p x = true → q x = false) (hp : ∀ x ∈ xs, p x = true → r x = true)
    (hq : ∀ x ∈ xs, q x = true → r x = true) : xs.countP p + xs.countP q ≤ xs.countP r := by
  induction xs with
  | nil => exact Nat.le_refl 0
  | cons x xs ih =>
      have hxs := ih (fun y hy => hdisjoint y (List.mem_cons_of_mem x hy))
        (fun y hy => hp y (List.mem_cons_of_mem x hy))
        fun y hy => hq y (List.mem_cons_of_mem x hy)
      have hx := List.mem_cons_self (a := x) (l := xs)
      rw [List.countP_cons, List.countP_cons, List.countP_cons]
      by_cases hpx : p x = true
      · rw [if_pos hpx, hdisjoint x hx hpx, if_pos (hp x hx hpx), if_neg Bool.false_ne_true]
        omega
      · rw [if_neg hpx]
        by_cases hqx : q x = true
        · rw [if_pos hqx, if_pos (hq x hx hqx)]
          omega
        · rw [if_neg hqx]
          omega

/-- Each element that is counted is counted once more in one of two parts. -/
theorem countP_eq_add {α : Type} {xs : List α} {p q r : α → Bool}
    (h : ∀ x ∈ xs, (if p x then 1 else 0) = (if q x then 1 else 0) + if r x then 1 else 0) :
    xs.countP p = xs.countP q + xs.countP r := by
  induction xs with
  | nil => rfl
  | cons x xs ih =>
      have hxs := ih fun y hy => h y (List.mem_cons_of_mem x hy)
      have hx := h x List.mem_cons_self
      rw [List.countP_cons, List.countP_cons, List.countP_cons, hxs, hx]
      omega

namespace Overview

@[simp] theorem planned_zero (q : Action → Bool) : planned 0 q = 0 := rfl

@[simp] theorem planned_cons (agenda : List Action) (agendas : Multiset (List Action))
    (q : Action → Bool) : planned (agenda ::ₘ agendas) q = agenda.countP q + planned agendas q := by
  simp [planned]

@[simp] theorem planned_agendaOf_add (actions : List Action) (agendas : Multiset (List Action))
    (q : Action → Bool) :
    planned (agendaOf actions + agendas) q = actions.countP q + planned agendas q := by
  cases actions <;> simp [planned, agendaOf]

theorem planned_eq_zero_iff {agendas : Multiset (List Action)} {q : Action → Bool} :
    planned agendas q = 0 ↔ ∀ agenda ∈ agendas, ∀ action ∈ agenda, q action = false := by
  induction agendas using Multiset.induction with
  | empty => simp
  | cons agenda agendas ih =>
      rw [planned_cons, Nat.add_eq_zero_iff, ih, List.countP_eq_zero, Multiset.forall_mem_cons]
      simp only [Bool.not_eq_true]

theorem noticed_eq_zero_iff {accounts : List Account} {q : Action → Bool} :
    noticed accounts q = 0 ↔
      ∀ account ∈ accounts, ∀ action ∈ account.notice, q action = false := by
  rw [noticed, List.sum_eq_zero_iff_forall_eq_nat]
  simp only [List.forall_mem_map, List.countP_eq_zero, Bool.not_eq_true]

theorem left_eq_zero_iff {o : Overview} {q : Action → Bool} :
    o.left q = 0 ↔
      (∀ agenda ∈ o.agendas, ∀ action ∈ agenda, q action = false) ∧
        ∀ account ∈ o.accounts, ∀ action ∈ account.notice, q action = false := by
  rw [left, Nat.add_eq_zero_iff, planned_eq_zero_iff, noticed_eq_zero_iff]

@[simp] theorem noticed_nil (q : Action → Bool) : noticed [] q = 0 := rfl

@[simp] theorem noticed_append (accounts : List Account) (account : Account) (q : Action → Bool) :
    noticed (accounts ++ [account]) q = noticed accounts q + account.notice.countP q := by
  simp [noticed]

theorem noticed_set_add {accounts : List Account} {i : Nat} {account : Account}
    (h : accounts[i]? = some account) (account' : Account) (q : Action → Bool) :
    noticed (accounts.set i account') q + account.notice.countP q =
      noticed accounts q + account'.notice.countP q := by
  have hbefore := congrArg (fun accounts => (accounts.map fun account : Account =>
    account.notice.countP q).sum) (coe_eq_cons_eraseIdx h)
  have hbehind := congrArg (fun accounts => (accounts.map fun account : Account =>
    account.notice.countP q).sum) (coe_set_eq_cons_eraseIdx h account')
  simp only [Multiset.map_coe, Multiset.sum_coe, Multiset.map_cons, Multiset.sum_cons]
    at hbefore hbehind
  rw [noticed, noticed, hbefore, hbehind]
  omega

theorem noticed_set {accounts : List Account} {i : Nat} {account account' : Account}
    (h : accounts[i]? = some account) (hnotice : account'.notice = account.notice)
    (q : Action → Bool) : noticed (accounts.set i account') q = noticed accounts q := by
  have hset := noticed_set_add h account' q
  rw [hnotice] at hset
  exact Nat.add_right_cancel hset

/-- A batch has a failed entry to tell. -/
theorem noticed_refuse {accounts : List Account} {i : Nat} {account account' : Account}
    {action : Action} (h : accounts[i]? = some account) (hnotice : account.notice = [])
    (hnotice' : account'.notice = [action]) (q : Action → Bool) :
    noticed (accounts.set i account') q = noticed accounts q + if q action then 1 else 0 := by
  have hset := noticed_set_add h account' q
  rwa [hnotice, hnotice', List.countP_nil, Nat.add_zero, List.countP_singleton] at hset

/-- A batch has told a failed entry. -/
theorem noticed_tell {accounts : List Account} {i : Nat} {account account' : Account}
    {action : Action} (h : accounts[i]? = some account) (hnotice : account.notice = [action])
    (hnotice' : account'.notice = []) (q : Action → Bool) :
    noticed (accounts.set i account') q + (if q action then 1 else 0) = noticed accounts q := by
  have hset := noticed_set_add h account' q
  rwa [hnotice, hnotice', List.countP_nil, Nat.add_zero, List.countP_singleton] at hset

end Overview
end Pool
end BulkTransfer
