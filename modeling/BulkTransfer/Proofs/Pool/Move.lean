import BulkTransfer.Proofs.Pool.Overview

/-!
# Moves

A move is what one event does to an overview.  There are few kinds of them, since
most events change nothing that is counted.  Every step of a pool is a move, so
what every move keeps is kept by every run.
-/

namespace BulkTransfer
namespace Pool

namespace Overview

/-!
## Actions

An action is taken off an agenda, may put others in its place, and acts on the rest
of the overview.
-/

/-- What an action does, with the actions that it brings and the mark that it leaves. -/
inductive Effect (o : Overview) : Action → Overview → List Action → Mark → Prop
  | report (item : Queued) (result : JobResult) :
      Effect o (.report item result)
        { o with log := o.log ++ [.reported item.id item.role result] } [] .nothing
  | settle (item : Queued) (status : Status) (next : Option Queued)
      (hnext : next = item.successor status o.cancelled) :
      Effect o (.settle item status)
        { o with
          waiting := (next.toList : Multiset Queued) + o.waiting
          outstanding := o.outstanding + next.toList.length
          unhandled := o.unhandled + if item.isLoss status next then 1 else 0 }
        [] (.settled item status next)
  | tally (batch : Nat) (status : Status) (account : Account)
      (haccount : o.accounts[batch]? = some account) :
      Effect o (.tally batch status)
        { o with
          accounts :=
            o.accounts.set batch { account with group := (account.group.subJobDone status).1 } }
        (if (account.group.subJobDone status).2 then [.close batch] else []) .nothing
  | close (batch : Nat) (account : Account) (haccount : o.accounts[batch]? = some account) :
      Effect o (.close batch)
        { o with
          log := o.log ++
            [.reported account.parent.id account.parent.role (account.result o.cancelled)] }
        [.settle account.parent (account.result o.cancelled).status, .release] .nothing
  | release : Effect o .release { o with outstanding := o.outstanding - 1 } [] .nothing
  /-- a batch is told or closed that is not there -/
  | stray (action : Action) (batch : Nat) (haccount : o.accounts[batch]? = none)
      (haction : action = .close batch ∨ ∃ status, action = .tally batch status) :
      Effect o action o [] .nothing

theorem Effect.agendas_eq {o next : Overview} {action : Action} {further : List Action}
    {mark : Mark} (h : Effect o action next further mark) : next.agendas = o.agendas := by
  cases h <;> rfl

theorem Effect.congr {o next next' : Overview} {action : Action} {further : List Action}
    {mark : Mark} (h : Effect o action next further mark) (hnext : next' = next) :
    Effect o action next' further mark := by
  rw [hnext]
  exact h

/-!
## Moves

Where an answer says that it was cancelled, the run is cancelled if answers can be
trusted; all else holds of any answers.
-/

inductive Move (trusted : Prop) (o : Overview) : Mark → Overview → Prop
  | note (entries : List Entry) (rejections : UInt64) (submissions : List Submission)
      (hentries : ∀ entry ∈ entries, entry.ticket? = none)
      (hrejections : rejections = o.rejections +
        UInt64.ofNat (entries.countP fun entry => entry matches .read _ (.error _)))
      (hsubmissions : ∀ job, .job job ∈ submissions →
        .job job ∈ o.submissions ∨ ∃ line, .read line (.ok (some job)) ∈ entries) :
      Move trusted o .nothing
        { o with log := o.log ++ entries, rejections := rejections, submissions := submissions }
  | cancel : Move trusted o .nothing { o with cancelled := true }
  | offer (job : Job) (item : Queued) (submissions : List Submission)
      (hitem : item = { job := job, id := { submission := o.submitted } })
      (hsubmissions : o.submissions = .job job :: submissions) :
      Move trusted o (.entered item)
        { o with
          submissions := submissions
          waiting := item ::ₘ o.waiting, submitted := o.submitted + 1,
          outstanding := o.outstanding + 1 }
  | take (item : Queued) (waiting : Multiset Queued) (hwaiting : o.waiting = item ::ₘ waiting) :
      Move trusted o (.taken item) { o with waiting := waiting, held := item ::ₘ o.held }
  | finish (item : Queued) (held : Multiset Queued) (result : JobResult) (cancelled : Bool)
      (hheld : o.held = item ::ₘ held)
      (hresult : ticketOf item.id item.role result = item.ticket)
      (hcancelled : o.cancelled = true → cancelled = true)
      (htrusted : trusted → result.status = .cancelled → cancelled = true) :
      Move trusted o .nothing
        { o with
          held := held, agendas := finishing item result ::ₘ o.agendas
          cancelled := cancelled }
  | launch (item : Queued) (held : Multiset Queued) (hheld : o.held = item ::ₘ held) :
      Move trusted o .nothing
        { o with held := held, accounts := o.accounts ++ [{ parent := item }] }
  | list (batch : Nat) (account : Account) (listing : Listing)
      (channel : List (Except ExpansionError SubTask)) (entries : List Entry)
      (haccount : o.accounts[batch]? = some account)
      (hlisting : ∀ fault, account.listing ≠ .ended fault)
      (hentries : ∀ entry ∈ entries, ∃ item, entry = .expanded item) :
      Move trusted o .nothing
        { o with
          log := o.log ++ entries
          accounts := o.accounts.set batch { account with listing := listing, channel := channel } }
  | receive (batch : Nat) (account : Account) (task : SubTask)
      (channel : List (Except ExpansionError SubTask)) (item : Queued)
      (haccount : o.accounts[batch]? = some account) (hjoined : account.joined = false)
      (hchannel : account.channel = .ok task :: channel)
      (hitem : item =
        { job := .ofTask (account.parent.task.derive task.operation task.arguments),
          id := account.parent.id, role := .member batch account.received }) :
      Move trusted o (.entered item)
        { o with
          waiting := item ::ₘ o.waiting, outstanding := o.outstanding + 1
          accounts := o.accounts.set batch
            { account with
              channel := channel, received := account.received + 1
              group := account.group.addSubJob } }
  | refuse (batch : Nat) (account : Account) (error : ExpansionError)
      (channel : List (Except ExpansionError SubTask)) (entry : Queued)
      (haccount : o.accounts[batch]? = some account) (hjoined : account.joined = false)
      (hnotice : account.notice = []) (hchannel : account.channel = .error error :: channel)
      (hentry : entry = { account.parent with role := .entry batch account.received }) :
      Move trusted o (.entered entry)
        { o with
          accounts := o.accounts.set batch
            { account with
              channel := channel, received := account.received + 1
              group := account.group.entryFailed
              notice := [.report entry (entryResult account.parent error)] } }
  | join (batch : Nat) (account : Account) (fault : Option ExpansionError)
      (haccount : o.accounts[batch]? = some account) (hjoined : account.joined = false)
      (hnotice : account.notice = []) (hchannel : account.channel = [])
      (hlisting : account.listing = .ended fault) :
      Move trusted o .nothing
        { o with
          agendas :=
            agendaOf (if (account.group.listingDone fault).2 then [.close batch] else []) +
              o.agendas
          accounts := o.accounts.set batch
            { account with group := (account.group.listingDone fault).1, joined := true } }
  | tell (batch : Nat) (account : Account) (item : Queued) (result : JobResult)
      (haccount : o.accounts[batch]? = some account)
      (hnotice : account.notice = [.report item result]) :
      Move trusted o .nothing
        { o with
          log := o.log ++ [.reported item.id item.role result]
          accounts := o.accounts.set batch { account with notice := [] } }
  | perform (action : Action) (actions : List Action) (agendas : Multiset (List Action))
      (next : Overview) (further : List Action) (mark : Mark)
      (hagendas : o.agendas = (action :: actions) ::ₘ agendas)
      (heffect : Effect o action next further mark) :
      Move trusted o mark { next with agendas := agendaOf (further ++ actions) + agendas }

theorem Move.congr {trusted : Prop} {o next next' : Overview} {mark : Mark}
    (h : Move trusted o mark next) (hnext : next' = next) : Move trusted o mark next' := by
  rw [hnext]
  exact h

/-- An event that changes nothing that is counted. -/
theorem Move.same {trusted : Prop} {o next : Overview} (hnext : next = o) :
    Move trusted o .nothing next := by
  refine (Move.note [] o.rejections o.submissions (by simp) (by simp)
    (fun job hjob => Or.inl hjob)).congr ?_
  rw [hnext, List.append_nil]

theorem mem_agendas {o : Overview} {agenda : List Action} {agendas : Multiset (List Action)}
    (h : o.agendas = agenda ::ₘ agendas) : agenda ∈ o.agendas := by
  rw [h]
  exact Multiset.mem_cons_self _ _

/-- It is decided what follows a job when that is next on an agenda. -/
theorem Move.settled_inv {trusted : Prop} {o next : Overview} {item : Queued} {status : Status}
    {following : Option Queued} (h : Move trusted o (.settled item status following) next) :
    (∃ actions agendas, o.agendas = (.settle item status :: actions) ::ₘ agendas) ∧
      following = item.successor status o.cancelled := by
  cases h with
  | perform action actions agendas next further mark hagendas heffect =>
      cases heffect with
      | settle item status next hnext => exact ⟨⟨actions, agendas, hagendas⟩, hnext⟩

/-- A top-level job that is not submitted follows another one. -/
theorem Move.entrant_inv {trusted : Prop} {o next : Overview} {mark : Mark} {item : Queued}
    (h : Move trusted o mark next) (hitem : item ∈ mark.entrants) (hrole : item.role = .top)
    (hroute : item.id.route ≠ []) : ∃ before status, mark = .settled before status (some item) := by
  cases h with
  | offer job item' submissions hitem' hsubmissions =>
      rw [List.mem_singleton.mp hitem, hitem'] at hroute
      exact absurd rfl hroute
  | receive batch account task channel item' haccount hjoined hchannel hitem' =>
      rw [List.mem_singleton.mp hitem, hitem'] at hrole
      cases hrole
  | refuse batch account error channel entry haccount hjoined hnotice hchannel hentry =>
      rw [List.mem_singleton.mp hitem, hentry] at hrole
      cases hrole
  | perform action actions agendas next further mark hagendas heffect =>
      cases heffect with
      | settle before status following hfollowing =>
          rw [Mark.entrants, Option.mem_toList] at hitem
          exact ⟨before, status, by rw [hitem]⟩
      | _ => cases hitem
  | _ => cases hitem

/-- What is in the log stays there. -/
theorem log_prefix_move {trusted : Prop} {o next : Overview} {mark : Mark}
    (hmove : Move trusted o mark next) : o.log <+: next.log := by
  cases hmove with
  | note entries rejections submissions hentries hrejections hsubmissions =>
      exact List.prefix_append _ _
  | list batch account listing channel entries haccount hlisting hentries =>
      exact List.prefix_append _ _
  | tell batch account item result haccount hnotice => exact List.prefix_append _ _
  | perform action actions agendas next further mark hagendas heffect =>
      cases heffect with
      | report item result => exact List.prefix_append _ _
      | close batch account haccount => exact List.prefix_append _ _
      | _ => exact List.prefix_rfl
  | _ => exact List.prefix_rfl

/-- A run that is cancelled stays so. -/
theorem cancelled_move {trusted : Prop} {o next : Overview} {mark : Mark}
    (hmove : Move trusted o mark next) (h : o.cancelled = true) : next.cancelled = true := by
  cases hmove with
  | cancel => rfl
  | finish item held result cancelled hheld hresult hcancelled htrusted => exact hcancelled h
  | perform action actions agendas next further mark hagendas heffect =>
      cases heffect <;> exact h
  | _ => exact h

/-- A feeder that has something to tell has one failed entry to tell. -/
def TellsEntry (batch : Nat) (account : Account) : Prop :=
  account.notice = [] ∨
    ∃ item result position, account.notice = [.report item result] ∧
      item.role = .entry batch position ∧ result.status = .failed

def TellsEntries (o : Overview) : Prop :=
  ∀ batch account, o.accounts[batch]? = some account → TellsEntry batch account

end Overview
end Pool
end BulkTransfer
