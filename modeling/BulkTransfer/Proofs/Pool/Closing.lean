import BulkTransfer.Proofs.Pool.Tallies

/-!
# Closing

A batch is closed when it waits for nothing more: its listing has ended and all its
sub-jobs have been told to it.  From then on nothing about it changes, and everything
that has come in for it has its result.
-/

namespace BulkTransfer
namespace Pool

namespace Overview

variable {trusted : Prop} {o next : Overview} {mark : Mark} {marks : List Mark}

/-!
## Cancelled sub-jobs

Where answers can be trusted, only a cancelled run has cancelled sub-jobs.
-/

structure Honest (o : Overview) : Prop where
  tallying : ∀ agenda ∈ o.agendas, ∀ batch, .tally batch .cancelled ∈ agenda → o.cancelled = true
  counted : ∀ account ∈ o.accounts, account.group.cancelled ≠ 0 → o.cancelled = true

theorem status_of_mem_finishing {item : Queued} {result : JobResult} {batch : Nat}
    {status : Status} (h : .tally batch status ∈ finishing item result) :
    status = result.status := by
  unfold finishing at h
  split at h
  · simp only [List.mem_cons, reduceCtorEq, Action.tally.injEq, List.not_mem_nil, or_self, or_false,
      false_or] at h
    exact h.2
  · simp at h

theorem not_tally_mem_close {complete : Bool} {batch' batch : Nat} {status : Status} :
    .tally batch status ∉ if complete then [Action.close batch'] else [] := by
  cases complete <;> simp

theorem counted_set {batch : Nat} {account' : Account}
    (h : ∀ account ∈ o.accounts, account.group.cancelled ≠ 0 → o.cancelled = true)
    (haccount' : account'.group.cancelled ≠ 0 → o.cancelled = true) :
    ∀ account ∈ o.accounts.set batch account', account.group.cancelled ≠ 0 →
      o.cancelled = true := by
  intro account haccount
  rcases List.mem_or_eq_of_mem_set haccount with hmem | rfl
  · exact h account hmem
  · exact haccount'

theorem tallying_move (htrusted : trusted)
    (h : ∀ agenda ∈ o.agendas, ∀ batch, .tally batch .cancelled ∈ agenda → o.cancelled = true)
    (hmove : Move trusted o mark next) :
    ∀ agenda ∈ next.agendas, ∀ batch, .tally batch .cancelled ∈ agenda →
      next.cancelled = true := by
  intro agenda hagenda batch haction
  have hbefore : ∀ agenda ∈ o.agendas, .tally batch .cancelled ∈ agenda → next.cancelled = true :=
    fun agenda hagenda haction => cancelled_move hmove (h agenda hagenda batch haction)
  cases hmove with
  | finish item held result cancelled hheld hresult hcancelled htrusted' =>
      rcases Multiset.mem_cons.mp hagenda with rfl | hagenda
      · exact htrusted' htrusted (status_of_mem_finishing haction).symm
      · exact hbefore agenda hagenda haction
  | join batch' account fault haccount hjoined hnotice hchannel hlisting =>
      rcases Multiset.mem_add.mp hagenda with hnew | hmem
      · rw [(mem_agendaOf.mp hnew).1] at haction
        exact absurd haction not_tally_mem_close
      · exact hbefore agenda hmem haction
  | perform action actions agendas next further mark hagendas heffect =>
      rw [hagendas] at hbefore
      rcases Multiset.mem_add.mp hagenda with hnew | hmem
      · rw [(mem_agendaOf.mp hnew).1] at haction
        rcases List.mem_append.mp haction with hfurther | hleft
        · cases heffect with
          | tally batch' status account haccount => exact absurd hfurther not_tally_mem_close
          | close batch' account haccount => simp at hfurther
          | _ => cases hfurther
        · exact hbefore _ (Multiset.mem_cons_self _ _) (List.mem_cons_of_mem _ hleft)
      · exact hbefore agenda (Multiset.mem_cons_of_mem hmem) haction
  | _ => exact hbefore agenda hagenda haction

theorem counted_move (h : Honest o) (hmove : Move trusted o mark next) :
    ∀ account ∈ next.accounts, account.group.cancelled ≠ 0 → next.cancelled = true := by
  cases hmove with
  | cancel => exact fun _ _ _ => rfl
  | finish item held result cancelled hheld hresult hcancelled htrusted =>
      exact fun account haccount hcounted => hcancelled (h.counted account haccount hcounted)
  | launch item held hheld =>
      intro account haccount hcounted
      rcases List.mem_append.mp haccount with hmem | hnew
      · exact h.counted account hmem hcounted
      · rw [List.mem_singleton.mp hnew] at hcounted
        exact absurd rfl hcounted
  | list batch account listing channel entries haccount hlisting hentries =>
      exact counted_set h.counted (h.counted account (List.mem_of_getElem? haccount))
  | receive batch account task channel item haccount hjoined hchannel hitem =>
      exact counted_set h.counted (h.counted account (List.mem_of_getElem? haccount))
  | refuse batch account error channel entry haccount hjoined hnotice hchannel hentry =>
      exact counted_set h.counted (h.counted account (List.mem_of_getElem? haccount))
  | join batch account fault haccount hjoined hnotice hchannel hlisting =>
      exact counted_set h.counted (h.counted account (List.mem_of_getElem? haccount))
  | tell batch account item result haccount hnotice =>
      exact counted_set h.counted (h.counted account (List.mem_of_getElem? haccount))
  | perform action actions agendas next further mark hagendas heffect =>
      cases heffect with
      | tally batch status account haccount =>
          refine counted_set h.counted ?_
          intro hcounted
          cases status with
          | cancelled =>
              exact h.tallying _ (mem_agendas hagendas) batch List.mem_cons_self
          | _ => exact h.counted account (List.mem_of_getElem? haccount) hcounted
      | _ => exact h.counted
  | _ => exact h.counted

theorem honest_move (htrusted : trusted) (h : Honest o) (hmove : Move trusted o mark next) :
    Honest next where
  tallying := tallying_move htrusted h.tallying hmove
  counted := counted_move h hmove

/-!
## Closed batches

A batch that waits for nothing more is about to be closed or has its result, and then
neither its group nor its result changes.
-/

/-- Whether a batch has the result that its group has made of it. -/
def IsClosed (o : Overview) (account : Account) : Prop :=
  ∃ cancelled,
    .reported account.parent.id account.parent.role (account.result cancelled) ∈ o.log ∧
      (account.group.cancelled ≠ 0 → cancelled = true)

/-- Whether batches that wait for nothing more are closed, unless they are about to be. -/
def ClosesBatches (o : Overview) : Prop :=
  ∀ batch account, o.accounts[batch]? = some account → account.group.pending = 0 →
    o.left (Action.isCloseOf batch) = 0 → IsClosed o account

theorem IsClosed.move {account account' : Account} (h : IsClosed o account)
    (hmove : Move trusted o mark next) (hparent : account'.parent = account.parent)
    (hgroup : account'.group = account.group) : IsClosed next account' := by
  rcases h with ⟨cancelled, hreported, hcancelled⟩
  refine ⟨cancelled, (log_prefix_move hmove).subset ?_, ?_⟩
  · rw [Account.result, hparent, hgroup]
    exact hreported
  · rw [hgroup]
    exact hcancelled

/-- A batch that is about to be closed stays so until it is closed. -/
theorem closes_move (hbalanced : Balanced o) (hmove : Move trusted o mark next) (batch : Nat) :
    o.left (Action.isCloseOf batch) ≤ next.left (Action.isCloseOf batch) ∨
      ∃ account, o.accounts[batch]? = some account ∧
        .reported account.parent.id account.parent.role (account.result o.cancelled) ∈
          next.log := by
  rw [left, left]
  cases hmove with
  | finish item held result cancelled hheld hresult hcancelled htrusted =>
      left
      dsimp only
      rw [planned_cons]
      omega
  | launch item held hheld =>
      left
      dsimp only
      rw [noticed_append]
      omega
  | list batch' account listing channel entries haccount hlisting hentries =>
      left
      dsimp only
      rw [noticed_set haccount]
      rfl
  | receive batch' account task channel item haccount hjoined hchannel hitem =>
      left
      dsimp only
      rw [noticed_set haccount]
      rfl
  | refuse batch' account error channel entry haccount hjoined hnotice hchannel hentry =>
      left
      dsimp only
      rw [noticed_refuse haccount hnotice rfl]
      omega
  | join batch' account fault haccount hjoined hnotice hchannel hlisting =>
      left
      dsimp only
      rw [noticed_set haccount, planned_agendaOf_add]
      · omega
      · rfl
  | tell batch' account item result haccount hnotice =>
      left
      have hnoticed : noticed (o.accounts.set batch' { account with notice := [] })
          (Action.isCloseOf batch) = noticed o.accounts (Action.isCloseOf batch) :=
        noticed_tell haccount hnotice rfl (Action.isCloseOf batch)
      dsimp only
      rw [hnoticed]
  | perform action actions agendas next further mark hagendas heffect =>
      rw [hagendas, planned_cons, List.countP_cons]
      dsimp only
      rw [planned_agendaOf_add, List.countP_append]
      cases heffect with
      | tally batch' status account haccount =>
          left
          rw [noticed_set haccount]
          · simp only [Action.isCloseOf, Bool.false_eq_true, if_false]
            omega
          · rfl
      | close batch' account haccount =>
          by_cases hbatch : batch = batch'
          · right
            subst hbatch
            exact ⟨account, haccount, List.mem_append_right _ (List.mem_singleton_self _)⟩
          · left
            simp only [Action.isCloseOf, beq_iff_eq, if_neg hbatch]
            omega
      | stray action batch' haccount haction =>
          exact (hbalanced.not_stray hagendas haccount haction).elim
      | _ =>
          left
          simp only [Action.isCloseOf, Bool.false_eq_true, if_false]
          omega
  | _ => exact Or.inl (Nat.le_refl _)

theorem countP_isCloseOf_close (batch : Nat) :
    [Action.close batch].countP (Action.isCloseOf batch) = 1 := by
  rw [List.countP_singleton, Action.isCloseOf, beq_self_eq_true, if_pos rfl]

/-- A batch that waits for nothing more waited for nothing before, unless it is about to be
closed now. -/
theorem frozen_move (hbalanced : Balanced o) (hmove : Move trusted o mark next) {batch : Nat}
    {account' : Account} (haccount' : next.accounts[batch]? = some account')
    (hpending : account'.group.pending = 0) (hleft : next.left (Action.isCloseOf batch) = 0) :
    ∃ account, o.accounts[batch]? = some account ∧ account'.parent = account.parent ∧
      account'.group = account.group := by
  cases hmove with
  | launch item held hheld =>
      rw [List.getElem?_append] at haccount'
      split at haccount'
      · exact ⟨account', haccount', rfl, rfl⟩
      · rw [List.mem_singleton.mp (List.mem_of_getElem? haccount')] at hpending
        cases hpending
  | list batch' account listing channel entries haccount hlisting hentries =>
      rcases getElem?_set_cases haccount' with ⟨rfl, rfl⟩ | ⟨-, hother⟩
      · exact ⟨account, haccount, rfl, rfl⟩
      · exact ⟨account', hother, rfl, rfl⟩
  | receive batch' account task channel item haccount hjoined hchannel hitem =>
      rcases getElem?_set_cases haccount' with ⟨rfl, rfl⟩ | ⟨-, hother⟩
      · cases hpending
      · exact ⟨account', hother, rfl, rfl⟩
  | refuse batch' account error channel entry haccount hjoined hnotice hchannel hentry =>
      rcases getElem?_set_cases haccount' with ⟨rfl, rfl⟩ | ⟨-, hother⟩
      -- the feeder still goes on, so the batch waits for it
      · exact absurd hpending (hbalanced.pending_pos haccount hjoined).ne'
      · exact ⟨account', hother, rfl, rfl⟩
  | join batch' account fault haccount hjoined hnotice hchannel hlisting =>
      rcases getElem?_set_cases haccount' with ⟨rfl, rfl⟩ | ⟨-, hother⟩
      · have hcomplete := (pending_listingDone account.group fault
          (hbalanced.pending_pos haccount hjoined)).2.mpr hpending
        rw [left, hcomplete, if_pos rfl] at hleft
        dsimp only at hleft
        rw [planned_agendaOf_add, countP_isCloseOf_close] at hleft
        omega
      · exact ⟨account', hother, rfl, rfl⟩
  | tell batch' account item result haccount hnotice =>
      rcases getElem?_set_cases haccount' with ⟨rfl, rfl⟩ | ⟨-, hother⟩
      · exact ⟨account, haccount, rfl, rfl⟩
      · exact ⟨account', hother, rfl, rfl⟩
  | perform action actions agendas next further mark hagendas heffect =>
      cases heffect with
      | tally batch' status account haccount =>
          rcases getElem?_set_cases haccount' with ⟨rfl, rfl⟩ | ⟨-, hother⟩
          · have hpos := hbalanced.pendingOf_pos hagendas
            rw [pendingOf_eq haccount] at hpos
            have hcomplete := (pending_subJobDone account.group status hpos).2.mpr hpending
            rw [left, hcomplete, if_pos rfl] at hleft
            dsimp only at hleft
            rw [planned_agendaOf_add, List.countP_append, countP_isCloseOf_close] at hleft
            omega
          · exact ⟨account', hother, rfl, rfl⟩
      | _ => exact ⟨account', haccount', rfl, rfl⟩
  | _ => exact ⟨account', haccount', rfl, rfl⟩

/-- What is true of a batch when it is closed, and stays true of it, is true of all batches
that wait for nothing more and are not about to be closed. -/
theorem closed_move {P Q : Account → Prop} (hbalanced : Balanced o)
    (hmove : Move trusted o mark next)
    (hkeep : ∀ account account', P account → account'.parent = account.parent →
      account'.group = account.group → Q account')
    (hclose : ∀ account account', account ∈ o.accounts →
      .reported account.parent.id account.parent.role (account.result o.cancelled) ∈ next.log →
        account'.parent = account.parent → account'.group = account.group → Q account')
    (h : ∀ batch account, o.accounts[batch]? = some account → account.group.pending = 0 →
      o.left (Action.isCloseOf batch) = 0 → P account) :
    ∀ batch account, next.accounts[batch]? = some account → account.group.pending = 0 →
      next.left (Action.isCloseOf batch) = 0 → Q account := by
  intro batch account' haccount' hpending hleft
  rcases frozen_move hbalanced hmove haccount' hpending hleft with
    ⟨account, haccount, hparent, hgroup⟩
  rcases closes_move hbalanced hmove batch with hle | ⟨closed, hclosed, hreported⟩
  · rw [hleft, Nat.le_zero] at hle
    rw [hgroup] at hpending
    exact hkeep account account' (h batch account haccount hpending hle) hparent hgroup
  · rw [haccount] at hclosed
    cases hclosed
    exact hclose account account' (List.mem_of_getElem? haccount) hreported hparent hgroup

theorem closesBatches_move (hbalanced : Balanced o)
    (hcounted : ∀ account ∈ o.accounts, account.group.cancelled ≠ 0 → o.cancelled = true)
    (h : ClosesBatches o) (hmove : Move trusted o mark next) : ClosesBatches next := by
  refine closed_move (P := IsClosed o) hbalanced hmove
    (fun account account' hclosed hparent hgroup => hclosed.move hmove hparent hgroup) ?_ h
  intro account account' haccount hreported hparent hgroup
  refine ⟨o.cancelled, ?_, ?_⟩
  · rw [Account.result, hparent, hgroup]
    exact hreported
  · rw [hgroup]
    exact hcounted account haccount

/-!
## Batches that wait for nothing more

All that has come in for such a batch has its result.
-/

/-- Whether no sub-job of a batch is left anywhere. -/
structure Spent (o : Overview) (batch : Nat) : Prop where
  waiting : ∀ item ∈ o.waiting, item.isMemberOf batch = false
  held : ∀ item ∈ o.held, item.isMemberOf batch = false
  tallies : ∀ agenda ∈ o.agendas, ∀ action ∈ agenda, action.isTallyOf batch = false
  parents : ∀ account ∈ o.accounts, account.parent.isMemberOf batch = false

theorem Balanced.spent (h : Balanced o) {batch : Nat} (hpending : pendingOf o.accounts batch = 0) :
    Spent o batch := by
  have hawaited := h.pending batch
  rw [hpending, awaited, underWay] at hawaited
  have hwaiting : o.waiting.countP (fun item => item.isMemberOf batch) = 0 := by omega
  have hheld : o.held.countP (fun item => item.isMemberOf batch) = 0 := by omega
  have hleft : o.left (Action.isTallyOf batch) = 0 := by omega
  have hparents : o.accounts.countP (·.parent.isMemberOf batch) = 0 := by omega
  constructor
  case waiting =>
    exact fun item hitem => Bool.eq_false_iff.mpr (Multiset.countP_eq_zero.mp hwaiting item hitem)
  case held =>
    exact fun item hitem => Bool.eq_false_iff.mpr (Multiset.countP_eq_zero.mp hheld item hitem)
  case tallies => exact (left_eq_zero_iff.mp hleft).1
  case parents =>
    exact fun account haccount =>
      Bool.eq_false_iff.mpr (List.countP_eq_zero.mp hparents account haccount)

/-- The feeder of such a batch has come to the end of the listing. -/
theorem Balanced.ended (h : Balanced o) {batch : Nat} {account : Account}
    (haccount : o.accounts[batch]? = some account) (hpending : account.group.pending = 0) :
    account.notice = [] ∧ account.channel = [] ∧
      account.listing = .ended account.group.listingFault := by
  apply h.joined account (List.mem_of_getElem? haccount)
  by_contra hjoined
  exact (h.pending_pos haccount (Bool.eq_false_iff.mpr hjoined)).ne' hpending

theorem not_isOf_of_mem_agenda {batch : Nat} {agenda : List Action} {item : Queued}
    {result : JobResult} (hbalanced : Balanced o) (hpresent : Present marks o)
    (hspent : Spent o batch) (hagenda : agenda ∈ o.agendas)
    (haction : .report item result ∈ agenda) : item.role.isOf batch = false := by
  rcases (hbalanced.agendas agenda hagenda).report_inv haction with
    ⟨hsettle, hrole⟩ | ⟨batch', position, hrole, htally⟩
  · apply isOf_eq_false_of_isJob
    · exact (hpresent.holds.settling agenda hagenda item _ hsettle).2
    · exact isMember_eq_false hrole batch
  · rw [hrole]
    exact hspent.tallies agenda hagenda _ htally

theorem not_isOf_of_mem_notice {batch : Nat} {account account' : Account} {item : Queued}
    {result : JobResult} (hbalanced : Balanced o) (haccount : o.accounts[batch]? = some account)
    (hnotice : account.notice = []) (haccount' : account' ∈ o.accounts)
    (haction : .report item result ∈ account'.notice) : item.role.isOf batch = false := by
  rcases List.getElem?_of_mem haccount' with ⟨batch', hbatch'⟩
  rcases hbalanced.telling batch' account' hbatch' with
    hnone | ⟨item', result', position, hone, hrole, -⟩
  · rw [hnone] at haction
    cases haction
  · rw [hone, List.mem_singleton] at haction
    cases haction
    rw [hrole]
    apply beq_eq_false_iff_ne.mpr
    rintro rfl
    rw [haccount] at hbatch'
    cases hbatch'
    rw [hnotice] at hone
    cases hone

theorem countP_receipts_of_spent {batch : Nat} {account : Account} {p : Ticket → Bool}
    (hbalanced : Balanced o) (hpresent : Present marks o) (hspent : Spent o batch)
    (haccount : o.accounts[batch]? = some account) (hnotice : account.notice = [])
    (hp : ∀ ticket, ticket.role.isOf batch = false → p ticket = false)
    (haccounted : Accounted marks o p) :
    (receipts o.log).countP p = (entrants marks).countP fun item => p item.ticket := by
  have hwaiting : o.waiting.countP (fun item => p item.ticket) = 0 := by
    rw [Multiset.countP_eq_zero]
    intro item hitem
    rw [hp _ (isOf_eq_false_of_isJob (hpresent.holds.waiting item hitem).2
      (hspent.waiting item hitem))]
    exact Bool.false_ne_true
  have hheld : o.held.countP (fun item => p item.ticket) = 0 := by
    rw [Multiset.countP_eq_zero]
    intro item hitem
    rw [hp _ (isOf_eq_false_of_isJob (hpresent.holds.held item hitem).2
      (hspent.held item hitem))]
    exact Bool.false_ne_true
  have hparent : ∀ account ∈ o.accounts, p account.parent.ticket = false :=
    fun account haccount => hp _ (isOf_eq_false_of_isJob
      (hpresent.holds.parents account haccount).2 (hspent.parents account haccount))
  have howing : owing o.accounts (fun item => p item.ticket) = 0 := by
    rw [owing, List.countP_eq_zero]
    intro account haccount
    rw [hparent account haccount, Bool.and_false]
    exact Bool.false_ne_true
  have hleft : o.left (Action.tells o.accounts p) = 0 := by
    rw [left_eq_zero_iff]
    constructor
    · intro agenda hagenda action haction
      cases action with
      | report item result =>
          exact hp _ (not_isOf_of_mem_agenda hbalanced hpresent hspent hagenda haction)
      | close batch' =>
          rw [Action.tells, Option.any_eq_false]
          intro account hsome
          exact hparent account (List.mem_of_getElem? hsome)
      | _ => rfl
    · intro account' haccount' action haction
      cases action with
      | report item result =>
          exact hp _ (not_isOf_of_mem_notice hbalanced haccount hnotice haccount' haction)
      | close batch' =>
          rw [Action.tells, Option.any_eq_false]
          intro account hsome
          exact hparent account (List.mem_of_getElem? hsome)
      | _ => rfl
  rw [Accounted, underWay, hwaiting, hheld, howing, hleft] at haccounted
  exact haccounted.symm

end Overview

namespace State

variable {config : PoolConfig} {submissions : List Submission} {state : State}
  {events : List Event}

/-!
## Batches with a result
-/

theorem closesBatches_of_run (h : (initial config submissions).run events = some state)
    (htrusts : (initial config submissions).Trusts events) : state.overview.ClosesBatches := by
  refine (run_moves (P := fun _ o => o.Honest ∧ o.ClosesBatches) h
    (fun _ : True => htrusts) ?_ ?_).2
  · rw [overview_initial]
    constructor
    · constructor <;> simp
    · exact fun _ _ haccount => nomatch haccount
  · intro marks o mark next hbalanced hmarks hmove
    exact ⟨Overview.honest_move trivial hmarks.1 hmove,
      Overview.closesBatches_move hbalanced hmarks.1.counted hmarks.2 hmove⟩

theorem eq_of_reported (h : (initial config submissions).run events = some state) {id : JobId}
    {role : Role} {result result' : JobResult} (hresult : .reported id role result ∈ state.log)
    (hresult' : .reported id role result' ∈ state.log) : result' = result := by
  have hname : ∀ result, Entry.reports (fun id' role' _ => role' == role && id' == id)
      (.reported id role result) = true := by
    intro result
    rw [Entry.reports, beq_self_eq_true, beq_self_eq_true]
    rfl
  have hlength := countP_reports_le_one h id role
  rw [List.countP_eq_length_filter] at hlength
  have hsingle := eq_singleton_of_mem (List.mem_filter.mpr ⟨hresult, hname result⟩) hlength
  have hmem := List.mem_filter.mpr ⟨hresult', hname result'⟩
  rw [hsingle] at hmem
  exact (Entry.reported.inj (List.mem_singleton.mp hmem)).2.2

/-- A batch that has its result waits for nothing more and is not about to be closed. -/
theorem pending_of_reported (h : (initial config submissions).run events = some state)
    {batch : Nat} {account : Account} (haccount : state.overview.accounts[batch]? = some account)
    {result : JobResult}
    (hreported : .reported account.parent.id account.parent.role result ∈ state.log) :
    account.group.pending = 0 ∧ state.overview.left (Action.isCloseOf batch) = 0 := by
  have hparent : account.parent.ticket.isNamed account.parent.id account.parent.role = true :=
    Ticket.isNamed_iff.mpr ⟨rfl, rfl⟩
  have hreceipt : 0 < (receipts state.overview.log).countP
      (Ticket.isNamed account.parent.id account.parent.role) := by
    refine List.countP_pos_iff.mpr ⟨ticketOf account.parent.id account.parent.role result, ?_, ?_⟩
    · exact List.mem_filterMap.mpr ⟨_, hreported, rfl⟩
    · exact Ticket.isNamed_iff.mpr ⟨rfl, rfl⟩
  have haccounted := accounted_of_run h (Ticket.isNamed account.parent.id account.parent.role)
  have hone := countP_name_le_one h account.parent.id account.parent.role
  rw [Overview.Accounted] at haccounted
  have hleft : state.overview.left (Action.tells state.overview.accounts
      (Ticket.isNamed account.parent.id account.parent.role)) = 0 := by omega
  have howing : Overview.owing state.overview.accounts (fun item =>
      item.ticket.isNamed account.parent.id account.parent.role) = 0 := by omega
  constructor
  · have hclosed := List.countP_eq_zero.mp howing account (List.mem_of_getElem? haccount)
    dsimp only at hclosed
    rw [hparent, Bool.and_true, Account.isOpen, bne_iff_ne, ne_eq, not_not] at hclosed
    exact hclosed
  · rw [Overview.left_eq_zero_iff] at hleft ⊢
    have hclose : ∀ action : Action, action.tells state.overview.accounts
        (Ticket.isNamed account.parent.id account.parent.role) = false →
          action.isCloseOf batch = false := by
      intro action haction
      cases action with
      | close batch' =>
          apply beq_eq_false_iff_ne.mpr
          rintro rfl
          rw [Action.tells, haccount, Option.any_some, hparent] at haction
          cases haction
      | _ => rfl
    exact ⟨fun agenda hagenda action hmem => hclose action (hleft.1 agenda hagenda action hmem),
      fun account haccount action hmem => hclose action (hleft.2 account haccount action hmem)⟩

/-- A batch that has its result is closed with it. -/
theorem result_of_reported (h : (initial config submissions).run events = some state)
    (htrusts : (initial config submissions).Trusts events) {batch : Nat} {account : Account}
    (haccount : state.overview.accounts[batch]? = some account) {result : JobResult}
    (hreported : .reported account.parent.id account.parent.role result ∈ state.log) :
    ∃ cancelled, result = account.result cancelled ∧
      (account.group.cancelled ≠ 0 → cancelled = true) := by
  rcases pending_of_reported h haccount hreported with ⟨hpending, hleft⟩
  rcases closesBatches_of_run h htrusts batch account haccount hpending hleft with
    ⟨cancelled, hclosed, hcancelled⟩
  exact ⟨cancelled, eq_of_reported h hclosed hreported, hcancelled⟩

/-!
## Results of a closed batch
-/

/-- Once a batch is closed, its counters are the numbers of the results in the log. -/
theorem counter_eq (h : (initial config submissions).run events = some state)
    {batch : Nat} {account : Account} (haccount : state.overview.accounts[batch]? = some account)
    (hpending : account.group.pending = 0) (kind : Status) :
    account.group.counter kind =
      UInt32.ofNat (state.log.countP (Entry.reports (ofBatch batch kind))) := by
  have hbalanced := balanced_of_run h
  have hspent := hbalanced.spent (by rw [Overview.pendingOf_eq haccount, hpending])
  have hnotice := (hbalanced.ended haccount hpending).1
  rcases tallied_of_run h hspent.parents kind with ⟨n, hcounter, hlog⟩
  have hnoticed : Overview.noticed state.overview.accounts
      (Action.reports (ofBatch batch kind)) = 0 := by
    rw [Overview.noticed_eq_zero_iff]
    intro account' haccount' action haction
    cases action with
    | report item result =>
        rw [Action.reports, ofBatch, Overview.not_isOf_of_mem_notice hbalanced haccount hnotice
          haccount' haction, Bool.false_and]
    | _ => rfl
  have hheaded : Overview.headed state.overview.agendas (Action.counts batch kind) = 0 := by
    rw [Overview.headed, Multiset.countP_eq_zero]
    intro agenda hagenda
    cases agenda with
    | nil => exact Bool.false_ne_true
    | cons action actions =>
        have htally := hspent.tallies _ hagenda action List.mem_cons_self
        cases action with
        | tally batch' status =>
            change ¬ (batch == batch' && status.isLike kind) = true
            rw [show (batch == batch') = false from htally, Bool.false_and]
            exact Bool.false_ne_true
        | _ => exact Bool.false_ne_true
  rw [hnoticed, hheaded, Nat.add_zero, Nat.add_zero] at hlog
  rw [← Overview.counterOf_eq haccount, hcounter, ← hlog]
  rfl

/-- Once a batch is closed, each item that it has received has one result. -/
theorem countP_isItem (h : (initial config submissions).run events = some state)
    {batch : Nat} {account : Account} (haccount : state.overview.accounts[batch]? = some account)
    (hpending : account.group.pending = 0) (position : Nat) :
    state.log.countP (Entry.reports fun _ role _ => role.isItem batch position) =
      if position < account.received then 1 else 0 := by
  have hbalanced := balanced_of_run h
  have hspent := hbalanced.spent (by rw [Overview.pendingOf_eq haccount, hpending])
  have hnotice := (hbalanced.ended haccount hpending).1
  have hnot : ∀ ticket : Ticket, ticket.role.isOf batch = false →
      ticket.role.isItem batch position = false := by
    intro ticket hrole
    cases hticket : ticket.role with
    | top => rfl
    | _ =>
        rw [hticket, Role.isOf] at hrole
        rw [Role.isItem, hrole, Bool.false_and]
  have hreceived := (named_of_run h).received batch position
  rw [Overview.receivedOf_eq haccount] at hreceived
  rw [countP_reports_eq_receipts, ← hreceived]
  exact Overview.countP_receipts_of_spent hbalanced (present_of_run h) hspent haccount hnotice hnot
    (accounted_of_run h _)

/-- The results of a closed batch are as many as the items that it has received. -/
theorem countP_isOf (h : (initial config submissions).run events = some state)
    {batch : Nat} {account : Account} (haccount : state.overview.accounts[batch]? = some account)
    (hpending : account.group.pending = 0) :
    state.log.countP (Entry.reports fun _ role _ => role.isOf batch) = account.received := by
  rw [countP_reports_eq_receipts state.log fun _ role => role.isOf batch]
  apply Role.countP_isOf
  intro position
  rw [← countP_isItem h haccount hpending position,
    countP_reports_eq_receipts state.log fun _ role => role.isItem batch position]

end State
end Pool
end BulkTransfer
