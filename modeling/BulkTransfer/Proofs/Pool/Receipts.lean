import BulkTransfer.Proofs.Pool.Rest

/-!
# Receipts

Whatever comes into a run is owed one result.  Until that is sent, there is either a
job under way, or an action that sends the result, or an open batch; and there is
never more than one of these for it.
-/

namespace BulkTransfer
namespace Pool

/-- Whether an action sends a result for a ticket of a kind. -/
def Action.tells (accounts : List Account) (p : Ticket → Bool) : Action → Bool
  | .report item result => p (ticketOf item.id item.role result)
  | .close batch => accounts[batch]?.any fun account => p account.parent.ticket
  | _ => false

/-- Whether it has to be done, and not only reported. -/
def Queued.isJob (item : Queued) : Bool :=
  match item.role with
  | .entry _ _ => false
  | _ => true

/-- Whether it is decided what follows a job of a kind. -/
def Mark.settles (f : Queued → Status → Option Queued → Bool) : Mark → Bool
  | .settled item status next => f item status next
  | _ => false

@[simp] theorem Mark.settles_settled (f : Queued → Status → Option Queued → Bool) (item : Queued)
    (status : Status) (next : Option Queued) :
    (Mark.settled item status next).settles f = f item status next := rfl

namespace Overview

variable {trusted : Prop} {o next : Overview} {mark : Mark} {marks : List Mark}

/-- Every ticket that has come into a run has its result, or is on its way to it. -/
def Accounted (marks : List Mark) (o : Overview) (p : Ticket → Bool) : Prop :=
  (entrants marks).countP (fun item => p item.ticket) =
    (receipts o.log).countP p + o.underWay (fun item => p item.ticket) +
      o.left (Action.tells o.accounts p) + owing o.accounts fun item => p item.ticket

/-!
## Results that are about to be sent
-/

theorem tells_report (accounts : List Account) (p : Ticket → Bool) (item : Queued)
    (result : JobResult) :
    Action.tells accounts p (.report item result) = p (ticketOf item.id item.role result) := rfl

theorem tells_set {accounts : List Account} {i : Nat} {account account' : Account}
    (h : accounts[i]? = some account) (hparent : account'.parent = account.parent)
    (p : Ticket → Bool) : Action.tells (accounts.set i account') p = Action.tells accounts p := by
  funext action
  cases action with
  | close batch =>
      rw [Action.tells, Action.tells, List.getElem?_set]
      split
      · rename_i hbatch
        subst hbatch
        rw [h, if_pos (List.getElem?_eq_some_iff.mp h).1, Option.any_some, Option.any_some, hparent]
      · rfl
  | _ => rfl

theorem planned_congr {agendas : Multiset (List Action)} {q q' : Action → Bool}
    (h : ∀ agenda ∈ agendas, ∀ action ∈ agenda, q action = q' action) :
    planned agendas q = planned agendas q' := by
  rw [planned, planned]
  congr 1
  apply Multiset.map_congr rfl
  intro agenda hagenda
  apply List.countP_congr
  intro action haction
  rw [h agenda hagenda action haction]

theorem noticed_congr {accounts : List Account} {q q' : Action → Bool}
    (h : ∀ account ∈ accounts, ∀ action ∈ account.notice, q action = q' action) :
    noticed accounts q = noticed accounts q' := by
  rw [noticed, noticed]
  congr 1
  apply List.map_congr_left
  intro account haccount
  apply List.countP_congr
  intro action haction
  rw [h account haccount action haction]

/-- A batch that is about to be closed is there. -/
theorem Balanced.lt_length (h : Balanced o) {batch : Nat} {agenda : List Action}
    (hagenda : agenda ∈ o.agendas) (hclose : .close batch ∈ agenda) :
    batch < o.accounts.length := by
  rcases h.closing batch with hnone | ⟨-, -, hlength⟩
  · have hother := (left_eq_zero_iff.mp hnone).1 agenda hagenda _ hclose
    rw [Action.isCloseOf, beq_self_eq_true] at hother
    cases hother
  · exact hlength

/-- A batch that is started does not matter to the results that are about to be sent. -/
theorem left_tells_append (h : Balanced o) (account : Account) (p : Ticket → Bool) :
    o.left (Action.tells (o.accounts ++ [account]) p) = o.left (Action.tells o.accounts p) := by
  rw [left, left]
  congr 1
  · apply planned_congr
    intro agenda hagenda action haction
    cases action with
    | close batch =>
        rw [Action.tells, Action.tells, List.getElem?_append_left (h.lt_length hagenda haction)]
    | _ => rfl
  · apply noticed_congr
    intro account' haccount' action haction
    rcases List.getElem?_of_mem haccount' with ⟨batch, hbatch⟩
    rcases h.telling batch account' hbatch with hnone | ⟨item, result, position, hnotice, -⟩
    · rw [hnone] at haction
      cases haction
    · rw [hnotice, List.mem_singleton] at haction
      rw [haction]
      rfl

theorem countP_tells_finishing {item : Queued} {result : JobResult}
    (hresult : ticketOf item.id item.role result = item.ticket) (accounts : List Account)
    (p : Ticket → Bool) :
    (finishing item result).countP (Action.tells accounts p) =
      if p item.ticket then 1 else 0 := by
  have hreport : ticketOf item.id item.role { result with isSubJob := item.role != .top } =
      item.ticket := hresult
  unfold finishing
  split <;>
    simp only [List.countP_cons, List.countP_nil, Action.tells, hreport, Bool.false_eq_true,
      if_false, Nat.zero_add]

theorem countP_tells_close {accounts : List Account} {batch : Nat} {account : Account}
    (haccount : accounts[batch]? = some account) (complete : Bool) (p : Ticket → Bool) :
    (if complete then [Action.close batch] else []).countP (Action.tells accounts p) =
      if complete && p account.parent.ticket then 1 else 0 := by
  cases complete with
  | false => rfl
  | true => simp [Action.tells, haccount]

/-!
## Every move keeps account
-/

theorem accounted_perform {p : Ticket → Bool} {action : Action} {actions further : List Action}
    {agendas : Multiset (List Action)} (hbalanced : Balanced o) (h : Accounted marks o p)
    (hagendas : o.agendas = (action :: actions) ::ₘ agendas)
    (heffect : Effect o action next further mark) :
    Accounted (marks ++ [mark])
      { next with agendas := agendaOf (further ++ actions) + agendas } p := by
  rw [Accounted, underWay, left] at h ⊢
  rw [entrants_append, List.countP_append, entrants_singleton, h]
  rw [hagendas, planned_cons, List.countP_cons]
  dsimp only
  rw [planned_agendaOf_add, List.countP_append]
  cases heffect with
  | report item result =>
      dsimp only [Mark.entrants]
      rw [receipts_append, receipts_reported, List.countP_append, List.countP_singleton,
        tells_report, List.countP_nil, List.countP_nil]
      omega
  | settle item status next hnext =>
      have hnext : (next.toList : Multiset Queued).countP (fun item => p item.ticket) =
          next.toList.countP fun item => p item.ticket := by
        simp
      dsimp only [Mark.entrants]
      rw [Multiset.countP_add, hnext]
      simp only [Action.tells, List.countP_nil, Bool.false_eq_true, if_false]
      omega
  | tally batch status account haccount =>
      -- who tells a batch last takes over what it owes
      have hpending := hbalanced.pendingOf_pos hagendas
      rw [pendingOf_eq haccount] at hpending
      have htell := owing_tell { account with group := (account.group.subJobDone status).1 }
        haccount rfl hpending (pending_subJobDone account.group status hpending).2
        fun item => p item.ticket
      dsimp only [Mark.entrants]
      rw [tells_set haccount, noticed_set haccount, countP_tells_close haccount,
        List.countP_nil]
      · simp only [Action.tells, Bool.false_eq_true, if_false]
        omega
      all_goals rfl
  | close batch account haccount =>
      have hticket : ticketOf account.parent.id account.parent.role
          (account.result o.cancelled) = account.parent.ticket := rfl
      dsimp only [Mark.entrants]
      rw [receipts_append, receipts_reported, List.countP_append, List.countP_singleton,
        hticket]
      simp only [Action.tells, haccount, Option.any_some, List.countP_cons, List.countP_nil,
        Bool.false_eq_true, if_false]
      omega
  | release =>
      simp only [Action.tells, Mark.entrants, List.countP_nil, Bool.false_eq_true, if_false]
      omega
  | stray action batch haccount haction =>
      exact (hbalanced.not_stray hagendas haccount haction).elim

theorem accounted_move {p : Ticket → Bool} (hbalanced : Balanced o) (h : Accounted marks o p)
    (hmove : Move trusted o mark next) : Accounted (marks ++ [mark]) next p := by
  have hmarks := h
  rw [Accounted, underWay, left] at h ⊢
  rw [entrants_append, List.countP_append, entrants_singleton, h]
  cases hmove with
  | note entries rejections submissions hentries hrejections hsubmissions =>
      dsimp only
      rw [receipts_append, receipts_eq_nil hentries, List.append_nil]
      rfl
  | cancel => rfl
  | offer job item submissions hitem hsubmissions =>
      dsimp only [Mark.entrants]
      rw [Multiset.countP_cons, List.countP_singleton]
      omega
  | take item waiting hwaiting =>
      dsimp only [Mark.entrants]
      rw [hwaiting, Multiset.countP_cons, Multiset.countP_cons, List.countP_nil]
      omega
  | finish item held result cancelled hheld hresult hcancelled htrusted =>
      dsimp only [Mark.entrants]
      rw [hheld, Multiset.countP_cons, planned_cons, countP_tells_finishing hresult,
        List.countP_nil]
      omega
  | launch item held hheld =>
      have hleft := left_tells_append hbalanced { parent := item } p
      rw [left, left] at hleft
      dsimp only [Mark.entrants]
      rw [hheld, Multiset.countP_cons, noticed_append, owing_append, isOpen_of_pos Nat.one_pos,
        Bool.true_and, List.countP_nil, List.countP_nil]
      dsimp only
      omega
  | list batch account listing channel entries haccount hlisting hentries =>
      have hreceipts := receipts_eq_nil (ticket?_eq_none_of_expanded hentries)
      dsimp only [Mark.entrants]
      rw [receipts_append, hreceipts, List.append_nil, tells_set haccount, noticed_set haccount,
        owing_set haccount, List.countP_nil]
      all_goals rfl
  | receive batch account task channel item haccount hjoined hchannel hitem =>
      have hpending := hbalanced.pending_pos haccount hjoined
      dsimp only [Mark.entrants]
      rw [tells_set haccount, noticed_set haccount, owing_set haccount, Multiset.countP_cons,
        List.countP_singleton]
      · omega
      · rw [isOpen_of_pos hpending]
        exact isOpen_of_pos (Nat.succ_pos _)
      all_goals rfl
  | refuse batch account error channel entry haccount hjoined hnotice hchannel hentry =>
      have hticket : ticketOf entry.id entry.role (entryResult account.parent error) =
          entry.ticket := by
        rw [hentry]
        rfl
      dsimp only [Mark.entrants]
      rw [tells_set haccount, noticed_refuse haccount hnotice rfl, owing_set haccount,
        List.countP_singleton, Action.tells, hticket]
      · omega
      all_goals rfl
  | join batch account fault haccount hjoined hnotice hchannel hlisting =>
      have hpending := hbalanced.pending_pos haccount hjoined
      have htell := owing_tell
        { account with group := (account.group.listingDone fault).1, joined := true }
        haccount rfl hpending (pending_listingDone account.group fault hpending).2
        fun item => p item.ticket
      dsimp only [Mark.entrants]
      rw [tells_set haccount, noticed_set haccount, planned_agendaOf_add,
        countP_tells_close haccount, List.countP_nil]
      · omega
      all_goals rfl
  | tell batch account item result haccount hnotice =>
      have hnoticed : noticed (o.accounts.set batch { account with notice := [] })
          (Action.tells o.accounts p) +
            (if Action.tells o.accounts p (.report item result) then 1 else 0) =
          noticed o.accounts (Action.tells o.accounts p) := noticed_tell haccount hnotice rfl _
      dsimp only [Mark.entrants]
      rw [tells_set haccount, owing_set haccount, receipts_append, receipts_reported,
        List.countP_append, List.countP_singleton, List.countP_nil, ← hnoticed, tells_report]
      · omega
      all_goals rfl
  | perform action actions agendas next further mark hagendas heffect =>
      have hperform := accounted_perform hbalanced hmarks hagendas heffect
      rw [Accounted, entrants_append, List.countP_append, entrants_singleton, h] at hperform
      exact hperform

/-!
## What has come in

Whatever is under way has come into the run before, and so has whatever it is decided
about.  The jobs among it wait until a worker takes them.
-/

/-- Whether something holds of all that is under way. -/
structure Holds (o : Overview) (f : Queued → Prop) : Prop where
  waiting : ∀ item ∈ o.waiting, f item
  held : ∀ item ∈ o.held, f item
  settling : ∀ agenda ∈ o.agendas, ∀ item status, .settle item status ∈ agenda → f item
  parents : ∀ account ∈ o.accounts, f account.parent

theorem Holds.mono {f g : Queued → Prop} (h : Holds o f) (hfg : ∀ item, f item → g item) :
    Holds o g where
  waiting := fun item hitem => hfg item (h.waiting item hitem)
  held := fun item hitem => hfg item (h.held item hitem)
  settling := fun agenda hagenda item status haction =>
    hfg item (h.settling agenda hagenda item status haction)
  parents := fun account haccount => hfg _ (h.parents account haccount)

theorem map_parent_set {accounts : List Account} {batch : Nat} {account account' : Account}
    (haccount : accounts[batch]? = some account) (hparent : account'.parent = account.parent) :
    (accounts.set batch account').map Account.parent = accounts.map Account.parent := by
  have hset : (accounts.map Account.parent)[batch]? = some account.parent := by
    rw [List.getElem?_map, haccount]
    rfl
  rw [List.map_set, hparent, set_eq_self_of_getElem? hset]

/-- Batches keep their parents, and one that is started is behind all others. -/
theorem Move.parents (hmove : Move trusted o mark next) :
    next.accounts.map Account.parent = o.accounts.map Account.parent ∨
      ∃ item ∈ o.held,
        next.accounts.map Account.parent = o.accounts.map Account.parent ++ [item] := by
  cases hmove with
  | launch item held hheld =>
      refine Or.inr ⟨item, ?_, List.map_append⟩
      rw [hheld]
      exact Multiset.mem_cons_self _ _
  | list batch account listing channel entries haccount hlisting hentries =>
      exact Or.inl (map_parent_set haccount rfl)
  | receive batch account task channel item haccount hjoined hchannel hitem =>
      exact Or.inl (map_parent_set haccount rfl)
  | refuse batch account error channel entry haccount hjoined hnotice hchannel hentry =>
      exact Or.inl (map_parent_set haccount rfl)
  | join batch account fault haccount hjoined hnotice hchannel hlisting =>
      exact Or.inl (map_parent_set haccount rfl)
  | tell batch account item result haccount hnotice => exact Or.inl (map_parent_set haccount rfl)
  | perform action actions agendas next further mark hagendas heffect =>
      cases heffect with
      | tally batch status account haccount => exact Or.inl (map_parent_set haccount rfl)
      | _ => exact Or.inl rfl
  | _ => exact Or.inl rfl

/-- A batch that has been started keeps its place and its parent. -/
theorem parents_move (hmove : Move trusted o mark next) :
    o.accounts.map Account.parent <+: next.accounts.map Account.parent := by
  rcases hmove.parents with hsame | ⟨item, -, hmore⟩
  · rw [hsame]
  · rw [hmore]
    exact List.prefix_append _ _

theorem parents_set {f : Queued → Prop} {batch : Nat} {account account' : Account}
    (h : ∀ account ∈ o.accounts, f account.parent) (haccount : o.accounts[batch]? = some account)
    (hparent : account'.parent = account.parent) :
    ∀ account ∈ o.accounts.set batch account', f account.parent := by
  intro found hfound
  rcases List.mem_or_eq_of_mem_set hfound with hmem | rfl
  · exact h found hmem
  · rw [hparent]
    exact h account (List.mem_of_getElem? haccount)

theorem eq_of_mem_finishing {item item' : Queued} {result : JobResult} {status : Status}
    (h : .settle item' status ∈ finishing item result) : item' = item := by
  unfold finishing at h
  split at h
  · simp at h
  · simp only [List.mem_cons, reduceCtorEq, Action.settle.injEq, List.not_mem_nil, or_self,
      or_false, false_or] at h
    exact h.1

theorem isJob_successor {item item' : Queued} {status : Status} {cancelled : Bool}
    {next : Option Queued} (hnext : next = item.successor status cancelled)
    (hitem' : item' ∈ next.toList) : item'.isJob = true := by
  rw [Option.mem_toList, hnext] at hitem'
  rw [Queued.isJob, Queued.role_successor hitem']

theorem Effect.holds {f : Queued → Prop} {action : Action} {further : List Action}
    (heffect : Effect o action next further mark) (h : Holds o f)
    (hentrants : ∀ item ∈ mark.entrants, item.isJob = true → f item) :
    (∀ item ∈ next.waiting, f item) ∧ (∀ item ∈ next.held, f item) ∧
      (∀ account ∈ next.accounts, f account.parent) ∧
        ∀ item status, .settle item status ∈ further → f item := by
  cases heffect with
  | report item result =>
      exact ⟨h.waiting, h.held, h.parents, fun _ _ hmem => absurd hmem List.not_mem_nil⟩
  | settle item status next hnext =>
      refine ⟨?_, h.held, h.parents, fun _ _ hmem => absurd hmem List.not_mem_nil⟩
      intro item' hitem'
      rcases Multiset.mem_add.mp hitem' with hnew | hmem
      · exact hentrants item' hnew (isJob_successor hnext hnew)
      · exact h.waiting item' hmem
  | tally batch status account haccount =>
      refine ⟨h.waiting, h.held, parents_set h.parents haccount rfl, ?_⟩
      intro item status hmem
      split at hmem <;> simp at hmem
  | close batch account haccount =>
      refine ⟨h.waiting, h.held, h.parents, ?_⟩
      intro item status hmem
      simp only [List.mem_cons, Action.settle.injEq, reduceCtorEq, List.not_mem_nil, or_self,
        or_false] at hmem
      rw [hmem.1]
      exact h.parents account (List.mem_of_getElem? haccount)
  | release => exact ⟨h.waiting, h.held, h.parents, fun _ _ hmem => absurd hmem List.not_mem_nil⟩
  | stray action batch haccount haction =>
      exact ⟨h.waiting, h.held, h.parents, fun _ _ hmem => absurd hmem List.not_mem_nil⟩

/-- What holds of all that is under way and of what comes in holds behind every move. -/
theorem Holds.move {f : Queued → Prop} (h : Holds o f) (hmove : Move trusted o mark next)
    (hentrants : ∀ item ∈ mark.entrants, item.isJob = true → f item) : Holds next f := by
  cases hmove with
  | note entries rejections submissions hentries hrejections hsubmissions =>
      exact ⟨h.1, h.2, h.3, h.4⟩
  | cancel => exact ⟨h.1, h.2, h.3, h.4⟩
  | offer job item submissions hitem hsubmissions =>
      have hjob : item.isJob = true := by
        rw [hitem]
        rfl
      refine ⟨?_, h.2, h.3, h.4⟩
      intro item' hitem'
      rcases Multiset.mem_cons.mp hitem' with rfl | hmem
      · exact hentrants _ (List.mem_singleton_self _) hjob
      · exact h.waiting item' hmem
  | take item waiting hwaiting =>
      have hbefore := h.waiting
      rw [hwaiting] at hbefore
      refine ⟨?_, ?_, h.3, h.4⟩
      · intro item' hitem'
        exact hbefore item' (Multiset.mem_cons_of_mem hitem')
      · intro item' hitem'
        rcases Multiset.mem_cons.mp hitem' with rfl | hmem
        · exact hbefore _ (Multiset.mem_cons_self _ _)
        · exact h.held item' hmem
  | finish item held result cancelled hheld hresult hcancelled htrusted =>
      have hbefore := h.held
      rw [hheld] at hbefore
      refine ⟨h.1, ?_, ?_, h.4⟩
      · intro item' hitem'
        exact hbefore item' (Multiset.mem_cons_of_mem hitem')
      · intro agenda hagenda item' status haction
        rcases Multiset.mem_cons.mp hagenda with rfl | hmem
        · rw [eq_of_mem_finishing haction]
          exact hbefore item (Multiset.mem_cons_self _ _)
        · exact h.settling agenda hmem item' status haction
  | launch item held hheld =>
      have hbefore := h.held
      rw [hheld] at hbefore
      refine ⟨h.1, ?_, h.3, ?_⟩
      · intro item' hitem'
        exact hbefore item' (Multiset.mem_cons_of_mem hitem')
      · intro account haccount
        rcases List.mem_append.mp haccount with hmem | hnew
        · exact h.parents account hmem
        · rw [List.mem_singleton.mp hnew]
          exact hbefore item (Multiset.mem_cons_self _ _)
  | list batch account listing channel entries haccount hlisting hentries =>
      exact ⟨h.1, h.2, h.3, parents_set h.parents haccount rfl⟩
  | receive batch account task channel item haccount hjoined hchannel hitem =>
      have hjob : item.isJob = true := by
        rw [hitem]
        rfl
      refine ⟨?_, h.2, h.3, parents_set h.parents haccount rfl⟩
      intro item' hitem'
      rcases Multiset.mem_cons.mp hitem' with rfl | hmem
      · exact hentrants _ (List.mem_singleton_self _) hjob
      · exact h.waiting item' hmem
  | refuse batch account error channel entry haccount hjoined hnotice hchannel hentry =>
      exact ⟨h.1, h.2, h.3, parents_set h.parents haccount rfl⟩
  | join batch account fault haccount hjoined hnotice hchannel hlisting =>
      refine ⟨h.1, h.2, ?_, parents_set h.parents haccount rfl⟩
      intro agenda hagenda item status haction
      rcases Multiset.mem_add.mp hagenda with hnew | hmem
      · rw [(mem_agendaOf.mp hnew).1] at haction
        split at haction <;> simp at haction
      · exact h.settling agenda hmem item status haction
  | tell batch account item result haccount hnotice =>
      exact ⟨h.1, h.2, h.3, parents_set h.parents haccount rfl⟩
  | perform action actions agendas next further mark hagendas heffect =>
      have hbefore := h.settling
      rw [hagendas] at hbefore
      rcases heffect.holds h hentrants with ⟨hwaiting, hheld, hparents, hfurther⟩
      refine ⟨hwaiting, hheld, ?_, hparents⟩
      intro agenda hagenda item status haction
      rcases Multiset.mem_add.mp hagenda with hnew | hmem
      · rw [(mem_agendaOf.mp hnew).1] at haction
        rcases List.mem_append.mp haction with hmem | hmem
        · exact hfurther item status hmem
        · exact hbefore _ (Multiset.mem_cons_self _ _) item status (List.mem_cons_of_mem _ hmem)
      · exact hbefore agenda (Multiset.mem_cons_of_mem hmem) item status haction

/-- All that is under way, and all that something is decided about, has come in. -/
structure Present (marks : List Mark) (o : Overview) : Prop where
  holds : Holds o fun item => item ∈ entrants marks ∧ item.isJob = true
  settled : ∀ item status next, .settled item status next ∈ marks →
    (item ∈ entrants marks ∧ item.isJob = true) ∧
      ∃ cancelled, next = item.successor status cancelled

theorem mem_entrants_append {item : Queued} (h : item ∈ entrants marks) (marks' : List Mark) :
    item ∈ entrants (marks ++ marks') := by
  rw [entrants_append]
  exact List.mem_append_left _ h

theorem present_move (h : Present marks o) (hmove : Move trusted o mark next) :
    Present (marks ++ [mark]) next := by
  have hbefore := h.holds.mono fun item hitem =>
    And.intro (mem_entrants_append hitem.1 [mark]) hitem.2
  constructor
  case holds =>
    refine hbefore.move hmove ?_
    intro item hitem hjob
    constructor
    · rw [entrants_append, entrants_singleton]
      exact List.mem_append_right _ hitem
    · exact hjob
  case settled =>
    intro item status next' hmark
    rcases List.mem_append.mp hmark with hmark | hmark
    · rcases h.settled item status next' hmark with ⟨⟨hitem, hjob⟩, hnext⟩
      exact ⟨⟨mem_entrants_append hitem [mark], hjob⟩, hnext⟩
    · rw [List.mem_singleton] at hmark
      subst hmark
      rcases hmove.settled_inv with ⟨⟨actions, agendas, hagendas⟩, hnext⟩
      constructor
      · exact hbefore.settling _ (mem_agendas hagendas) item status List.mem_cons_self
      · exact ⟨o.cancelled, hnext⟩

/-- The jobs that have come in are those that workers have taken and those that wait. -/
theorem takings_move
    (h : (takings marks : Multiset Queued) + o.waiting = (entrants marks).filter Queued.isJob)
    (hmove : Move trusted o mark next) :
    (takings (marks ++ [mark]) : Multiset Queued) + next.waiting =
      (entrants (marks ++ [mark])).filter Queued.isJob := by
  rw [entrants_append, takings_append, List.filter_append, ← Multiset.coe_add, ← Multiset.coe_add,
    ← h, entrants_singleton, takings_singleton, add_assoc, add_assoc]
  congr 1
  cases hmove with
  | offer job item submissions hitem hsubmissions =>
      have hjob : [item].filter Queued.isJob = [item] := by
        rw [hitem]
        rfl
      dsimp only [Mark.takings, Mark.entrants]
      rw [hjob, Multiset.coe_nil, zero_add, Multiset.coe_singleton, ← Multiset.singleton_add,
        add_comm]
  | take item waiting hwaiting =>
      dsimp only [Mark.takings, Mark.entrants]
      rw [hwaiting, List.filter_nil, Multiset.coe_nil, add_zero, Multiset.coe_singleton,
        Multiset.singleton_add]
  | receive batch account task channel item haccount hjoined hchannel hitem =>
      have hjob : [item].filter Queued.isJob = [item] := by
        rw [hitem]
        rfl
      dsimp only [Mark.takings, Mark.entrants]
      rw [hjob, Multiset.coe_nil, zero_add, Multiset.coe_singleton, ← Multiset.singleton_add,
        add_comm]
  | refuse batch account error channel entry haccount hjoined hnotice hchannel hentry =>
      have hjob : [entry].filter Queued.isJob = [] := by
        rw [hentry]
        rfl
      dsimp only [Mark.takings, Mark.entrants]
      rw [hjob, Multiset.coe_nil, zero_add, add_zero]
  | perform action actions agendas next further mark hagendas heffect =>
      cases heffect with
      | settle item status next hnext =>
          have hjob : next.toList.filter Queued.isJob = next.toList :=
            List.filter_eq_self.mpr fun item' hitem' => isJob_successor hnext hitem'
          dsimp only [Mark.takings, Mark.entrants]
          rw [hjob, Multiset.coe_nil, zero_add, add_comm]
      | _ =>
          dsimp only [Mark.takings, Mark.entrants]
          rw [List.filter_nil, Multiset.coe_nil, zero_add, add_zero]
  | _ =>
      dsimp only [Mark.takings, Mark.entrants]
      rw [List.filter_nil, Multiset.coe_nil, zero_add, add_zero]

end Overview

namespace State

variable {config : PoolConfig} {submissions : List Submission} {state : State}
  {events : List Event}

/-!
## Receipts of a run
-/

theorem accounted_of_run (h : (initial config submissions).run events = some state)
    (p : Ticket → Bool) :
    state.overview.Accounted ((initial config submissions).chronicle events) p := by
  refine run_moves (P := fun marks o => o.Accounted marks p) h (False.elim : False → _) ?_ ?_
  · rw [overview_initial]
    rfl
  · intro marks o mark next hbalanced haccounted hmove
    exact Overview.accounted_move hbalanced haccounted hmove

theorem takings_of_run (h : (initial config submissions).run events = some state) :
    (takings ((initial config submissions).chronicle events) : Multiset Queued) +
        state.overview.waiting =
      (entrants ((initial config submissions).chronicle events)).filter Queued.isJob := by
  refine run_moves (P := fun marks o => (takings marks : Multiset Queued) + o.waiting =
    (entrants marks).filter Queued.isJob) h (False.elim : False → _) ?_ ?_
  · rw [overview_initial]
    rfl
  · intro marks o mark next _ htakings hmove
    exact Overview.takings_move htakings hmove

/-- At most one result is sent for what has come in. -/
theorem countP_receipts_le (h : (initial config submissions).run events = some state)
    (p : Ticket → Bool) :
    (receipts state.log).countP p ≤
      (entrants ((initial config submissions).chronicle events)).countP fun item =>
        p item.ticket := by
  have haccounted := accounted_of_run h p
  rw [Overview.Accounted] at haccounted
  have hlog : state.overview.log = state.log := rfl
  rw [hlog] at haccounted
  omega

/-- At rest the results are those of the jobs and entries that have come in. -/
theorem receipts_perm_of_isAtRest (h : (initial config submissions).run events = some state)
    (hrest : state.overview.IsAtRest) :
    (receipts state.log).Perm
      ((entrants ((initial config submissions).chronicle events)).map Queued.ticket) := by
  rw [List.perm_iff_count]
  intro ticket
  have haccounted := accounted_of_run h fun ticket' => ticket' == ticket
  rw [Overview.Accounted, Overview.underWay, hrest.waiting, hrest.held,
    hrest.left_eq_zero (balanced_of_run h), hrest.owing_eq_zero] at haccounted
  rw [List.count_eq_countP, List.count_eq_countP, List.countP_map]
  exact haccounted.symm

end State
end Pool
end BulkTransfer
