import BulkTransfer.Proofs.Pool.Simulation

/-!
# The balance of a pool

The number of outstanding units is the number of jobs under way, of units that are
about to be released, and of batches that are still open.  A batch that is open waits
for its sub-jobs under way, for those that are about to be told to it, and for the
end of its listing.  A sub-job that is itself started as a batch is never told to its
own batch, which then stays open for good.
-/

namespace BulkTransfer
namespace Pool

namespace Action

/-- Whether a unit of outstanding work goes with an action. -/
def isUnit : Action → Bool
  | .release | .close _ => true
  | _ => false

def isTallyOf (batch : Nat) : Action → Bool
  | .tally batch' _ => batch == batch'
  | _ => false

def isCloseOf (batch : Nat) : Action → Bool
  | .close batch' => batch == batch'
  | _ => false

end Action

namespace Overview

/-- How many things a batch waits for. -/
def pendingOf (accounts : List Account) (batch : Nat) : Nat :=
  accounts[batch]?.elim 0 fun account => account.group.pending

/-- How many listings a batch waits for. -/
def listingsOf (accounts : List Account) (batch : Nat) : Nat :=
  accounts[batch]?.elim 0 fun account => if account.joined then 0 else 1

/-- How many batches of a kind are open. -/
def owing (accounts : List Account) (f : Queued → Bool) : Nat :=
  accounts.countP fun account => account.isOpen && f account.parent

/-- The units of outstanding work, wherever they are. -/
def units (o : Overview) : Nat :=
  o.waiting.card + o.held.card + o.left Action.isUnit + owing o.accounts fun _ => true

/-- The things that a batch waits for, wherever they are. -/
def awaited (o : Overview) (batch : Nat) : Nat :=
  o.underWay (Queued.isMemberOf batch) + o.left (Action.isTallyOf batch) +
    o.accounts.countP (·.parent.isMemberOf batch) + listingsOf o.accounts batch

/-- What an agenda can be.  Behind a job its result is sent, then it is settled or told to
its batch, and then its unit is released; whoever tells a batch last also closes it. -/
inductive IsAgenda : List Action → Prop
  | releases (n : Nat) : IsAgenda (List.replicate (n + 1) .release)
  | settle (item : Queued) (status : Status) (n : Nat) :
      IsAgenda (.settle item status :: List.replicate (n + 1) .release)
  | tally (batch : Nat) (status : Status) (n : Nat) :
      IsAgenda (.tally batch status :: List.replicate (n + 1) .release)
  | close (batch n : Nat) : IsAgenda (.close batch :: List.replicate n .release)
  | reportSettle (item : Queued) (result : JobResult) (n : Nat)
      (hrole : ∀ batch position, item.role ≠ .member batch position) :
      IsAgenda (.report item result :: .settle item result.status ::
        List.replicate (n + 1) .release)
  | reportTally (item : Queued) (result : JobResult) (batch position n : Nat)
      (hrole : item.role = .member batch position) :
      IsAgenda (.report item result :: .tally batch result.status ::
        List.replicate (n + 1) .release)

/-- What every move keeps. -/
structure Balanced (o : Overview) : Prop where
  outstanding : o.outstanding = o.units
  pending : ∀ batch, pendingOf o.accounts batch = o.awaited batch
  /-- a batch is closed once, when nothing of it is to come any more -/
  closing : ∀ batch, o.left (Action.isCloseOf batch) = 0 ∨
    o.left (Action.isCloseOf batch) = 1 ∧ pendingOf o.accounts batch = 0 ∧
      batch < o.accounts.length
  agendas : ∀ agenda ∈ o.agendas, IsAgenda agenda
  telling : TellsEntries o
  joined : ∀ account ∈ o.accounts, account.joined = true →
    account.notice = [] ∧ account.channel = [] ∧
      account.listing = .ended account.group.listingFault

/-!
## Agendas
-/

theorem isAgenda_finishing (item : Queued) (result : JobResult) :
    IsAgenda (finishing item result) := by
  unfold finishing
  split
  · rename_i batch position hrole
    exact .reportTally item { result with isSubJob := item.role != .top } batch position 0 hrole
  · rename_i hrole
    exact .reportSettle item { result with isSubJob := item.role != .top } 0 hrole

theorem Effect.isAgenda {o next : Overview} {action : Action} {further actions : List Action}
    {mark : Mark} (h : Effect o action next further mark) (hagenda : IsAgenda (action :: actions))
    (hleft : further ++ actions ≠ []) : IsAgenda (further ++ actions) := by
  cases h with
  | report item result =>
      cases hagenda with
      | reportSettle item result n hrole => exact .settle item result.status n
      | reportTally item result batch position n hrole => exact .tally batch result.status n
  | settle item status next hnext =>
      cases hagenda with
      | settle item status n => exact .releases n
  | tally batch status account haccount =>
      cases hagenda with
      | tally batch status n =>
          split
          · exact .close batch (n + 1)
          · exact .releases n
  | close batch account haccount =>
      cases hagenda with
      | close batch n => exact .settle account.parent _ n
  | release =>
      cases hagenda with
      | releases n =>
          cases n with
          | zero => exact absurd rfl hleft
          | succ n => exact .releases n
  | stray action batch haccount haction =>
      rcases haction with rfl | ⟨status, rfl⟩
      · cases hagenda with
        | close batch n =>
            cases n with
            | zero => exact absurd rfl hleft
            | succ n => exact .releases n
      · cases hagenda with
        | tally batch status n => exact .releases n

variable {trusted : Prop} {o next : Overview} {mark : Mark}

theorem isAgenda_move (h : ∀ agenda ∈ o.agendas, IsAgenda agenda)
    (hmove : Move trusted o mark next) : ∀ agenda ∈ next.agendas, IsAgenda agenda := by
  cases hmove with
  | finish item held result cancelled hheld hresult hcancelled htrusted =>
      intro agenda hagenda
      rcases Multiset.mem_cons.mp hagenda with rfl | hagenda
      · exact isAgenda_finishing item result
      · exact h agenda hagenda
  | join batch account fault haccount hjoined hnotice hchannel hlisting =>
      intro agenda hagenda
      rcases Multiset.mem_add.mp hagenda with hagenda | hagenda
      · split at hagenda
        · rw [(mem_agendaOf.mp hagenda).1]
          exact .close batch 0
        · exact absurd rfl (mem_agendaOf.mp hagenda).2
      · exact h agenda hagenda
  | perform action actions agendas next further mark hagendas heffect =>
      rw [hagendas] at h
      intro agenda hagenda
      rcases Multiset.mem_add.mp hagenda with hagenda | hagenda
      · rcases mem_agendaOf.mp hagenda with ⟨rfl, hleft⟩
        exact heffect.isAgenda (h _ (Multiset.mem_cons_self _ _)) hleft
      · exact h agenda (Multiset.mem_cons_of_mem hagenda)
  | _ => exact h

/-!
## Notices
-/

theorem telling_set {account : Account} {batch : Nat} (h : TellsEntries o)
    (haccount : TellsEntry batch account) (batch' : Nat) (account' : Account)
    (haccount' : (o.accounts.set batch account)[batch']? = some account') :
    TellsEntry batch' account' := by
  rcases getElem?_set_cases haccount' with ⟨rfl, rfl⟩ | ⟨-, hother⟩
  · exact haccount
  · exact h batch' account' hother

theorem telling_move (h : TellsEntries o) (hmove : Move trusted o mark next) :
    TellsEntries next := by
  cases hmove with
  | launch item held hheld =>
      intro batch account haccount
      rw [List.getElem?_append] at haccount
      split at haccount
      · exact h batch account haccount
      · rw [List.mem_singleton.mp (List.mem_of_getElem? haccount)]
        exact Or.inl rfl
  | list batch account listing channel entries haccount hlisting hentries =>
      exact telling_set h (h batch account haccount)
  | receive batch account task channel item haccount hjoined hchannel hitem =>
      exact telling_set h (h batch account haccount)
  | refuse batch account error channel entry haccount hjoined hnotice hchannel hentry =>
      refine telling_set h (Or.inr ⟨entry, _, account.received, rfl, ?_, rfl⟩)
      rw [hentry]
  | join batch account fault haccount hjoined hnotice hchannel hlisting =>
      exact telling_set h (h batch account haccount)
  | tell batch account item result haccount hnotice => exact telling_set h (Or.inl rfl)
  | perform action actions agendas next further mark hagendas heffect =>
      cases heffect with
      | tally batch status account haccount => exact telling_set h (h batch account haccount)
      | _ => exact h
  | _ => exact h

/-!
## Counts behind a change
-/

theorem pendingOf_set_add {accounts : List Account} {i : Nat} {account : Account}
    (h : accounts[i]? = some account) (account' : Account) (batch : Nat) :
    pendingOf (accounts.set i account') batch + (if batch = i then account.group.pending else 0) =
      pendingOf accounts batch + if batch = i then account'.group.pending else 0 :=
  elim_set_add h account' (fun account => account.group.pending) batch

theorem listingsOf_set_add {accounts : List Account} {i : Nat} {account : Account}
    (h : accounts[i]? = some account) (account' : Account) (batch : Nat) :
    listingsOf (accounts.set i account') batch +
        (if batch = i then (if account.joined then 0 else 1) else 0) =
      listingsOf accounts batch +
        if batch = i then (if account'.joined then 0 else 1) else 0 :=
  elim_set_add h account' (fun account => if account.joined then 0 else 1) batch

theorem pendingOf_set {accounts : List Account} {i : Nat} {account account' : Account}
    (h : accounts[i]? = some account) (hpending : account'.group.pending = account.group.pending)
    (batch : Nat) : pendingOf (accounts.set i account') batch = pendingOf accounts batch :=
  elim_set_of_eq h 0 (g := fun account => account.group.pending) hpending batch

theorem listingsOf_set {accounts : List Account} {i : Nat} {account account' : Account}
    (h : accounts[i]? = some account) (hjoined : account'.joined = account.joined)
    (batch : Nat) : listingsOf (accounts.set i account') batch = listingsOf accounts batch :=
  elim_set_of_eq h 0 (g := fun account => if account.joined then 0 else 1) (by rw [hjoined]) batch

theorem pendingOf_eq {accounts : List Account} {batch : Nat} {account : Account}
    (h : accounts[batch]? = some account) : pendingOf accounts batch = account.group.pending := by
  rw [pendingOf, h]
  rfl

theorem listingsOf_eq {accounts : List Account} {batch : Nat} {account : Account}
    (h : accounts[batch]? = some account) :
    listingsOf accounts batch = if account.joined then 0 else 1 := by
  rw [listingsOf, h]
  rfl

theorem pendingOf_append (accounts : List Account) (account : Account) (batch : Nat) :
    pendingOf (accounts ++ [account]) batch =
      pendingOf accounts batch + if batch = accounts.length then account.group.pending else 0 :=
  elim_concat_add accounts account (fun account => account.group.pending) batch

theorem listingsOf_append (accounts : List Account) (account : Account) (batch : Nat) :
    listingsOf (accounts ++ [account]) batch =
      listingsOf accounts batch +
        if batch = accounts.length then (if account.joined then 0 else 1) else 0 :=
  elim_concat_add accounts account (fun account => if account.joined then 0 else 1) batch

/-!
## What a batch that is told waits for
-/

namespace Balanced

variable (h : Balanced o)
include h

theorem pending_pos {batch : Nat} {account : Account} (haccount : o.accounts[batch]? = some account)
    (hjoined : account.joined = false) : 0 < account.group.pending := by
  have hpending := h.pending batch
  rw [awaited, pendingOf_eq haccount, listingsOf_eq haccount, hjoined] at hpending
  simp only [Bool.false_eq_true, if_false] at hpending
  omega

/-- A sub-job that is about to be told to its batch is still waited for. -/
theorem pendingOf_pos {batch : Nat} {status : Status} {actions : List Action}
    {agendas : Multiset (List Action)}
    (hagendas : o.agendas = (.tally batch status :: actions) ::ₘ agendas) :
    0 < pendingOf o.accounts batch := by
  rw [h.pending batch, awaited, left, hagendas, planned_cons, List.countP_cons]
  simp only [Action.isTallyOf, beq_self_eq_true, if_true]
  omega

omit h in
theorem exists_of_pendingOf_pos {batch : Nat} (hpending : 0 < pendingOf o.accounts batch) :
    ∃ account, o.accounts[batch]? = some account := by
  cases haccount : o.accounts[batch]? with
  | none =>
      rw [pendingOf, haccount] at hpending
      exact absurd hpending (Nat.lt_irrefl 0)
  | some account => exact ⟨account, rfl⟩

/-- A batch that is about to be closed waits for nothing more. -/
theorem closing_eq {batch : Nat} {actions : List Action} {agendas : Multiset (List Action)}
    (hagendas : o.agendas = (.close batch :: actions) ::ₘ agendas) :
    o.left (Action.isCloseOf batch) = 1 ∧ pendingOf o.accounts batch = 0 ∧
      batch < o.accounts.length := by
  rcases h.closing batch with hnone | hone
  · rw [left, hagendas, planned_cons, List.countP_cons] at hnone
    simp only [Action.isCloseOf, beq_self_eq_true, if_true] at hnone
    omega
  · exact hone

/-- A batch that waits for something is not about to be closed. -/
theorem left_isCloseOf_eq_zero {batch : Nat} (hpending : 0 < pendingOf o.accounts batch) :
    o.left (Action.isCloseOf batch) = 0 := by
  rcases h.closing batch with hnone | ⟨-, hzero, -⟩
  · exact hnone
  · omega

/-- No batch is told or closed that is not there. -/
theorem not_stray {action : Action} {actions : List Action} {agendas : Multiset (List Action)}
    {batch : Nat} (hagendas : o.agendas = (action :: actions) ::ₘ agendas)
    (haccount : o.accounts[batch]? = none)
    (haction : action = .close batch ∨ ∃ status, action = .tally batch status) : False := by
  rcases haction with rfl | ⟨status, rfl⟩
  · have hlength := (h.closing_eq hagendas).2.2
    rw [List.getElem?_eq_none_iff] at haccount
    omega
  · rcases exists_of_pendingOf_pos (h.pendingOf_pos hagendas) with ⟨account, hsome⟩
    rw [hsome] at haccount
    cases haccount

end Balanced

/-!
## Groups

A group that is told something waits for one thing less, and says so if it was the last.
-/

theorem pending_finishOne (group : Group) (hpending : 0 < group.pending) :
    group.finishOne.1.pending + 1 = group.pending ∧
      (group.finishOne.2 = true ↔ group.finishOne.1.pending = 0) := by
  constructor
  · exact Nat.sub_add_cancel hpending
  · exact beq_iff_eq

theorem pending_count (group : Group) (status : Status) :
    (group.count status).pending = group.pending := by
  cases status <;> rfl

theorem pending_subJobDone (group : Group) (status : Status) (hpending : 0 < group.pending) :
    (group.subJobDone status).1.pending + 1 = group.pending ∧
      ((group.subJobDone status).2 = true ↔ (group.subJobDone status).1.pending = 0) := by
  have hfinish := pending_finishOne (group.count status)
  rw [pending_count] at hfinish
  exact hfinish hpending

theorem pending_listingDone (group : Group) (fault : Option ExpansionError)
    (hpending : 0 < group.pending) :
    (group.listingDone fault).1.pending + 1 = group.pending ∧
      ((group.listingDone fault).2 = true ↔ (group.listingDone fault).1.pending = 0) :=
  pending_finishOne { group with listingFault := fault } hpending

/-!
## The units
-/

theorem isOpen_of_pos {account : Account} (hpending : 0 < account.group.pending) :
    account.isOpen = true :=
  bne_iff_ne.mpr hpending.ne'

theorem owing_set {accounts : List Account} {batch : Nat} {account account' : Account}
    (haccount : accounts[batch]? = some account) (hopen : account'.isOpen = account.isOpen)
    (hparent : account'.parent = account.parent) (f : Queued → Bool) :
    owing (accounts.set batch account') f = owing accounts f :=
  countP_set_of_eq haccount (by rw [hopen, hparent])

theorem owing_append (accounts : List Account) (account : Account) (f : Queued → Bool) :
    owing (accounts ++ [account]) f =
      owing accounts f + if account.isOpen && f account.parent then 1 else 0 := by
  rw [owing, List.countP_append, List.countP_singleton]
  rfl

/-- A batch that is told is owed no more if nothing else remains. -/
theorem owing_tell {accounts : List Account} {batch : Nat} {account : Account} {complete : Bool}
    (account' : Account) (haccount : accounts[batch]? = some account)
    (hparent : account'.parent = account.parent) (hpending : 0 < account.group.pending)
    (hcomplete : complete = true ↔ account'.group.pending = 0) (f : Queued → Bool) :
    owing (accounts.set batch account') f + (if complete && f account.parent then 1 else 0) =
      owing accounts f := by
  have hset := countP_set_add haccount (fun account => account.isOpen && f account.parent) account'
  simp only [isOpen_of_pos hpending, Bool.true_and, hparent] at hset
  by_cases hzero : account'.group.pending = 0
  · have hclosed : account'.isOpen = false := by
      simp [Account.isOpen, hzero]
    rw [hclosed] at hset
    rw [hcomplete.mpr hzero]
    exact hset
  · rw [isOpen_of_pos (Nat.pos_of_ne_zero hzero)] at hset
    rw [Bool.eq_false_iff.mpr (mt hcomplete.mp hzero)]
    exact Nat.add_right_cancel hset

theorem countP_isUnit_close (complete : Bool) (batch : Nat) :
    (if complete then [Action.close batch] else []).countP Action.isUnit =
      if complete then 1 else 0 := by
  cases complete <;> rfl

theorem countP_isUnit_finishing (item : Queued) (result : JobResult) :
    (finishing item result).countP Action.isUnit = 1 := by
  unfold finishing
  split <;> rfl

theorem outstanding_perform {action : Action} {actions further : List Action}
    {agendas : Multiset (List Action)} (h : Balanced o)
    (hagendas : o.agendas = (action :: actions) ::ₘ agendas)
    (heffect : Effect o action next further mark) :
    next.outstanding = units { next with agendas := agendaOf (further ++ actions) + agendas } := by
  have hunits := h.outstanding
  rw [units, left] at hunits ⊢
  dsimp only
  rw [hagendas, planned_cons, List.countP_cons] at hunits
  rw [planned_agendaOf_add, List.countP_append]
  cases heffect with
  | report item result =>
      simp only [Action.isUnit, List.countP_nil, Bool.false_eq_true, if_false] at hunits ⊢
      omega
  | settle item status next hnext =>
      simp only [Action.isUnit, List.countP_nil, Bool.false_eq_true, if_false,
        Multiset.card_add, Multiset.coe_card] at hunits ⊢
      omega
  | tally batch status account haccount =>
      have hpending := h.pendingOf_pos hagendas
      rw [pendingOf_eq haccount] at hpending
      have htell := owing_tell { account with group := (account.group.subJobDone status).1 }
        haccount rfl hpending (pending_subJobDone account.group status hpending).2
        fun _ => true
      rw [Bool.and_true] at htell
      dsimp only
      rw [noticed_set haccount, countP_isUnit_close]
      · simp only [Action.isUnit, Bool.false_eq_true, if_false] at hunits
        omega
      · rfl
  | close batch account haccount =>
      simp only [Action.isUnit, List.countP_cons, List.countP_nil, Bool.false_eq_true,
        if_false, if_true] at hunits ⊢
      omega
  | release =>
      simp only [Action.isUnit, List.countP_nil, if_true] at hunits ⊢
      omega
  | stray action batch haccount haction => exact (h.not_stray hagendas haccount haction).elim

theorem outstanding_move (h : Balanced o) (hmove : Move trusted o mark next) :
    next.outstanding = next.units := by
  have hunits := h.outstanding
  rw [units, left] at hunits ⊢
  cases hmove with
  | note entries rejections submissions hentries hrejections hsubmissions => exact hunits
  | cancel => exact hunits
  | offer job item submissions hitem hsubmissions =>
      dsimp only
      rw [Multiset.card_cons]
      omega
  | take item waiting hwaiting =>
      dsimp only
      rw [hwaiting, Multiset.card_cons] at hunits
      rw [Multiset.card_cons]
      omega
  | finish item held result cancelled hheld hresult hcancelled htrusted =>
      dsimp only
      rw [hheld, Multiset.card_cons] at hunits
      rw [planned_cons, countP_isUnit_finishing]
      omega
  | launch item held hheld =>
      dsimp only
      rw [hheld, Multiset.card_cons] at hunits
      rw [noticed_append, owing_append, isOpen_of_pos Nat.one_pos, List.countP_nil]
      simp only [Bool.and_self, if_true]
      omega
  | list batch account listing channel entries haccount hlisting hentries =>
      dsimp only
      rw [noticed_set haccount, owing_set haccount]
      · exact hunits
      all_goals rfl
  | receive batch account task channel item haccount hjoined hchannel hitem =>
      have hpending := h.pending_pos haccount hjoined
      dsimp only
      rw [noticed_set haccount, owing_set haccount, Multiset.card_cons]
      · omega
      · rw [isOpen_of_pos hpending]
        exact isOpen_of_pos (Nat.succ_pos _)
      all_goals rfl
  | refuse batch account error channel entry haccount hjoined hnotice hchannel hentry =>
      dsimp only
      rw [noticed_refuse haccount hnotice rfl, owing_set haccount]
      · exact hunits
      all_goals rfl
  | join batch account fault haccount hjoined hnotice hchannel hlisting =>
      dsimp only
      have hpending := h.pending_pos haccount hjoined
      have htell := owing_tell
        { account with group := (account.group.listingDone fault).1, joined := true }
        haccount rfl hpending (pending_listingDone account.group fault hpending).2 fun _ => true
      rw [Bool.and_true] at htell
      rw [noticed_set haccount, planned_agendaOf_add, countP_isUnit_close]
      · omega
      · rfl
  | tell batch account item result haccount hnotice =>
      have hnoticed : noticed (o.accounts.set batch { account with notice := [] }) Action.isUnit =
          noticed o.accounts Action.isUnit := noticed_tell haccount hnotice rfl Action.isUnit
      dsimp only
      rw [hnoticed, owing_set haccount]
      · exact hunits
      all_goals rfl
  | perform action actions agendas next further mark hagendas heffect =>
      have hperform := outstanding_perform h hagendas heffect
      exact hperform

/-!
## What a batch waits for
-/

theorem countP_isTallyOf_finishing (item : Queued) (result : JobResult) (batch : Nat) :
    (finishing item result).countP (Action.isTallyOf batch) =
      if item.isMemberOf batch then 1 else 0 := by
  unfold finishing Queued.isMemberOf
  cases item.role with
  | member batch' position => simp [List.countP_cons, Action.isTallyOf, Role.isMember]
  | top => rfl
  | entry batch' position => rfl

theorem countP_isMemberOf_successor {item : Queued} {status : Status} {cancelled : Bool}
    {next : Option Queued} (hnext : next = item.successor status cancelled) (batch : Nat) :
    (next.toList : Multiset Queued).countP (fun item => item.isMemberOf batch) = 0 := by
  rw [Multiset.countP_eq_zero]
  intro item' hitem'
  rw [Multiset.mem_coe, Option.mem_toList, hnext] at hitem'
  rw [Queued.isMemberOf, Queued.role_successor hitem']
  exact Bool.false_ne_true

theorem pending_perform {action : Action} {actions further : List Action}
    {agendas : Multiset (List Action)} (h : Balanced o)
    (hagendas : o.agendas = (action :: actions) ::ₘ agendas)
    (heffect : Effect o action next further mark) (batch : Nat) :
    pendingOf next.accounts batch =
      awaited { next with agendas := agendaOf (further ++ actions) + agendas } batch := by
  have hpending := h.pending batch
  rw [awaited, underWay, left] at hpending ⊢
  dsimp only
  rw [hagendas, planned_cons, List.countP_cons] at hpending
  rw [planned_agendaOf_add, List.countP_append]
  cases heffect with
  | report item result =>
      simp only [Action.isTallyOf, List.countP_nil, Bool.false_eq_true, if_false] at hpending ⊢
      omega
  | settle item status next hnext =>
      dsimp only
      rw [Multiset.countP_add, countP_isMemberOf_successor hnext]
      simp only [Action.isTallyOf, List.countP_nil, Bool.false_eq_true, if_false] at hpending ⊢
      omega
  | tally batch' status account haccount =>
      have hpos := h.pendingOf_pos hagendas
      rw [pendingOf_eq haccount] at hpos
      have hgroup := (pending_subJobDone account.group status hpos).1
      have hset := pendingOf_set_add haccount
        { account with group := (account.group.subJobDone status).1 } batch
      have hclose : (if (account.group.subJobDone status).2 then [Action.close batch']
          else []).countP (Action.isTallyOf batch) = 0 := by
        split <;> rfl
      dsimp only at hset ⊢
      rw [listingsOf_set haccount, noticed_set haccount, countP_set_of_eq haccount, hclose]
      · simp only [Action.isTallyOf, beq_iff_eq] at hpending
        by_cases hbatch : batch = batch'
        · simp only [if_pos hbatch] at hset hpending
          omega
        · simp only [if_neg hbatch] at hset hpending
          omega
      all_goals rfl
  | close batch' account haccount =>
      simp only [Action.isTallyOf, List.countP_cons, List.countP_nil, Bool.false_eq_true,
        if_false] at hpending ⊢
      omega
  | release =>
      simp only [Action.isTallyOf, List.countP_nil, Bool.false_eq_true, if_false]
        at hpending ⊢
      omega
  | stray action batch' haccount haction =>
      exact (h.not_stray hagendas haccount haction).elim

theorem pending_move (h : Balanced o) (hmove : Move trusted o mark next) (batch : Nat) :
    pendingOf next.accounts batch = next.awaited batch := by
  have hpending := h.pending batch
  rw [awaited, underWay, left] at hpending ⊢
  cases hmove with
  | note entries rejections submissions hentries hrejections hsubmissions => exact hpending
  | cancel => exact hpending
  | offer job item submissions hitem hsubmissions =>
      dsimp only
      rw [Multiset.countP_cons_of_neg]
      · exact hpending
      · rw [hitem]
        exact Bool.false_ne_true
  | take item waiting hwaiting =>
      dsimp only
      rw [hwaiting, Multiset.countP_cons] at hpending
      rw [Multiset.countP_cons]
      omega
  | finish item held result cancelled hheld hresult hcancelled htrusted =>
      dsimp only
      rw [hheld, Multiset.countP_cons] at hpending
      rw [planned_cons, countP_isTallyOf_finishing]
      omega
  | launch item held hheld =>
      dsimp only
      rw [hheld, Multiset.countP_cons] at hpending
      rw [pendingOf_append, listingsOf_append, noticed_append, List.countP_append,
        List.countP_singleton, List.countP_nil]
      simp only [Bool.false_eq_true, if_false]
      omega
  | list batch' account listing channel entries haccount hlisting hentries =>
      dsimp only
      rw [pendingOf_set haccount, listingsOf_set haccount, noticed_set haccount,
        countP_set_of_eq haccount]
      · exact hpending
      all_goals rfl
  | receive batch' account task channel item haccount hjoined hchannel hitem =>
      have hset := pendingOf_set_add haccount
        { account with
          channel := channel, received := account.received + 1
          group := account.group.addSubJob } batch
      have hmember : item.isMemberOf batch = (batch == batch') := by
        rw [hitem]
        rfl
      dsimp only [Group.addSubJob] at hset ⊢
      rw [listingsOf_set haccount, noticed_set haccount, countP_set_of_eq haccount,
        Multiset.countP_cons, hmember]
      · by_cases hbatch : batch = batch'
        · rw [if_pos hbatch, if_pos hbatch] at hset
          rw [if_pos (beq_iff_eq.mpr hbatch)]
          omega
        · rw [if_neg hbatch, if_neg hbatch] at hset
          rw [if_neg (mt beq_iff_eq.mp hbatch)]
          omega
      all_goals rfl
  | refuse batch' account error channel entry haccount hjoined hnotice hchannel hentry =>
      dsimp only
      rw [pendingOf_set haccount, listingsOf_set haccount, countP_set_of_eq haccount,
        noticed_refuse haccount hnotice rfl]
      · exact hpending
      all_goals rfl
  | join batch' account fault haccount hjoined hnotice hchannel hlisting =>
      have hgroup := (pending_listingDone account.group fault (h.pending_pos haccount hjoined)).1
      have hset := pendingOf_set_add haccount
        { account with group := (account.group.listingDone fault).1, joined := true } batch
      have hlistings := listingsOf_set_add haccount
        { account with group := (account.group.listingDone fault).1, joined := true } batch
      rw [hjoined] at hlistings
      have hclose : (if (account.group.listingDone fault).2 then [Action.close batch']
          else []).countP (Action.isTallyOf batch) = 0 := by
        split <;> rfl
      dsimp only at hset hlistings ⊢
      rw [noticed_set haccount, countP_set_of_eq haccount, planned_agendaOf_add, hclose]
      · by_cases hbatch : batch = batch'
        · simp only [if_pos hbatch, Bool.false_eq_true, if_true, if_false] at hset hlistings
          omega
        · simp only [if_neg hbatch] at hset hlistings
          omega
      all_goals rfl
  | tell batch' account item result haccount hnotice =>
      have hnoticed : noticed (o.accounts.set batch' { account with notice := [] })
          (Action.isTallyOf batch) = noticed o.accounts (Action.isTallyOf batch) :=
        noticed_tell haccount hnotice rfl (Action.isTallyOf batch)
      dsimp only
      rw [pendingOf_set haccount, listingsOf_set haccount, countP_set_of_eq haccount, hnoticed]
      · exact hpending
      all_goals rfl
  | perform action actions agendas next further mark hagendas heffect =>
      have hperform := pending_perform h hagendas heffect batch
      exact hperform

/-!
## Closing
-/

theorem countP_isCloseOf_finishing (item : Queued) (result : JobResult) (batch : Nat) :
    (finishing item result).countP (Action.isCloseOf batch) = 0 := by
  unfold finishing
  split <;> rfl

/-- A batch that is told is closed at once if it waits for nothing more. -/
theorem closing_tell {accounts : List Account} {batch' : Nat} {account : Account} {complete : Bool}
    {closes : Nat} (account' : Account) (haccount : accounts[batch']? = some account)
    (hpending : 0 < account.group.pending)
    (hcomplete : complete = true ↔ account'.group.pending = 0) (batch : Nat)
    (hclosing : closes = 0 ∨
      closes = 1 ∧ pendingOf accounts batch = 0 ∧ batch < accounts.length)
    (hidle : 0 < pendingOf accounts batch → closes = 0) :
    (if complete then [Action.close batch'] else []).countP (Action.isCloseOf batch) + closes = 0 ∨
      (if complete then [Action.close batch'] else []).countP (Action.isCloseOf batch) + closes =
          1 ∧
        pendingOf (accounts.set batch' account') batch = 0 ∧
          batch < (accounts.set batch' account').length := by
  have hset := pendingOf_set_add haccount account' batch
  rcases List.getElem?_eq_some_iff.mp haccount with ⟨hlength, -⟩
  rw [List.length_set]
  by_cases hbatch : batch = batch'
  · subst hbatch
    rw [pendingOf_eq haccount] at hset hidle
    rw [if_pos rfl, if_pos rfl, Nat.add_comm, Nat.add_left_cancel_iff] at hset
    rw [hset, hidle hpending]
    by_cases hzero : account'.group.pending = 0
    · have hclose : [Action.close batch].countP (Action.isCloseOf batch) = 1 := by
        simp [Action.isCloseOf]
      rw [if_pos (hcomplete.mpr hzero), hclose]
      exact Or.inr ⟨rfl, hzero, hlength⟩
    · rw [if_neg (mt hcomplete.mp hzero)]
      exact Or.inl rfl
  · rw [if_neg hbatch, if_neg hbatch] at hset
    have hclose : (if complete then [Action.close batch'] else []).countP
        (Action.isCloseOf batch) = 0 := by
      split
      · simp [Action.isCloseOf, hbatch]
      · rfl
    rw [hclose, Nat.zero_add, show pendingOf _ _ = _ from hset]
    exact hclosing

theorem closing_perform {action : Action} {actions further : List Action}
    {agendas : Multiset (List Action)} (h : Balanced o)
    (hagendas : o.agendas = (action :: actions) ::ₘ agendas)
    (heffect : Effect o action next further mark) (batch : Nat) :
    left { next with agendas := agendaOf (further ++ actions) + agendas }
        (Action.isCloseOf batch) = 0 ∨
      left { next with agendas := agendaOf (further ++ actions) + agendas }
          (Action.isCloseOf batch) = 1 ∧
        pendingOf next.accounts batch = 0 ∧ batch < next.accounts.length := by
  have hclosing := h.closing batch
  have hidle : 0 < pendingOf o.accounts batch → o.left (Action.isCloseOf batch) = 0 :=
    h.left_isCloseOf_eq_zero
  rw [left] at hclosing hidle ⊢
  dsimp only
  rw [planned_agendaOf_add, List.countP_append]
  rw [hagendas, planned_cons, List.countP_cons] at hclosing hidle
  cases heffect with
  | tally batch' status account haccount =>
      have hpending := h.pendingOf_pos hagendas
      rw [pendingOf_eq haccount] at hpending
      simp only [Action.isCloseOf, Bool.false_eq_true, if_false, Nat.add_zero] at hclosing hidle
      rw [noticed_set haccount, Nat.add_assoc, Nat.add_assoc, ← Nat.add_assoc _ (planned _ _)]
      · exact closing_tell _ haccount hpending
          (pending_subJobDone account.group status hpending).2 batch hclosing hidle
      · rfl
  | close batch' account haccount =>
      by_cases hbatch : batch = batch'
      · subst hbatch
        rcases h.closing_eq hagendas with ⟨hone, -⟩
        rw [left, hagendas, planned_cons, List.countP_cons] at hone
        simp only [Action.isCloseOf, beq_self_eq_true, if_true] at hone
        simp only [Action.isCloseOf, List.countP_cons, List.countP_nil, Bool.false_eq_true,
          if_false]
        omega
      · simp only [Action.isCloseOf, beq_iff_eq, if_neg hbatch, Nat.add_zero] at hclosing
        simp only [Action.isCloseOf, List.countP_cons, List.countP_nil, Bool.false_eq_true,
          if_false]
        omega
  | stray action batch' haccount haction =>
      exact (h.not_stray hagendas haccount haction).elim
  | _ =>
      simp only [Action.isCloseOf, Bool.false_eq_true, if_false, Nat.add_zero] at hclosing
      simp only [List.countP_nil, Nat.zero_add]
      exact hclosing

theorem closing_move (h : Balanced o) (hmove : Move trusted o mark next) (batch : Nat) :
    next.left (Action.isCloseOf batch) = 0 ∨
      next.left (Action.isCloseOf batch) = 1 ∧ pendingOf next.accounts batch = 0 ∧
        batch < next.accounts.length := by
  have hclosing := h.closing batch
  have hidle : 0 < pendingOf o.accounts batch → o.left (Action.isCloseOf batch) = 0 :=
    h.left_isCloseOf_eq_zero
  rw [left] at hclosing hidle ⊢
  cases hmove with
  | finish item held result cancelled hheld hresult hcancelled htrusted =>
      dsimp only
      rw [planned_cons, countP_isCloseOf_finishing, Nat.zero_add]
      exact hclosing
  | launch item held hheld =>
      dsimp only
      rw [noticed_append, pendingOf_append, List.length_append, List.countP_nil, Nat.add_zero]
      rcases hclosing with hnone | ⟨hone, hzero, hlength⟩
      · exact Or.inl hnone
      · rw [if_neg hlength.ne]
        exact Or.inr ⟨hone, hzero, Nat.lt_succ_of_lt hlength⟩
  | list batch' account listing channel entries haccount hlisting hentries =>
      dsimp only
      rw [noticed_set haccount, pendingOf_set haccount, List.length_set]
      · exact hclosing
      all_goals rfl
  | receive batch' account task channel item haccount hjoined hchannel hitem =>
      have hpending := h.pending_pos haccount hjoined
      have hset := pendingOf_set_add haccount
        { account with
          channel := channel, received := account.received + 1
          group := account.group.addSubJob } batch
      dsimp only at hset ⊢
      rw [noticed_set haccount, List.length_set]
      · by_cases hbatch : batch = batch'
        · subst hbatch
          rw [pendingOf_eq haccount] at hidle
          exact Or.inl (hidle hpending)
        · rw [if_neg hbatch, if_neg hbatch] at hset
          rw [show pendingOf _ _ = _ from hset]
          exact hclosing
      · rfl
  | refuse batch' account error channel entry haccount hjoined hnotice hchannel hentry =>
      dsimp only
      rw [pendingOf_set haccount, List.length_set, noticed_refuse haccount hnotice rfl]
      · exact hclosing
      · rfl
  | join batch' account fault haccount hjoined hnotice hchannel hlisting =>
      have hpending := h.pending_pos haccount hjoined
      dsimp only
      rw [noticed_set haccount, planned_agendaOf_add, Nat.add_assoc]
      · exact closing_tell _ haccount hpending
          (pending_listingDone account.group fault hpending).2 batch hclosing hidle
      · rfl
  | tell batch' account item result haccount hnotice =>
      have hnoticed : noticed (o.accounts.set batch' { account with notice := [] })
          (Action.isCloseOf batch) = noticed o.accounts (Action.isCloseOf batch) :=
        noticed_tell haccount hnotice rfl (Action.isCloseOf batch)
      dsimp only
      rw [pendingOf_set haccount, List.length_set, hnoticed]
      · exact hclosing
      · rfl
  | perform action actions agendas next further mark hagendas heffect =>
      have hperform := closing_perform h hagendas heffect batch
      exact hperform
  | _ => exact hclosing

/-!
## The balance of a run
-/

theorem joined_set {accounts : List Account} {batch : Nat} {account' : Account}
    (h : ∀ account ∈ accounts, account.joined = true →
      account.notice = [] ∧ account.channel = [] ∧
        account.listing = .ended account.group.listingFault)
    (haccount' : account'.joined = true →
      account'.notice = [] ∧ account'.channel = [] ∧
        account'.listing = .ended account'.group.listingFault) :
    ∀ account ∈ accounts.set batch account', account.joined = true →
      account.notice = [] ∧ account.channel = [] ∧
        account.listing = .ended account.group.listingFault := by
  intro account haccount
  rcases List.mem_or_eq_of_mem_set haccount with hmem | rfl
  · exact h account hmem
  · exact haccount'

theorem joined_move (h : Balanced o) (hmove : Move trusted o mark next) :
    ∀ account ∈ next.accounts, account.joined = true →
      account.notice = [] ∧ account.channel = [] ∧
        account.listing = .ended account.group.listingFault := by
  cases hmove with
  | launch item held hheld =>
      intro account haccount hjoined
      rcases List.mem_append.mp haccount with haccount | haccount
      · exact h.joined account haccount hjoined
      · rw [List.mem_singleton.mp haccount] at hjoined
        cases hjoined
  | list batch account listing channel entries haccount hlisting hentries =>
      refine joined_set h.joined ?_
      intro hjoined
      exact absurd (h.joined account (List.mem_of_getElem? haccount) hjoined).2.2 (hlisting _)
  | receive batch account task channel item haccount hjoined hchannel hitem =>
      refine joined_set h.joined ?_
      intro hjoined'
      exact absurd (hjoined.symm.trans hjoined') Bool.false_ne_true
  | refuse batch account error channel entry haccount hjoined hnotice hchannel hentry =>
      refine joined_set h.joined ?_
      intro hjoined'
      exact absurd (hjoined.symm.trans hjoined') Bool.false_ne_true
  | join batch account fault haccount hjoined hnotice hchannel hlisting =>
      exact joined_set h.joined fun _ => ⟨hnotice, hchannel, hlisting⟩
  | tell batch account item result haccount hnotice =>
      refine joined_set h.joined ?_
      intro hjoined
      exact ⟨rfl, (h.joined account (List.mem_of_getElem? haccount) hjoined).2⟩
  | perform action actions agendas next further mark hagendas heffect =>
      cases heffect with
      | tally batch status account haccount =>
          refine joined_set h.joined ?_
          intro hjoined
          have hfault : (account.group.subJobDone status).1.listingFault =
              account.group.listingFault := by
            cases status <;> rfl
          dsimp only
          rw [hfault]
          exact h.joined account (List.mem_of_getElem? haccount) hjoined
      | _ => exact h.joined
  | _ => exact h.joined

/-- Balance is kept. -/
theorem Balanced.move (h : Balanced o) (hmove : Move trusted o mark next) : Balanced next where
  outstanding := outstanding_move h hmove
  pending := pending_move h hmove
  closing := closing_move h hmove
  agendas := isAgenda_move h.agendas hmove
  telling := telling_move h.telling hmove
  joined := joined_move h hmove

end Overview
end Pool
end BulkTransfer
