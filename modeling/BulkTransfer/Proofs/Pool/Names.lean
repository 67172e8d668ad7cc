import BulkTransfer.Proofs.Pool.Receipts

/-!
# Names

Whatever comes into a run has a name of its own.  A submitted job is named by its
number, a sub-job by its place in its batch.  A continuation is named by what it
follows, so its name is new because its job is settled once, and that is because
settling comes with a result.
-/

namespace BulkTransfer
namespace Pool

/-!
## Counting

A predicate on identities, roles and statuses selects results, settled jobs and
actions that settle one.
-/

/-- Whether an entry of the log is a result of a kind. -/
def Entry.reports (f : JobId → Role → Status → Bool) : Entry → Bool
  | .reported id role result => f id role result.status
  | _ => false

/-- Whether an action settles a job of a kind. -/
def Action.settles (f : JobId → Role → Status → Bool) : Action → Bool
  | .settle item status => f item.id item.role status
  | _ => false

/-- Whether a result is that of a top-level job with a status. -/
def ofTop (id : JobId) (status : Status) (id' : JobId) (role : Role) (status' : Status) : Bool :=
  role == .top && (id' == id && status' == status)

theorem ofTop_iff {id id' : JobId} {role : Role} {status status' : Status} :
    ofTop id status id' role status' = true ↔ role = .top ∧ id' = id ∧ status' = status := by
  rw [ofTop, Bool.and_eq_true, Bool.and_eq_true, beq_iff_eq, beq_iff_eq, beq_iff_eq]

theorem countP_reports_pos_iff {log : List Entry} {id : JobId} {status : Status} :
    0 < log.countP (Entry.reports (ofTop id status)) ↔
      ∃ result, .reported id .top result ∈ log ∧ result.status = status := by
  rw [List.countP_pos_iff]
  constructor
  · rintro ⟨entry, hentry, hreports⟩
    cases entry with
    | reported id' role result =>
        rcases ofTop_iff.mp hreports with ⟨rfl, rfl, hstatus⟩
        exact ⟨result, hentry, hstatus⟩
    | _ => cases hreports
  · rintro ⟨result, hentry, hstatus⟩
    exact ⟨_, hentry, ofTop_iff.mpr ⟨rfl, rfl, hstatus⟩⟩

/-- Whether it is the ticket with a name. -/
def Ticket.isNamed (id : JobId) (role : Role) (ticket : Ticket) : Bool :=
  ticket.role == role && ticket.id == id

theorem Ticket.isNamed_iff {id : JobId} {role : Role} {ticket : Ticket} :
    ticket.isNamed id role = true ↔ ticket.role = role ∧ ticket.id = id := by
  rw [isNamed, Bool.and_eq_true, beq_iff_eq, beq_iff_eq]

/-- Whether it is the role of the item at a position of a batch. -/
def Role.isItem (batch position : Nat) : Role → Bool
  | .member batch' position' | .entry batch' position' => batch == batch' && position == position'
  | .top => false

/-- How many jobs of a kind have come into a run. -/
def entered (marks : List Mark) (f : Queued → Bool) : Nat :=
  (entrants marks).countP f

/-- How many jobs of a kind have been settled. -/
def settled (marks : List Mark) (f : Queued → Status → Option Queued → Bool) : Nat :=
  marks.countP (Mark.settles f)

@[simp] theorem entered_nil (f : Queued → Bool) : entered [] f = 0 := rfl

@[simp] theorem settled_nil (f : Queued → Status → Option Queued → Bool) : settled [] f = 0 := rfl

theorem entered_concat (marks : List Mark) (mark : Mark) (f : Queued → Bool) :
    entered (marks ++ [mark]) f = entered marks f + mark.entrants.countP f := by
  rw [entered, entrants_append, List.countP_append, entrants_singleton]
  rfl

theorem settled_concat (marks : List Mark) (mark : Mark)
    (f : Queued → Status → Option Queued → Bool) :
    settled (marks ++ [mark]) f = settled marks f + if mark.settles f then 1 else 0 := by
  rw [settled, List.countP_append, List.countP_singleton]
  rfl

namespace Overview

variable {trusted : Prop} {o next : Overview} {mark : Mark} {marks : List Mark}

/-- How many agendas begin with an action of a kind. -/
def headed (agendas : Multiset (List Action)) (q : Action → Bool) : Nat :=
  agendas.countP fun agenda => agenda.head?.any q

@[simp] theorem headed_zero (q : Action → Bool) : headed 0 q = 0 := rfl

theorem headed_cons (agenda : List Action) (agendas : Multiset (List Action)) (q : Action → Bool) :
    headed (agenda ::ₘ agendas) q = headed agendas q + if agenda.head?.any q then 1 else 0 :=
  Multiset.countP_cons _ _ _

theorem headed_agendaOf_add (actions : List Action) (agendas : Multiset (List Action))
    (q : Action → Bool) :
    headed (agendaOf actions + agendas) q =
      headed agendas q + if actions.head?.any q then 1 else 0 := by
  cases actions with
  | nil => simp [agendaOf]
  | cons action actions =>
      rw [agendaOf, Multiset.singleton_add]
      exact headed_cons _ _ _

/-!
Nothing but a result stands at the head of an agenda of a job that is finished, and nothing but
the end of its batch and releases at the head of what follows a tally.
-/

section Heads

variable {q : Action → Bool}

theorem head?_any_finishing (hreport : ∀ item result, q (.report item result) = false)
    (item : Queued) (result : JobResult) : (finishing item result).head?.any q = false := by
  unfold finishing
  split <;> exact hreport item _

theorem head?_any_releases (hrelease : q .release = false) (n : Nat) :
    (List.replicate n Action.release).head?.any q = false := by
  cases n with
  | zero => rfl
  | succ n => exact hrelease

theorem head?_any_close (hclose : ∀ batch, q (.close batch) = false) (complete : Bool)
    (batch : Nat) : (if complete then [Action.close batch] else []).head?.any q = false := by
  cases complete with
  | true => exact hclose batch
  | false => rfl

theorem head?_any_append {actions further : List Action} (hactions : actions.head?.any q = false)
    (hfurther : further.head?.any q = false) : (actions ++ further).head?.any q = false := by
  cases actions with
  | nil => exact hfurther
  | cons action actions => exact hactions

end Heads

/-!
## Settling comes with a result

A top-level job that has its result is settled or about to be.
-/

/-- The results of a kind are those of jobs that are settled, or next to be. -/
def Told (marks : List Mark) (o : Overview) (f : JobId → Role → Status → Bool) : Prop :=
  o.log.countP (Entry.reports f) =
    settled marks (fun item status _ => f item.id item.role status) +
      headed o.agendas (Action.settles f)

theorem countP_reports_eq_zero {entries : List Entry} (f : JobId → Role → Status → Bool)
    (h : ∀ entry ∈ entries, entry.ticket? = none) : entries.countP (Entry.reports f) = 0 := by
  rw [List.countP_eq_zero]
  intro entry hentry
  have hticket := h entry hentry
  cases entry with
  | reported id role result => cases hticket
  | _ => exact Bool.false_ne_true

theorem told_perform {f : JobId → Role → Status → Bool} {action : Action}
    {actions further : List Action} {agendas : Multiset (List Action)} (hbalanced : Balanced o)
    (hf : ∀ id role status, f id role status = true → role = .top) (h : Told marks o f)
    (hagendas : o.agendas = (action :: actions) ::ₘ agendas)
    (heffect : Effect o action next further mark) :
    Told (marks ++ [mark]) { next with agendas := agendaOf (further ++ actions) + agendas } f := by
  have hnot : ∀ id role status, role ≠ .top → f id role status = false := by
    intro id role status hrole
    exact Bool.eq_false_iff.mpr (mt (hf id role status) hrole)
  rw [Told] at h ⊢
  rw [settled_concat]
  have hagenda := hbalanced.agendas _ (mem_agendas hagendas)
  rw [hagendas, headed_cons] at h
  dsimp only
  rw [headed_agendaOf_add]
  cases heffect with
  | report item result =>
      dsimp only
      rw [List.countP_append, List.countP_singleton, h]
      cases hagenda with
      | reportSettle item result n hrole =>
          change _ + (_ + 0) + (if f item.id item.role result.status then 1 else 0) =
            _ + 0 + (_ + if f item.id item.role result.status then 1 else 0)
          omega
      | reportTally item result batch position n hrole =>
          have hreports : Entry.reports f (.reported item.id item.role result) = false := by
            apply hnot
            rw [hrole]
            exact Role.noConfusion
          rw [hreports]
          rfl
  | settle item status next hnext =>
      cases hagenda with
      | settle item status n =>
          change o.log.countP (Entry.reports f) = _
          rw [h, List.nil_append, head?_any_releases rfl]
          change _ + (_ + if f item.id item.role status then 1 else 0) =
            _ + (if f item.id item.role status then 1 else 0) + (_ + 0)
          omega
  | tally batch status account haccount =>
      cases hagenda with
      | tally batch status n =>
          rw [head?_any_append (head?_any_close (fun _ => rfl) _ _) (head?_any_releases rfl _)]
          exact h
  | close batch account haccount =>
      dsimp only
      rw [List.countP_append, List.countP_singleton, h]
      change _ + (_ + 0) +
          (if f account.parent.id account.parent.role (account.result o.cancelled).status
            then 1 else 0) =
        _ + 0 + (_ +
          if f account.parent.id account.parent.role (account.result o.cancelled).status
            then 1 else 0)
      omega
  | release =>
      cases hagenda with
      | releases n =>
          rw [List.nil_append, head?_any_releases rfl]
          exact h
  | stray action batch haccount haction =>
      exact (hbalanced.not_stray hagendas haccount haction).elim

theorem told_move {f : JobId → Role → Status → Bool} (hbalanced : Balanced o)
    (hf : ∀ id role status, f id role status = true → role = .top) (h : Told marks o f)
    (hmove : Move trusted o mark next) : Told (marks ++ [mark]) next f := by
  have hnot : ∀ id role status, role ≠ .top → f id role status = false := by
    intro id role status hrole
    exact Bool.eq_false_iff.mpr (mt (hf id role status) hrole)
  rw [Told] at h ⊢
  rw [settled_concat]
  cases hmove with
  | note entries rejections submissions hentries hrejections hsubmissions =>
      dsimp only
      rw [List.countP_append, countP_reports_eq_zero f hentries]
      exact h
  | finish item held result cancelled hheld hresult hcancelled htrusted =>
      dsimp only
      rw [headed_cons, head?_any_finishing fun _ _ => rfl]
      exact h
  | list batch account listing channel entries haccount hlisting hentries =>
      have hreports := countP_reports_eq_zero f (ticket?_eq_none_of_expanded hentries)
      dsimp only
      rw [List.countP_append, hreports]
      exact h
  | join batch account fault haccount hjoined hnotice hchannel hlisting =>
      dsimp only
      rw [headed_agendaOf_add, head?_any_close fun _ => rfl]
      exact h
  | tell batch account item result haccount hnotice =>
      rcases hbalanced.telling batch account haccount with hnone | ⟨_, _, _, hone, hrole, -⟩
      · rw [hnone] at hnotice
        cases hnotice
      · rw [hnotice, List.singleton_inj] at hone
        cases hone
        have hreports : Entry.reports f (.reported item.id item.role result) = false := by
          apply hnot
          rw [hrole]
          exact Role.noConfusion
        dsimp only
        rw [List.countP_append, List.countP_singleton, hreports]
        exact h
  | perform action actions agendas next further mark hagendas heffect =>
      have hperform := told_perform hbalanced hf h hagendas heffect
      rw [Told, settled_concat] at hperform
      exact hperform
  | _ => exact h

/-!
## Where names come from
-/

/-- How many jobs have come in under a name. -/
def entrantsOf (marks : List Mark) (id : JobId) : Nat :=
  entered marks fun item => item.role == .top && item.id == id

/-- How many items of a batch have come in at a position. -/
def itemsOf (marks : List Mark) (batch position : Nat) : Nat :=
  entered marks fun item => item.role.isItem batch position

/-- How many continuations have come in behind a name. -/
def followersOf (marks : List Mark) (id : JobId) (succeeded : Bool) : Nat :=
  settled marks fun item status next =>
    item.id == id && status.isSuccess == succeeded && next.isSome

/-- How many items a batch has received. -/
def receivedOf (accounts : List Account) (batch : Nat) : Nat :=
  accounts[batch]?.elim 0 fun account => account.received

/-- Whether names are given out once for each thing that names them. -/
structure Named (marks : List Mark) (o : Overview) : Prop where
  submitted : ∀ k, entrantsOf marks { submission := k } = if k < o.submitted then 1 else 0
  followed : ∀ id succeeded, entrantsOf marks (id.next succeeded) = followersOf marks id succeeded
  received : ∀ batch position,
    itemsOf marks batch position = if position < receivedOf o.accounts batch then 1 else 0

theorem settles_follower_iff {id : JobId} {succeeded : Bool} :
    (mark.settles fun item status next =>
      item.id == id && status.isSuccess == succeeded && next.isSome) = true ↔
    ∃ item status next, mark = .settled item status (some next) ∧ item.id = id ∧
      status.isSuccess = succeeded := by
  constructor
  · intro h
    cases mark with
    | settled item status next =>
        rw [Mark.settles_settled, Bool.and_eq_true, Bool.and_eq_true, beq_iff_eq, beq_iff_eq,
          Option.isSome_iff_exists] at h
        rcases h with ⟨⟨hid, hsuccess⟩, item', rfl⟩
        exact ⟨item, status, item', rfl, hid, hsuccess⟩
    | _ => cases h
  · rintro ⟨item, status, next, rfl, rfl, rfl⟩
    rw [Mark.settles_settled, beq_self_eq_true, beq_self_eq_true]
    rfl

theorem route_next_ne_nil (id : JobId) (succeeded : Bool) : (id.next succeeded).route ≠ [] := by
  simp [JobId.next]

theorem next_eq_next_iff {id id' : JobId} {succeeded succeeded' : Bool} :
    id.next succeeded = id'.next succeeded' ↔ id = id' ∧ succeeded = succeeded' := by
  constructor
  · intro h
    rcases id with ⟨submission, route⟩
    rcases id' with ⟨submission', route'⟩
    simp only [JobId.next, JobId.mk.injEq] at h
    rcases h with ⟨hsubmission, hroute⟩
    have hconcat := List.append_inj' hroute rfl
    rw [hsubmission, hconcat.1]
    exact ⟨rfl, List.singleton_inj.mp hconcat.2⟩
  · rintro ⟨rfl, rfl⟩
    rfl

theorem receivedOf_eq {accounts : List Account} {batch : Nat} {account : Account}
    (h : accounts[batch]? = some account) : receivedOf accounts batch = account.received := by
  rw [receivedOf, h]
  rfl

theorem receivedOf_set {accounts : List Account} {i : Nat} {account : Account}
    (h : accounts[i]? = some account) (account' : Account) (batch : Nat) :
    receivedOf (accounts.set i account') batch =
      if batch = i then account'.received else receivedOf accounts batch :=
  elim_set h account' 0 Account.received batch

theorem receivedOf_set_of_eq {accounts : List Account} {i : Nat} {account account' : Account}
    (h : accounts[i]? = some account) (hreceived : account'.received = account.received) :
    receivedOf (accounts.set i account') = receivedOf accounts :=
  funext (elim_set_of_eq h 0 hreceived)

theorem receivedOf_append (accounts : List Account) (item : Queued) :
    receivedOf (accounts ++ [{ parent := item }]) = receivedOf accounts :=
  funext (elim_concat_of_eq accounts rfl)

theorem submitted_move {k : Nat}
    (h : entrantsOf marks { submission := k } = if k < o.submitted then 1 else 0)
    (hmove : Move trusted o mark next) :
    entrantsOf (marks ++ [mark]) { submission := k } = if k < next.submitted then 1 else 0 := by
  rw [entrantsOf] at h
  rw [entrantsOf, entered_concat, h]
  cases hmove with
  | offer job item submissions hitem hsubmissions =>
      dsimp only [Mark.entrants]
      rw [hitem, List.countP_singleton]
      simp only [beq_self_eq_true, Bool.true_and, beq_iff_eq, JobId.mk.injEq, and_true]
      split <;> split <;> split <;> omega
  | receive batch account task channel item haccount hjoined hchannel hitem =>
      dsimp only [Mark.entrants]
      rw [hitem]
      rfl
  | refuse batch account error channel entry haccount hjoined hnotice hchannel hentry =>
      dsimp only [Mark.entrants]
      rw [hentry]
      rfl
  | perform action actions agendas next further mark hagendas heffect =>
      cases heffect with
      | settle item status next hnext =>
          have hnew : next.toList.countP (fun item => item.role == .top &&
              item.id == { submission := k }) = 0 := by
            rw [List.countP_eq_zero]
            intro item' hitem'
            rw [Option.mem_toList, hnext] at hitem'
            have hid := route_next_ne_nil item.id status.isSuccess
            rw [← Queued.id_successor hitem'] at hid
            simp only [Bool.and_eq_true, beq_iff_eq, not_and]
            intro _ heq
            rw [heq] at hid
            exact hid rfl
          dsimp only [Mark.entrants]
          rw [hnew]
          rfl
      | _ => rfl
  | _ => rfl

theorem followed_move {id : JobId} {succeeded : Bool}
    (h : entrantsOf marks (id.next succeeded) = followersOf marks id succeeded)
    (hmove : Move trusted o mark next) :
    entrantsOf (marks ++ [mark]) (id.next succeeded) =
      followersOf (marks ++ [mark]) id succeeded := by
  rw [entrantsOf, followersOf] at h
  rw [entrantsOf, followersOf, entered_concat, settled_concat, h]
  congr 1
  cases hmove with
  | offer job item submissions hitem hsubmissions =>
      have hid : (item.id == id.next succeeded) = false := by
        rw [hitem]
        apply beq_eq_false_iff_ne.mpr
        intro heq
        exact route_next_ne_nil id succeeded (congrArg JobId.route heq.symm)
      dsimp only [Mark.entrants]
      rw [List.countP_singleton, hid, Bool.and_false]
      rfl
  | receive batch account task channel item haccount hjoined hchannel hitem =>
      dsimp only [Mark.entrants]
      rw [hitem]
      rfl
  | refuse batch account error channel entry haccount hjoined hnotice hchannel hentry =>
      dsimp only [Mark.entrants]
      rw [hentry]
      rfl
  | perform action actions agendas next further mark hagendas heffect =>
      cases heffect with
      | settle item status next hnext =>
          dsimp only [Mark.entrants]
          rw [Mark.settles_settled]
          cases next with
          | none =>
              rw [Option.isSome_none, Bool.and_false]
              rfl
          | some item' =>
              have hid : (item'.id == id.next succeeded) =
                  (item.id == id && status.isSuccess == succeeded) := by
                rw [Queued.id_successor hnext.symm, Bool.eq_iff_iff]
                simp only [Bool.and_eq_true, beq_iff_eq]
                exact next_eq_next_iff
              rw [Option.toList_some, List.countP_singleton, hid, Queued.role_successor hnext.symm,
                Option.isSome_some, Bool.and_true]
              rfl
      | _ => rfl
  | _ => rfl

/-- The position of a new item is the next one in its batch. -/
theorem item_received {accounts : List Account} {batch' : Nat} {account account' : Account}
    {batch position : Nat} {here : Bool} (haccount : accounts[batch']? = some account)
    (hreceived : account'.received = account.received + 1)
    (hhere : here = true ↔ batch = batch' ∧ position = account.received) :
    ((if position < receivedOf accounts batch then 1 else 0) + if here then 1 else 0) =
      if position < receivedOf (accounts.set batch' account') batch then 1 else 0 := by
  rw [receivedOf_set haccount, hreceived]
  by_cases hbatch : batch = batch'
  · rw [if_pos hbatch, hbatch, receivedOf_eq haccount]
    by_cases hposition : position = account.received
    · rw [if_pos (hhere.mpr ⟨hbatch, hposition⟩), if_neg (by omega), if_pos (by omega)]
    · rw [if_neg fun htrue => hposition (hhere.mp htrue).2]
      split <;> split <;> omega
  · rw [if_neg hbatch, if_neg fun htrue => hbatch (hhere.mp htrue).1, Nat.add_zero]

theorem received_move {batch position : Nat}
    (h : itemsOf marks batch position = if position < receivedOf o.accounts batch then 1 else 0)
    (hmove : Move trusted o mark next) :
    itemsOf (marks ++ [mark]) batch position =
      if position < receivedOf next.accounts batch then 1 else 0 := by
  rw [itemsOf] at h
  rw [itemsOf, entered_concat, h]
  cases hmove with
  | offer job item submissions hitem hsubmissions =>
      dsimp only [Mark.entrants]
      rw [hitem]
      rfl
  | launch item held hheld =>
      dsimp only
      rw [receivedOf_append]
      rfl
  | list batch' account listing channel entries haccount hlisting hentries =>
      dsimp only
      rw [receivedOf_set_of_eq haccount]
      all_goals rfl
  | receive batch' account task channel item haccount hjoined hchannel hitem =>
      have hrole : item.role = .member batch' account.received := by
        rw [hitem]
      dsimp only [Mark.entrants]
      rw [List.countP_singleton]
      apply item_received haccount rfl
      rw [hrole, Role.isItem, Bool.and_eq_true, beq_iff_eq, beq_iff_eq]
  | refuse batch' account error channel entry haccount hjoined hnotice hchannel hentry =>
      have hrole : entry.role = .entry batch' account.received := by
        rw [hentry]
      dsimp only [Mark.entrants]
      rw [List.countP_singleton]
      apply item_received haccount rfl
      rw [hrole, Role.isItem, Bool.and_eq_true, beq_iff_eq, beq_iff_eq]
  | join batch' account fault haccount hjoined hnotice hchannel hlisting =>
      dsimp only
      rw [receivedOf_set_of_eq haccount]
      all_goals rfl
  | tell batch' account item result haccount hnotice =>
      dsimp only
      rw [receivedOf_set_of_eq haccount]
      all_goals rfl
  | perform action actions agendas next further mark hagendas heffect =>
      cases heffect with
      | settle item status next hnext =>
          have hnew : next.toList.countP (fun item => item.role.isItem batch position) =
              0 := by
            rw [List.countP_eq_zero]
            intro item' hitem'
            rw [Option.mem_toList, hnext] at hitem'
            rw [Queued.role_successor hitem']
            exact Bool.false_ne_true
          dsimp only [Mark.entrants]
          rw [hnew]
          rfl
      | tally batch' status account haccount =>
          dsimp only
          rw [receivedOf_set_of_eq haccount]
          all_goals rfl
      | _ => rfl
  | _ => rfl

theorem named_move (h : Named marks o) (hmove : Move trusted o mark next) :
    Named (marks ++ [mark]) next where
  submitted := fun k => submitted_move (h.submitted k) hmove
  followed := fun id succeeded => followed_move (h.followed id succeeded) hmove
  received := fun batch position => received_move (h.received batch position) hmove

/-!
## Continuations belong to top-level jobs

A sub-job is made of a task, so nothing follows it.
-/

/-- Whether continuations come only with top-level jobs. -/
def Childless (item : Queued) : Prop :=
  item.isJob = true → item.role ≠ .top → ∀ succeeded, item.job.continuation succeeded = none

theorem childless_move (h : ∀ item ∈ entrants marks, Childless item)
    (hmove : Move trusted o mark next) : ∀ item ∈ entrants (marks ++ [mark]), Childless item := by
  intro found hfound
  rw [entrants_append, entrants_singleton] at hfound
  rcases List.mem_append.mp hfound with hmem | hnew
  · exact h found hmem
  · cases hmove with
    | offer job item submissions hitem hsubmissions =>
        rw [List.mem_singleton.mp hnew, hitem]
        exact fun _ hrole => absurd rfl hrole
    | receive batch account task channel item haccount hjoined hchannel hitem =>
        rw [List.mem_singleton.mp hnew, hitem]
        intro _ _ succeeded
        cases succeeded <;> rfl
    | refuse batch account error channel entry haccount hjoined hnotice hchannel hentry =>
        rw [List.mem_singleton.mp hnew, hentry]
        exact fun hjob => absurd hjob Bool.false_ne_true
    | perform action actions agendas next further mark hagendas heffect =>
        cases heffect with
        | settle item status next hnext =>
            rw [Mark.entrants, Option.mem_toList, hnext] at hnew
            exact fun _ hrole => absurd (Queued.role_successor hnew) hrole
        | _ => cases hnew
    | _ => cases hnew

/-- What every move keeps of the jobs that have come in and of their names. -/
structure Regular (marks : List Mark) (o : Overview) : Prop where
  present : Present marks o
  childless : ∀ item ∈ entrants marks, Childless item
  named : Named marks o

theorem regular_move (h : Regular marks o) (hmove : Move trusted o mark next) :
    Regular (marks ++ [mark]) next where
  present := present_move h.present hmove
  childless := childless_move h.childless hmove
  named := named_move h.named hmove

end Overview

namespace State

variable {config : PoolConfig} {submissions : List Submission} {state : State}
  {events : List Event}

/-!
## The names of a run
-/

theorem told_of_run (h : (initial config submissions).run events = some state)
    {f : JobId → Role → Status → Bool}
    (hf : ∀ id role status, f id role status = true → role = .top) :
    state.overview.Told ((initial config submissions).chronicle events) f := by
  refine run_moves (P := fun marks o => o.Told marks f) h (False.elim : False → _) ?_ ?_
  · rw [overview_initial]
    rfl
  · intro marks o mark next hbalanced htold hmove
    exact Overview.told_move hbalanced hf htold hmove

theorem regular_initial (config : PoolConfig) (submissions : List Submission) :
    (initial config submissions).overview.Regular [] := by
  rw [overview_initial]
  constructor
  case present =>
    constructor
    case holds => constructor <;> simp
    case settled => simp
  case childless => exact fun item hitem => absurd hitem List.not_mem_nil
  case named =>
    constructor
    case submitted => exact fun _ => rfl
    case followed => exact fun _ _ => rfl
    case received => exact fun _ _ => rfl

theorem regular_of_run (h : (initial config submissions).run events = some state) :
    state.overview.Regular ((initial config submissions).chronicle events) := by
  refine run_moves (P := fun marks o => o.Regular marks) h (False.elim : False → _)
    (regular_initial config submissions) ?_
  intro marks o mark next _ hregular hmove
  exact Overview.regular_move hregular hmove

/-- What regular moves keep holds behind every run if it holds at the start. -/
theorem run_regular_moves {trusted : Prop} {P : List Mark → Overview → Prop}
    (h : (initial config submissions).run events = some state)
    (htrusted : trusted → (initial config submissions).Trusts events)
    (hstart : P [] (initial config submissions).overview)
    (hmove : ∀ marks o mark next, o.Balanced → o.Regular marks → P marks o →
      Overview.Move trusted o mark next → P (marks ++ [mark]) next) :
    P ((initial config submissions).chronicle events) state.overview := by
  refine (run_moves (P := fun marks o => o.Regular marks ∧ P marks o) h htrusted
    ⟨regular_initial config submissions, hstart⟩ ?_).2
  intro marks o mark next hbalanced hmarks hstep
  exact ⟨Overview.regular_move hmarks.1 hstep,
    hmove marks o mark next hbalanced hmarks.1 hmarks.2 hstep⟩

theorem present_of_run (h : (initial config submissions).run events = some state) :
    state.overview.Present ((initial config submissions).chronicle events) :=
  (regular_of_run h).present

theorem named_of_run (h : (initial config submissions).run events = some state) :
    state.overview.Named ((initial config submissions).chronicle events) :=
  (regular_of_run h).named

/-- Only a top-level job is followed. -/
theorem role_eq_top_of_settled (h : (initial config submissions).run events = some state)
    {item next : Queued} {status : Status}
    (hmark : .settled item status (some next) ∈ (initial config submissions).chronicle events) :
    item.role = .top := by
  rcases (present_of_run h).settled item status (some next) hmark with
    ⟨⟨hitem, hjob⟩, cancelled, hnext⟩
  rcases Queued.successor_eq_some hnext.symm with ⟨job, -, hcontinuation, -⟩
  by_contra hrole
  rw [(regular_of_run h).childless item hitem hjob hrole] at hcontinuation
  cases hcontinuation

theorem countP_reports_eq_receipts (log : List Entry) (f : JobId → Role → Bool) :
    log.countP (Entry.reports fun id role _ => f id role) =
      (receipts log).countP fun ticket => f ticket.id ticket.role := by
  rw [receipts, List.countP_filterMap]
  congr 1
  funext entry
  cases entry <;> rfl

/-- How often a job of a name has been settled. -/
def settledOf (marks : List Mark) (id : JobId) : Nat :=
  settled marks fun item _ _ => item.role == .top && item.id == id

/-- A job is settled at most as often as it has come in. -/
theorem settledOf_le (h : (initial config submissions).run events = some state) (id : JobId) :
    settledOf ((initial config submissions).chronicle events) id ≤
      Overview.entrantsOf ((initial config submissions).chronicle events) id := by
  have htold := told_of_run h (f := fun id' role _ => role == .top && id' == id) (by
    intro id' role _ htrue
    exact beq_iff_eq.mp (Bool.and_eq_true_iff.mp htrue).1)
  have hreceipts := countP_receipts_le h fun ticket => ticket.role == .top && ticket.id == id
  have hlog : state.overview.log = state.log := rfl
  rw [Overview.Told, hlog, countP_reports_eq_receipts] at htold
  change settled _ _ ≤ entered _ _
  have hentered : (entered ((initial config submissions).chronicle events) fun item =>
    item.role == .top && item.id == id) = (entrants
      ((initial config submissions).chronicle events)).countP fun item =>
        item.ticket.role == .top && item.ticket.id == id := rfl
  rw [hentered]
  omega

/-- The continuations behind a name are behind as many jobs that have been settled. -/
theorem followersOf_add_le (h : (initial config submissions).run events = some state)
    (id : JobId) :
    Overview.followersOf ((initial config submissions).chronicle events) id true +
        Overview.followersOf ((initial config submissions).chronicle events) id false ≤
      settledOf ((initial config submissions).chronicle events) id := by
  have hsettles : ∀ succeeded, ∀ mark ∈ (initial config submissions).chronicle events,
      (mark.settles fun item status next =>
        item.id == id && status.isSuccess == succeeded && next.isSome) = true →
      (mark.settles fun item _ _ => item.role == .top && item.id == id) = true := by
    intro succeeded mark hmark htrue
    rcases Overview.settles_follower_iff.mp htrue with ⟨item, status, next, rfl, hid, -⟩
    rw [Mark.settles_settled, role_eq_top_of_settled h hmark, hid]
    exact Bool.and_eq_true_iff.mpr ⟨beq_self_eq_true _, beq_self_eq_true _⟩
  refine countP_add_le ?_ (hsettles true) (hsettles false)
  intro mark _ htrue
  rcases Overview.settles_follower_iff.mp htrue with ⟨item, status, next, rfl, -, hsuccess⟩
  rw [Mark.settles_settled, hsuccess, Bool.and_assoc]
  exact Bool.and_false _

/-- A name is given to one job. -/
theorem entrantsOf_le_one (h : (initial config submissions).run events = some state)
    (id : JobId) : Overview.entrantsOf ((initial config submissions).chronicle events) id ≤ 1 := by
  have hnamed := named_of_run h
  rcases id with ⟨submission, route⟩
  -- on the route from its end: a job is settled once, since it has come in once
  induction route using List.reverseRecOn with
  | nil =>
      rw [hnamed.submitted submission]
      split <;> omega
  | append_singleton route succeeded ih =>
      have hfollowed := hnamed.followed { submission := submission, route := route } succeeded
      have hle := followersOf_add_le h { submission := submission, route := route }
      have hsettled := settledOf_le h { submission := submission, route := route }
      rw [JobId.next] at hfollowed
      rw [hfollowed]
      cases succeeded <;> omega

theorem itemsOf_le_one (h : (initial config submissions).run events = some state)
    (batch position : Nat) :
    Overview.itemsOf ((initial config submissions).chronicle events) batch position ≤ 1 := by
  rw [(named_of_run h).received batch position]
  split <;> omega

/-- Different things that come in have different names. -/
theorem nodup_names (h : (initial config submissions).run events = some state) :
    ((entrants ((initial config submissions).chronicle events)).map fun item =>
      (item.id, item.role)).Nodup := by
  rw [List.nodup_iff_count_le_one]
  rintro ⟨id, role⟩
  rw [List.count_eq_countP, List.countP_map]
  cases role with
  | top =>
      refine le_trans (List.countP_mono_left ?_) (entrantsOf_le_one h id)
      intro item _ htrue
      rw [Function.comp_apply, beq_iff_eq, Prod.mk.injEq] at htrue
      rw [htrue.1, htrue.2]
      exact Bool.and_eq_true_iff.mpr ⟨beq_self_eq_true _, beq_self_eq_true _⟩
  | member batch position =>
      refine le_trans (List.countP_mono_left ?_) (itemsOf_le_one h batch position)
      intro item _ htrue
      rw [Function.comp_apply, beq_iff_eq, Prod.mk.injEq] at htrue
      rw [htrue.2]
      exact Bool.and_eq_true_iff.mpr ⟨beq_self_eq_true _, beq_self_eq_true _⟩
  | entry batch position =>
      refine le_trans (List.countP_mono_left ?_) (itemsOf_le_one h batch position)
      intro item _ htrue
      rw [Function.comp_apply, beq_iff_eq, Prod.mk.injEq] at htrue
      rw [htrue.2]
      exact Bool.and_eq_true_iff.mpr ⟨beq_self_eq_true _, beq_self_eq_true _⟩

theorem countP_name_le_one (h : (initial config submissions).run events = some state)
    (id : JobId) (role : Role) :
    (entrants ((initial config submissions).chronicle events)).countP (fun item =>
      item.ticket.isNamed id role) ≤ 1 := by
  have hcount := List.nodup_iff_count_le_one.mp (nodup_names h) (id, role)
  rw [List.count_eq_countP, List.countP_map] at hcount
  refine le_trans (List.countP_mono_left ?_) hcount
  intro item _ htrue
  rcases Ticket.isNamed_iff.mp htrue with ⟨hrole, hid⟩
  rw [Function.comp_apply, beq_iff_eq, Prod.mk.injEq]
  exact ⟨hid, hrole⟩

/-- There is one result at most for each name. -/
theorem countP_reports_le_one (h : (initial config submissions).run events = some state)
    (id : JobId) (role : Role) :
    state.log.countP (Entry.reports fun id' role' _ => role' == role && id' == id) ≤ 1 := by
  rw [countP_reports_eq_receipts]
  exact le_trans (countP_receipts_le h _) (countP_name_le_one h id role)

/-- What has a result has come in. -/
theorem exists_entrant_of_reported (h : (initial config submissions).run events = some state)
    {id : JobId} {role : Role} {result : JobResult}
    (hreported : .reported id role result ∈ state.log) :
    ∃ item ∈ entrants ((initial config submissions).chronicle events),
      item.id = id ∧ item.role = role := by
  have hreceipt : 0 < (receipts state.log).countP (Ticket.isNamed id role) :=
    List.countP_pos_iff.mpr ⟨ticketOf id role result, List.mem_filterMap.mpr ⟨_, hreported, rfl⟩,
      Ticket.isNamed_iff.mpr ⟨rfl, rfl⟩⟩
  rcases List.countP_pos_iff.mp (Nat.lt_of_lt_of_le hreceipt (countP_receipts_le h _)) with
    ⟨item, hitem, hnamed⟩
  rcases Ticket.isNamed_iff.mp hnamed with ⟨hrole, hid⟩
  exact ⟨item, hitem, hid, hrole⟩

/-- At rest there is one result for whatever has come in. -/
theorem countP_receipts_eq_one (h : (initial config submissions).run events = some state)
    (hrest : state.overview.IsAtRest) {item : Queued}
    (hitem : item ∈ entrants ((initial config submissions).chronicle events)) :
    (receipts state.log).countP (Ticket.isNamed item.id item.role) = 1 := by
  rw [(receipts_perm_of_isAtRest h hrest).countP_eq, List.countP_map]
  apply Nat.le_antisymm
  · exact countP_name_le_one h item.id item.role
  · exact List.countP_pos_iff.mpr ⟨item, hitem, Ticket.isNamed_iff.mpr ⟨rfl, rfl⟩⟩

end State
end Pool
end BulkTransfer
