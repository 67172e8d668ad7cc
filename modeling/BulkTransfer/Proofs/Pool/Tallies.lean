import BulkTransfer.Proofs.Pool.Names

/-!
# Tallies

A batch counts its sub-jobs after their results have been sent, and its failed entries
before.  Up to these, its counters are the numbers of the results in the log.  A
sub-job that is itself a batch is never told to its own batch, so this is about
batches of which no sub-job is one.
-/

namespace BulkTransfer

/-- Whether a status is counted as another one is: a warning is a success. -/
def Status.isLike (status kind : Status) : Bool :=
  status == kind || status.isSuccess && kind.isSuccess

theorem Status.isLike_succeeded (status : Status) :
    status.isLike .succeeded = status.isSuccess := by
  cases status <;> rfl

theorem Status.isLike_failed (status : Status) : status.isLike .failed = (status == .failed) := by
  cases status <;> rfl

theorem Status.isLike_cancelled (status : Status) :
    status.isLike .cancelled = (status == .cancelled) := by
  cases status <;> rfl

namespace Pool

/-- Whether it is the role of an item of a batch. -/
def Role.isOf (batch : Nat) : Role → Bool
  | .member batch' _ | .entry batch' _ => batch == batch'
  | .top => false

/-- Whether it is the role of a failed entry of a batch. -/
def Role.isEntry (batch : Nat) : Role → Bool
  | .entry batch' _ => batch == batch'
  | _ => false

/-- Whether it is the role of an item of a batch before a position. -/
def Role.isBefore (batch position : Nat) : Role → Bool
  | .member batch' position' | .entry batch' position' =>
      batch == batch' && decide (position' < position)
  | .top => false

theorem Role.isOf_iff {batch : Nat} {role : Role} :
    role.isOf batch = true ↔ ∃ position, role.isItem batch position = true := by
  cases role <;> simp [isOf, isItem]

theorem Role.isBefore_iff {batch position : Nat} {role : Role} :
    role.isBefore batch position = true ↔
      ∃ position' < position, role.isItem batch position' = true := by
  cases role <;> simp [isBefore, isItem, and_comm]

theorem Role.isBefore_succ (batch position : Nat) (role : Role) :
    (if role.isBefore batch (position + 1) then 1 else 0) =
      (if role.isBefore batch position then 1 else 0) +
        if role.isItem batch position then 1 else 0 := by
  have hbefore : ∀ batch' position', (if batch == batch' && decide (position' < position + 1)
      then 1 else 0) = (if batch == batch' && decide (position' < position) then 1 else 0) +
        if batch == batch' && position == position' then 1 else 0 := by
    intro batch' position'
    by_cases hbatch : batch = batch'
    · simp only [hbatch, beq_self_eq_true, Bool.true_and, decide_eq_true_eq, beq_iff_eq]
      split <;> split <;> split <;> omega
    · rw [beq_eq_false_iff_ne.mpr hbatch]
      rfl
  cases role with
  | top => rfl
  | member batch' position' => exact hbefore batch' position'
  | entry batch' position' => exact hbefore batch' position'

/-- Where each of the first positions of a batch occurs once, and no other one does, as many
items are before a position as there are positions. -/
theorem Role.countP_isBefore {α : Type} {xs : List α} {role : α → Role} {batch n : Nat}
    (h : ∀ position, xs.countP (fun x => (role x).isItem batch position) =
      if position < n then 1 else 0) (position : Nat) :
    xs.countP (fun x => (role x).isBefore batch position) = min position n := by
  induction position with
  | zero =>
      rw [Nat.zero_min, List.countP_eq_zero]
      intro x _
      cases role x <;> simp [Role.isBefore]
  | succ position ih =>
      rw [countP_eq_add fun x _ => (role x).isBefore_succ batch position, ih, h]
      split <;> omega

/-- Then they are all the items of the batch. -/
theorem Role.countP_isOf {α : Type} {xs : List α} {role : α → Role} {batch n : Nat}
    (h : ∀ position, xs.countP (fun x => (role x).isItem batch position) =
      if position < n then 1 else 0) :
    xs.countP (fun x => (role x).isOf batch) = n := by
  have hbefore := Role.countP_isBefore h n
  rw [Nat.min_self] at hbefore
  rw [← hbefore]
  apply List.countP_congr
  intro x hx
  have hitem : ∀ position, (role x).isItem batch position = true → position < n := by
    intro position htrue
    have hpos : 0 < xs.countP fun x => (role x).isItem batch position :=
      List.countP_pos_iff.mpr ⟨x, hx, htrue⟩
    rw [h position] at hpos
    by_contra hnot
    rw [if_neg hnot] at hpos
    exact absurd hpos (Nat.lt_irrefl 0)
  rw [Role.isOf_iff, Role.isBefore_iff]
  constructor
  · rintro ⟨position, htrue⟩
    exact ⟨position, hitem position htrue, htrue⟩
  · rintro ⟨position, -, htrue⟩
    exact ⟨position, htrue⟩

/-- The counter for a status. -/
def Group.counter (group : Group) : Status → UInt32
  | .succeeded | .warning => group.tally.succeeded
  | .failed => group.tally.failed
  | .cancelled => group.cancelled

theorem Group.counter_count (group : Group) (status kind : Status) :
    (group.count status).counter kind =
      group.counter kind + if status.isLike kind then 1 else 0 := by
  cases status <;> cases kind <;>
    simp [count, counter, Tally.record, Status.isLike, Status.isSuccess]

theorem Group.counter_subJobDone (group : Group) (status kind : Status) :
    (group.subJobDone status).1.counter kind =
      group.counter kind + if status.isLike kind then 1 else 0 := by
  rw [← counter_count]
  cases kind <;> rfl

theorem Group.counter_entryFailed (group : Group) (kind : Status) :
    group.entryFailed.counter kind =
      group.counter kind + if Status.failed.isLike kind then 1 else 0 := by
  rw [← counter_count]
  rfl

theorem Group.counter_listingDone (group : Group) (fault : Option ExpansionError)
    (kind : Status) : (group.listingDone fault).1.counter kind = group.counter kind := by
  cases kind <;> rfl

/-- Whether a result is that of an item of a batch and is counted with a status. -/
def ofBatch (batch : Nat) (kind : Status) (_ : JobId) (role : Role) (status : Status) : Bool :=
  role.isOf batch && status.isLike kind

/-- Whether an action sends a result of a kind for a job. -/
def Action.reports (f : JobId → Role → Status → Bool) : Action → Bool
  | .report item result => f item.id item.role result.status
  | _ => false

/-- Whether an action counts a sub-job of a batch with a status. -/
def Action.counts (batch : Nat) (kind : Status) : Action → Bool
  | .tally batch' status => batch == batch' && status.isLike kind
  | _ => false

namespace Overview

variable {trusted : Prop} {o next : Overview} {mark : Mark} {marks : List Mark}

/-!
## Counters behind a change
-/

def counterOf (accounts : List Account) (batch : Nat) (kind : Status) : UInt32 :=
  accounts[batch]?.elim 0 fun account => account.group.counter kind

theorem counterOf_eq {accounts : List Account} {batch : Nat} {account : Account}
    (h : accounts[batch]? = some account) (kind : Status) :
    counterOf accounts batch kind = account.group.counter kind := by
  rw [counterOf, h]
  rfl

theorem counterOf_set {accounts : List Account} {i : Nat} {account account' : Account}
    {kind : Status} {counted : Bool} (h : accounts[i]? = some account)
    (hcounter : account'.group.counter kind =
      account.group.counter kind + if counted then 1 else 0) (batch : Nat) :
    counterOf (accounts.set i account') batch kind =
      counterOf accounts batch kind + if batch == i && counted then 1 else 0 := by
  rw [counterOf, counterOf, elim_set h]
  by_cases hbatch : batch = i
  · rw [if_pos hbatch, hcounter, hbatch, h, beq_self_eq_true, Bool.true_and]
    rfl
  · rw [if_neg hbatch, beq_eq_false_iff_ne.mpr hbatch, Bool.false_and,
      if_neg Bool.false_ne_true, UInt32.add_zero]

theorem counterOf_set_of_eq {accounts : List Account} {i : Nat} {account account' : Account}
    {kind : Status} (h : accounts[i]? = some account)
    (hcounter : account'.group.counter kind = account.group.counter kind) (batch : Nat) :
    counterOf (accounts.set i account') batch kind = counterOf accounts batch kind :=
  elim_set_of_eq h 0 (g := fun account => account.group.counter kind) hcounter batch

theorem counterOf_append (accounts : List Account) (item : Queued) (batch : Nat)
    (kind : Status) :
    counterOf (accounts ++ [{ parent := item }]) batch kind = counterOf accounts batch kind :=
  elim_concat_of_eq accounts (g := fun account => account.group.counter kind)
    (by cases kind <;> rfl) batch

theorem ofNat_add_ite (n : Nat) (counted : Bool) :
    UInt32.ofNat n + (if counted then 1 else 0) = UInt32.ofNat (n + if counted then 1 else 0) := by
  cases counted with
  | false => simp
  | true => simp [UInt32.ofNat_add]

/-!
## Counters tell results
-/

/-- The results of a kind of a batch, and those of failed entries that are about to be sent,
are those that are counted and those of sub-jobs that are next to be. -/
def Tallied (o : Overview) (batch : Nat) (kind : Status) : Prop :=
  ∃ n, counterOf o.accounts batch kind = UInt32.ofNat n ∧
    o.log.countP (Entry.reports (ofBatch batch kind)) +
        noticed o.accounts (Action.reports (ofBatch batch kind)) =
      n + headed o.agendas (Action.counts batch kind)

theorem isMember_eq_false {role : Role} (h : ∀ batch position, role ≠ .member batch position)
    (batch : Nat) : role.isMember batch = false := by
  cases role with
  | member batch' position => exact absurd rfl (h batch' position)
  | _ => rfl

theorem isOf_eq_false_of_isJob {item : Queued} {batch : Nat} (hjob : item.isJob = true)
    (hmember : item.isMemberOf batch = false) : item.role.isOf batch = false := by
  rw [Queued.isJob] at hjob
  rw [Queued.isMemberOf] at hmember
  cases hrole : item.role with
  | top => rfl
  | member batch' position =>
      rw [hrole] at hmember
      exact hmember
  | entry batch' position =>
      rw [hrole] at hjob
      cases hjob

theorem tallied_perform {batch : Nat} {kind : Status} {action : Action}
    {actions further : List Action} {agendas : Multiset (List Action)} (hbalanced : Balanced o)
    (hpresent : Present marks o)
    (hmembers : ∀ account ∈ o.accounts, account.parent.isMemberOf batch = false)
    (h : Tallied o batch kind) (hagendas : o.agendas = (action :: actions) ::ₘ agendas)
    (heffect : Effect o action next further mark) :
    Tallied { next with agendas := agendaOf (further ++ actions) + agendas } batch kind := by
  rcases h with ⟨n, hcounter, hlog⟩
  have hmem := mem_agendas hagendas
  have hagenda := hbalanced.agendas _ hmem
  rw [hagendas, headed_cons] at hlog
  cases heffect with
  | report item result =>
      refine ⟨n, hcounter, ?_⟩
      dsimp only
      rw [List.countP_append, List.countP_singleton, headed_agendaOf_add]
      cases hagenda with
      | reportSettle item result m hrole =>
          have hjob := (hpresent.holds.settling _ hmem item result.status
            (List.mem_cons_of_mem _ List.mem_cons_self)).2
          have hreports : Entry.reports (ofBatch batch kind)
              (.reported item.id item.role result) = false := by
            rw [Entry.reports, ofBatch,
              isOf_eq_false_of_isJob hjob (isMember_eq_false hrole batch), Bool.false_and]
          rw [hreports]
          exact hlog
      | reportTally item result batch' position m hrole =>
          -- the result is in the log now, and the agenda begins with its tally
          have hreports : Entry.reports (ofBatch batch kind)
              (.reported item.id item.role result) =
                Action.counts batch kind (.tally batch' result.status) := by
            rw [Entry.reports, ofBatch, hrole]
            rfl
          change _ = n + (headed agendas (Action.counts batch kind) + 0) at hlog
          change _ + _ + _ = n + (headed agendas (Action.counts batch kind) +
            if Action.counts batch kind (.tally batch' result.status) then 1 else 0)
          rw [hreports]
          omega
  | settle item status next hnext =>
      cases hagenda with
      | settle item status m =>
          refine ⟨n, hcounter, ?_⟩
          dsimp only
          rw [headed_agendaOf_add, List.nil_append, head?_any_releases rfl]
          exact hlog
  | tally batch' status account haccount =>
      cases hagenda with
      | tally batch' status m =>
          have hhead := head?_any_append
            (head?_any_close (q := Action.counts batch kind) (fun _ => rfl)
              (account.group.subJobDone status).2 batch')
            (head?_any_releases rfl (m + 1))
          refine ⟨n + if batch == batch' && status.isLike kind then 1 else 0, ?_, ?_⟩
          · dsimp only
            rw [counterOf_set haccount, hcounter, ofNat_add_ite]
            exact account.group.counter_subJobDone status kind
          · dsimp only
            rw [noticed_set haccount, headed_agendaOf_add, hhead, hlog]
            · change _ + (_ + if batch == batch' && status.isLike kind then 1 else 0) =
                _ + (_ + 0)
              omega
            · rfl
  | close batch' account haccount =>
      have hparent := List.mem_of_getElem? haccount
      have hreports : Entry.reports (ofBatch batch kind) (.reported account.parent.id
          account.parent.role (account.result o.cancelled)) = false := by
        rw [Entry.reports, ofBatch, isOf_eq_false_of_isJob
          (hpresent.holds.parents account hparent).2 (hmembers account hparent),
          Bool.false_and]
      refine ⟨n, hcounter, ?_⟩
      dsimp only
      rw [List.countP_append, List.countP_singleton, hreports, headed_agendaOf_add]
      exact hlog
  | release =>
      cases hagenda with
      | releases m =>
          refine ⟨n, hcounter, ?_⟩
          dsimp only
          rw [headed_agendaOf_add, List.nil_append, head?_any_releases rfl]
          exact hlog
  | stray action batch' haccount haction =>
      exact (hbalanced.not_stray hagendas haccount haction).elim

theorem tallied_move {batch : Nat} {kind : Status} (hbalanced : Balanced o)
    (hpresent : Present marks o)
    (hmembers : ∀ account ∈ o.accounts, account.parent.isMemberOf batch = false)
    (h : Tallied o batch kind) (hmove : Move trusted o mark next) :
    Tallied next batch kind := by
  rcases h with ⟨n, hcounter, hlog⟩
  cases hmove with
  | note entries rejections submissions hentries hrejections hsubmissions =>
      refine ⟨n, hcounter, ?_⟩
      dsimp only
      rw [List.countP_append, countP_reports_eq_zero _ hentries]
      exact hlog
  | finish item held result cancelled hheld hresult hcancelled htrusted =>
      refine ⟨n, hcounter, ?_⟩
      dsimp only
      rw [headed_cons, head?_any_finishing fun _ _ => rfl]
      exact hlog
  | launch item held hheld =>
      refine ⟨n, ?_, ?_⟩
      · dsimp only
        rw [counterOf_append, hcounter]
      · dsimp only
        rw [noticed_append]
        exact hlog
  | list batch' account listing channel entries haccount hlisting hentries =>
      have hreports := countP_reports_eq_zero (ofBatch batch kind)
        (ticket?_eq_none_of_expanded hentries)
      refine ⟨n, ?_, ?_⟩
      · dsimp only
        rw [counterOf_set_of_eq haccount, hcounter]
        rfl
      · dsimp only
        rw [List.countP_append, hreports, noticed_set haccount]
        · exact hlog
        · rfl
  | receive batch' account task channel item haccount hjoined hchannel hitem =>
      refine ⟨n, ?_, ?_⟩
      · dsimp only
        rw [counterOf_set_of_eq haccount, hcounter]
        cases kind <;> rfl
      · dsimp only
        rw [noticed_set haccount]
        · exact hlog
        · rfl
  | refuse batch' account error channel entry haccount hjoined hnotice hchannel hentry =>
      have hreports : Action.reports (ofBatch batch kind)
          (.report entry (entryResult account.parent error)) =
            (batch == batch' && Status.failed.isLike kind) := by
        rw [hentry]
        rfl
      refine ⟨n + if batch == batch' && Status.failed.isLike kind then 1 else 0, ?_, ?_⟩
      · dsimp only
        rw [counterOf_set haccount, hcounter, ofNat_add_ite]
        exact account.group.counter_entryFailed kind
      · dsimp only
        rw [noticed_refuse haccount hnotice rfl, hreports]
        omega
  | join batch' account fault haccount hjoined hnotice hchannel hlisting =>
      refine ⟨n, ?_, ?_⟩
      · dsimp only
        rw [counterOf_set_of_eq haccount, hcounter]
        exact account.group.counter_listingDone fault kind
      · dsimp only
        rw [noticed_set haccount, headed_agendaOf_add, head?_any_close fun _ => rfl]
        · exact hlog
        · rfl
  | tell batch' account item result haccount hnotice =>
      have hnoticed : noticed (o.accounts.set batch' { account with notice := [] })
          (Action.reports (ofBatch batch kind)) +
            (if Action.reports (ofBatch batch kind) (.report item result) then 1 else 0) =
          noticed o.accounts (Action.reports (ofBatch batch kind)) :=
        noticed_tell haccount hnotice rfl _
      refine ⟨n, ?_, ?_⟩
      · dsimp only
        rw [counterOf_set_of_eq haccount, hcounter]
        rfl
      · dsimp only
        rw [← hlog, ← hnoticed, List.countP_append, List.countP_singleton]
        change _ + (if ofBatch batch kind item.id item.role result.status then 1 else 0) + _ =
          _ + (_ + if ofBatch batch kind item.id item.role result.status then 1 else 0)
        omega
  | perform action actions agendas next further mark hagendas heffect =>
      exact tallied_perform hbalanced hpresent hmembers ⟨n, hcounter, hlog⟩ hagendas heffect
  | _ => exact ⟨n, hcounter, hlog⟩

/-!
## Failed entries
-/

/-- A result is sent before its job is settled or told to its batch. -/
theorem IsAgenda.report_inv {agenda : List Action} {item : Queued} {result : JobResult}
    (h : IsAgenda agenda) (hmem : .report item result ∈ agenda) :
    (.settle item result.status ∈ agenda ∧ ∀ batch position, item.role ≠ .member batch position) ∨
      ∃ batch position, item.role = .member batch position ∧
        .tally batch result.status ∈ agenda := by
  cases h with
  | reportSettle item' result' n hrole =>
      simp only [List.mem_cons, Action.report.injEq, reduceCtorEq, List.mem_replicate, and_false,
        or_self, or_false] at hmem
      rcases hmem with ⟨rfl, rfl⟩
      exact Or.inl ⟨List.mem_cons_of_mem _ List.mem_cons_self, hrole⟩
  | reportTally item' result' batch position n hrole =>
      simp only [List.mem_cons, Action.report.injEq, reduceCtorEq, List.mem_replicate, and_false,
        or_self, or_false] at hmem
      rcases hmem with ⟨rfl, rfl⟩
      exact Or.inr ⟨batch, position, hrole, List.mem_cons_of_mem _ List.mem_cons_self⟩
  | _ => simp at hmem

/-- Whether all results of entries say that they failed. -/
def EntriesFail (o : Overview) : Prop :=
  ∀ id batch position result, .reported id (.entry batch position) result ∈ o.log →
    result.status = .failed

theorem not_mem_of_ticket?_eq_none {entries : List Entry} {id : JobId} {role : Role}
    {result : JobResult} (h : ∀ entry ∈ entries, entry.ticket? = none) :
    .reported id role result ∉ entries :=
  fun hentry => nomatch h _ hentry

theorem role_ne_entry_of_isJob {item : Queued} (hjob : item.isJob = true) (batch position : Nat) :
    item.role ≠ .entry batch position := by
  intro hrole
  rw [Queued.isJob, hrole] at hjob
  cases hjob

theorem entriesFail_move (hbalanced : Balanced o) (hpresent : Present marks o)
    (h : EntriesFail o) (hmove : Move trusted o mark next) : EntriesFail next := by
  intro id batch position result hreported
  cases hmove with
  | note entries rejections submissions hentries hrejections hsubmissions =>
      rcases List.mem_append.mp hreported with hold | hnew
      · exact h id batch position result hold
      · exact absurd hnew (not_mem_of_ticket?_eq_none hentries)
  | list batch' account listing channel entries haccount hlisting hentries =>
      rcases List.mem_append.mp hreported with hold | hnew
      · exact h id batch position result hold
      · rcases hentries _ hnew with ⟨item, hitem⟩
        cases hitem
  | tell batch' account item result' haccount hnotice =>
      rcases List.mem_append.mp hreported with hold | hnew
      · exact h id batch position result hold
      · rcases hbalanced.telling batch' account haccount with hnone | ⟨_, _, _, hone, -, hfailed⟩
        · rw [hnone] at hnotice
          cases hnotice
        · rw [hnotice, List.singleton_inj] at hone
          cases hone
          rw [(Entry.reported.inj (List.mem_singleton.mp hnew)).2.2]
          exact hfailed
  | perform action actions agendas next further mark hagendas heffect =>
      have hmem := mem_agendas hagendas
      cases heffect with
      | report item result' =>
          rcases List.mem_append.mp hreported with hold | hnew
          · exact h id batch position result hold
          · rcases Entry.reported.inj (List.mem_singleton.mp hnew) with ⟨-, hrole, -⟩
            rcases (hbalanced.agendas _ hmem).report_inv List.mem_cons_self with
              ⟨hsettle, -⟩ | ⟨batch', position', hmember, -⟩
            · exact absurd hrole.symm (role_ne_entry_of_isJob
                (hpresent.holds.settling _ hmem item _ hsettle).2 batch position)
            · rw [hmember] at hrole
              cases hrole
      | close batch' account haccount =>
          rcases List.mem_append.mp hreported with hold | hnew
          · exact h id batch position result hold
          · rcases Entry.reported.inj (List.mem_singleton.mp hnew) with ⟨-, hrole, -⟩
            exact absurd hrole.symm (role_ne_entry_of_isJob
              (hpresent.holds.parents account (List.mem_of_getElem? haccount)).2 batch position)
      | _ => exact h id batch position result hreported
  | _ => exact h id batch position result hreported

end Overview

namespace State

variable {config : PoolConfig} {submissions : List Submission} {state : State}
  {events : List Event}

theorem tallied_of_run {batch : Nat} (h : (initial config submissions).run events = some state)
    (hparents : ∀ account ∈ state.overview.accounts, account.parent.isMemberOf batch = false)
    (kind : Status) : state.overview.Tallied batch kind := by
  refine run_regular_moves (P := fun _ o =>
    (∀ account ∈ o.accounts, account.parent.isMemberOf batch = false) → o.Tallied batch kind) h
    (False.elim : False → _) ?_ ?_ hparents
  · rw [overview_initial]
    exact fun _ => ⟨0, rfl, rfl⟩
  · intro marks o mark next hbalanced hregular htallied hmove hnext
    have hbefore : ∀ account ∈ o.accounts, account.parent.isMemberOf batch = false := by
      intro account haccount
      have hparent := (Overview.parents_move hmove).subset (List.mem_map_of_mem haccount)
      rcases List.mem_map.mp hparent with ⟨account', haccount', heq⟩
      rw [← heq]
      exact hnext account' haccount'
    exact Overview.tallied_move hbalanced hregular.present hbefore (htallied hbefore) hmove

theorem entriesFail_of_run (h : (initial config submissions).run events = some state) :
    state.overview.EntriesFail := by
  refine run_regular_moves (P := fun _ o => o.EntriesFail) h (False.elim : False → _) ?_ ?_
  · rw [overview_initial]
    exact fun _ _ _ _ hmem => absurd hmem List.not_mem_nil
  · intro marks o mark next hbalanced hregular hentries hmove
    exact Overview.entriesFail_move hbalanced hregular.present hentries hmove

end State
end Pool
end BulkTransfer
