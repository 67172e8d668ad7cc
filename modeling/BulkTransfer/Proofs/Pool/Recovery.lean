import BulkTransfer.Proofs.Pool.Continuations
import BulkTransfer.Session

/-!
# Recovery

A failure counts for good unless what follows it succeeds.  The count is kept while
jobs are settled, one at a time; at rest it is the number of submitted jobs for which
the results say so.
-/

namespace BulkTransfer

/-- Whether a continuation has no continuations. -/
def Job.IsFlat (job : Job) : Prop :=
  ∀ succeeded next, job.continuation succeeded = some next →
    ∀ succeeded', next.continuation succeeded' = none

namespace Parse

theorem isFlat_of_continuation {tree : FileTree} {table : CommandTable} {s : Option (List Char)}
    {job : Job} (h : continuation tree table s = .ok (some job)) (succeeded : Bool) :
    job.continuation succeeded = none := by
  unfold continuation at h
  split at h
  · cases h
  · split at h
    · cases h
    · cases h
    · cases h
      cases succeeded <;> rfl

theorem isFlat_of_chain {tree : FileTree} {table : CommandTable} {chain' : Chain} {job : Job}
    (h : chain tree table chain' = .ok (some job)) : job.IsFlat := by
  unfold chain at h
  split at h
  · cases h
  · cases h
  · split at h
    · cases h
    · rename_i onSuccess hsuccess
      split at h
      · cases h
      · rename_i onFailure hfailure
        cases h
        intro succeeded next hnext
        cases succeeded with
        | true =>
            change onSuccess = some next at hnext
            rw [hnext] at hsuccess
            exact isFlat_of_continuation hsuccess
        | false =>
            change onFailure = some next at hnext
            rw [hnext] at hfailure
            exact isFlat_of_continuation hfailure

/-- What a line is read as is flat: a continuation is a single command. -/
theorem isFlat_of_line {tree : FileTree} {table : CommandTable} {text : String} {job : Job}
    (h : line tree table text = .ok (some job)) : job.IsFlat := by
  simp only [line] at h
  split at h
  · cases h
  · exact isFlat_of_chain h

end Parse

namespace Pool

/-- Whether it is a line that could not be read. -/
def Entry.isRejection (entry : Entry) : Bool :=
  entry matches .read _ (.error _)

/-- Whether it is a line that is a job. -/
def Entry.isJobLine (entry : Entry) : Bool :=
  entry matches .read _ (.ok (some _))

namespace Overview

variable {trusted : Prop} {o next : Overview} {mark : Mark} {marks : List Mark}

/-!
## The counts that are kept
-/

theorem unhandled_move (h : o.unhandled = settled marks Queued.isLoss)
    (hmove : Move trusted o mark next) :
    next.unhandled = settled (marks ++ [mark]) Queued.isLoss := by
  rw [settled_concat, ← h]
  cases hmove with
  | perform action actions agendas next further mark hagendas heffect =>
      cases heffect <;> rfl
  | _ => rfl

theorem countP_isRejection_reported (log : List Entry) (id : JobId) (role : Role)
    (result : JobResult) :
    (log ++ [Entry.reported id role result]).countP Entry.isRejection =
      log.countP Entry.isRejection := by
  rw [List.countP_append]
  rfl

theorem rejections_move (h : o.rejections = UInt64.ofNat (o.log.countP Entry.isRejection))
    (hmove : Move trusted o mark next) :
    next.rejections = UInt64.ofNat (next.log.countP Entry.isRejection) := by
  cases hmove with
  | note entries rejections submissions hentries hrejections hsubmissions =>
      dsimp only
      rw [hrejections, h, List.countP_append, UInt64.ofNat_add]
      rfl
  | list batch account listing channel entries haccount hlisting hentries =>
      have hnone : entries.countP Entry.isRejection = 0 := by
        rw [List.countP_eq_zero]
        intro entry hentry
        rcases hentries entry hentry with ⟨item, rfl⟩
        exact Bool.false_ne_true
      dsimp only
      rw [List.countP_append, hnone]
      exact h
  | tell batch account item result haccount hnotice =>
      dsimp only
      rw [countP_isRejection_reported]
      exact h
  | perform action actions agendas next further mark hagendas heffect =>
      cases heffect with
      | report item result =>
          dsimp only
          rw [countP_isRejection_reported]
          exact h
      | close batch account haccount =>
          dsimp only
          rw [countP_isRejection_reported]
          exact h
      | _ => exact h
  | _ => exact h

/-!
## Who is settled

A sub-job is told to its batch.  It is only settled if it is a batch itself, and then
its own batch waits for it for good.
-/

/-- Whether a job is top-level, or is the parent of a batch. -/
def TopOrParent (o : Overview) (item : Queued) : Prop :=
  item.role = .top ∨ item ∈ o.accounts.map Account.parent

/-- Whether only such jobs are settled. -/
structure SettlesParents (marks : List Mark) (o : Overview) : Prop where
  settling : ∀ agenda ∈ o.agendas, ∀ item status, .settle item status ∈ agenda →
    TopOrParent o item
  settled : ∀ item status following, .settled item status following ∈ marks → TopOrParent o item

theorem topOrParent_move {item : Queued} (h : TopOrParent o item)
    (hmove : Move trusted o mark next) : TopOrParent next item := by
  rcases h with htop | hparent
  · exact Or.inl htop
  · exact Or.inr ((parents_move hmove).subset hparent)

/-- A job that is settled behind its own result is top-level. -/
theorem role_eq_top_of_mem_finishing {item item' : Queued} {result : JobResult} {status : Status}
    (hjob : item.isJob = true) (h : .settle item' status ∈ finishing item result) :
    item.role = .top := by
  unfold finishing at h
  cases hrole : item.role with
  | top => rfl
  | member batch position =>
      rw [hrole] at h
      simp at h
  | entry batch position =>
      rw [Queued.isJob, hrole] at hjob
      cases hjob

theorem settling_move (hpresent : Present marks o)
    (h : ∀ agenda ∈ o.agendas, ∀ item status, .settle item status ∈ agenda → TopOrParent o item)
    (hmove : Move trusted o mark next) :
    ∀ agenda ∈ next.agendas, ∀ item status, .settle item status ∈ agenda →
      TopOrParent next item := by
  intro agenda hagenda item status haction
  have hbefore : ∀ agenda ∈ o.agendas, .settle item status ∈ agenda → TopOrParent next item :=
    fun agenda hagenda haction => topOrParent_move (h agenda hagenda item status haction) hmove
  cases hmove with
  | finish item' held result cancelled hheld hresult hcancelled htrusted =>
      rcases Multiset.mem_cons.mp hagenda with rfl | hagenda
      · have hheld' := hpresent.holds.held item' (by
          rw [hheld]
          exact Multiset.mem_cons_self _ _)
        rw [eq_of_mem_finishing haction]
        exact Or.inl (role_eq_top_of_mem_finishing hheld'.2 haction)
      · exact hbefore agenda hagenda haction
  | join batch account fault haccount hjoined hnotice hchannel hlisting =>
      rcases Multiset.mem_add.mp hagenda with hnew | hmem
      · rw [(mem_agendaOf.mp hnew).1] at haction
        split at haction <;> simp at haction
      · exact hbefore agenda hmem haction
  | perform action actions agendas next further mark hagendas heffect =>
      rw [hagendas] at hbefore
      rcases Multiset.mem_add.mp hagenda with hnew | hmem
      · rw [(mem_agendaOf.mp hnew).1] at haction
        rcases List.mem_append.mp haction with hfurther | hleft
        · cases heffect with
          | tally batch status account haccount => split at hfurther <;> simp at hfurther
          | close batch account haccount =>
              simp only [List.mem_cons, Action.settle.injEq, reduceCtorEq, List.not_mem_nil,
                or_self, or_false] at hfurther
              rw [hfurther.1]
              exact Or.inr (List.mem_map_of_mem (List.mem_of_getElem? haccount))
          | _ => cases hfurther
        · exact hbefore _ (Multiset.mem_cons_self _ _) (List.mem_cons_of_mem _ hleft)
      · exact hbefore agenda (Multiset.mem_cons_of_mem hmem) haction
  | _ => exact hbefore agenda hagenda haction

theorem settlesParents_move (hpresent : Present marks o) (h : SettlesParents marks o)
    (hmove : Move trusted o mark next) : SettlesParents (marks ++ [mark]) next where
  settling := settling_move hpresent h.settling hmove
  settled := by
    intro item status following hmark
    rcases List.mem_append.mp hmark with hmark | hmark
    · exact topOrParent_move (h.settled item status following hmark) hmove
    · rw [List.mem_singleton] at hmark
      subst hmark
      rcases hmove.settled_inv with ⟨⟨actions, agendas, hagendas⟩, -⟩
      exact topOrParent_move
        (h.settling _ (mem_agendas hagendas) item status List.mem_cons_self) hmove

/-!
## Jobs of a submission
-/

/-- What a job that has come in is to the submission that it belongs to. -/
structure Belongs (o : Overview) (item : Queued) : Prop where
  submission : item.id.submission < o.submitted
  /-- a submitted job has continuations at most, and a continuation has none -/
  lineage : item.role = .top →
    item.id.route = [] ∧ item.recovers = false ∧ item.job.IsFlat ∨
      ∃ succeeded, item.id.route = [succeeded] ∧ item.recovers = !succeeded ∧
        ∀ succeeded', item.job.continuation succeeded' = none

/-- What is submitted has flat continuations. -/
structure Lineage (marks : List Mark) (o : Overview) : Prop where
  submissions : ∀ job, .job job ∈ o.submissions → job.IsFlat
  entrants : ∀ item ∈ entrants marks, Belongs o item

theorem submitted_le_move (hmove : Move trusted o mark next) : o.submitted ≤ next.submitted := by
  cases hmove with
  | offer job item submissions hitem hsubmissions => exact Nat.le_succ _
  | perform action actions agendas next further mark hagendas heffect =>
      cases heffect <;> exact Nat.le_refl _
  | _ => exact Nat.le_refl _

theorem submissions_move (h : ∀ job, .job job ∈ o.submissions → job.IsFlat)
    (hreadings : ∀ line job, .read line (.ok (some job)) ∈ next.log → job.IsFlat)
    (hmove : Move trusted o mark next) : ∀ job, .job job ∈ next.submissions → job.IsFlat := by
  cases hmove with
  | note entries rejections submissions hentries hrejections hsubmissions =>
      intro job hjob
      rcases hsubmissions job hjob with hold | ⟨line, hread⟩
      · exact h job hold
      · exact hreadings line job (List.mem_append_right _ hread)
  | offer job item submissions hitem hsubmissions =>
      intro job' hjob'
      refine h job' ?_
      rw [hsubmissions]
      exact List.mem_cons_of_mem _ hjob'
  | perform action actions agendas next further mark hagendas heffect =>
      cases heffect <;> exact h
  | _ => exact h

/-- A continuation has no continuations, since only a submitted job is followed. -/
theorem belongs_successor {item next' : Queued} {status : Status} (hbelongs : Belongs o item)
    (hjob : item.isJob = true) (hchildless : Childless item)
    (hnext : item.successor status o.cancelled = some next') : Belongs o next' := by
  rcases Queued.successor_eq_some hnext with ⟨job, -, hcontinuation, rfl⟩
  have hrole : item.role = .top := by
    by_contra hrole
    rw [hchildless hjob hrole] at hcontinuation
    cases hcontinuation
  constructor
  case submission => exact hbelongs.submission
  case lineage =>
    intro _
    rcases hbelongs.lineage hrole with ⟨hroute, -, hflat⟩ | ⟨succeeded, -, -, hnone⟩
    · refine Or.inr ⟨status.isSuccess, ?_, rfl, hflat _ _ hcontinuation⟩
      rw [JobId.next, hroute]
      rfl
    · rw [hnone] at hcontinuation
      cases hcontinuation

theorem Belongs.mono {item : Queued} (h : Belongs o item)
    (hsubmitted : o.submitted ≤ next.submitted) : Belongs next item where
  submission := Nat.lt_of_lt_of_le h.submission hsubmitted
  lineage := h.lineage

theorem lineage_move (hpresent : Present marks o)
    (hchildless : ∀ item ∈ entrants marks, Childless item) (h : Lineage marks o)
    (hreadings : ∀ line job, .read line (.ok (some job)) ∈ next.log → job.IsFlat)
    (hmove : Move trusted o mark next) : Lineage (marks ++ [mark]) next where
  submissions := submissions_move h.submissions hreadings hmove
  entrants := by
    intro found hfound
    have hsubmitted := submitted_le_move hmove
    rw [entrants_append, entrants_singleton] at hfound
    rcases List.mem_append.mp hfound with hmem | hnew
    · exact (h.entrants found hmem).mono hsubmitted
    · cases hmove with
      | offer job item submissions hitem hsubmissions =>
          rw [List.mem_singleton.mp hnew, hitem]
          constructor
          case submission => exact Nat.lt_succ_self _
          case lineage =>
            refine fun _ => Or.inl ⟨rfl, rfl, h.submissions job ?_⟩
            rw [hsubmissions]
            exact List.mem_cons_self
      | receive batch account task channel item haccount hjoined hchannel hitem =>
          have hparent := h.entrants _ (hpresent.holds.parents account
            (List.mem_of_getElem? haccount)).1
          rw [List.mem_singleton.mp hnew, hitem]
          exact ⟨hparent.submission, fun hrole => nomatch hrole⟩
      | refuse batch account error channel entry haccount hjoined hnotice hchannel hentry =>
          have hparent := h.entrants _ (hpresent.holds.parents account
            (List.mem_of_getElem? haccount)).1
          rw [List.mem_singleton.mp hnew, hentry]
          exact ⟨hparent.submission, fun hrole => nomatch hrole⟩
      | perform action actions agendas next further mark hagendas heffect =>
          cases heffect with
          | settle item status following hfollowing =>
              have hitem := hpresent.holds.settling _ (mem_agendas hagendas) item status
                List.mem_cons_self
              rw [Mark.entrants, Option.mem_toList, hfollowing] at hnew
              exact (belongs_successor (h.entrants item hitem.1) hitem.2
                (hchildless item hitem.1) hnew).mono hsubmitted
          | _ => cases hnew
      | _ => cases hnew

end Overview

namespace State

variable {config : PoolConfig} {submissions : List Submission} {state : State}
  {events : List Event}

/-!
## The counts of a run
-/

theorem unhandled_of_run (h : (initial config submissions).run events = some state) :
    state.unhandled = settled ((initial config submissions).chronicle events) Queued.isLoss := by
  refine run_moves (P := fun marks o => o.unhandled = settled marks Queued.isLoss) h
    (False.elim : False → _) rfl ?_
  intro marks o mark next _ hunhandled hmove
  exact Overview.unhandled_move hunhandled hmove

theorem rejections_of_run (h : (initial config submissions).run events = some state) :
    state.stats.parseFailures = UInt64.ofNat (state.log.countP Entry.isRejection) := by
  refine run_moves (P := fun _ o => o.rejections =
    UInt64.ofNat (o.log.countP Entry.isRejection)) h (False.elim : False → _) rfl ?_
  intro marks o mark next _ hrejections hmove
  exact Overview.rejections_move hrejections hmove

theorem settlesParents_of_run (h : (initial config submissions).run events = some state) :
    state.overview.SettlesParents ((initial config submissions).chronicle events) := by
  refine run_regular_moves (P := fun marks o => o.SettlesParents marks) h
    (False.elim : False → _) ?_ ?_
  · rw [overview_initial]
    constructor <;> simp
  · intro marks o mark next _ hregular hsettles hmove
    exact Overview.settlesParents_move hregular.present hsettles hmove

theorem lineage_of_run (h : (initial config submissions).run events = some state)
    (hsubmissions : ∀ job, .job job ∈ submissions → job.IsFlat)
    (hreadings : ∀ line job, .read line (.ok (some job)) ∈ state.log → job.IsFlat) :
    state.overview.Lineage ((initial config submissions).chronicle events) := by
  refine run_regular_moves (P := fun marks o =>
    (∀ line job, .read line (.ok (some job)) ∈ o.log → job.IsFlat) → o.Lineage marks) h
    (False.elim : False → _) ?_ ?_ hreadings
  · rw [overview_initial]
    exact fun _ => ⟨hsubmissions, fun item hitem => absurd hitem List.not_mem_nil⟩
  · intro marks o mark next _ hregular hlineage hmove hreadings
    refine Overview.lineage_move hregular.present hregular.childless (hlineage ?_) hreadings hmove
    exact fun line job hread =>
      hreadings line job ((Overview.log_prefix_move hmove).subset hread)

/-!
## What has become of a name

At rest a name has been given to nothing, or to one job, which has been settled once
with the status of its one result.
-/

/-- Whether a top-level job has a result with a status of a kind. -/
def ended (state : State) (id : JobId) (p : Status → Bool) : Bool :=
  state.log.any (Entry.reports fun id' role status => role == .top && id' == id && p status)

/-- How many jobs of a name and a kind have been settled. -/
def settledAs (marks : List Mark) (id : JobId) (f : Queued → Status → Option Queued → Bool) : Nat :=
  settled marks fun item status following => item.id == id && f item status following

/-- At rest only top-level jobs have been settled. -/
theorem role_eq_top_of_isAtRest (h : (initial config submissions).run events = some state)
    (hrest : state.overview.IsAtRest) {item : Queued} {status : Status} {following : Option Queued}
    (hmark : .settled item status following ∈ (initial config submissions).chronicle events) :
    item.role = .top := by
  rcases (settlesParents_of_run h).settled item status following hmark with htop | hparent
  · exact htop
  · rcases List.mem_map.mp hparent with ⟨account, haccount, hitem⟩
    have hjob := ((present_of_run h).settled item status following hmark).1.2
    cases hrole : item.role with
    | top => rfl
    | entry batch position =>
        rw [Queued.isJob, hrole] at hjob
        cases hjob
    | member batch position =>
        have hpending := (balanced_of_run h).pending batch
        have hpos : 0 < state.overview.accounts.countP (·.parent.isMemberOf batch) := by
          refine List.countP_pos_iff.mpr ⟨account, haccount, ?_⟩
          rw [hitem, Queued.isMemberOf, hrole]
          exact beq_self_eq_true batch
        rw [hrest.pendingOf_eq_zero, Overview.awaited] at hpending
        omega

theorem settledOf_eq_entrantsOf (h : (initial config submissions).run events = some state)
    (hrest : state.overview.IsAtRest) (id : JobId) :
    settledOf ((initial config submissions).chronicle events) id =
        Overview.entrantsOf ((initial config submissions).chronicle events) id ∧
      state.log.countP (Entry.reports fun id' role _ => role == .top && id' == id) =
        Overview.entrantsOf ((initial config submissions).chronicle events) id := by
  have htold := told_of_run h (f := fun id' role _ => role == .top && id' == id) (by
    intro id' role _ htrue
    exact beq_iff_eq.mp (Bool.and_eq_true_iff.mp htrue).1)
  have hreceipts := (receipts_perm_of_isAtRest h hrest).countP_eq fun ticket =>
    ticket.role == .top && ticket.id == id
  rw [List.countP_map] at hreceipts
  rw [Overview.Told, hrest.agendas, Overview.headed_zero, Nat.add_zero,
    show state.overview.log = state.log from rfl] at htold
  rw [countP_reports_eq_receipts] at htold ⊢
  constructor
  · exact htold.symm.trans hreceipts
  · exact hreceipts

theorem settledAs_eq (h : (initial config submissions).run events = some state)
    (hrest : state.overview.IsAtRest) (id : JobId)
    (f : Queued → Status → Option Queued → Bool) :
    settledAs ((initial config submissions).chronicle events) id f =
      (((initial config submissions).chronicle events).filter
        (Mark.settles fun item _ _ => item.role == .top && item.id == id)).countP
          (Mark.settles f) := by
  rw [List.countP_filter, settledAs, settled]
  apply List.countP_congr
  intro mark hmark
  cases mark with
  | settled item status following =>
      rw [Mark.settles_settled, Mark.settles_settled, Mark.settles_settled,
        role_eq_top_of_isAtRest h hrest hmark, beq_self_eq_true, Bool.true_and, Bool.and_comm]
  | _ => rfl

theorem ended_eq (state : State) (id : JobId) (p : Status → Bool) :
    state.ended id p =
      (state.log.filter (Entry.reports fun id' role _ => role == .top && id' == id)).any
        (Entry.reports fun _ _ status => p status) := by
  rw [List.any_filter, ended]
  congr 1
  funext entry
  cases entry <;> rfl

theorem absent_of_entrantsOf_eq_zero (h : (initial config submissions).run events = some state)
    (hrest : state.overview.IsAtRest) {id : JobId}
    (hnone : Overview.entrantsOf ((initial config submissions).chronicle events) id = 0) :
    (∀ p, state.ended id p = false) ∧
      ∀ f, settledAs ((initial config submissions).chronicle events) id f = 0 := by
  rcases settledOf_eq_entrantsOf h hrest id with ⟨hsettled, hreports⟩
  rw [hnone] at hsettled hreports
  constructor
  · intro p
    have hempty : state.log.filter
        (Entry.reports fun id' role _ => role == .top && id' == id) = [] := by
      rw [← List.length_eq_zero_iff, ← List.countP_eq_length_filter]
      exact hreports
    rw [ended_eq, hempty, List.any_nil]
  · intro f
    have hempty : ((initial config submissions).chronicle events).filter
        (Mark.settles fun item _ _ => item.role == .top && item.id == id) = [] := by
      rw [← List.length_eq_zero_iff, ← List.countP_eq_length_filter]
      exact hsettled
    rw [settledAs_eq h hrest, hempty, List.countP_nil]

theorem exists_settled_of_entrantsOf_eq_one
    (h : (initial config submissions).run events = some state)
    (hrest : state.overview.IsAtRest) {id : JobId}
    (hone : Overview.entrantsOf ((initial config submissions).chronicle events) id = 1) :
    ∃ item status following,
      .settled item status following ∈ (initial config submissions).chronicle events ∧
        item.role = .top ∧ item.id = id ∧ (∀ p, state.ended id p = p status) ∧
        ∀ f, settledAs ((initial config submissions).chronicle events) id f =
          if f item status following then 1 else 0 := by
  rcases settledOf_eq_entrantsOf h hrest id with ⟨hsettled, hreports⟩
  rw [hone] at hsettled hreports
  have hpos : 0 < settledOf ((initial config submissions).chronicle events) id := by
    omega
  rcases List.countP_pos_iff.mp hpos with ⟨mark, hmark, htrue⟩
  cases mark with
  | settled item status following =>
      rcases Bool.and_eq_true_iff.mp htrue with ⟨hrole, hid⟩
      rw [beq_iff_eq] at hrole hid
      have htold := told_ofTop h id status
      rw [Overview.Told, hrest.agendas, Overview.headed_zero, Nat.add_zero,
        show state.overview.log = state.log from rfl] at htold
      have hlog : 0 < state.log.countP (Entry.reports (ofTop id status)) := by
        rw [htold]
        exact List.countP_pos_iff.mpr ⟨_, hmark, ofTop_iff.mpr ⟨hrole, hid, rfl⟩⟩
      rcases countP_reports_pos_iff.mp hlog with ⟨result, hresult, hstatus⟩
      refine ⟨item, status, following, hmark, hrole, hid, ?_, ?_⟩
      · intro p
        rw [ended_eq, filter_eq_singleton hresult (by simp [Entry.reports]) hreports,
          List.any_cons, List.any_nil, Bool.or_false, Entry.reports, hstatus]
      · intro f
        rw [settledAs_eq h hrest, filter_eq_singleton hmark htrue hsettled,
          List.countP_singleton]
        rfl
  | _ => cases htrue

/-!
## Losses of a submission
-/

/-- Whether a submitted job has failed for good, as far as results say: it failed and nothing
that follows succeeded, or it succeeded and what follows failed. -/
def isUnrecovered (state : State) (submission : Nat) : Bool :=
  state.ended { submission := submission } (· == .failed) &&
      !state.ended { submission := submission, route := [false] } Status.isSuccess ||
    state.ended { submission := submission } Status.isSuccess &&
      state.ended { submission := submission, route := [true] } (· == .failed)

/-- How a continuation is settled: nothing follows it. -/
theorem continuation_settled (h : (initial config submissions).run events = some state)
    (hrest : state.overview.IsAtRest)
    (hlineage : state.overview.Lineage ((initial config submissions).chronicle events))
    {k : Nat} {succeeded : Bool}
    (hone : Overview.entrantsOf ((initial config submissions).chronicle events)
      { submission := k, route := [succeeded] } = 1) :
    ∃ status, (∀ p, state.ended { submission := k, route := [succeeded] } p = p status) ∧
      settledAs ((initial config submissions).chronicle events)
        { submission := k, route := [succeeded] } Queued.isLoss =
          if status == .failed || !succeeded && status == .cancelled then 1 else 0 := by
  rcases exists_settled_of_entrantsOf_eq_one h hrest hone with
    ⟨item, status, following, hmark, hrole, hid, hended, hsettled⟩
  exists status
  refine ⟨hended, ?_⟩
  rcases (present_of_run h).settled item status following hmark with
    ⟨⟨hitem, -⟩, cancelled, hfollowing⟩
  rw [hsettled]
  rcases (hlineage.entrants item hitem).lineage hrole with
    ⟨hroute, -, -⟩ | ⟨succeeded', hroute, hrecovers, hnone⟩
  · rw [hid] at hroute
    cases hroute
  · rw [hid] at hroute
    cases hroute
    cases hnext : following with
    | some next =>
        rw [hnext] at hfollowing
        rcases Queued.successor_eq_some hfollowing.symm with ⟨job, -, hjob, -⟩
        rw [hnone] at hjob
        cases hjob
    | none => cases status <;> simp [Queued.isLoss, hrecovers]

/-- A submitted job and its continuations bring one loss if nothing recovers from its failure,
and none otherwise. -/
theorem losses_eq (h : (initial config submissions).run events = some state)
    (hrest : state.overview.IsAtRest)
    (hlineage : state.overview.Lineage ((initial config submissions).chronicle events)) (k : Nat) :
    settledAs ((initial config submissions).chronicle events) { submission := k } Queued.isLoss +
        settledAs ((initial config submissions).chronicle events)
          { submission := k, route := [true] } Queued.isLoss +
        settledAs ((initial config submissions).chronicle events)
          { submission := k, route := [false] } Queued.isLoss =
      if state.isUnrecovered k then 1 else 0 := by
  have hfollow : ∀ succeeded, Overview.entrantsOf ((initial config submissions).chronicle events)
      { submission := k, route := [succeeded] } =
        settledAs ((initial config submissions).chronicle events) { submission := k }
          fun _ status following => status.isSuccess == succeeded && following.isSome := by
    intro succeeded
    have hfollowed := (named_of_run h).followed { submission := k } succeeded
    simp only [Overview.followersOf, Bool.and_assoc] at hfollowed
    exact hfollowed
  rcases Nat.le_one_iff_eq_zero_or_eq_one.mp (entrantsOf_le_one h { submission := k }) with
    hnone | hone
  · rcases absent_of_entrantsOf_eq_zero h hrest hnone with ⟨hended, hsettled⟩
    have hnever : ∀ succeeded,
        Overview.entrantsOf ((initial config submissions).chronicle events)
          { submission := k, route := [succeeded] } = 0 := by
      intro succeeded
      rw [hfollow, hsettled]
    rw [hsettled, (absent_of_entrantsOf_eq_zero h hrest (hnever true)).2,
      (absent_of_entrantsOf_eq_zero h hrest (hnever false)).2, isUnrecovered, hended, hended]
    rfl
  · rcases exists_settled_of_entrantsOf_eq_one h hrest hone with
      ⟨item, status, following, hmark, hrole, hid, hended, hsettled⟩
    rcases (present_of_run h).settled item status following hmark with
      ⟨⟨hitem, -⟩, cancelled, hfollowing⟩
    have hrecovers : item.recovers = false := by
      rcases (hlineage.entrants item hitem).lineage hrole with
        ⟨-, hrecovers, -⟩ | ⟨succeeded, hroute, -, -⟩
      · exact hrecovers
      · rw [hid] at hroute
        cases hroute
    have hcount : ∀ succeeded, Overview.entrantsOf ((initial config submissions).chronicle events)
        { submission := k, route := [succeeded] } =
          if status.isSuccess == succeeded && following.isSome then 1 else 0 := by
      intro succeeded
      rw [hfollow, hsettled]
    have habsent : ∀ succeeded, (status.isSuccess == succeeded && following.isSome) = false →
        (∀ p, state.ended { submission := k, route := [succeeded] } p = false) ∧
          settledAs ((initial config submissions).chronicle events)
            { submission := k, route := [succeeded] } Queued.isLoss = 0 := by
      intro succeeded hfalse
      have hnever := hcount succeeded
      rw [hfalse, if_neg Bool.false_ne_true] at hnever
      rcases absent_of_entrantsOf_eq_zero h hrest hnever with ⟨hended', hsettled'⟩
      exact ⟨hended', hsettled' Queued.isLoss⟩
    -- the continuation for the other outcome is absent, and so is a missing one
    have hother := habsent (!status.isSuccess) (by cases status.isSuccess <;> rfl)
    cases hnext : following with
    | none =>
        have hmissing := habsent status.isSuccess (by
          rw [hnext, Option.isSome_none, Bool.and_false])
        rw [isUnrecovered, hended, hended, hsettled, hnext]
        cases status <;> simp_all [Queued.isLoss, Status.isSuccess]
    | some next =>
        have hnever := hcount status.isSuccess
        rw [hnext, beq_self_eq_true, Option.isSome_some, Bool.and_true, if_pos rfl] at hnever
        rcases continuation_settled h hrest hlineage hnever with ⟨status', hended', hsettled'⟩
        rw [hnext] at hfollowing
        rcases Queued.successor_eq_some hfollowing.symm with ⟨job, hstatus, -, -⟩
        rw [isUnrecovered, hended, hended, hsettled, hnext]
        cases status <;> cases status' <;> simp_all [Queued.isLoss, Status.isSuccess]

/-!
## The count of losses

Every loss belongs to one submission, and there to the submitted job or to one of its
two continuations.
-/

theorem settled_eq_add {marks : List Mark} {f g l : Queued → Status → Option Queued → Bool}
    (h : ∀ item status following, .settled item status following ∈ marks →
      (if f item status following then 1 else 0) =
        (if g item status following then 1 else 0) + if l item status following then 1 else 0) :
    settled marks f = settled marks g + settled marks l := by
  apply countP_eq_add
  intro mark hmark
  cases mark with
  | settled item status following => exact h item status following hmark
  | _ => rfl

/-- How many losses belong to a submission. -/
def lossesOf (marks : List Mark) (submission : Nat) : Nat :=
  settled marks fun item status following =>
    item.id.submission == submission && item.isLoss status following

/-- The name of a job that is settled. -/
theorem id_of_settled (h : (initial config submissions).run events = some state)
    (hrest : state.overview.IsAtRest)
    (hlineage : state.overview.Lineage ((initial config submissions).chronicle events))
    {item : Queued} {status : Status} {following : Option Queued}
    (hmark : .settled item status following ∈ (initial config submissions).chronicle events) :
    item.id.submission < state.submitted ∧
      (item.id = { submission := item.id.submission } ∨
        ∃ succeeded, item.id = { submission := item.id.submission, route := [succeeded] }) := by
  have hitem := ((present_of_run h).settled item status following hmark).1.1
  have hbelongs := hlineage.entrants item hitem
  refine ⟨hbelongs.submission, ?_⟩
  rcases hbelongs.lineage (role_eq_top_of_isAtRest h hrest hmark) with
    ⟨hroute, -, -⟩ | ⟨succeeded, hroute, -, -⟩
  · exact Or.inl (by rw [← hroute])
  · exact Or.inr ⟨succeeded, by rw [← hroute]⟩

theorem lossesOf_eq (h : (initial config submissions).run events = some state)
    (hrest : state.overview.IsAtRest)
    (hlineage : state.overview.Lineage ((initial config submissions).chronicle events)) (k : Nat) :
    lossesOf ((initial config submissions).chronicle events) k =
      if state.isUnrecovered k then 1 else 0 := by
  have hbehind : (settled ((initial config submissions).chronicle events)
      fun item status following => (item.id.submission == k && !item.id.route.isEmpty) &&
        item.isLoss status following) =
          settledAs ((initial config submissions).chronicle events)
            { submission := k, route := [true] } Queued.isLoss +
          settledAs ((initial config submissions).chronicle events)
            { submission := k, route := [false] } Queued.isLoss := by
    apply settled_eq_add
    intro item status following hmark
    rcases (id_of_settled h hrest hlineage hmark).2 with hid | ⟨succeeded, hid⟩
    · rw [hid]
      simp
    · rw [hid]
      by_cases hk : item.id.submission = k <;> cases succeeded <;> simp [hk]
  -- the name of a submitted job has no route, and the names of its continuations have one step
  rw [← losses_eq h hrest hlineage, Nat.add_assoc, ← hbehind]
  apply settled_eq_add
  intro item status following hmark
  rcases (id_of_settled h hrest hlineage hmark).2 with hid | ⟨succeeded, hid⟩
  · rw [hid]
    by_cases hk : item.id.submission = k <;> simp [hk]
  · rw [hid]
    by_cases hk : item.id.submission = k <;> simp [hk]

theorem settled_below_eq (h : (initial config submissions).run events = some state)
    (hrest : state.overview.IsAtRest)
    (hlineage : state.overview.Lineage ((initial config submissions).chronicle events)) (n : Nat) :
    (settled ((initial config submissions).chronicle events) fun item status following =>
      decide (item.id.submission < n) && item.isLoss status following) =
        (List.range n).countP state.isUnrecovered := by
  induction n with
  | zero =>
      rw [List.range_zero, List.countP_nil, settled, List.countP_eq_zero]
      intro mark _
      cases mark with
      | settled item status following =>
          rw [Mark.settles_settled, decide_eq_false (Nat.not_lt_zero _), Bool.false_and]
          exact Bool.false_ne_true
      | _ => exact Bool.false_ne_true
  | succ n ih =>
      rw [List.range_succ, List.countP_append, List.countP_singleton, ← ih,
        ← lossesOf_eq h hrest hlineage, lossesOf]
      apply settled_eq_add
      intro item status following _
      rcases Nat.lt_trichotomy item.id.submission n with hlt | heq | hgt
      · simp [hlt, Nat.lt_succ_of_lt hlt, Nat.ne_of_lt hlt]
      · simp [heq]
      · simp [Nat.not_lt_of_gt hgt, Nat.not_lt_of_ge (Nat.succ_le_of_lt hgt), Nat.ne_of_gt hgt]

/-- At rest the count of failures is the number of submissions that have not been recovered. -/
theorem unhandled_of_isAtRest (h : (initial config submissions).run events = some state)
    (hrest : state.overview.IsAtRest)
    (hlineage : state.overview.Lineage ((initial config submissions).chronicle events)) :
    state.unhandled = (List.range state.submitted).countP state.isUnrecovered := by
  rw [unhandled_of_run h, ← settled_below_eq h hrest hlineage, settled, settled]
  apply List.countP_congr
  intro mark hmark
  cases mark with
  | settled item status following =>
      rw [Mark.settles_settled, Mark.settles_settled,
        decide_eq_true (id_of_settled h hrest hlineage hmark).1, Bool.true_and]
  | _ => rfl

/-!
## The exit status
-/

/-- The status to exit with: the code of an exit job, or else whether the run was interrupted,
or else whether something failed for good. -/
def statusFor (code : Option Nat) (interrupted failed : Bool) : Nat :=
  match code with
  | some code => code
  | none => if interrupted then 130 else if failed then 127 else 0

theorem exitStatus_eq (h : (initial config submissions).run events = some state)
    (hunhandled : state.unhandled = (List.range state.submitted).countP state.isUnrecovered)
    (interrupted : Bool) :
    state.exitStatus interrupted = statusFor state.exitCode interrupted
      (state.log.countP Entry.isRejection % UInt64.size != 0 ||
        (List.range state.submitted).any state.isUnrecovered) := by
  have hrejections : state.stats.parseFailures.toNat =
      state.log.countP Entry.isRejection % UInt64.size := by
    rw [rejections_of_run h, UInt64.toNat_ofNat']
  have hany : (List.range state.submitted).any state.isUnrecovered = (state.unhandled != 0) := by
    rw [hunhandled, Bool.eq_iff_iff, bne_iff_ne, ← Nat.pos_iff_ne_zero, List.countP_pos_iff,
      List.any_eq_true]
  rw [exitStatus, hrejections, hany]
  cases state.exitCode with
  | some code => rfl
  | none =>
      cases interrupted with
      | true => rfl
      | false =>
          simp only [statusFor, Bool.or_eq_true, bne_iff_ne, Bool.false_eq_true, if_false]
          split <;> split <;> omega

theorem countP_mod_size_ne_zero {log : List Entry}
    (hsize : log.countP Entry.isRejection < UInt64.size) :
    (log.countP Entry.isRejection % UInt64.size != 0) = log.any Entry.isRejection := by
  rw [Nat.mod_eq_of_lt hsize, Bool.eq_iff_iff, bne_iff_ne, ← Nat.pos_iff_ne_zero,
    List.countP_pos_iff, List.any_eq_true]

end State

theorem sampleBatch_isFlat : sampleBatch.IsFlat := by
  intro succeeded next hnext succeeded'
  cases succeeded with
  | true => cases hnext
  | false =>
      cases hnext
      cases succeeded' <;> rfl

end Pool
end BulkTransfer
