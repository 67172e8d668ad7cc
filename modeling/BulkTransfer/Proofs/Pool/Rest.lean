import BulkTransfer.Proofs.Pool.Balance
import Mathlib.Data.Multiset.OrderedMonoid

/-!
# Runs in balance

Every run keeps the balance, so what every move keeps under it holds behind every run.
Without outstanding units there are no jobs, no agendas and no open batches: the pool
is at rest.
-/

namespace BulkTransfer
namespace Pool

namespace Overview

variable {o : Overview}

/-!
## Rest

A unit is at every agenda, so agendas come to their end before the units do.
-/

theorem IsAgenda.countP_isUnit_pos {agenda : List Action} (h : IsAgenda agenda) :
    0 < agenda.countP Action.isUnit := by
  rw [List.countP_pos_iff]
  cases h with
  | releases n => exact ⟨.release, by simp, rfl⟩
  | settle item status n => exact ⟨.release, by simp, rfl⟩
  | tally batch status n => exact ⟨.release, by simp, rfl⟩
  | close batch n => exact ⟨.close batch, by simp, rfl⟩
  | reportSettle item result n hrole => exact ⟨.release, by simp, rfl⟩
  | reportTally item result batch position n hrole => exact ⟨.release, by simp, rfl⟩

/-- Nothing is left to do. -/
structure IsAtRest (o : Overview) : Prop where
  waiting : o.waiting = 0
  held : o.held = 0
  agendas : o.agendas = 0
  accounts : ∀ account ∈ o.accounts, account.group.pending = 0 ∧ account.joined = true

theorem Balanced.isAtRest (h : Balanced o) (hzero : o.outstanding = 0) : IsAtRest o := by
  have hunits := h.outstanding
  rw [hzero, units, left] at hunits
  have hopen : (owing o.accounts fun _ => true) = 0 := by omega
  rw [owing, List.countP_eq_zero] at hopen
  constructor
  case waiting =>
    rw [← Multiset.card_eq_zero]
    omega
  case held =>
    rw [← Multiset.card_eq_zero]
    omega
  case agendas =>
    rw [Multiset.eq_zero_iff_forall_notMem]
    intro agenda hagenda
    have hpos := (h.agendas agenda hagenda).countP_isUnit_pos
    rcases Multiset.exists_cons_of_mem hagenda with ⟨rest, hrest⟩
    rw [hrest, planned_cons] at hunits
    omega
  case accounts =>
    intro account haccount
    have hclosed := hopen account haccount
    rw [Bool.and_true, Account.isOpen, bne_iff_ne, ne_eq, not_not] at hclosed
    constructor
    · exact hclosed
    · rcases List.getElem?_of_mem haccount with ⟨batch, hbatch⟩
      by_contra hjoined
      have hpos := h.pending_pos hbatch (Bool.not_eq_true _ ▸ hjoined)
      omega

theorem IsAtRest.left_eq_zero (hrest : IsAtRest o) (h : Balanced o) (q : Action → Bool) :
    o.left q = 0 := by
  rw [left_eq_zero_iff, hrest.agendas]
  constructor
  · exact fun agenda hagenda => absurd hagenda (Multiset.notMem_zero agenda)
  · intro account haccount action haction
    rw [(h.joined account haccount (hrest.accounts account haccount).2).1] at haction
    cases haction

theorem IsAtRest.owing_eq_zero (hrest : IsAtRest o) (f : Queued → Bool) :
    owing o.accounts f = 0 := by
  rw [owing, List.countP_eq_zero]
  intro account haccount
  simp [Account.isOpen, (hrest.accounts account haccount).1]

theorem IsAtRest.pendingOf_eq_zero (hrest : IsAtRest o) (batch : Nat) :
    pendingOf o.accounts batch = 0 := by
  unfold pendingOf
  cases haccount : o.accounts[batch]? with
  | none => rfl
  | some account => exact (hrest.accounts account (List.mem_of_getElem? haccount)).1

end Overview

/-- Whether a batch has come to its end. -/
structure Batch.IsDone (found : Batch) : Prop where
  pending : found.group.pending = 0
  listing : found.listing = .ended found.group.listingFault
  channel : found.channel = []
  feeding : found.feeding = .leaving []

/-- Whether a pool has nothing left to do. -/
structure State.IsAtRest (state : State) : Prop where
  queue : state.queue = []
  continuations : state.continuations = []
  workers : ∀ phase ∈ state.workers, phase = .idle
  batches : ∀ found ∈ state.batches, found.IsDone

namespace State

theorem eq_idle_of_held_eq_zero {phase : Phase} (hheld : phase.held = 0)
    (hagendas : phase.agendas = 0) : phase = .idle := by
  cases phase with
  | idle => rfl
  | finishing actions => exact absurd hagendas (Multiset.singleton_ne_zero actions)
  | _ => exact absurd hheld (Multiset.singleton_ne_zero _)

theorem eq_leaving_of_joined {feeding : Feeding} (hjoined : feeding.joined = true)
    (hagendas : feeding.agendas = 0) : feeding = .leaving [] := by
  cases feeding with
  | leaving actions =>
      cases actions with
      | nil => rfl
      | cons action actions => exact absurd hagendas (Multiset.singleton_ne_zero _)
  | _ => cases hjoined

theorem isAtRest_of_overview {state : State} (h : state.overview.Balanced)
    (hrest : state.overview.IsAtRest) : state.IsAtRest := by
  have hwaiting := hrest.waiting
  have hheld : (state.workers : Multiset Phase).bind Phase.held = 0 := hrest.held
  have hagendas := hrest.agendas
  simp only [overview, add_eq_zero, Multiset.coe_eq_zero] at hwaiting hagendas
  constructor
  case queue => exact hwaiting.1.1.2
  case continuations => exact hwaiting.1.2
  case workers =>
    intro phase hphase
    apply eq_idle_of_held_eq_zero
    · have hle := Multiset.le_bind (f := Phase.held) _ (Multiset.mem_coe.mpr hphase)
      rwa [hheld, Multiset.le_zero] at hle
    · have hle := Multiset.le_bind (f := Phase.agendas) _ (Multiset.mem_coe.mpr hphase)
      rwa [hagendas.1, Multiset.le_zero] at hle
  case batches =>
    intro found hfound
    have haccount : found.account ∈ state.overview.accounts := List.mem_map_of_mem hfound
    rcases hrest.accounts _ haccount with ⟨hpending, hjoined⟩
    rcases h.joined _ haccount hjoined with ⟨-, hchannel, hlisting⟩
    constructor
    case pending => exact hpending
    case listing => exact hlisting
    case channel => exact hchannel
    case feeding =>
      apply eq_leaving_of_joined hjoined
      have hle := Multiset.le_bind (f := fun found => found.feeding.agendas) _
        (Multiset.mem_coe.mpr hfound)
      rwa [hagendas.2, Multiset.le_zero] at hle

theorem bind_replicate_eq_zero {α β : Type} {x : α} {g : α → Multiset β} (h : g x = 0) (n : Nat) :
    (List.replicate n x : Multiset α).bind g = 0 := by
  induction n with
  | zero => rfl
  | succ n ih => rw [List.replicate_succ, ← Multiset.cons_coe, Multiset.cons_bind, h, ih, add_zero]

/-- There is nothing in a pool at its start. -/
theorem overview_initial (config : PoolConfig) (submissions : List Submission) :
    (initial config submissions).overview =
      { waiting := 0, held := 0, agendas := 0, accounts := [], submissions := submissions,
        outstanding := 0, unhandled := 0, submitted := 0, rejections := 0, cancelled := false,
        log := [] } := by
  have hheld := bind_replicate_eq_zero (g := Phase.held) (x := .idle) rfl config.workers
  have hagendas := bind_replicate_eq_zero (g := Phase.agendas) (x := .idle) rfl config.workers
  apply Overview.ext
  case held => exact hheld
  case agendas => exact congrArg (· + 0) hagendas
  all_goals rfl

theorem balanced_initial (config : PoolConfig) (submissions : List Submission) :
    (initial config submissions).overview.Balanced := by
  rw [overview_initial]
  constructor
  case outstanding => rfl
  case pending => exact fun _ => rfl
  case closing => exact fun _ => Or.inl rfl
  case agendas => exact fun agenda hagenda => absurd hagenda (Multiset.notMem_zero agenda)
  case telling => exact fun batch account haccount => absurd haccount (by simp)
  case joined => exact fun account haccount => absurd haccount List.not_mem_nil

/-- In every run the units are the jobs, actions and batches that are left. -/
theorem balanced_of_run {config : PoolConfig} {submissions : List Submission} {state : State}
    {events : List Event} (h : (initial config submissions).run events = some state) :
    state.overview.Balanced := by
  refine run_induction (P := fun _ state => state.overview.Balanced) h
    (balanced_initial config submissions) ?_
  intro events last event next _ hstep hlast
  exact hlast.move (move_of_step (fun hfalse : False => hfalse.elim) hlast.telling hstep)

/-- The log only grows. -/
theorem log_prefix_of_step {config : PoolConfig} {submissions : List Submission}
    {last next : State} {events : List Event} {event : Event}
    (h : (initial config submissions).run events = some last)
    (hstep : last.step event = some next) : last.log <+: next.log :=
  Overview.log_prefix_move
    (move_of_step (fun hfalse : False => hfalse.elim) (balanced_of_run h).telling hstep)

theorem log_prefix_of_run {config : PoolConfig} {submissions : List Submission}
    {last state : State} {before after : List Event}
    (hbefore : (initial config submissions).run before = some last)
    (hafter : last.run after = some state) : last.log <+: state.log := by
  refine run_induction (P := fun _ state => last.log <+: state.log) hafter List.prefix_rfl ?_
  intro events state event next hrun hstep hfront
  exact hfront.trans (log_prefix_of_step ((run_append_iff hbefore).mpr hrun) hstep)

/-- What holds at the start and is kept by every move of a run holds at its end. -/
theorem run_moves {trusted : Prop} {config : PoolConfig} {submissions : List Submission}
    {state : State} {events : List Event} {P : List Mark → Overview → Prop}
    (h : (initial config submissions).run events = some state)
    (htrusted : trusted → (initial config submissions).Trusts events)
    (hstart : P [] (initial config submissions).overview)
    (hmove : ∀ marks o mark next, o.Balanced → P marks o → Overview.Move trusted o mark next →
      P (marks ++ [mark]) next) :
    P ((initial config submissions).chronicle events) state.overview := by
  refine run_induction
    (P := fun events state => (trusted → (initial config submissions).Trusts events) →
      P ((initial config submissions).chronicle events) state.overview) h (fun _ => hstart) ?_
    htrusted
  intro events last event next hrun hstep hlast htrusted
  have hbalanced := balanced_of_run hrun
  rw [chronicle_concat hrun hstep]
  refine hmove _ _ _ _ hbalanced (hlast ?_) (move_of_step ?_ hbalanced.telling hstep)
  · intro htrue
    exact (trusts_concat (htrusted htrue)).1
  · intro htrue
    exact (trusts_concat (htrusted htrue)).2 last hrun

end State
end Pool
end BulkTransfer
