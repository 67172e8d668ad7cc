import BulkTransfer.Proofs.Pool.Batches
import BulkTransfer.Proofs.Pool.Outcomes

/-!
# The batches of a job

An item has the identity of its batch, so a job shares one with all that comes of it.  A
sub-job that is a batch has items of its own, and they belong to the same job.  As long as
there is such a sub-job its batch waits for it, so once a top-level batch has its result it
is the only batch of its job.
-/

namespace BulkTransfer
namespace Pool

/-!
## Sums over the elements of a list
-/

/-- A sum of which all terms but one are zero. -/
theorem sum_map_eq_of_unique {α : Type} {xs : List α} {f : α → Nat} {i : Nat} {x : α}
    (hx : xs[i]? = some x) (hf : ∀ j y, xs[j]? = some y → f y ≠ 0 → j = i) :
    (xs.map f).sum = f x := by
  have hothers : ((xs.eraseIdx i).map f).sum = 0 := by
    apply List.sum_eq_zero
    intro n hn
    rcases List.mem_map.mp hn with ⟨y, hy, rfl⟩
    rcases List.mem_eraseIdx_iff_getElem?.mp hy with ⟨j, hj, hyj⟩
    by_contra hne
    exact hj (hf j y hyj hne)
  have hsum := congrArg (fun ys => (ys.map f).sum) (coe_eq_cons_eraseIdx hx)
  simp only [Multiset.map_coe, Multiset.sum_coe, Multiset.map_cons, Multiset.sum_cons] at hsum
  rw [hsum, hothers, Nat.add_zero]

/-- What is counted is no more than a sum if each of it is of a kind for one of the terms, and
no term is less than the number of its kind. -/
theorem countP_le_sum {α β : Type} {xs : List α} {ys : List β} {p : α → Bool} {f : β → Nat}
    (kind : Nat → α → Bool)
    (hkind : ∀ x ∈ xs, p x = true → ∃ i y, ys[i]? = some y ∧ kind i x = true)
    (hle : ∀ i y, ys[i]? = some y → xs.countP (kind i) ≤ f y) :
    xs.countP p ≤ (ys.map f).sum := by
  induction ys generalizing p kind with
  | nil =>
      rw [List.map_nil, List.sum_nil, Nat.le_zero, List.countP_eq_zero]
      intro x hx htrue
      rcases hkind x hx htrue with ⟨i, y, hy, -⟩
      cases hy
  | cons y ys ih =>
      have hsplit : xs.countP p =
          xs.countP (fun x => p x && kind 0 x) + xs.countP fun x => p x && !kind 0 x := by
        apply countP_eq_add
        intro x _
        cases p x <;> cases kind 0 x <;> rfl
      have hfirst : xs.countP (fun x => p x && kind 0 x) ≤ f y :=
        le_trans (List.countP_mono_left fun x _ htrue => (Bool.and_eq_true_iff.mp htrue).2)
          (hle 0 y rfl)
      have hrest : xs.countP (fun x => p x && !kind 0 x) ≤ (ys.map f).sum := by
        refine ih (fun i => kind (i + 1)) ?_ fun i z hz => hle (i + 1) z hz
        intro x hx htrue
        rcases Bool.and_eq_true_iff.mp htrue with ⟨hp, hnot⟩
        rcases hkind x hx hp with ⟨i, z, hz, hi⟩
        cases i with
        | zero =>
            rw [hi] at hnot
            cases hnot
        | succ i => exact ⟨i, z, hz, hi⟩
      rw [hsplit, List.map_cons, List.sum_cons]
      exact Nat.add_le_add hfirst hrest

namespace Overview

variable {trusted : Prop} {o next : Overview} {mark : Mark} {marks : List Mark}

/-!
## Items and their batches
-/

/-- Whether a job is top-level, or has the identity of a top-level batch of which some batch
is a sub-job. -/
def Rooted (parents : List Queued) (item : Queued) : Prop :=
  item.role = .top ∨
    ∃ batch root, parents[batch]? = some root ∧ root.role = .top ∧ root.id = item.id ∧
      ∃ parent ∈ parents, parent.isMemberOf batch = true

theorem Rooted.mono {parents parents' : List Queued} {item : Queued} (h : Rooted parents item)
    (hfront : parents <+: parents') : Rooted parents' item := by
  rcases h with htop | ⟨batch, root, hroot, hrole, hid, parent, hparent, hmember⟩
  · exact Or.inl htop
  · exact Or.inr ⟨batch, root, getElem?_of_prefix hfront hroot, hrole, hid, parent,
      hfront.subset hparent, hmember⟩

/-- Whether items have the identities of their batches, and batches go back to top-level
ones. -/
structure Related (marks : List Mark) (o : Overview) : Prop where
  items : ∀ item ∈ entrants marks, ∀ batch, item.role.isOf batch = true →
    ∃ parent, (o.accounts.map Account.parent)[batch]? = some parent ∧ parent.id = item.id
  roots : ∀ parent ∈ o.accounts.map Account.parent, Rooted (o.accounts.map Account.parent) parent

/-- What comes in for a batch has its identity. -/
theorem Move.entrant_related (hmove : Move trusted o mark next) {item : Queued} {batch : Nat}
    (hitem : item ∈ mark.entrants) (hbatch : item.role.isOf batch = true) :
    ∃ parent, (o.accounts.map Account.parent)[batch]? = some parent ∧ parent.id = item.id := by
  have hown : ∀ batch' account, o.accounts[batch']? = some account → batch = batch' →
      item.id = account.parent.id →
        ∃ parent, (o.accounts.map Account.parent)[batch]? = some parent ∧ parent.id = item.id := by
    rintro batch' account haccount rfl hid
    exact ⟨account.parent, by rw [List.getElem?_map, haccount]; rfl, hid.symm⟩
  cases hmove with
  | offer job item' submissions hitem' hsubmissions =>
      rw [List.mem_singleton.mp hitem, hitem'] at hbatch
      cases hbatch
  | receive batch' account task channel item' haccount hjoined hchannel hitem' =>
      rw [List.mem_singleton.mp hitem, hitem'] at hbatch
      refine hown batch' account haccount (beq_iff_eq.mp hbatch) ?_
      rw [List.mem_singleton.mp hitem, hitem']
  | refuse batch' account error channel entry haccount hjoined hnotice hchannel hentry =>
      rw [List.mem_singleton.mp hitem, hentry] at hbatch
      refine hown batch' account haccount (beq_iff_eq.mp hbatch) ?_
      rw [List.mem_singleton.mp hitem, hentry]
  | perform action actions agendas next further mark hagendas heffect =>
      cases heffect with
      | settle before status following hfollowing =>
          rw [Mark.entrants, Option.mem_toList, hfollowing] at hitem
          rw [Queued.role_successor hitem] at hbatch
          cases hbatch
      | _ => cases hitem
  | _ => cases hitem

theorem items_move (h : Related marks o) (hmove : Move trusted o mark next) :
    ∀ item ∈ entrants (marks ++ [mark]), ∀ batch, item.role.isOf batch = true →
      ∃ parent, (next.accounts.map Account.parent)[batch]? = some parent ∧
        parent.id = item.id := by
  intro item hitem batch hbatch
  have hbefore : ∃ parent, (o.accounts.map Account.parent)[batch]? = some parent ∧
      parent.id = item.id := by
    rw [entrants_append, entrants_singleton] at hitem
    rcases List.mem_append.mp hitem with hmem | hnew
    · exact h.items item hmem batch hbatch
    · exact hmove.entrant_related hnew hbatch
  rcases hbefore with ⟨parent, hparent, hid⟩
  exact ⟨parent, getElem?_of_prefix (parents_move hmove) hparent, hid⟩

/-- A sub-job that is started as a batch goes back to where its batch does. -/
theorem rooted_of_held (hpresent : Present marks o) (h : Related marks o) {item : Queued}
    (hheld : item ∈ o.held) : Rooted (o.accounts.map Account.parent ++ [item]) item := by
  rcases hpresent.holds.held item hheld with ⟨hitem, hjob⟩
  cases hrole : item.role with
  | top => exact Or.inl hrole
  | entry batch position =>
      rw [Queued.isJob, hrole] at hjob
      cases hjob
  | member batch position =>
      have hmember : item.role.isOf batch = true := by
        rw [hrole]
        exact beq_self_eq_true batch
      rcases h.items item hitem batch hmember with ⟨parent, hparent, hid⟩
      have hroot := (h.roots parent (List.mem_of_getElem? hparent)).mono
        (List.prefix_append (o.accounts.map Account.parent) [item])
      right
      rcases hroot with htop | ⟨batch', root, hroot, hrole', hid', other, hother, hmember'⟩
      · refine ⟨batch, parent, getElem?_of_prefix (List.prefix_append _ _) hparent, htop, hid,
          item, List.mem_append_right _ (List.mem_singleton_self item), ?_⟩
        rw [Queued.isMemberOf, hrole]
        exact beq_self_eq_true batch
      · exact ⟨batch', root, hroot, hrole', hid'.trans hid, other, hother, hmember'⟩

theorem related_move (hpresent : Present marks o) (h : Related marks o)
    (hmove : Move trusted o mark next) : Related (marks ++ [mark]) next where
  items := items_move h hmove
  roots := by
    rcases hmove.parents with hsame | ⟨item, hheld, hmore⟩
    · rw [hsame]
      exact h.roots
    · rw [hmore]
      intro parent hparent
      rcases List.mem_append.mp hparent with hmem | hnew
      · exact (h.roots parent hmem).mono (List.prefix_append _ _)
      · rw [List.mem_singleton.mp hnew]
        exact rooted_of_held hpresent h hheld

end Overview

namespace State

variable {config : PoolConfig} {submissions : List Submission} {state : State}
  {events : List Event}

theorem related_of_run (h : (initial config submissions).run events = some state) :
    state.overview.Related ((initial config submissions).chronicle events) := by
  refine run_regular_moves (P := fun marks o => o.Related marks) h (False.elim : False → _) ?_ ?_
  · rw [overview_initial]
    exact ⟨fun item hitem => absurd hitem List.not_mem_nil,
      fun parent hparent => absurd hparent List.not_mem_nil⟩
  · intro marks o mark next _ hregular hrelated hmove
    exact Overview.related_move hregular.present hrelated hmove

theorem parents_overview (state : State) :
    state.overview.accounts.map Account.parent = state.activity.parents :=
  List.map_map

/-- The batches are the batches among the jobs that have been started. -/
theorem parents_eq_starts (h : (initial config submissions).run events = some state) :
    state.activity.parents =
      ((initial config submissions).starts events).filter fun item => item.operation.isBatch := by
  refine run_turns (P := fun started a =>
    a.parents = started.filter fun item => item.operation.isBatch) h rfl ?_
  intro taken started a taken' started' next _ _ hparents hturn
  rw [Founded.parents_eq_of_turn hturn, hparents, List.filter_append]

theorem exists_batch_of_parent {item : Queued} (hparent : item ∈ state.activity.parents) :
    ∃ (batch : Nat) (found : Batch), state.batches[batch]? = some found ∧
      found.parent = item := by
  rcases List.getElem?_of_mem hparent with ⟨batch, hget⟩
  rw [parents_getElem?] at hget
  rcases Option.map_eq_some_iff.mp hget with ⟨found, hfound, hparent⟩
  exact ⟨batch, found, hfound, hparent⟩

/-- A batch is the job that has its name. -/
theorem parent_eq_of_name_eq (h : (initial config submissions).run events = some state)
    {item : Queued} (hitem : item ∈ entrants ((initial config submissions).chronicle events))
    {parent : Queued} (hparent : parent ∈ state.activity.parents) (hid : parent.id = item.id)
    (hrole : parent.role = item.role) : parent = item :=
  eq_of_name_eq h hitem (mem_entrants_of_start h ((founded_of_run h).parents parent hparent).1).1
    hid hrole

/-- Different batches have different names. -/
theorem batch_eq_of_name_eq (h : (initial config submissions).run events = some state)
    {batch batch' : Nat} {found found' : Batch} (hfound : state.batches[batch]? = some found)
    (hfound' : state.batches[batch']? = some found') (hid : found'.parent.id = found.parent.id)
    (hrole : found'.parent.role = found.parent.role) : batch' = batch := by
  have hnames : (state.activity.parents.map fun item => (item.id, item.role)).Nodup := by
    rw [parents_eq_starts h]
    exact (nodup_starts h).sublist (List.filter_sublist.map _)
  have hname : ∀ (batch : Nat) (found : Batch), state.batches[batch]? = some found →
      (state.activity.parents.map fun item => (item.id, item.role))[batch]? =
        some (found.parent.id, found.parent.role) := by
    intro batch found hfound
    rw [List.getElem?_map, parents_getElem?, hfound]
    rfl
  have hget := hname batch' found' hfound'
  have hlt := (List.getElem?_eq_some_iff.mp hget).1
  rw [hid, hrole, ← hname batch found hfound] at hget
  exact (List.getElem?_inj hlt hnames).mp hget

/-- A result of an item has the identity of the batch. -/
theorem exists_batch_of_reported (h : (initial config submissions).run events = some state)
    {id : JobId} {role : Role} {result : JobResult} {batch : Nat}
    (hreported : .reported id role result ∈ state.log) (hrole : role.isOf batch = true) :
    ∃ found : Batch, state.batches[batch]? = some found ∧ found.parent.id = id := by
  rcases exists_entrant_of_reported h hreported with ⟨item, hitem, rfl, rfl⟩
  rcases (related_of_run h).items item hitem batch hrole with ⟨parent, hparent, hid⟩
  rw [parents_overview, parents_getElem?] at hparent
  rcases Option.map_eq_some_iff.mp hparent with ⟨found, hfound, rfl⟩
  exact ⟨found, hfound, hid⟩

/-- A job with a batch has a top-level one; it is the only one if it waits for nothing
more. -/
theorem exists_top_batch (h : (initial config submissions).run events = some state)
    {batch : Nat} {found : Batch} (hfound : state.batches[batch]? = some found) :
    ∃ (root : Nat) (top : Batch), state.batches[root]? = some top ∧ top.parent.role = .top ∧
      top.parent.id = found.parent.id ∧ (top.group.pending = 0 → batch = root) := by
  have hmem : found.parent ∈ state.overview.accounts.map Account.parent := by
    rw [parents_overview]
    exact List.mem_map_of_mem (List.mem_of_getElem? hfound)
  rcases (related_of_run h).roots found.parent hmem with
    htop | ⟨root, parent, hroot, hrole, hid, member, hmember, hof⟩
  · exact ⟨batch, found, hfound, htop, rfl, fun _ => rfl⟩
  · rw [parents_overview, parents_getElem?] at hroot
    rcases Option.map_eq_some_iff.mp hroot with ⟨top, htop, rfl⟩
    refine ⟨root, top, htop, hrole, hid, ?_⟩
    intro hpending
    have haccount := account_of_batch htop
    have hspent := (balanced_of_run h).spent
      ((Overview.pendingOf_eq haccount).trans hpending)
    rcases List.mem_map.mp hmember with ⟨account, haccount', rfl⟩
    rw [hspent.parents account haccount'] at hof
    cases hof

/-- A top-level batch that waits for nothing more is the only batch of its job. -/
theorem batch_eq_of_id_eq (h : (initial config submissions).run events = some state)
    {batch batch' : Nat} {found found' : Batch} (hfound : state.batches[batch]? = some found)
    (hrole : found.parent.role = .top) (hpending : found.group.pending = 0)
    (hfound' : state.batches[batch']? = some found') (hid : found'.parent.id = found.parent.id) :
    batch' = batch := by
  rcases exists_top_batch h hfound' with ⟨root, top, htop, hrole', hid', honly⟩
  obtain rfl : root = batch :=
    batch_eq_of_name_eq h hfound htop (hid'.trans hid) (hrole'.trans hrole.symm)
  rw [hfound] at htop
  cases htop
  exact honly hpending

/-!
## Matches
-/

/-- How many matches have come to the batches of a job. -/
def matchesOf (state : State) (id : JobId) : Nat :=
  (state.batches.map fun found => if found.parent.id = id then found.received else 0).sum

/-- The matches of a job whose batch waits for nothing more are those of that batch. -/
theorem matchesOf_eq_received (h : (initial config submissions).run events = some state)
    {batch : Nat} {found : Batch} (hfound : state.batches[batch]? = some found)
    (hrole : found.parent.role = .top) (hpending : found.group.pending = 0) :
    state.matchesOf found.parent.id = found.received := by
  rw [matchesOf, sum_map_eq_of_unique hfound, if_pos rfl]
  intro batch' found' hfound' hne
  by_cases hid : found'.parent.id = found.parent.id
  · exact batch_eq_of_id_eq h hfound hrole hpending hfound' hid
  · rw [if_neg hid] at hne
    exact absurd rfl hne

/-- A batch has no more results than items that have come in. -/
theorem countP_isOf_le (h : (initial config submissions).run events = some state)
    (batch : Nat) :
    state.log.countP (Entry.reports fun _ role _ => role.isOf batch) ≤
      Overview.receivedOf state.overview.accounts batch := by
  rw [countP_reports_eq_receipts state.log fun _ role => role.isOf batch]
  refine le_trans (countP_receipts_le h _) (le_of_eq ?_)
  exact Role.countP_isOf fun position => (named_of_run h).received batch position

/-- A job has no more results of items than matches. -/
theorem countP_le_matchesOf (h : (initial config submissions).run events = some state)
    {id : JobId} {p : Entry → Bool}
    (hp : ∀ entry ∈ state.log, p entry = true → ∃ role result batch,
      entry = .reported id role result ∧ role.isOf batch = true) :
    state.log.countP p ≤ state.matchesOf id := by
  apply countP_le_sum fun batch => Entry.reports fun id' role _ =>
    id' == id && role.isOf batch
  · intro entry hentry htrue
    rcases hp entry hentry htrue with ⟨role, result, batch, rfl, hrole⟩
    rcases exists_batch_of_reported h hentry hrole with ⟨found, hfound, -⟩
    refine ⟨batch, found, hfound, ?_⟩
    rw [Entry.reports, beq_self_eq_true, hrole]
    rfl
  · intro batch found hfound
    by_cases hid : found.parent.id = id
    · rw [if_pos hid]
      have hle := countP_isOf_le h batch
      have haccount := account_of_batch hfound
      rw [Overview.receivedOf_eq haccount] at hle
      refine le_trans (List.countP_mono_left ?_) hle
      intro entry _ htrue
      cases entry with
      | reported id' role result => exact (Bool.and_eq_true_iff.mp htrue).2
      | _ => cases htrue
    · rw [if_neg hid, Nat.le_zero, List.countP_eq_zero]
      intro entry hentry htrue
      cases entry with
      | reported id' role result =>
          rcases Bool.and_eq_true_iff.mp htrue with ⟨hid', hrole⟩
          rcases exists_batch_of_reported h hentry hrole with ⟨found', hfound', hown⟩
          rw [hfound] at hfound'
          cases hfound'
          exact hid (hown.trans (beq_iff_eq.mp hid'))
      | _ => cases htrue

end State
end Pool
end BulkTransfer
