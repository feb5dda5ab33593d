import Shelterflex.StakeDelegation.Loops
import Shelterflex.StakeDelegation.Settlement

namespace Shelterflex.StakeDelegation
open Lib Book
set_option autoImplicit true

/-! The calls that move stake -/

theorem stake_ok (h : stake env a n s = .ok s') :
    0 < n ∧ ∃ s₁, settleFor ((getDelegations s a).map Delegation.delegatee) s = .ok s₁ ∧
      s' = { s₁ with
        stakedBalance := s₁.stakedBalance.set a (getStakedBalance s₁ a + n)
        totalStaked := some (getTotalStaked s₁ + n) } := by
  simp only [stake, bind_ok, require_ok, i128Add_ok, pure_ok, settleAllDelegates_eq] at h
  obtain ⟨_, _, _, _, _, hn, s₁, hs, _, ⟨_, rfl⟩, _, ⟨_, rfl⟩, rfl⟩ := h
  exact ⟨hn, s₁, hs, rfl⟩

theorem stake_effect (hv : (book s).Valid) (h : stake env a n s = .ok s') :
    Effect within even s s' := by
  obtain ⟨hn, s₁, hs, rfl⟩ := stake_ok h
  have hc : totalAmount (getDelegations s₁ a) ≤ getStakedBalance s₁ a := by
    rw [← (settleFor_settles hs).book] at hv
    exact hv.covered a
  exact effect_of_balance hv hs (by omega) (by omega)

theorem unstake_ok (h : unstake env a n s = .ok s') :
    0 < n ∧ n ≤ getStakedBalance s a - totalAmount (getDelegations s a) ∧
      ∃ s₁, settleFor ((getDelegations s a).map Delegation.delegatee) s = .ok s₁ ∧
        s' = { s₁ with
          stakedBalance := s₁.stakedBalance.set a (getStakedBalance s a - n)
          totalStaked := some (getTotalStaked s₁ - n) } := by
  simp only [unstake, bind_ok, require_ok, i128Sub_ok, pure_ok, settleAllDelegates_eq] at h
  obtain ⟨_, _, _, _, _, hn, _, _, t, ht, _, ⟨_, rfl⟩, _, hle, s₁, hs, _, ⟨_, rfl⟩, _, ⟨_, rfl⟩,
    rfl⟩ := h
  rw [totalDelegated_ok ht] at hle
  exact ⟨hn, hle, s₁, hs, rfl⟩

theorem unstake_effect (hv : (book s).Valid) (h : unstake env a n s = .ok s') :
    Effect within even s s' := by
  obtain ⟨hn, hle, s₁, hs, rfl⟩ := unstake_ok h
  have hb := settleFor_settles hs
  rw [← hb.balance, ← hb.delegations] at hle
  rw [← hb.balance]
  exact effect_of_balance hv hs (by omega) (by omega)

theorem addDelegatorToDelegatee_eq (d a : Address) (s : State) (hn : 0 < n) :
    ∃ R, addDelegatorToDelegatee d a s = { s with delegatorsOf := R } ∧
      (R.getD · []) = Function.update (getDelegatorsOf s) d
        (enlist a n (getDelegatorsOf s d)) := by
  unfold addDelegatorToDelegatee enlist
  rw [if_pos hn]
  split
  · refine ⟨s.delegatorsOf, rfl, ?_⟩
    exact (Function.update_eq_self _ _).symm
  · exact ⟨_, rfl, Store.getD_set_update ..⟩

theorem removeDelegatorFromDelegatee_eq (d a : Address) (s : State) (hn : ¬ 0 < n) :
    ∃ R, removeDelegatorFromDelegatee d a s = { s with delegatorsOf := R } ∧
      (R.getD · []) = Function.update (getDelegatorsOf s) d
        (enlist a n (getDelegatorsOf s d)) := by
  unfold removeDelegatorFromDelegatee enlist
  rw [if_neg hn]
  exact ⟨_, rfl, Store.getD_set_update ..⟩

/-- A call that settles the delegatee `d` and then leaves the staker `a` with the delegations `l`,
which differ in what goes to `d`. -/
structure Entry (a d : Address) (l : List Delegation) (x : Int) (s s' : State) : Prop where
  restakes : ∃ s₁, Restakes [d] s s₁ s'
  tidy : Tidy l
  other : ∀ d', d' ≠ d → amountTo d' l = amountTo d' (getDelegations s a)
  free : amountTo d l - amountTo d (getDelegations s a) ≤
    getStakedBalance s a - totalAmount (getDelegations s a)
  book : book s' = (book s).row a l (Function.update (getDelegateeStake s) d x)
    (getStakedBalance s a)

theorem Entry.effect (h : Entry a d l x s s')
    (hx : x ≤ getDelegateeStake s d - amountTo d (getDelegations s a) + amountTo d l)
    (hw : within → x = getDelegateeStake s d - amountTo d (getDelegations s a) + amountTo d l) :
    Effect within even s s' := by
  refine ⟨⟨_, h.restakes⟩, ?_⟩
  rw [h.book]
  exact Moves.of_entry h.tidy h.other h.free hx hw

theorem entry_of_settled (hv : (book s).Valid) (hs : settleFor [d] s = .ok s₁) (hl : Tidy l)
    (hd : ∀ d', d' ≠ d → amountTo d' l = amountTo d' (getDelegations s a))
    (hn : amountTo d l - amountTo d (getDelegations s a) ≤
      getStakedBalance s a - totalAmount (getDelegations s a))
    (hR : (R.getD · []) = Function.update (getDelegatorsOf s) d
      (enlist a (amountTo d l) (getDelegatorsOf s d))) :
    Entry a d l x s { s₁ with
      delegateeStake := s₁.delegateeStake.set d x
      delegations := s₁.delegations.set a l
      delegatorsOf := R
      revocationRequest := V
      pendingUndelegation := U } := by
  have hb := settleFor_settles hs
  refine ⟨⟨s₁, hs, rfl, rfl, rfl, rfl, rfl, fun d' hd' => ?_⟩, hl, hd, hn, ?_⟩
  · exact Store.getD_set_of_ne _ _ _ fun he => hd' (List.mem_singleton.mpr he)
  · rw [← hb.stake, ← hb.balance]
    rw [← hb.delegators] at hR
    rw [← hb.delegations] at hd
    rw [← hb.book] at hv ⊢
    have hst : (book { s₁ with delegateeStake := s₁.delegateeStake.set d x }).stake =
        Function.update (getDelegateeStake s₁) d x := Store.getD_set_update ..
    rw [← hst]
    exact row_of_entry hv hd (Store.getD_set_update ..) hR rfl rfl

theorem delegate_ok (hv : (book s).Valid) (h : delegate env a d n s = .ok s') :
    ∃ l, Entry a d l (getDelegateeStake s d + n) s s' ∧
      amountTo d l = amountTo d (getDelegations s a) + n ∧
      s'.revocationRequest = s.revocationRequest ∧
      s'.pendingUndelegation = s.pendingUndelegation := by
  simp only [delegate, bind_ok, require_ok, i128Sub_ok, i128Add_ok, settlePendingFor_eq] at h
  obtain ⟨_, _, _, _, _, hn, t, ht, _, ⟨_, rfl⟩, _, hle, s₁, hs, _, ⟨_, rfl⟩, l', hl', h⟩ := h
  have hb := settleFor_settles hs
  rw [totalDelegated_ok ht] at hle
  have ht : Tidy (getDelegations s a) := hv.tidy a
  have hr := mapM_raise_ok (hb.delegations ▸ ht) hn hl'
  have heq : getDelegations { s₁ with
      delegateeStake := s₁.delegateeStake.set d (getDelegateeStake s₁ d + n) } a =
    getDelegations s a := congrFun hb.delegations a
  rw [heq] at h hr
  rw [hb.stake] at h
  split at h <;> rename_i hd
  · cases pure_ok.mp h
    have hm : d ∈ (getDelegations s a).map Delegation.delegatee := by simpa using hd
    have hp := ht.amountTo_pos_iff.mpr hm
    have hx : amountTo d l' = amountTo d (getDelegations s a) + n := by
      rw [hr]
      exact (amountTo_setAmount ht hm _).trans (max_eq_left (add_pos hp hn).le)
    have hR : getDelegatorsOf s₁ = Function.update (getDelegatorsOf s) d
        (enlist a (amountTo d l') (getDelegatorsOf s d)) := by
      have hl : a ∈ getDelegatorsOf s d ↔ 0 < amountTo d l' :=
        (hv.listed a d).trans (iff_of_true hp (hx ▸ add_pos hp hn))
      rw [enlist_same hl, Function.update_eq_self, hb.delegators]
    refine ⟨l', entry_of_settled hv hs (hr ▸ rescale_tidy ht _) ?_ (by omega) hR, hx, hb.requests⟩
    intro d' he
    rw [hr]
    exact amountTo_setAmount_of_ne ht _ he
  · cases pure_ok.mp h
    have hm : d ∉ (getDelegations s a).map Delegation.delegatee := by simpa using hd
    have hz := amountTo_absent hm
    rw [rescale_setAmount_absent ht _ hm] at hr
    subst hr
    have hx (d') := amountTo_snoc (getDelegations s a) d d' n (getCurrentEpoch s₁)
    have hxd := hx d
    rw [if_pos rfl] at hxd
    obtain ⟨R, hR, hR'⟩ := addDelegatorToDelegatee_eq d a
      { s₁ with delegateeStake := s₁.delegateeStake.set d (getDelegateeStake s d + n) } hn
    rw [hR]
    refine ⟨getDelegations s a ++ [⟨d, n, getCurrentEpoch s₁⟩],
      entry_of_settled hv hs (ht.snoc hm hn _) ?_ ?_ ?_, hxd, hb.requests⟩
    · intro d' he
      rw [hx, if_neg (Ne.symm he), add_zero]
    · omega
    · rw [hxd, hz, zero_add, ← hb.delegators]
      exact hR'

theorem delegate_effect (hv : (book s).Valid) (h : delegate env a d n s = .ok s') :
    Effect within even s s' := by
  obtain ⟨l, he, hx, _⟩ := delegate_ok hv h
  exact he.effect (by omega) fun _ => by omega

theorem finalizeRevocation_ok (hv : (book s).Valid)
    (h : finalizeRevocation env a d s = .ok s') :
    ∃ l requested,
      Entry a d l (getDelegateeStake s d - amountTo d (getDelegations s a)) s s' ∧
      amountTo d l = 0 ∧ s.revocationRequest.get (a, d) = some requested ∧
      requested < getCurrentEpoch s ∧
      s'.revocationRequest = s.revocationRequest.remove (a, d) ∧
      s'.pendingUndelegation = s.pendingUndelegation := by
  simp only [finalizeRevocation, bind_ok, require_ok, okOr_ok, i128Sub_ok, pure_ok,
    settlePendingFor_eq] at h
  obtain ⟨_, _, _, _, requested, hq, _, he, s₁, hs, _, ⟨_, rfl⟩, h⟩ := h
  have hb := settleFor_settles hs
  have ht : Tidy (getDelegations s a) := hv.tidy a
  rw [hb.delegations, hb.stake, find_amount _ _ ht, filter_ne ht] at h
  have hx : amountTo d (rescale (setAmount d fun _ => 0) (getDelegations s a)) = 0 := by
    by_cases hm : d ∈ (getDelegations s a).map Delegation.delegatee
    · exact amountTo_setAmount ht hm _
    · exact amountTo_rescale_absent _ hm
  have hp := ht.amountTo_nonneg d
  have hc : totalAmount (getDelegations s a) ≤ getStakedBalance s a := hv.covered a
  obtain ⟨R, hR, hR'⟩ := removeDelegatorFromDelegatee_eq d a { s₁ with
    delegateeStake := s₁.delegateeStake.set d
      (getDelegateeStake s d - amountTo d (getDelegations s a))
    delegations := s₁.delegations.set a
      (rescale (setAmount d fun _ => 0) (getDelegations s a)) } (lt_irrefl 0)
  rw [hR] at h
  subst h
  refine ⟨_, requested, entry_of_settled hv hs (rescale_tidy ht (setAmount d fun _ => 0)) ?_
    (by omega) ?_, hx, hq, he, ?_, hb.requests.2⟩
  · intro d' he
    exact amountTo_setAmount_of_ne ht (fun _ => 0) he
  · rw [hx, ← hb.delegators]
    exact hR'
  · rw [← hb.requests.1]

theorem finalizeRevocation_effect (hv : (book s).Valid)
    (h : finalizeRevocation env a d s = .ok s') : Effect within even s s' := by
  obtain ⟨l, _, he, hx, _⟩ := finalizeRevocation_ok hv h
  exact he.effect (by omega) fun _ => by omega

theorem removeIfUndelegated_eq (full : Bool) (d a : Address) (s : State)
    (ht : full = true → ¬ 0 < n) (hf : full = false → (a ∈ getDelegatorsOf s d ↔ 0 < n)) :
    ∃ R, removeIfUndelegated full d a s = { s with delegatorsOf := R } ∧
      (R.getD · []) = Function.update (getDelegatorsOf s) d
        (enlist a n (getDelegatorsOf s d)) := by
  cases full with
  | true => exact removeDelegatorFromDelegatee_eq d a s (ht rfl)
  | false =>
    refine ⟨s.delegatorsOf, rfl, ?_⟩
    rw [enlist_same (hf rfl), Function.update_eq_self]
    rfl

/-- No more is undelegated than is still delegated. -/
def UndelegatesWithin (s : State) (a d : Address) : Prop :=
  ∀ p ∈ s.pendingUndelegation.get (a, d), 0 < amountTo d (getDelegations s a) →
    p.amount ≤ amountTo d (getDelegations s a)

theorem undelegateFrom_amounts (ht : Tidy l) (hp : 0 < n)
    (h : l.foldlM (undelegateFrom d n) ⟨[], 0, false⟩ = .ok r) :
    Tidy r.newDelegations ∧
      (∀ d', d' ≠ d → amountTo d' r.newDelegations = amountTo d' l) ∧
      amountTo d r.newDelegations = max (amountTo d l - n) 0 ∧
      r.amountRemoved = (if 0 < amountTo d l then n else 0) ∧
      (r.fullyRemoved = true ↔ 0 < amountTo d l ∧ amountTo d l ≤ n) := by
  obtain ⟨h₁, h₂, h₃⟩ := undelegateFrom_fold ht h
  rw [List.nil_append] at h₁
  refine ⟨h₁ ▸ rescale_tidy ht _, fun d' he => ?_, ?_, ?_, h₃.trans ?_⟩
  · rw [h₁]
    exact amountTo_setAmount_of_ne ht _ he
  · have hx := ht.amountTo_nonneg d
    by_cases hz : 0 < amountTo d l
    · rw [h₁]
      exact amountTo_setAmount ht (ht.amountTo_pos_iff.mp hz) _
    · rw [h₁, amountTo_rescale_absent _ (ht.amountTo_pos_iff.not.mp hz)]
      omega
  · exact h₂.trans (if_congr ht.amountTo_pos_iff.symm rfl rfl)
  · simp

theorem completeUndelegate_ok (hv : (book s).Valid)
    (h : completeUndelegate env a d s = .ok s') :
    ∃ l p, Entry a d l (getDelegateeStake s d -
        if 0 < amountTo d (getDelegations s a) then p.amount else 0) s s' ∧
      amountTo d l = max (amountTo d (getDelegations s a) - p.amount) 0 ∧
      s.pendingUndelegation.get (a, d) = some p ∧
      getUndelegationCooldown s ≤ env.timestamp - p.requestTime ∧
      s'.revocationRequest = s.revocationRequest ∧
      s'.pendingUndelegation = s.pendingUndelegation.remove (a, d) := by
  simp only [completeUndelegate, bind_ok, require_ok, okOr_ok, i128Sub_ok, pure_ok,
    settlePendingFor_eq] at h
  obtain ⟨_, _, _, _, p, hp, _, hw, s₁, hs, r, hr, _, ⟨_, rfl⟩, h⟩ := h
  have hb := settleFor_settles hs
  have ht : Tidy (getDelegations s a) := hv.tidy a
  rw [hb.delegations] at hr
  obtain ⟨hl, hd, hx, hq, hf⟩ := undelegateFrom_amounts ht p.positive hr
  have hn := ht.amountTo_nonneg d
  have hpos := p.positive
  have hc : totalAmount (getDelegations s a) ≤ getStakedBalance s a := hv.covered a
  rw [hb.stake] at h
  obtain ⟨R, hR, hR'⟩ := removeIfUndelegated_eq r.fullyRemoved d a { s₁ with
    delegations := s₁.delegations.set a r.newDelegations
    delegateeStake := s₁.delegateeStake.set d (getDelegateeStake s d - r.amountRemoved) }
    (n := amountTo d r.newDelegations)
    (fun ht => by
      have := hf.mp ht
      omega)
    (fun ht => by
      have hnot : ¬ (0 < amountTo d (getDelegations s a) ∧
          amountTo d (getDelegations s a) ≤ p.amount) := fun hc => by
        rw [hf.mpr hc] at ht
        cases ht
      have hl : a ∈ getDelegatorsOf s₁ d ↔ 0 < amountTo d (getDelegations s a) := by
        rw [hb.delegators]
        exact hv.listed a d
      exact hl.trans (by omega))
  rw [hR] at h
  subst h
  refine ⟨r.newDelegations, p, ?_, hx, hp, hw, hb.requests.1, ?_⟩
  · rw [← hq]
    apply entry_of_settled hv hs hl hd (by omega)
    rw [← hb.delegators]
    exact hR'
  · rw [← hb.requests.2]

theorem completeUndelegate_effect (hv : (book s).Valid)
    (h : completeUndelegate env a d s = .ok s') :
    Effect (UndelegatesWithin s a d) even s s' := by
  obtain ⟨l, p, he, hx, hp, _⟩ := completeUndelegate_ok hv h
  have hpos := p.positive
  have hn : 0 ≤ amountTo d (getDelegations s a) := hv.position_nonneg a d
  apply he.effect
  · split <;> omega
  · intro hwithin
    have hw := hwithin p hp
    split <;> omega

/-- The delegatee's delegations can be reduced in proportion without rounding. -/
def SlashesEvenly (s : State) (d : Address) (n : Int) : Prop :=
  ∀ a ∈ getDelegatorsOf s d,
    getDelegateeStake s d ∣ amountTo d (getDelegations s a) * (getDelegateeStake s d - n)

/-- The loops of `apply_delegatee_slash` reduce every position at the delegatee, and the balance
behind it. -/
theorem slashDelegators_ok (hv : (book s).Valid) (hn : 0 ≤ n) (hlt : n < getDelegateeStake s d)
    (h : (getDelegatorsOf s d).foldlM (slashDelegator d n (getDelegateeStake s d))
      ({ s with delegateeStake := s.delegateeStake.set d n }, 0) = .ok (r, y)) :
    ∃ B D, r = { s with
        delegateeStake := s.delegateeStake.set d n
        stakedBalance := B
        delegations := D } ∧
      (∀ a, B.getD a 0 = getStakedBalance s a -
        lost n (getDelegateeStake s d) (amountTo d (getDelegations s a))) ∧
      (∀ a, D.getD a [] = rescale (setAmount d ((book s).share d n)) (getDelegations s a)) ∧
      y = ∑ᶠ a, lost n (getDelegateeStake s d) (amountTo d (getDelegations s a)) := by
  obtain ⟨B, D, hr, hB, hD, hy⟩ := slashDelegator_fold h (hv.nodup d)
    (fun a _ => (hv.tidy a).single d) hn hlt fun a _ => hv.position_le a d
  have hm (a) (ha : a ∉ getDelegatorsOf s d) :
      d ∉ (getDelegations s a).map Delegation.delegatee :=
    (hv.tidy a).amountTo_pos_iff.not.mp ((hv.listed a d).not.mp ha)
  refine ⟨B, D, hr, fun a => (hB a).trans ?_, fun a => (hD a).trans ?_, hy.trans ?_⟩
  · by_cases ha : a ∈ getDelegatorsOf s d
    · exact if_pos ha
    · refine (if_neg ha).trans ?_
      rw [amountTo_absent (hm a ha), lost_zero, sub_zero]
      rfl
  · by_cases ha : a ∈ getDelegatorsOf s d
    · exact (if_pos ha).trans ((hv.tidy a).reduced_eq d n _)
    · exact (if_neg ha).trans (rescale_setAmount_absent (hv.tidy a) _ (hm a ha)).symm
  · rw [zero_add]
    refine (finsum_eq_list_sum (hv.nodup d) fun a ha => ?_).symm
    exact (congrArg _ (amountTo_absent (hm a ha))).trans (lost_zero _ _)

theorem applyDelegateeSlash_ok (hv : (book s).Valid)
    (h : applyDelegateeSlash env x d n s = .ok s') :
    (∃ s₁, Restakes [d] s s₁ s') ∧ 0 < n ∧ n ≤ getDelegateeStake s d ∧
      book s' = (book s).column d (getDelegateeStake s d - n) ∧
      s'.revocationRequest = s.revocationRequest ∧
      s'.pendingUndelegation = s.pendingUndelegation := by
  simp only [applyDelegateeSlash, bind_ok, require_ok, i128Sub_ok, pure_ok,
    settlePendingFor_eq] at h
  obtain ⟨_, _, _, _, _, _, _, hn, _, hle, s₁, hs, _, ⟨_, rfl⟩, ⟨r, y⟩, hr, _, ⟨_, rfl⟩, h⟩ := h
  have hb := settleFor_settles hs
  have hq := hb.requests
  rw [← hb.stake] at hle hr ⊢
  rw [← hb.book] at hv ⊢
  have hn₀ : 0 ≤ getDelegateeStake s₁ d - n := sub_nonneg.mpr hle
  have hn₁ : getDelegateeStake s₁ d - n < getDelegateeStake s₁ d := sub_lt_self _ hn
  obtain ⟨B, D, rfl, hB, hD, hy⟩ := slashDelegators_ok hv hn₀ hn₁ hr
  have hres : Restakes [d] s s₁ s' := by
    rw [← h]
    exact ⟨hs, rfl, rfl, rfl, rfl, rfl, fun _ hd =>
      Store.getD_set_of_ne _ _ _ fun he => hd (List.mem_singleton.mpr he)⟩
  refine ⟨⟨s₁, hres⟩, hn, hle, ?_, by rw [← h]; exact hq.1, by rw [← h]; exact hq.2⟩
  rw [← h]
  apply eq_column
  · exact hD
  · refine (Store.getD_set_update ..).trans ?_
    congr 1
    apply List.filter_congr
    intro a _
    have hp := ((hv.column hn₀ hn₁).tidy a).amountTo_pos_iff (d := d)
    have hx := hv.position_column hn₀ hn₁ a
    rw [position] at hx
    rw [hx, List.mem_map] at hp
    apply Bool.eq_iff_iff.mpr
    simp only [List.any_eq_true, decide_eq_true_eq, getDelegations, hD a]
    exact hp.symm
  · exact Store.getD_set_update ..
  · exact hB
  · rw [hy]
    rfl

theorem applyDelegateeSlash_effect (hv : (book s).Valid)
    (h : applyDelegateeSlash env x d n s = .ok s') : Effect within (SlashesEvenly s d n) s s' := by
  obtain ⟨⟨s₁, hres⟩, hn, hle, hb, _⟩ := applyDelegateeSlash_ok hv h
  refine ⟨⟨[d], s₁, hres⟩, ?_⟩
  rw [hb]
  exact .column (sub_nonneg.mpr hle) (sub_lt_self _ hn) id

theorem trimDelegations_ok {r r' : State}
    (h : l.foldlM (trimDelegation a n (totalAmount l)) (r, []) = .ok (r', l')) (hl : Tidy l)
    (hn : 0 ≤ n) (ht : 0 < totalAmount l) (hlt : n < totalAmount l)
    (hm : ∀ d, a ∈ getDelegatorsOf r d ↔ 0 < amountTo d l) :
    Tidy l' ∧ totalAmount l' ≤ n ∧
      (∀ d, 0 ≤ amountTo d l' ∧ amountTo d l' ≤ amountTo d l) ∧
      ∃ S R, r' = { r with delegateeStake := S, delegatorsOf := R } ∧
        (∀ d, S.getD d 0 = lowered (getDelegateeStake r d) (amountTo d l - amountTo d l')) ∧
        ∀ d, R.getD d [] = enlist a (amountTo d l') (getDelegatorsOf r d) := by
  obtain ⟨S, R, hr, hS, hR, hl'⟩ := trimDelegation_fold hl hn ht h
  dsimp only [List.nil_append] at hr hl'
  have hle := totalAmount_trim_le hl hn ht
  have hpart := fun d => amountTo_rescale_le hl (d := d) fun e he =>
    part_le (hl.positive e he).le hlt.le ht
  rw [← hl'] at hS hR hle hpart
  have htidy : Tidy l' := hl' ▸ rescale_tidy hl _
  refine ⟨htidy, hle, fun d => ⟨htidy.amountTo_nonneg d, hpart d⟩, S, R, hr, hS, fun d => ?_⟩
  refine (hR d).trans ?_
  by_cases hy : 0 < amountTo d l'
  · have hsame := enlist_same ((hm d).trans (iff_of_true (hy.trans_le (hpart d)) hy))
    exact (if_neg fun hc => hc.2 hy).trans hsame.symm
  · by_cases hd : d ∈ l.map Delegation.delegatee
    · exact (if_pos ⟨hd, hy⟩).trans (if_neg hy).symm
    · have hz := hl.amountTo_pos_iff.not.mpr hd
      exact (if_neg fun hc => hd hc.1).trans
        (enlist_same ((hm d).trans (iff_of_false hz hy))).symm

/-- A call that settles the delegatees of a staker, and then trims its delegations. -/
theorem effect_of_trim (hs : settleFor ((getDelegations s a).map Delegation.delegatee) s = .ok s₁)
    (hl : Tidy l) (hn : totalAmount l ≤ n)
    (hpart : ∀ d, 0 ≤ amountTo d l ∧ amountTo d l ≤ amountTo d (getDelegations s₁ a))
    (hS : ∀ d, S.getD d 0 =
      lowered (getDelegateeStake s₁ d) (amountTo d (getDelegations s₁ a) - amountTo d l))
    (hR : ∀ d, R.getD d [] = enlist a (amountTo d l) (getDelegatorsOf s₁ d))
    (ht : t = getTotalStaked s₁ - getStakedBalance s₁ a + n) :
    Effect within even s { s₁ with
      delegateeStake := S
      delegatorsOf := R
      stakedBalance := s₁.stakedBalance.set a n
      totalStaked := some t
      delegations := s₁.delegations.set a l } := by
  have hb := settleFor_settles hs
  refine ⟨⟨_, s₁, hs, rfl, rfl, rfl, rfl, rfl, fun d hd => (hS d).trans ?_⟩, ?_⟩
  · rw [← hb.delegations] at hd
    have hz := hpart d
    rw [amountTo_absent hd] at hz ⊢
    rw [le_antisymm hz.2 hz.1]
    rfl
  · rw [← hb.book]
    apply Moves.of_row (l := l) (a := a) (n := n) hl hn
    · exact eq_row (Store.getD_set_update ..) hR (Store.getD_set_update ..) ht
    · intro d
      refine (hS d).trans_le ?_
      have hx := hpart d
      simp only [lowered, book, position, getDelegateeStake] at hx ⊢
      split <;> omega
    · intro _ hp d
      refine (hS d).trans ?_
      have hd := hp d
      have hx := hpart d
      simp only [lowered, book, position, getDelegateeStake] at hd hx ⊢
      split <;> omega

theorem slashStake_ok (hv : (book s).Valid) (h : slashStake env x a n s = .ok (s', m)) :
    Effect within even s s' ∧
      (∃ l, getDelegations s' = Function.update (getDelegations s) a l ∧
        ∀ d, amountTo d l ≤ amountTo d (getDelegations s a)) ∧
      s'.revocationRequest = s.revocationRequest ∧
      s'.pendingUndelegation = s.pendingUndelegation := by
  simp only [slashStake, bind_ok, require_ok, i128Sub_ok, settleAllDelegates_eq] at h
  obtain ⟨_, _, _, hn, _, hle, s₁, hs, _, ⟨_, rfl⟩, _, ⟨_, rfl⟩, t, ht, h⟩ := h
  have hb := settleFor_settles hs
  replace ht : t = totalAmount (getDelegations s₁ a) := totalDelegated_ok ht
  rw [← hb.balance] at hle h
  have hv₁ : (book s₁).Valid := hb.book ▸ hv
  have hl : Tidy (getDelegations s₁ a) := hv₁.tidy a
  split at h <;> rename_i hc
  · rw [ht] at hc h
    simp only [bind_ok, pure_ok, Prod.mk.injEq] at h
    obtain ⟨⟨r, l⟩, hr, rfl, _⟩ := h
    obtain ⟨htidy, htotal, hpart, S, R, rfl, hS, hR⟩ :=
      trimDelegations_ok hr hl (sub_nonneg.mpr hle) hc.1 hc.2 (hv₁.listed a)
    refine ⟨effect_of_trim hs htidy htotal hpart hS hR (by omega), ⟨l, ?_, fun d => ?_⟩,
      hb.requests⟩
    · rw [← hb.delegations]
      exact Store.getD_set_update ..
    · rw [← hb.delegations]
      exact (hpart d).2
  · simp only [pure_ok, Prod.mk.injEq] at h
    obtain ⟨rfl, _⟩ := h
    have hz := hl.totalAmount_nonneg
    refine ⟨effect_of_balance hv hs (by omega) (by omega), ⟨getDelegations s a, ?_, ?_⟩,
      hb.requests⟩
    · rw [Function.update_eq_self]
      exact hb.delegations
    · exact fun _ => le_rfl

theorem slashStake_effect (hv : (book s).Valid) (h : slashStake env x a n s = .ok (s', m)) :
    Effect within even s s' :=
  (slashStake_ok hv h).1

end Shelterflex.StakeDelegation
