import Shelterflex.StakeDelegation.Book

namespace Shelterflex.StakeDelegation
open Lib Book
set_option autoImplicit true

/-! Settling rewards leaves the book alone. -/

/-- The states differ in what is banked for the delegatees only. -/
def Credits (s s' : State) : Prop :=
  ∃ P C, s' = { s with pendingRewards := P, delegateeCommissionBalance := C }

theorem Credits.refl (s : State) : Credits s s :=
  ⟨s.pendingRewards, s.delegateeCommissionBalance, rfl⟩

theorem Credits.trans (h : Credits s s') (h' : Credits s' s'') : Credits s s'' := by
  obtain ⟨_, _, rfl⟩ := h
  obtain ⟨P, C, rfl⟩ := h'
  exact ⟨P, C, rfl⟩

theorem creditCommission_credits (h : creditCommission d n s = .ok s') : Credits s s' := by
  unfold creditCommission at h
  split at h
  · simp only [bind_ok, pure_ok] at h
    obtain ⟨_, _, rfl⟩ := h
    exact ⟨s.pendingRewards, _, rfl⟩
  · cases pure_ok.mp h
    exact .refl s

theorem creditRewards_credits (h : creditRewards d n s = .ok s') : Credits s s' := by
  unfold creditRewards at h
  split at h
  · simp only [bind_ok, pure_ok] at h
    obtain ⟨_, _, rfl⟩ := h
    exact ⟨_, s.delegateeCommissionBalance, rfl⟩
  · cases pure_ok.mp h
    exact .refl s

theorem bankRewards_credits (h : bankRewards d i s = .ok s') : Credits s s' := by
  unfold bankRewards at h
  split at h
  · simp only [bind_ok] at h
    obtain ⟨gross, _, h⟩ := h
    split at h
    · simp only [bind_ok] at h
      obtain ⟨_, _, _, _, _, hc, hr⟩ := h
      exact (creditCommission_credits hc).trans (creditRewards_credits hr)
    · cases pure_ok.mp h
      exact .refl s
  · cases pure_ok.mp h
    exact .refl s

/-- The states differ in their reward entries only. -/
def Settles (s s' : State) : Prop :=
  ∃ P C I, s' = { s with
    pendingRewards := P, delegateeCommissionBalance := C, delegateeRewardIndex := I }

theorem Settles.refl (s : State) : Settles s s :=
  ⟨s.pendingRewards, s.delegateeCommissionBalance, s.delegateeRewardIndex, rfl⟩

theorem Settles.trans (h : Settles s s') (h' : Settles s' s'') : Settles s s'' := by
  obtain ⟨_, _, _, rfl⟩ := h
  obtain ⟨P, C, I, rfl⟩ := h'
  exact ⟨P, C, I, rfl⟩

theorem settlePendingFor_settles (h : settlePendingFor d i s = .ok s') : Settles s s' := by
  simp only [settlePendingFor, bind_ok, pure_ok] at h
  obtain ⟨s₁, hb, rfl⟩ := h
  obtain ⟨P, C, rfl⟩ := bankRewards_credits hb
  exact ⟨P, C, _, rfl⟩

theorem Settles.book (h : Settles s s') : book s' = book s := by
  obtain ⟨_, _, _, rfl⟩ := h
  rfl

/-- Settle several delegatees, as the calls do before they move stake. -/
def settleFor (ds : List Address) (s : State) : Outcome ContractError State :=
  ds.foldlM (fun s' d => settlePendingFor d (getRewardIndex s) s') s

theorem settleAllDelegates_eq (a : Address) (s : State) :
    settleAllDelegates a s = settleFor ((getDelegations s a).map Delegation.delegatee) s := by
  simp only [settleAllDelegates, settleFor, List.foldlM_map]

theorem settlePendingFor_eq (d : Address) (s : State) :
    settlePendingFor d (getRewardIndex s) s = settleFor [d] s :=
  (bind_pure _).symm

theorem settleFor_settles (h : settleFor ds s = .ok s') : Settles s s' :=
  foldlM_invariant (Settles s) (fun hs hd => hs.trans (settlePendingFor_settles hd)) (.refl s) h

theorem Settles.delegations (h : Settles s s') : getDelegations s' = getDelegations s :=
  congrArg Book.delegations h.book

theorem Settles.delegators (h : Settles s s') : getDelegatorsOf s' = getDelegatorsOf s :=
  congrArg Book.delegators h.book

theorem Settles.stake (h : Settles s s') : getDelegateeStake s' = getDelegateeStake s :=
  congrArg Book.stake h.book

theorem Settles.balance (h : Settles s s') : getStakedBalance s' = getStakedBalance s :=
  congrArg Book.balance h.book

theorem Settles.admin (h : Settles s s') : s'.admin = s.admin := by
  obtain ⟨_, _, _, rfl⟩ := h
  rfl

theorem Settles.requests (h : Settles s s') :
    s'.revocationRequest = s.revocationRequest ∧
      s'.pendingUndelegation = s.pendingUndelegation := by
  obtain ⟨_, _, _, rfl⟩ := h
  exact ⟨rfl, rfl⟩

/-- The delegatees `ds` were settled, and their stakes changed after that. -/
structure Restakes (ds : List Address) (s s₁ s' : State) : Prop where
  settled : settleFor ds s = .ok s₁
  admin : s'.admin = s₁.admin
  pendingRewards : s'.pendingRewards = s₁.pendingRewards
  commission : s'.delegateeCommissionBalance = s₁.delegateeCommissionBalance
  snapshot : s'.delegateeRewardIndex = s₁.delegateeRewardIndex
  index : s'.rewardIndex = s₁.rewardIndex
  stake : ∀ d, d ∉ ds → getDelegateeStake s' d = getDelegateeStake s₁ d

/-- What a call that moves stake does to the rewards and to the book. -/
structure Effect (within even : Prop) (s s' : State) : Prop where
  restakes : ∃ ds s₁, Restakes ds s s₁ s'
  moves : Moves within even (book s) (book s')

/-- A call that touches neither rewards nor stakes. -/
theorem Effect.keep (ha : s'.admin = s.admin) (hp : s'.pendingRewards = s.pendingRewards)
    (hc : s'.delegateeCommissionBalance = s.delegateeCommissionBalance)
    (hs : s'.delegateeRewardIndex = s.delegateeRewardIndex) (hi : s'.rewardIndex = s.rewardIndex)
    (hb : book s' = book s) : Effect within even s s' where
  restakes := ⟨[], s, rfl, ha, hp, hc, hs, hi, fun d _ => congrFun (congrArg Book.stake hb) d⟩
  moves := hb ▸ .keep

/-- A call that settles some delegatees and then changes the balance of one staker. -/
theorem effect_of_balance (hv : (book s).Valid) (hs : settleFor ds s = .ok s₁)
    (hn : totalAmount (getDelegations s₁ a) ≤ n)
    (ht : t = getTotalStaked s₁ - getStakedBalance s₁ a + n) :
    Effect within even s { s₁ with
      stakedBalance := s₁.stakedBalance.set a n
      totalStaked := some t } := by
  refine ⟨⟨_, s₁, hs, rfl, rfl, rfl, rfl, rfl, fun _ _ => rfl⟩, ?_⟩
  rw [← (settleFor_settles hs).book] at hv ⊢
  exact Moves.of_balance hv hn rfl rfl (Store.getD_set_update ..) ht rfl

end Shelterflex.StakeDelegation
