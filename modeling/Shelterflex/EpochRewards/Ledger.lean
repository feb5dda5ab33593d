import Shelterflex.EpochRewards.Model
import Shelterflex.Lib.RewardIndex

namespace Shelterflex.EpochRewards
open Lib
set_option autoImplicit true

/-- The abstract books of the contract. -/
def ledger (s : State) : RewardIndex Address where
  share u := (getUserStake s u).amount
  snapshot u := (getUserStake s u).userRewardIndex
  banked := getUnclaimed s
  index := getRewardIndex s

theorem scale_pos : 0 < scale := by decide

/-- What holds of the reward entries in every reachable state. Nothing is funded before `init`. -/
structure Books (s : State) : Prop where
  wellFormed : (ledger s).WellFormed
  idle : s.admin = none → getRewardIndex s = 0

/-- The total is the sum of the stakes. A stake that comes before `init` is lost from it. -/
def Balanced (s : State) : Prop := getTotalStaked s = ∑ᶠ u, (getUserStake s u).amount

theorem Balanced.total_nonneg (h : Balanced s) (hb : Books s) : 0 ≤ getTotalStaked s :=
  h.ge.trans' (finsum_nonneg hb.wellFormed.share_nonneg)

theorem ledger_finite (s : State) :
    (ledger s).share.support.Finite ∧ (ledger s).banked.support.Finite := by
  constructor
  · apply s.userStake.support_finite
    intro u hu
    simp only [ledger, getUserStake, Store.getD, hu, Option.getD_none]
  · apply s.unclaimedRewards.support_finite
    intro u hu
    simp only [ledger, getUnclaimed, Store.getD, hu, Option.getD_none]

theorem calcPending_ok (h : calcPending v i = .ok n) :
    n = (v.amount * (i - v.userRewardIndex)).tdiv scale := by
  unfold calcPending at h
  split at h
  · rename_i hz
    rw [hz, zero_mul, Int.zero_tdiv]
    exact (pure_ok.mp h).symm
  · simp only [bind_ok, i128Sub_ok, i128Mul_ok, i128Div_ok] at h
    obtain ⟨_, ⟨_, rfl⟩, _, ⟨_, rfl⟩, _, _, rfl⟩ := h
    rfl

theorem calcPending_nonneg (hw : (ledger s).WellFormed)
    (h : calcPending (getUserStake s u) (getRewardIndex s) = .ok n) : 0 ≤ n := by
  rw [calcPending_ok h]
  exact Int.tdiv_nonneg (hw.accrued_nonneg u) scale_pos.le

/-- What the code pays out is what the books allow. -/
theorem calcPending_claimable (hw : (ledger s).WellFormed)
    (h : calcPending (getUserStake s u) (getRewardIndex s) = .ok n) :
    (ledger s).claimable scale u = getUnclaimed s u + n := by
  have hn : 0 ≤ (getUserStake s u).amount *
      (getRewardIndex s - (getUserStake s u).userRewardIndex) := hw.accrued_nonneg u
  rw [calcPending_ok h, Int.tdiv_eq_ediv_of_nonneg hn]
  rfl

theorem ledger_write (hw : (ledger s).WellFormed)
    (h : calcPending (getUserStake s user) (getRewardIndex s) = .ok pending)
    (hu : s'.userStake = s.userStake.set user ⟨staked, getRewardIndex s⟩)
    (hm : s'.unclaimedRewards = m)
    (hb : ∀ u, m.getD u 0 = if u = user then banked else getUnclaimed s u)
    (hi : s'.rewardIndex = s.rewardIndex) :
    ledger s' = (ledger s).write scale user staked (getUnclaimed s user + pending - banked) := by
  have hc := calcPending_claimable hw h
  have hstake (u : Address) : getUserStake s' u =
      if u = user then ⟨staked, getRewardIndex s⟩ else getUserStake s u := by
    rw [getUserStake, hu]
    exact Store.getD_set _ _ _ _ _
  ext u
  · simp only [ledger, hstake, RewardIndex.write, RewardIndex.setShare, RewardIndex.withdraw,
      RewardIndex.settle, Function.update_apply]
    split <;> rfl
  · simp only [ledger, hstake, RewardIndex.write, RewardIndex.setShare, RewardIndex.withdraw,
      RewardIndex.settle, Function.update_apply]
    split <;> rfl
  · have hb' : getUnclaimed s' u = if u = user then banked else getUnclaimed s u := by
      rw [getUnclaimed, hm]
      exact hb u
    by_cases he : u = user
    · subst he
      simp only [RewardIndex.write, RewardIndex.setShare, RewardIndex.withdraw,
        RewardIndex.settle, Function.update_self, hc]
      rw [if_pos rfl] at hb'
      exact hb'.trans (sub_sub_cancel _ _).symm
    · simp only [RewardIndex.write, RewardIndex.setShare, RewardIndex.withdraw,
        RewardIndex.settle, Function.update_of_ne he]
      exact hb'.trans (if_neg he)
  · exact congrArg (Option.getD · 0) hi

/-! What a successful call writes. -/

theorem bank_ok (h : bank user pending s = .ok s') :
    (0 < pending → InI128 (getUnclaimed s user + pending)) ∧
      ∃ m : Store Address Int, s' = { s with unclaimedRewards := m } ∧ (0 ≤ pending → ∀ u,
        m.getD u 0 = if u = user then getUnclaimed s user + pending else getUnclaimed s u) := by
  unfold bank at h
  split at h
  · simp only [bind_ok, i128Add_ok, pure_ok] at h
    obtain ⟨_, ⟨hf, rfl⟩, rfl⟩ := h
    exact ⟨fun _ => hf, _, rfl, fun _ u => Store.getD_set _ _ _ _ _⟩
  · rename_i hp
    cases pure_ok.mp h
    refine ⟨fun hp' => absurd hp' hp, _, rfl, fun hn u => ?_⟩
    have hz : pending = 0 := le_antisymm (not_lt.mp hp) hn
    split
    · rename_i he
      rw [he, hz, add_zero]
      rfl
    · rfl

theorem stake_ok (h : stake env user amount s = .ok s') :
    0 < amount ∧ ∃ pending m,
      calcPending (getUserStake s user) (getRewardIndex s) = .ok pending ∧
      (0 < pending → InI128 (getUnclaimed s user + pending)) ∧
      (0 ≤ pending → ∀ u, Store.getD m u 0 =
        if u = user then getUnclaimed s user + pending else getUnclaimed s u) ∧
      s' = { s with
        unclaimedRewards := m
        userStake := s.userStake.set user
          ⟨(getUserStake s user).amount + amount, getRewardIndex s⟩
        totalStaked := some (getTotalStaked s + amount) } := by
  simp only [stake, bind_ok, require_ok, i128Add_ok, pure_ok] at h
  obtain ⟨_, _, _, ha, pending, hp, s₁, hbank, _, ⟨_, rfl⟩, _, ⟨_, rfl⟩, rfl⟩ := h
  obtain ⟨hf, m, rfl, hm⟩ := bank_ok hbank
  exact ⟨ha, pending, m, hp, hf, hm, rfl⟩

theorem unstake_ok (h : unstake env user amount s = .ok s') :
    0 < amount ∧ amount ≤ (getUserStake s user).amount ∧ ∃ pending m,
      calcPending (getUserStake s user) (getRewardIndex s) = .ok pending ∧
      (0 < pending → InI128 (getUnclaimed s user + pending)) ∧
      (0 ≤ pending → ∀ u, Store.getD m u 0 =
        if u = user then getUnclaimed s user + pending else getUnclaimed s u) ∧
      s' = { s with
        unclaimedRewards := m
        userStake := s.userStake.set user
          ⟨(getUserStake s user).amount - amount, getRewardIndex s⟩
        totalStaked := some (getTotalStaked s - amount) } := by
  simp only [unstake, bind_ok, require_ok, i128Sub_ok, pure_ok] at h
  obtain ⟨_, _, _, ha, _, hle, pending, hp, s₁, hbank, _, ⟨_, rfl⟩, _, ⟨_, rfl⟩, rfl⟩ := h
  obtain ⟨hf, m, rfl, hm⟩ := bank_ok hbank
  exact ⟨ha, hle, pending, m, hp, hf, hm, rfl⟩

theorem claim_ok (h : claim env user s = .ok (s', n)) :
    ∃ pending, calcPending (getUserStake s user) (getRewardIndex s) = .ok pending ∧
      InI128 (pending + getUnclaimed s user) ∧ n = pending + getUnclaimed s user ∧
      s' = { s with
        userStake := s.userStake.set user ⟨(getUserStake s user).amount, getRewardIndex s⟩
        unclaimedRewards := s.unclaimedRewards.set user 0 } := by
  simp only [claim, bind_ok, i128Add_ok, pure_ok, Prod.mk.injEq] at h
  obtain ⟨_, _, _, _, pending, hp, _, ⟨hf, rfl⟩, rfl, rfl⟩ := h
  exact ⟨pending, hp, hf, rfl, rfl⟩

/-- How far a funding moves the index. -/
def increment (s : State) (amount : Int) : Int :=
  if 0 < getTotalStaked s then (amount * scale).tdiv (getTotalStaked s) else 0

theorem distribute_ok (h : distribute amount s = .ok (s', dust)) :
    ∃ r, s' = { s with rewardIndex := r } ∧ r.getD 0 = getRewardIndex s + increment s amount := by
  simp only [distribute] at h
  split at h
  · rename_i ht
    simp only [bind_ok, i128Mul_ok, i128Div_ok, i128Sub_ok, i128Add_ok, pure_ok,
      Prod.mk.injEq] at h
    obtain ⟨_, ⟨_, rfl⟩, _, ⟨_, _, rfl⟩, _, _, _, _, _, _, _, ⟨_, rfl⟩, rfl, _⟩ := h
    exact ⟨_, rfl, by rw [increment, if_pos ht]; rfl⟩
  · rename_i ht
    cases pure_ok.mp h
    exact ⟨_, rfl, by rw [increment, if_neg ht, add_zero]; rfl⟩

theorem requireOperatorOrAdmin_ok (h : requireOperatorOrAdmin env caller s = .ok u) :
    s.admin ≠ none := by
  simp only [requireOperatorOrAdmin, bind_ok, okOr_ok] at h
  obtain ⟨admin, ha, _⟩ := h
  rw [ha]
  exact Option.some_ne_none admin

theorem fundEpochRewards_ok (h : fundEpochRewards env caller amount s = .ok s') :
    0 < amount ∧ ∃ r m, r.getD 0 = getRewardIndex s + increment s amount ∧
      s' = { s with rewardIndex := r, epoch := m } ∧ s.admin ≠ none ∧
      ((getEpoch s (getCurrentEpoch s) = none ∧ m = s.epoch) ∨
        ∃ epoch dust, getEpoch s (getCurrentEpoch s) = some epoch ∧
          m = s.epoch.set (getCurrentEpoch s)
            { epoch with totalRewards := epoch.totalRewards + amount, dust }) := by
  simp only [fundEpochRewards, bind_ok, require_ok] at h
  obtain ⟨_, _, _, hadmin, _, ha, ⟨s₁, dust⟩, hd, h⟩ := h
  have hready := requireOperatorOrAdmin_ok hadmin
  obtain ⟨r, rfl, hr⟩ := distribute_ok hd
  split at h
  · rename_i epoch he
    simp only [bind_ok, i128Add_ok, pure_ok] at h
    obtain ⟨_, ⟨_, rfl⟩, _, ⟨_, rfl⟩, rfl⟩ := h
    exact ⟨ha, r, _, hr, rfl, hready, .inr ⟨epoch, _, he, rfl⟩⟩
  · rename_i he
    cases pure_ok.mp h
    exact ⟨ha, r, _, hr, rfl, hready, .inl ⟨he, rfl⟩⟩

/-- What a seal records and opens. -/
structure Seals (s s' : State) : Prop where
  ready : s.admin ≠ none
  admin : s'.admin = s.admin
  ledger : ledger s' = ledger s
  total : getTotalStaked s' = getTotalStaked s
  current : getCurrentEpoch s' = getCurrentEpoch s + 1
  start : s'.epochStartIndex = s.epochStartIndex.set (getCurrentEpoch s + 1) (getRewardIndex s)
  epochs : ∃ epoch info next, getEpoch s (getCurrentEpoch s) = some epoch ∧
    epoch.sealed = false ∧
    s'.epoch = (s.epoch.set (getCurrentEpoch s) info).set (getCurrentEpoch s + 1) next ∧
    info.sealed = true ∧ info.totalRewards = epoch.totalRewards ∧
    totalClaimable (getTotalStaked s) (getRewardIndex s)
      (s.epochStartIndex.getD (getCurrentEpoch s) 0) = .ok info.totalClaimableAtSeal ∧
    info.dust = max (epoch.totalRewards - info.totalClaimableAtSeal) 0 ∧
    next.sealed = false ∧ next.totalRewards = 0 ∧
    next.carriedForward = epoch.carriedForward + epoch.totalRewards

theorem sealEpoch_ok (h : sealEpoch env caller targetEpoch duration s = .ok s') : Seals s s' := by
  simp only [sealEpoch, bind_ok, require_ok, okOr_ok, u64Add_ok, i128Sub_ok, i128Add_ok,
    pure_ok] at h
  obtain ⟨_, hadmin, _, rfl, epoch, he, _, hopen, _, _, _, _, n, hn, _, ⟨_, rfl⟩, _, ⟨_, rfl⟩, _,
    ⟨_, rfl⟩, rfl⟩ := h
  exact ⟨requireOperatorOrAdmin_ok hadmin, rfl, rfl, rfl, rfl, rfl, epoch, _, _, he, hopen, rfl,
    rfl, rfl, hn, rfl, rfl, rfl, rfl⟩

/-- What `init` opens: the first epoch, with the index and the total back at nothing. -/
structure Starts (s s' : State) : Prop where
  unset : s.admin = none
  ready : s'.admin ≠ none
  ledger : ledger s' = { ledger s with index := 0 }
  total : getTotalStaked s' = 0
  current : getCurrentEpoch s' = 1
  start : s'.epochStartIndex = s.epochStartIndex.set 1 0
  epochs : ∃ now duration, s'.epoch = s.epoch.set 1 (openEpoch 1 now duration 0)

theorem init_ok (h : init env admin duration s = .ok s') : Starts s s' := by
  simp only [init, bind_ok, require_ok, pure_ok] at h
  obtain ⟨_, hn, rfl⟩ := h
  exact ⟨hn, Option.some_ne_none admin, rfl, rfl, rfl, rfl, _, _, rfl⟩

end Shelterflex.EpochRewards
