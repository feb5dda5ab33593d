import Shelterflex.StakingRewards.Model
import Shelterflex.Lib.RewardIndex

namespace Shelterflex.StakingRewards
open Lib
set_option autoImplicit true

/-- The abstract books of the contract. -/
def ledger (s : State) : RewardIndex Address where
  share u := (getUserStake s u).amount
  snapshot u := (getUserStake s u).userIndex
  banked u := (getUserStake s u).pendingAmount
  index := getRewardIndex s

theorem scale_pos : 0 < scale := by decide

theorem getUserStake_set (m : Store Address UserStake) (user u : Address) (v : UserStake) :
    (m.set user v).getD u ⟨0, 0, 0⟩ = if u = user then v else m.getD u ⟨0, 0, 0⟩ :=
  m.getD_set user u v ⟨0, 0, 0⟩

theorem calcPending_ok (h : calcPending v i = .ok n) :
    n = (v.amount * (i - v.userIndex)).tdiv scale := by
  simp only [calcPending, bind_ok, i128Sub_ok, i128Mul_ok, i128Div_ok] at h
  obtain ⟨_, ⟨_, rfl⟩, _, ⟨_, rfl⟩, _, _, rfl⟩ := h
  rfl

/-- What the code pays out is what the books allow. -/
theorem calcPending_claimable (hw : (ledger s).WellFormed)
    (h : calcPending (getUserStake s u) (getRewardIndex s) = .ok n) :
    (ledger s).claimable scale u = (getUserStake s u).pendingAmount + n := by
  have hn : 0 ≤ (getUserStake s u).amount * (getRewardIndex s - (getUserStake s u).userIndex) :=
    hw.accrued_nonneg u
  rw [calcPending_ok h, Int.tdiv_eq_ediv_of_nonneg hn]
  rfl

theorem ledger_write (hw : (ledger s).WellFormed)
    (h : calcPending (getUserStake s user) (getRewardIndex s) = .ok earned)
    (hu : s'.userStake = s.userStake.set user ⟨staked, getRewardIndex s, pending⟩)
    (hi : getRewardIndex s' = getRewardIndex s) :
    ledger s' = (ledger s).write scale user staked
      ((getUserStake s user).pendingAmount + earned - pending) := by
  have hc := calcPending_claimable hw h
  ext u
  all_goals simp only [ledger, RewardIndex.write, RewardIndex.settle, RewardIndex.setShare,
    RewardIndex.withdraw, getUserStake, hu, hi, getUserStake_set]
  all_goals by_cases he : u = user
  all_goals simp_all [ledger, getUserStake]

theorem ledger_finite (s : State) :
    (ledger s).share.support.Finite ∧ (ledger s).banked.support.Finite := by
  constructor <;> apply s.userStake.support_finite <;> intro u hu <;>
    simp [ledger, getUserStake, Store.getD, hu]

/-- What `get_claimable` returns; a view that overflows returns nothing. -/
def claimableView (s : State) (u : Address) : Int := (getClaimable s u).toOption.getD 0

theorem claimableView_of_ok (hw : (ledger s).WellFormed) (h : getClaimable s u = .ok n) :
    claimableView s u = (ledger s).claimable scale u := by
  rw [claimableView, h]
  simp only [getClaimable, bind_ok, i128Add_ok] at h
  obtain ⟨earned, he, _, rfl⟩ := h
  rw [calcPending_claimable hw he]
  exact add_comm _ _

theorem claimableView_cases (hw : (ledger s).WellFormed) (u : Address) :
    claimableView s u = 0 ∨ claimableView s u = (ledger s).claimable scale u := by
  cases h : getClaimable s u with
  | error e =>
    left
    rw [claimableView, h]
    rfl
  | ok n => exact .inr (claimableView_of_ok hw h)

theorem claimableView_nonneg (hw : (ledger s).WellFormed) (u : Address) :
    0 ≤ claimableView s u := by
  rcases claimableView_cases hw u with h | h
  · exact h.ge
  · exact h ▸ hw.claimable_nonneg scale_pos u

theorem claimableView_finite (hw : (ledger s).WellFormed) : (claimableView s).support.Finite := by
  apply (hw.claimable_finite scale).subset
  intro u hu
  rcases claimableView_cases hw u with h | h
  · exact absurd h hu
  · exact fun he => hu (h.trans he)

/-! What each reward operation does. -/

theorem stake_ok (h : stake env user amount s = .ok s') :
    0 < amount ∧ ∃ earned,
      calcPending (getUserStake s user) (getRewardIndex s) = .ok earned ∧
      s' = { s with
        userStake := s.userStake.set user
          ⟨(getUserStake s user).amount + amount, getRewardIndex s,
            (getUserStake s user).pendingAmount + earned⟩
        totalStaked := some (getTotalStaked s + amount) } := by
  simp only [stake, bind_ok, pure_ok, requireAuth_ok, require_ok, i128Add_ok] at h
  obtain ⟨_, _, _, _, _, ha, earned, he, _, ⟨_, rfl⟩, _, ⟨_, rfl⟩, _, ⟨_, rfl⟩, rfl⟩ := h
  exact ⟨ha, earned, he, rfl⟩

theorem unstake_ok (h : unstake env user amount s = .ok s') :
    0 < amount ∧ amount ≤ (getUserStake s user).amount ∧ ∃ earned,
      calcPending (getUserStake s user) (getRewardIndex s) = .ok earned ∧
      s' = { s with
        userStake := s.userStake.set user
          ⟨(getUserStake s user).amount - amount, getRewardIndex s,
            (getUserStake s user).pendingAmount + earned⟩
        totalStaked := some (getTotalStaked s - amount) } := by
  simp only [unstake, bind_ok, pure_ok, requireAuth_ok, require_ok, demand_ok, i128Add_ok,
    i128Sub_ok] at h
  obtain ⟨_, _, _, _, _, ha, _, hb, earned, he, _, ⟨_, rfl⟩, _, ⟨_, rfl⟩, _, ⟨_, rfl⟩, rfl⟩ := h
  exact ⟨ha, hb, earned, he, rfl⟩

theorem claim_ok (h : claim env user s = .ok (s', n)) :
    ∃ earned, calcPending (getUserStake s user) (getRewardIndex s) = .ok earned ∧
      n = (getUserStake s user).pendingAmount + earned ∧
      s' = { s with
        userStake := s.userStake.set user
          ⟨(getUserStake s user).amount, getRewardIndex s, 0⟩ } := by
  simp only [claim, bind_ok, pure_ok, requireAuth_ok, i128Add_ok, Prod.mk.injEq] at h
  obtain ⟨_, _, _, _, earned, he, _, ⟨_, rfl⟩, rfl, rfl⟩ := h
  exact ⟨earned, he, add_comm _ _, rfl⟩

/-- The index moves by a rounded-down quotient; what that fails to hand out becomes dust. -/
def increment (s : State) (amount : Int) : Int :=
  ((amount + getPendingDust s) * scale).tdiv (getTotalStaked s)

theorem distribute_ok (h : distribute amount s = .ok s') :
    0 < amount ∧
      (getTotalStaked s = 0 ∧ s' = { s with totalFunded := some (getTotalFunded s + amount) } ∨
        getTotalStaked s ≠ 0 ∧
        s' = { s with
          totalFunded := some (getTotalFunded s + amount)
          rewardIndex := some (getRewardIndex s + increment s amount)
          pendingDust := some (amount + getPendingDust s -
            (increment s amount * getTotalStaked s).tdiv scale) }) := by
  simp only [distribute, bind_ok, require_ok, i128Add_ok] at h
  obtain ⟨_, ha, _, ⟨_, rfl⟩, h⟩ := h
  refine ⟨ha, ?_⟩
  split at h
  · rename_i ht
    exact .inl ⟨ht, (pure_ok.mp h).symm⟩
  · rename_i ht
    simp only [bind_ok, pure_ok, i128Add_ok, i128Mul_ok, i128Div_ok, i128Sub_ok] at h
    obtain ⟨_, ⟨_, rfl⟩, _, ⟨_, rfl⟩, _, ⟨_, _, rfl⟩, _, ⟨_, rfl⟩, _, ⟨_, _, rfl⟩, _, ⟨_, rfl⟩, _,
      ⟨_, rfl⟩, rfl⟩ := h
    exact .inr ⟨ht, rfl⟩

end Shelterflex.StakingRewards
