import Shelterflex.MvpStakingPool.Model
import Shelterflex.Lib.RewardIndex

namespace Shelterflex.MvpStakingPool
open Lib
set_option autoImplicit true

/-- The abstract books of the pool. -/
def ledger (s : State) : RewardIndex Address where
  share := getStakedBalance s
  snapshot := getUserRewardIndex s
  banked := getClaimableReward s
  index := getGlobalRewardIndex s

/-- What the user has earned since the snapshot, in parts of a unit. -/
def unaccrued (s : State) (user : Address) : Int :=
  getStakedBalance s user * (getGlobalRewardIndex s - getUserRewardIndex s user)

theorem claimable_ledger (s : State) (user : Address) :
    (ledger s).claimable rewardIndexScale user =
      getClaimableReward s user + unaccrued s user / rewardIndexScale := rfl

theorem residue_ledger (s : State) (user : Address) :
    (ledger s).residue rewardIndexScale user = unaccrued s user % rewardIndexScale := rfl

theorem rewardIndexScale_pos : 0 < rewardIndexScale := by decide

theorem bankAccrued_ok (h : (bankAccrued user s : Outcome ε State) = .ok s')
    (hw : (ledger s).WellFormed) :
    ∃ rewards : Store Address Int, s' = { s with claimableReward := rewards } ∧
      getClaimableReward s' =
        Function.update (getClaimableReward s) user
          ((ledger s).claimable rewardIndexScale user) := by
  have hn : 0 ≤ unaccrued s user := hw.accrued_nonneg user
  have hc := claimable_ledger s user
  unfold bankAccrued at h
  split at h
  · simp only [bind_ok, i128Sub_ok, i128Mul_ok, i128Div_ok] at h
    obtain ⟨_, ⟨_, rfl⟩, _, ⟨_, rfl⟩, accrued, ⟨_, _, hx⟩, h⟩ := h
    have hx : unaccrued s user / rewardIndexScale = accrued :=
      (Int.tdiv_eq_ediv_of_nonneg hn).symm.trans hx
    rw [hx] at hc
    split at h
    · simp only [bind_ok, i128Add_ok, pure_ok] at h
      obtain ⟨_, ⟨_, rfl⟩, rfl⟩ := h
      refine ⟨_, rfl, ?_⟩
      funext u
      simp only [getClaimableReward, Store.getD_set, Function.update_apply, hc]
    · rename_i hp
      cases pure_ok.mp h
      have hd := Int.ediv_nonneg hn rewardIndexScale_pos.le
      have hz : accrued = 0 := le_antisymm (not_lt.mp hp) (hx ▸ hd)
      rw [hc, hz, add_zero, Function.update_eq_self]
      exact ⟨s.claimableReward, rfl, rfl⟩
  · rename_i hs
    cases pure_ok.mp h
    have hz : getStakedBalance s user = 0 := le_antisymm (not_lt.mp hs) (hw.share_nonneg user)
    rw [hc, unaccrued, hz, zero_mul, Int.zero_ediv, add_zero, Function.update_eq_self]
    exact ⟨s.claimableReward, rfl, rfl⟩

/-- A state in which a user's account was settled, and nothing else was changed. -/
structure Accrued (user : Address) (s s' : State) : Prop where
  books : ledger s' = (ledger s).settle rewardIndexScale user
  total : getTotalStaked s' = getTotalStaked s
  used : getUsedStake s' = getUsedStake s
  token : s'.token = s.token

theorem accrueUserRewards_ok (h : (accrueUserRewards user s : Outcome ε State) = .ok s')
    (hw : (ledger s).WellFormed) : Accrued user s s' := by
  unfold accrueUserRewards at h
  split at h
  · rename_i hle
    cases pure_ok.mp h
    have he : getUserRewardIndex s user = getGlobalRewardIndex s :=
      le_antisymm (hw.snapshot_le user) hle
    exact ⟨(RewardIndex.settle_of_current he).symm, rfl, rfl, rfl⟩
  · simp only [bind_ok, pure_ok] at h
    obtain ⟨_, h₁, rfl⟩ := h
    obtain ⟨rewards, rfl, hr⟩ := bankAccrued_ok h₁ hw
    refine ⟨?_, rfl, rfl, rfl⟩
    ext u
    · rfl
    · simp only [ledger, RewardIndex.settle, getUserRewardIndex,
        getGlobalRewardIndex, Store.getD_set, Function.update_apply]
    · exact congrFun hr u
    · rfl

theorem Accrued.share_eq (h : Accrued user s s₁) : getStakedBalance s₁ = getStakedBalance s :=
  congrArg RewardIndex.share h.books

theorem Accrued.banked_eq (h : Accrued user s s₁) :
    getClaimableReward s₁ user = (ledger s).claimable rewardIndexScale user := by
  have hc := congrFun (congrArg RewardIndex.banked h.books) user
  exact hc.trans (Function.update_self _ _ _)

theorem ledger_setBalance (s : State) (user : Address) (n : Int) :
    ledger { s with stakedBalance := s.stakedBalance.set user n } = (ledger s).setShare user n := by
  ext u
  · simp only [ledger, RewardIndex.setShare, getStakedBalance, Store.getD_set,
      Function.update_apply]
  · rfl
  · rfl
  · rfl

theorem ledger_setReward (s : State) (user : Address) :
    ledger { s with claimableReward := s.claimableReward.set user 0 } =
      (ledger s).withdraw user (getClaimableReward s user) := by
  ext u
  · rfl
  · rfl
  · simp only [ledger, RewardIndex.withdraw, getClaimableReward, Store.getD_set,
      Function.update_apply, sub_self]
  · rfl

theorem putUsedStake_frame (user : Address) (n : Int) (s : State) :
    ∃ used, putUsedStake user n s = { s with usedStake := used } := by
  unfold putUsedStake
  split
  · exact ⟨_, rfl⟩
  · exact ⟨_, rfl⟩

theorem getUsedStake_putUsedStake (hn : 0 ≤ n) (s : State) (user : Address) :
    getUsedStake (putUsedStake user n s) = Function.update (getUsedStake s) user n := by
  funext u
  unfold putUsedStake
  split
  · rename_i hle
    have hz : n = 0 := le_antisymm hle hn
    by_cases he : u = user
    · subst u
      rw [Function.update_self, hz, getUsedStake, Store.get_remove_self]
      rfl
    · rw [Function.update_of_ne he, getUsedStake, Store.get_remove_of_ne _ he]
      rfl
  · by_cases he : u = user
    · subst u
      rw [Function.update_self, getUsedStake, Store.get_set_self]
      rfl
    · rw [Function.update_of_ne he, getUsedStake, Store.get_set_of_ne _ _ he]
      rfl

theorem getUsedStake_nonneg (s : State) (user : Address) : 0 ≤ getUsedStake s user := by
  unfold getUsedStake
  cases s.usedStake.get user with
  | none => exact le_rfl
  | some n => exact n.property.le

end Shelterflex.MvpStakingPool
