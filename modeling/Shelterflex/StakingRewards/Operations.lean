import Shelterflex.StakingRewards.Ledger

/-! What a successful call writes. -/

namespace Shelterflex.StakingRewards
open Lib
set_option autoImplicit true

/-- What holds of the reward entries in every reachable state. -/
structure Books (s : State) : Prop where
  wellFormed : (ledger s).WellFormed
  total : getTotalStaked s = ∑ᶠ u, (ledger s).share u
  dust_nonneg : 0 ≤ getPendingDust s

/-- One account was settled, its stake set, and what it earned paid out. -/
structure Writes (user : Address) (staked paid : Int) (s s' : State) : Prop where
  books : ledger s' = (ledger s).write scale user staked paid
  total : getTotalStaked s' = getTotalStaked s + staked - (ledger s).share user
  dust : getPendingDust s' = getPendingDust s
  funded : getTotalFunded s' = getTotalFunded s

/-- Rewards were funded, and spread over the stake where there is any. -/
inductive Funds (amount : Int) (s s' : State) : Prop where
  | idle (ha : 0 < amount) (ht : getTotalStaked s = 0)
      (hs : s' = { s with totalFunded := some (getTotalFunded s + amount) })
  | spread (ha : 0 < amount) (ht : getTotalStaked s ≠ 0)
      (hs : s' = { s with
        totalFunded := some (getTotalFunded s + amount)
        rewardIndex := some (getRewardIndex s + increment s amount)
        pendingDust := some (amount + getPendingDust s -
          (increment s amount * getTotalStaked s).tdiv scale) })

/-- The calls that move the reward entries. -/
def Call.moves : Call → Bool
  | .stake _ _ => true
  | .unstake _ _ => true
  | .fundRewards _ => true
  | .distributeRewards _ => true
  | .claim _ => true
  | _ => false

/-- What a successful call does to the reward entries, and what it returns. -/
inductive Changes (s s' : State) : Call → Output → Prop where
  | stake (ha : 0 < amount) (hw : Writes user ((ledger s).share user + amount) 0 s s') :
      Changes s s' (.stake user amount) .unit
  | unstake (ha : 0 < amount) (hle : amount ≤ (ledger s).share user)
      (hw : Writes user ((ledger s).share user - amount) 0 s s') :
      Changes s s' (.unstake user amount) .unit
  | fundRewards (hf : Funds amount s s') : Changes s s' (.fundRewards amount) .unit
  | distributeRewards (hf : Funds amount s s') : Changes s s' (.distributeRewards amount) .unit
  | claim (hw : Writes user ((ledger s).share user) ((ledger s).claimable scale user) s s') :
      Changes s s' (.claim user) (.amount ((ledger s).claimable scale user))
  | keep (hc : c.moves = false) (ho : o.paid = 0) (hl : ledger s' = ledger s)
      (ht : getTotalStaked s' = getTotalStaked s) (hd : getPendingDust s' = getPendingDust s)
      (hf : getTotalFunded s' = getTotalFunded s) : Changes s s' c o

theorem distribute_changes (h : distribute amount s = .ok s') : Funds amount s s' := by
  obtain ⟨ha, ⟨ht, hs⟩ | ⟨ht, hs⟩⟩ := distribute_ok h
  · exact .idle ha ht hs
  · exact .spread ha ht hs

theorem stake_changes (hb : Books s) (h : stake env user amount s = .ok s') :
    Changes s s' (.stake user amount) .unit := by
  obtain ⟨ha, earned, he, hs⟩ := stake_ok h
  have hl := ledger_write hb.wellFormed he (congrArg State.userStake hs) (by rw [hs]; rfl)
  rw [sub_self] at hl
  refine .stake ha ⟨hl, ?_, by rw [hs]; rfl, by rw [hs]; rfl⟩
  simp only [hs, getTotalStaked, Option.getD_some, ledger]
  omega

theorem unstake_changes (hb : Books s) (h : unstake env user amount s = .ok s') :
    Changes s s' (.unstake user amount) .unit := by
  obtain ⟨ha, hle, earned, he, hs⟩ := unstake_ok h
  have hl := ledger_write hb.wellFormed he (congrArg State.userStake hs) (by rw [hs]; rfl)
  rw [sub_self] at hl
  refine .unstake ha hle ⟨hl, ?_, by rw [hs]; rfl, by rw [hs]; rfl⟩
  simp only [hs, getTotalStaked, Option.getD_some, ledger]
  omega

theorem claim_changes (hb : Books s) (h : claim env user s = .ok (s', n)) :
    Changes s s' (.claim user) (.amount n) := by
  obtain ⟨earned, he, rfl, hs⟩ := claim_ok h
  have hl := ledger_write hb.wellFormed he (congrArg State.userStake hs) (by rw [hs]; rfl)
  rw [sub_zero, ← calcPending_claimable hb.wellFormed he] at hl
  rw [← calcPending_claimable hb.wellFormed he]
  refine .claim ⟨hl, ?_, by rw [hs]; rfl, by rw [hs]; rfl⟩
  rw [hs]
  exact (add_sub_cancel_right _ _).symm

theorem invoke_changes (hb : Books s) (h : invoke env s c = some (s', o)) : Changes s s' c o := by
  cases c with
  | stake user amount =>
    obtain ⟨_, hs, he⟩ := commit_some.mp h
    cases he
    exact stake_changes hb hs
  | unstake user amount =>
    obtain ⟨_, hs, he⟩ := commit_some.mp h
    cases he
    exact unstake_changes hb hs
  | fundRewards amount =>
    obtain ⟨_, hs, he⟩ := commit_some.mp h
    cases he
    simp only [fundRewards, bind_ok] at hs
    obtain ⟨_, _, _, _, hs⟩ := hs
    exact .fundRewards (distribute_changes hs)
  | distributeRewards amount =>
    obtain ⟨_, hs, he⟩ := commit_some.mp h
    cases he
    simp only [distributeRewards, bind_ok] at hs
    obtain ⟨_, _, _, _, hs⟩ := hs
    exact .distributeRewards (distribute_changes hs)
  | claim user =>
    obtain ⟨_, hs, he⟩ := commit_some.mp h
    cases he
    exact claim_changes hb hs
  | init _ | setAdmin _ | addOperator _ | removeOperator | setGuardian _ _
  | setUpgradeDelay _ _ | pause | unpause =>
    obtain ⟨_, hs, he⟩ := commit_some.mp h
    cases he
    simp only [init, setAdmin, addOperator, removeOperator, setGuardian, setUpgradeDelay, pause,
      unpause, bind_ok, pure_ok] at hs
    obtain ⟨_, _, rfl⟩ := hs
    exact .keep rfl rfl rfl rfl rfl rfl
  | proposeUpgrade _ _ =>
    obtain ⟨_, hs, he⟩ := commit_some.mp h
    cases he
    simp only [proposeUpgrade, bind_ok, pure_ok] at hs
    obtain ⟨_, _, _, _, _, _, rfl⟩ := hs
    exact .keep rfl rfl rfl rfl rfl rfl
  | executeUpgrade _ =>
    obtain ⟨_, hs, he⟩ := commit_some.mp h
    cases he
    simp only [executeUpgrade, bind_ok, pure_ok] at hs
    obtain ⟨_, _, _, _, _, _, _, _, rfl⟩ := hs
    exact .keep rfl rfl rfl rfl rfl rfl
  | emergencyUpgrade _ _ | cancelUpgrade _ =>
    obtain ⟨_, hs, he⟩ := commit_some.mp h
    cases he
    simp only [emergencyUpgrade, cancelUpgrade, bind_ok, pure_ok] at hs
    obtain ⟨_, _, _, _, rfl⟩ := hs
    exact .keep rfl rfl rfl rfl rfl rfl

end Shelterflex.StakingRewards
