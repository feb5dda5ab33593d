import Shelterflex.StakingRewards.CarryForward

namespace Shelterflex.StakingRewards
open Lib
set_option autoImplicit true

theorem getClaimable_of_ledger (hs : (ledger s').share u = (ledger s).share u)
    (hi : (ledger s').snapshot u = (ledger s).snapshot u)
    (hb : (ledger s').banked u = (ledger s).banked u)
    (hx : (ledger s').index = (ledger s).index) : getClaimable s' u = getClaimable s u := by
  have hu : getUserStake s' u = getUserStake s u := by
    cases h : getUserStake s u
    cases h' : getUserStake s' u
    simp only [ledger, h, h'] at hs hi hb
    rw [hs, hi, hb]
  have hx' : getRewardIndex s' = getRewardIndex s := hx
  rw [getClaimable, getClaimable, hu, hx']

theorem Writes.getClaimable_of_ne (h : Writes user staked x s s') (hu : u ≠ user) :
    getClaimable s' u = getClaimable s u := by
  apply getClaimable_of_ledger
  all_goals rw [h.books]
  all_goals simp only [RewardIndex.write, RewardIndex.settle, RewardIndex.setShare,
    RewardIndex.withdraw, Function.update_of_ne hu]

theorem calcPending_current (staked pending i : Int) :
    calcPending ⟨staked, i, pending⟩ i = .ok 0 := by
  simp only [calcPending, bind_ok, i128Sub_ok, i128Mul_ok, i128Div_ok, sub_self]
  refine ⟨0, ⟨inI128_zero, rfl⟩, 0, ⟨?_, mul_zero _⟩, scale_pos.ne', inI128_zero, rfl⟩
  rw [mul_zero]
  exact inI128_zero

theorem getClaimable_settled (h : getUserStake s u = ⟨staked, getRewardIndex s, n⟩)
    (hn : InI128 n) : getClaimable s u = .ok n := by
  rw [getClaimable, h]
  have hz : 0 + n = n := zero_add n
  exact bind_ok.mpr ⟨0, calcPending_current _ _ _, i128Add_ok.mpr ⟨hz.symm ▸ hn, hz⟩⟩

theorem getClaimable_ok (h : calcPending (getUserStake s u) (getRewardIndex s) = .ok earned)
    (hn : InI128 ((getUserStake s u).pendingAmount + earned)) :
    getClaimable s u = .ok ((getUserStake s u).pendingAmount + earned) := by
  have hc := add_comm earned (getUserStake s u).pendingAmount
  exact bind_ok.mpr ⟨earned, h, i128Add_ok.mpr ⟨hc.symm ▸ hn, hc⟩⟩

/-- What was earned under the old stake is banked whole when the stake changes. -/
theorem stake_claimable (h : stake env user amount s = .ok s') :
    getClaimable s' user = getClaimable s user := by
  obtain ⟨_, earned, he, hs⟩ := stake_ok h
  have hn : InI128 ((getUserStake s user).pendingAmount + earned) := by
    simp only [stake, bind_ok, i128Add_ok] at h
    obtain ⟨_, _, _, _, _, _, _, he', _, ⟨hn, _⟩, _⟩ := h
    cases Except.ok.inj (he.symm.trans he')
    exact hn
  rw [getClaimable_ok he hn, hs]
  exact getClaimable_settled (Store.getD_set_self _ _ _ _) hn

theorem unstake_claimable (h : unstake env user amount s = .ok s') :
    getClaimable s' user = getClaimable s user := by
  obtain ⟨_, _, earned, he, hs⟩ := unstake_ok h
  have hn : InI128 ((getUserStake s user).pendingAmount + earned) := by
    simp only [unstake, bind_ok, i128Add_ok] at h
    obtain ⟨_, _, _, _, _, _, _, _, _, he', _, ⟨hn, _⟩, _⟩ := h
    cases Except.ok.inj (he.symm.trans he')
    exact hn
  rw [getClaimable_ok he hn, hs]
  exact getClaimable_settled (Store.getD_set_self _ _ _ _) hn

theorem claim_claimable (h : claim env user s = .ok (s', n)) :
    getClaimable s user = .ok n ∧ getClaimable s' user = .ok 0 := by
  obtain ⟨earned, he, rfl, hs⟩ := claim_ok h
  have hn : InI128 ((getUserStake s user).pendingAmount + earned) := by
    simp only [claim, bind_ok, i128Add_ok] at h
    obtain ⟨_, _, _, _, _, he', _, ⟨hn, _⟩, _⟩ := h
    cases Except.ok.inj (he.symm.trans he')
    exact add_comm earned _ ▸ hn
  refine ⟨getClaimable_ok he hn, ?_⟩
  rw [hs]
  exact getClaimable_settled (Store.getD_set_self _ _ _ _) inI128_zero

/-- When the view returns, and what. -/
theorem getClaimable_iff (hw : (ledger s).WellFormed) : getClaimable s u = .ok n ↔
    InI128 ((ledger s).index - (ledger s).snapshot u) ∧
      InI128 ((ledger s).share u * ((ledger s).index - (ledger s).snapshot u)) ∧
      InI128 ((ledger s).share u * ((ledger s).index - (ledger s).snapshot u) / scale) ∧
      InI128 ((ledger s).claimable scale u) ∧ (ledger s).claimable scale u = n := by
  have hn := Int.tdiv_eq_ediv_of_nonneg (hw.accrued_nonneg u) (b := scale)
  have hc : (ledger s).claimable scale u =
      (ledger s).share u * ((ledger s).index - (ledger s).snapshot u) / scale +
        (ledger s).banked u := add_comm _ _
  rw [hc, ← hn]
  simp only [getClaimable, calcPending, bind_ok, i128Sub_ok, i128Mul_ok, i128Div_ok, i128Add_ok,
    ledger]
  constructor
  · rintro ⟨_, ⟨_, ⟨hd, rfl⟩, _, ⟨hp, rfl⟩, _, hq, rfl⟩, ha, he⟩
    exact ⟨hd, hp, hq, ha, he⟩
  · rintro ⟨hd, hp, hq, ha, he⟩
    exact ⟨_, ⟨_, ⟨hd, rfl⟩, _, ⟨hp, rfl⟩, scale_pos.ne', hq, rfl⟩, ha, he⟩

theorem getClaimable_raise (hw : (ledger s).WellFormed) (hd : 0 ≤ d)
    (hl : ledger s' = (ledger s).raise d) (u : Address) :
    (ledger s).claimable scale u ≤ (ledger s').claimable scale u ∧
      ∀ n', getClaimable s' u = .ok n' → ∃ n ≤ n', getClaimable s u = .ok n := by
  have hdelta : 0 ≤ (ledger s).index - (ledger s).snapshot u := sub_nonneg.mpr (hw.snapshot_le u)
  have hdelta' : (ledger s).index - (ledger s).snapshot u ≤
      (ledger s).index + d - (ledger s).snapshot u := by omega
  have hproduct := mul_le_mul_of_nonneg_left hdelta' (hw.share_nonneg u)
  have hearned := Int.ediv_le_ediv scale_pos hproduct
  have hle : (ledger s).claimable scale u ≤ ((ledger s).raise d).claimable scale u :=
    add_le_add_right hearned _
  refine ⟨hl ▸ hle, fun n' h => ?_⟩
  have hw' : (ledger s').WellFormed := hl ▸ hw.raise hd
  rw [getClaimable_iff hw', hl] at h
  obtain ⟨h₁, h₂, h₃, h₄, rfl⟩ := h
  refine ⟨_, hle, (getClaimable_iff hw).mpr ⟨?_, ?_, ?_, ?_, rfl⟩⟩
  · exact h₁.of_nonneg hdelta hdelta'
  · exact h₂.of_nonneg (hw.accrued_nonneg u) hproduct
  · exact h₃.of_nonneg (Int.ediv_nonneg (hw.accrued_nonneg u) scale_pos.le) hearned
  · exact h₄.of_nonneg (hw.claimable_nonneg scale_pos u) hle

theorem Funds.getClaimable_le (hb : Books s) (h : Funds amount s s') (u : Address) :
    (ledger s).claimable scale u ≤ (ledger s').claimable scale u ∧
      ∀ n', getClaimable s' u = .ok n' → ∃ n ≤ n', getClaimable s u = .ok n := by
  cases h with
  | idle ha ht hs =>
    subst hs
    exact ⟨le_rfl, fun n' h => ⟨n', le_rfl, h⟩⟩
  | spread ha ht hs =>
    subst hs
    exact getClaimable_raise hb.wellFormed (increment_nonneg hb ha) rfl u

/-- How a call moves what a user can claim. -/
structure ClaimableMoves (u : Address) (c : Call) (o : Output) (s s' : State) : Prop where
  kept : c.distributes = false → c ≠ .claim u → getClaimable s' u = getClaimable s u
  claimed : c = .claim u →
    ∃ n, getClaimable s u = .ok n ∧ o = .amount n ∧ getClaimable s' u = .ok 0
  funded : c.distributes = true → (ledger s).claimable scale u ≤ (ledger s').claimable scale u ∧
    ∀ n', getClaimable s' u = .ok n' → ∃ n ≤ n', getClaimable s u = .ok n

theorem invoke_claimable (hb : Books s) (h : invoke env s c = some (s', o)) (u : Address) :
    ClaimableMoves u c o s s' := by
  have hc := invoke_changes hb h
  cases hc with
  | @stake _ user ha hw =>
    refine ⟨fun _ _ => ?_, nofun, nofun⟩
    by_cases hu : u = user
    · subst hu
      obtain ⟨_, hs, hr⟩ := commit_some.mp h
      cases hr
      exact stake_claimable hs
    · exact hw.getClaimable_of_ne hu
  | @unstake _ user ha hle hw =>
    refine ⟨fun _ _ => ?_, nofun, nofun⟩
    by_cases hu : u = user
    · subst hu
      obtain ⟨_, hs, hr⟩ := commit_some.mp h
      cases hr
      exact unstake_claimable hs
    · exact hw.getClaimable_of_ne hu
  | fundRewards hf => exact ⟨nofun, nofun, fun _ => hf.getClaimable_le hb u⟩
  | distributeRewards hf => exact ⟨nofun, nofun, fun _ => hf.getClaimable_le hb u⟩
  | @claim user hw =>
    refine ⟨fun _ hne => hw.getClaimable_of_ne fun hu => hne (congrArg Call.claim hu.symm), ?_,
      nofun⟩
    rintro ⟨⟩
    obtain ⟨⟨_, n⟩, hs, hr⟩ := commit_some.mp h
    obtain ⟨hn, hz⟩ := claim_claimable hs
    cases hr
    exact ⟨_, hn, rfl, hz⟩
  | keep hk ho hl ht hd hf =>
    refine ⟨fun _ _ => ?_, ?_, fun hx => ?_⟩
    · apply getClaimable_of_ledger
      all_goals rw [hl]
    · rintro rfl
      cases hk
    · cases c with
      | fundRewards _ | distributeRewards _ => cases hk
      | _ => cases hx

/-- In every run, what a user can claim changes only when rewards are funded, which never lowers
it, and when the user claims, which pays it out whole. -/
theorem claimable_moves (h : (machine own).Run .fresh t s) :
    ∀ e ∈ t, ∀ u, ClaimableMoves u e.input.2 e.output e.pre e.post := by
  intro e he u
  obtain ⟨⟨t', hr⟩, hs⟩ := h.committed he
  exact invoke_claimable (run_books hr) hs u

/-- The staker claims last. -/
def claimedLast : List (Env ⟨0⟩ × Call) := stakedFirst ++ [(.signed ⟨0⟩ 0, .claim ⟨2⟩)]

theorem claimable_moves_claimedLast : ∃ o, ClaimableMoves ⟨2⟩ (.claim ⟨2⟩) o
    ((machine ⟨0⟩).replay .fresh stakedFirst).2 ((machine ⟨0⟩).replay .fresh claimedLast).2 :=
  ⟨_, claimable_moves ((machine ⟨0⟩).run_replay .fresh claimedLast)
    ⟨_, (.signed ⟨0⟩ 0, .claim ⟨2⟩), _, _⟩ List.mem_cons_self ⟨2⟩⟩

end Shelterflex.StakingRewards
