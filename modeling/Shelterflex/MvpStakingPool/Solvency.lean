import Shelterflex.MvpStakingPool.Operations

namespace Shelterflex.MvpStakingPool
open Lib
set_option autoImplicit true

/-- What a successful call brings to the pool. -/
def Call.inflow : Call → Output → Int
  | .stake _ amount, _ => amount
  | .unstake _ amount, _ => -amount
  | .fundRewards _ amount, _ => amount
  | .claim _, .amount n => -n
  | _, _ => 0

section
variable {tok : Token T} {env : Env own} {w w' : World T}

theorem invoke_balance (hx : tok.Exact) (hb : Books w.pool)
    (h : invoke tok env w c = some (w', o)) :
    tok.balance w'.token own = tok.balance w.token own + c.inflow o := by
  cases c with
  | stake user amount =>
    obtain ⟨_, hs, he⟩ := commit_some.mp h
    cases he
    obtain ⟨ha, ⟨_, ht⟩, _⟩ := stake_ok hb hs
    exact hx.inflow ht (env.ne_own ha)
  | unstake user amount =>
    obtain ⟨_, hs, he⟩ := commit_some.mp h
    cases he
    obtain ⟨ha, ⟨_, ht⟩, _⟩ := unstake_ok hb hs
    exact hx.outflow ht (env.ne_own ha)
  | fundRewards source amount =>
    obtain ⟨_, hs, he⟩ := commit_some.mp h
    cases he
    obtain ⟨ha, ⟨_, ht⟩, _⟩ := fundRewards_ok hs
    exact hx.inflow ht (env.ne_own ha)
  | claim target =>
    obtain ⟨⟨w₁, n⟩, hs, he⟩ := commit_some.mp h
    cases he
    obtain ⟨ha, ht, _⟩ := claim_ok hb hs
    rcases ht with ⟨rfl, ht⟩ | ⟨_, ht⟩
    · exact (congrArg (tok.balance · own) ht).trans (add_zero _).symm
    · exact hx.outflow ht (env.ne_own ha)
  | _ =>
    obtain ⟨_, _, he⟩ := commit_some.mp h
    cases he
    exact (add_zero _).symm

/-- The pool holds its principal and everything its users can still draw. -/
noncomputable def liability (s : State) : Int :=
  (ledger s).potential rewardIndexScale + rewardIndexScale * getTotalStaked s

theorem Writes.liability_le (h : Writes user staked paid s s') (hb : Books s) (hs : 0 ≤ staked) :
    liability s' ≤ liability s +
      rewardIndexScale * (staked - getStakedBalance s user - paid) := by
  have hw := RewardIndex.potential_write hb.wellFormed rewardIndexScale_pos user hs paid
  rw [liability, liability, h.books, h.total]
  linarith

theorem Changes.liability_le (h : Changes s s' c o) (hb : Books s) :
    liability s' ≤ liability s + rewardIndexScale * c.inflow o := by
  have hn := hb.wellFormed.share_nonneg
  cases h with
  | @stake amount user ha hw hu =>
    have hle := hw.liability_le hb (add_nonneg (hn user) ha.le)
    rwa [add_sub_cancel_left, sub_zero] at hle
  | @unstake amount user ha hle hw hu =>
    have hused := getUsedStake_nonneg s user
    have hle := hw.liability_le hb (by omega)
    rwa [sub_sub_cancel_left, sub_zero] at hle
  | @utilizeStake amount user admin ha hle hw hu =>
    have hle := hw.liability_le hb (hn user)
    rwa [sub_self, sub_zero] at hle
  | @fundRewards amount source ha hpos hl ht hu =>
    have hd : (∑ᶠ u, (ledger s).share u) * (amount * rewardIndexScale / getTotalStaked s) ≤
        rewardIndexScale * amount := by
      rw [← hb.total, mul_comm, mul_comm rewardIndexScale]
      exact Int.ediv_mul_le _ hpos.ne'
    have hr := RewardIndex.potential_raise_le hb.wellFormed hd
    rw [liability, liability, hl, ht]
    change _ ≤ _ + rewardIndexScale * amount
    linarith
  | @claimable user hw hu =>
    have hle := hw.liability_le hb (hn user)
    rwa [sub_self, sub_zero] at hle
  | @claim user hw hu =>
    have hle := hw.liability_le hb (hn user)
    rwa [sub_self, zero_sub] at hle
  | keep hc hl ht hu =>
    rw [liability, liability, hl, ht]
    cases c with
    | stake _ _ | unstake _ _ | utilizeStake _ _ _ | fundRewards _ _ | claimable _ | claim _ =>
      cases hc
    | _ => exact (add_zero _).ge

/-- A call leaves what it owes covered if it was. -/
theorem invoke_liability (hx : tok.Exact) (hb : Books w.pool)
    (hl : liability w.pool ≤ rewardIndexScale * tok.balance w.token own)
    (h : invoke tok env w c = some (w', o)) :
    liability w'.pool ≤ rewardIndexScale * tok.balance w'.token own := by
  have hle := (invoke_changes hb h).1.liability_le hb
  rw [invoke_balance hx hb h]
  linarith

/-- The pool's tokens cover every user's principal, claimable reward and unaccrued reward. -/
def Covered (tok : Token T) (own : Address) (w : World T) : Prop :=
  getTotalStaked w.pool + ∑ᶠ u, (getClaimableReward w.pool u +
    getStakedBalance w.pool u * (getGlobalRewardIndex w.pool - getUserRewardIndex w.pool u) /
      rewardIndexScale) ≤ tok.balance w.token own

theorem Books.covered (hb : Books w.pool)
    (h : liability w.pool ≤ rewardIndexScale * tok.balance w.token own) : Covered tok own w := by
  have hc := hb.wellFormed.sum_claimable_mul_le rewardIndexScale_pos
  rw [liability] at h
  refine le_of_mul_le_mul_left ?_ rewardIndexScale_pos
  change rewardIndexScale * (getTotalStaked w.pool +
    ∑ᶠ u, (ledger w.pool).claimable rewardIndexScale u) ≤ _
  linarith

theorem run_liability (hx : tok.Exact) (h₀ : 0 ≤ tok.balance t₀ own)
    (h : (machine tok own).Run ⟨initialized admin token, t₀⟩ t w) :
    Books w.pool ∧ liability w.pool ≤ rewardIndexScale * tok.balance w.token own := by
  refine h.invariant (P := fun _ w => Books w.pool ∧
    liability w.pool ≤ rewardIndexScale * tok.balance w.token own) ⟨initialized_books _ _, ?_⟩ ?_
  · have hp : (ledger (initialized admin token)).potential rewardIndexScale = 0 := finsum_zero
    rw [liability, hp]
    exact (zero_add _).trans_le (mul_nonneg rewardIndexScale_pos.le h₀)
  · rintro _ w a w' o ⟨hb, hl⟩ hs
    refine ⟨act_books hb hs, ?_⟩
    cases a with
    | traffic t =>
      simp only [machine, act, Option.ite_none_right_eq_some, Option.some.injEq,
        Prod.mk.injEq] at hs
      obtain ⟨hle, rfl, _⟩ := hs
      exact hl.trans (mul_le_mul_of_nonneg_left hle rewardIndexScale_pos.le)
    | call env c => exact invoke_liability hx hb hl hs

/-! A payment from what the pool holds is not turned away. -/

theorem transfer_avoids (hh : tok.Honours) (hn : 0 ≤ n) (hb : n ≤ tok.balance t own) :
    Avoids (.trap .tokenFailed) (transfer tok env s t own target n : Outcome ε T) := by
  refine .bind expect_avoids fun _ _ => ?_
  obtain ⟨t', ht⟩ := hh.pay env target hn hb
  rw [ht]
  exact nofun

theorem enterNonreentrant_avoids :
    Avoids (.trap .tokenFailed) (enterNonreentrant s) :=
  .bind (.bind require_avoids fun _ _ => avoids_pure) fun _ _ => avoids_pure

theorem accrueUserRewards_avoids :
    Avoids (.trap .tokenFailed) (accrueUserRewards user s : Outcome ε State) := by
  have hb : Avoids (.trap .tokenFailed) (bankAccrued user s : Outcome ε State) := by
    unfold bankAccrued
    split
    · refine .bind checkI128_avoids fun _ _ => .bind checkI128_avoids fun _ _ =>
        .bind i128Div_avoids fun _ _ => ?_
      split
      · exact .bind checkI128_avoids fun _ _ => avoids_pure
      · exact avoids_pure
    · exact avoids_pure
  unfold accrueUserRewards
  split
  · exact avoids_pure
  · exact .bind hb fun _ _ => avoids_pure

theorem Covered.stake_le (hc : Covered tok own w) (hb : Books w.pool) (user : Address) :
    getStakedBalance w.pool user ≤ tok.balance w.token own := by
  have hw := hb.wellFormed
  have hs := le_finsum hw.share_finite hw.share_nonneg user
  have hr : 0 ≤ ∑ᶠ u, (ledger w.pool).claimable rewardIndexScale u :=
    finsum_nonneg fun u => hw.claimable_nonneg rewardIndexScale_pos u
  have hle : getTotalStaked w.pool + ∑ᶠ u, (ledger w.pool).claimable rewardIndexScale u ≤
    tok.balance w.token own := hc
  rw [hb.total] at hle
  exact le_trans hs (by omega)

theorem Covered.claimable_le (hc : Covered tok own w) (hb : Books w.pool) (user : Address) :
    (ledger w.pool).claimable rewardIndexScale user ≤ tok.balance w.token own := by
  have hw := hb.wellFormed
  have hr := le_finsum (hw.claimable_finite rewardIndexScale)
    (fun u => hw.claimable_nonneg rewardIndexScale_pos u) user
  have hs : 0 ≤ ∑ᶠ u, (ledger w.pool).share u := finsum_nonneg hw.share_nonneg
  have hle : getTotalStaked w.pool + ∑ᶠ u, (ledger w.pool).claimable rewardIndexScale u ≤
    tok.balance w.token own := hc
  rw [hb.total] at hle
  omega

theorem unstake_avoids (hh : tok.Honours) (hb : Books w.pool) (hc : Covered tok own w) :
    Avoids (.trap .tokenFailed) (unstake tok env user amount w) := by
  refine .bind enterNonreentrant_avoids fun s₀ he => .bind requireAuth_avoids fun _ _ =>
    .bind demand_avoids fun _ _ => .bind demand_avoids fun _ hp =>
    .bind accrueUserRewards_avoids fun s₁ hs => .bind require_avoids fun _ hle =>
    .bind checkI128_avoids fun _ _ => .bind checkI128_avoids fun _ _ =>
    .bind (transfer_avoids hh ?_ ?_) fun _ _ => avoids_pure
  · exact (demand_ok.mp hp).le
  · obtain ⟨_, rfl⟩ := enterNonreentrant_ok.mp he
    have hs := congrFun (hb.accrued hs).share_eq user
    have hu := getUsedStake_nonneg s₁ user
    have hle' := le_sub_of_saturating (demand_ok.mp hp) (require_ok.mp hle)
    have hb' := hc.stake_le hb user
    omega

theorem claim_avoids (hh : tok.Honours) (hb : Books w.pool) (hc : Covered tok own w) :
    Avoids (.trap .tokenFailed) (claim tok env target w) := by
  refine .bind (orPanic_avoids enterNonreentrant_avoids) fun s₀ he =>
    .bind requireAuth_avoids fun _ _ => .bind demand_avoids fun _ _ =>
    .bind accrueUserRewards_avoids fun s₁ hs => ?_
  obtain ⟨_, rfl⟩ := enterNonreentrant_ok.mp (orPanic_ok.mp he)
  have hA := hb.accrued hs
  dsimp only
  split
  · exact avoids_pure
  · rename_i hn
    refine .bind (transfer_avoids hh (not_le.mp hn).le ?_) fun _ _ => avoids_pure
    exact hA.banked_eq.trans_le (hc.claimable_le hb target)

/-- The pool is solvent in every reachable state: it never lacks the tokens of an unstake or a
claim, and what it pays leaves everyone else's principal and rewards covered. -/
theorem always_covered (hx : tok.Exact) (hh : tok.Honours) (h₀ : 0 ≤ tok.balance t₀ own)
    (h : (machine tok own).Run ⟨initialized admin token, t₀⟩ t w) :
    Covered tok own w ∧
      (∀ (env : Env own) user amount,
        unstake tok env user amount w ≠ .error (.trap .tokenFailed) ∧
        ∀ w', unstake tok env user amount w = .ok w' → Covered tok own w') ∧
      ∀ (env : Env own) target,
        claim tok env target w ≠ .error (.trap .tokenFailed) ∧
        ∀ w' n, claim tok env target w = .ok (w', n) → Covered tok own w' := by
  obtain ⟨hb, hl⟩ := run_liability hx h₀ h
  have hc := hb.covered hl
  refine ⟨hc, fun env user amount => ⟨unstake_avoids hh hb hc, fun w' hs => ?_⟩,
    fun env target => ⟨claim_avoids hh hb hc, fun w' n hs => ?_⟩⟩
  · have hi : invoke tok env w (.unstake user amount) = some (w', .unit) :=
      commit_some.mpr ⟨w', hs, rfl⟩
    exact ((invoke_changes hb hi).1.books hb).covered (invoke_liability hx hb hl hi)
  · have hi : invoke tok env w (.claim target) = some (w', .amount n) :=
      commit_some.mpr ⟨(w', n), hs, rfl⟩
    exact ((invoke_changes hb hi).1.books hb).covered (invoke_liability hx hb hl hi)

end

def sampleActions : List (Action ⟨0⟩ (Address → Int)) :=
  [.call (.signed ⟨0⟩ 0) (.stake ⟨2⟩ 30), .call (.signed ⟨0⟩ 0) (.stake ⟨3⟩ 70),
    .call (.signed ⟨0⟩ 0) (.fundRewards ⟨1⟩ 33), .call (.signed ⟨0⟩ 0) (.claim ⟨3⟩),
    .call (.signed ⟨0⟩ 0) (.unstake ⟨2⟩ 10)]

def sampleStart : World (Address → Int) :=
  ⟨initialized ⟨1⟩ ⟨9⟩, fun a => if a = ⟨0⟩ then 0 else 100⟩

theorem always_covered_sample :
    Covered plainToken ⟨0⟩ ((machine plainToken ⟨0⟩).replay sampleStart sampleActions).2 :=
  (always_covered plainToken_exact plainToken_honours (by decide)
    ((machine plainToken ⟨0⟩).run_replay sampleStart sampleActions)).1

end Shelterflex.MvpStakingPool
