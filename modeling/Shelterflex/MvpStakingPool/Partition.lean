import Shelterflex.MvpStakingPool.Solvency

namespace Shelterflex.MvpStakingPool
open Lib
set_option autoImplicit true

/-- No user's used stake exceeds what the user has staked. -/
def Partitioned (s : State) : Prop := ∀ user, getUsedStake s user ≤ getStakedBalance s user

theorem Writes.partitioned (h : Writes user staked paid s s') (hp : Partitioned s)
    (hu : ∀ u, u ≠ user → getUsedStake s' u = getUsedStake s u)
    (hle : getUsedStake s' user ≤ staked) : Partitioned s' := by
  intro u
  rw [h.share]
  by_cases he : u = user
  · subst u
    rwa [Function.update_self]
  · rw [Function.update_of_ne he, hu u he]
    exact hp u

theorem Changes.partitioned (h : Changes s s' c o) (hp : Partitioned s) : Partitioned s' := by
  cases h with
  | stake ha hw hu =>
    refine hw.partitioned hp (fun _ _ => by rw [hu]) ?_
    rw [hu]
    exact (hp _).trans (le_add_of_nonneg_right ha.le)
  | unstake ha hle hw hu =>
    refine hw.partitioned hp (fun _ _ => by rw [hu]) ?_
    rw [hu]
    exact le_sub_comm.mp hle
  | utilizeStake ha hle hw hu =>
    refine hw.partitioned hp (fun _ he => by rw [hu, Function.update_of_ne he]) ?_
    rw [hu, Function.update_self]
    exact le_sub_iff_add_le'.mp hle
  | fundRewards ha hpos hl ht hu =>
    intro u
    rw [hu, show getStakedBalance s' = _ from congrArg RewardIndex.share hl]
    exact hp u
  | claimable hw hu =>
    refine hw.partitioned hp (fun _ _ => by rw [hu]) ?_
    rw [hu]
    exact hp _
  | claim hw hu =>
    refine hw.partitioned hp (fun _ _ => by rw [hu]) ?_
    rw [hu]
    exact hp _
  | keep hc hl ht hu =>
    intro u
    rw [hu, show getStakedBalance s' = _ from congrArg RewardIndex.share hl]
    exact hp u

theorem Changes.used_le (h : Changes s s' c o) (user : Address) :
    getUsedStake s user ≤ getUsedStake s' user := by
  cases h with
  | @utilizeStake amount u admin ha hle hw hu =>
    rw [hu]
    by_cases he : user = u
    · subst u
      rw [Function.update_self]
      exact le_add_of_nonneg_right ha.le
    · rw [Function.update_of_ne he]
  | stake ha hw hu => rw [hu]
  | unstake ha hle hw hu => rw [hu]
  | fundRewards ha hpos hl ht hu => rw [hu]
  | claimable hw hu => rw [hu]
  | claim hw hu => rw [hu]
  | keep hc hl ht hu => rw [hu]

/-- The pool is open for calls. -/
structure Ready (s : State) : Prop where
  token : s.token ≠ none
  reentrancy : s.reentrancy.getD false = false
  total : InI128 (getTotalStaked s)

theorem Steady.ready (h : Steady s s') (hr : Ready s) : Ready s' where
  token := by
    rw [h.token]
    exact hr.token
  reentrancy := by
    rcases h.reentrancy with hl | hl
    · rw [hl]
      rfl
    · rw [hl]
      exact hr.reentrancy
  total := by
    rcases h.total with ht | ht
    · exact ht
    · rw [ht]
      exact hr.total

/-! When the rewards of a user can be accrued -/

/-- What a user earned fits its type, before and after it is added to the claimable reward. -/
def AccrualFits (s : State) (user : Address) : Prop :=
  InI128 (unaccrued s user) ∧ (unaccrued s user / rewardIndexScale = 0 ∨
    InI128 (getClaimableReward s user + unaccrued s user / rewardIndexScale))

instance : Decidable (AccrualFits s user) := inferInstanceAs (Decidable (_ ∧ _))

theorem bankAccrued_isOk_iff (hw : (ledger s).WellFormed) (hs : 0 < getStakedBalance s user) :
    (∃ s', (bankAccrued user s : Outcome ε State) = .ok s') ↔ AccrualFits s user := by
  have hd : 0 ≤ getGlobalRewardIndex s - getUserRewardIndex s user :=
    sub_nonneg.mpr (hw.snapshot_le user)
  have hn : 0 ≤ unaccrued s user := mul_nonneg hs.le hd
  have hle : getGlobalRewardIndex s - getUserRewardIndex s user ≤ unaccrued s user :=
    le_mul_of_one_le_left hd hs
  have hdiv : (unaccrued s user).tdiv rewardIndexScale = unaccrued s user / rewardIndexScale :=
    Int.tdiv_eq_ediv_of_nonneg hn
  have hq : 0 ≤ unaccrued s user / rewardIndexScale := Int.ediv_nonneg hn rewardIndexScale_pos.le
  unfold bankAccrued
  rw [if_pos hs]
  simp only [bind_ok, i128Sub_ok, i128Mul_ok, i128Div_ok]
  constructor
  · rintro ⟨s', _, ⟨_, rfl⟩, _, ⟨hm, rfl⟩, accrued, ⟨_, _, ha⟩, h⟩
    refine ⟨hm, ?_⟩
    have ha : unaccrued s user / rewardIndexScale = accrued := hdiv ▸ ha
    split at h
    · simp only [bind_ok, i128Add_ok] at h
      obtain ⟨_, ⟨hr, _⟩, _⟩ := h
      exact .inr (ha ▸ hr)
    · rename_i hz
      exact .inl (by omega)
  · rintro ⟨hm, hr⟩
    have hx : ∃ s', (if 0 < unaccrued s user / rewardIndexScale then do
        let reward ← i128Add (getClaimableReward s user) (unaccrued s user / rewardIndexScale)
        return { s with claimableReward := s.claimableReward.set user reward }
        else return s : Outcome ε State) = .ok s' := by
      split
      · have hr : InI128 (getClaimableReward s user + unaccrued s user / rewardIndexScale) :=
          hr.resolve_left (by omega)
        simp only [bind_ok, i128Add_ok, pure_ok]
        exact ⟨_, _, ⟨hr, rfl⟩, rfl⟩
      · exact ⟨s, rfl⟩
    obtain ⟨s', hx⟩ := hx
    have hf : InI128 (unaccrued s user / rewardIndexScale) :=
      InI128.of_nonneg hm hq (Int.ediv_le_self _ hn)
    exact ⟨s', _, ⟨InI128.of_nonneg hm hd hle, rfl⟩, _, ⟨hm, rfl⟩, _,
      ⟨rewardIndexScale_pos.ne', hdiv ▸ hf, hdiv⟩, hx⟩

theorem accrualFits_of_unaccrued (h : unaccrued s user = 0) : AccrualFits s user := by
  unfold AccrualFits
  rw [h]
  exact ⟨inI128_zero, .inl rfl⟩

theorem accrueUserRewards_isOk_iff (hw : (ledger s).WellFormed) :
    (∃ s', (accrueUserRewards user s : Outcome ε State) = .ok s') ↔ AccrualFits s user := by
  unfold accrueUserRewards
  split
  · rename_i hle
    have he : getUserRewardIndex s user = getGlobalRewardIndex s :=
      le_antisymm (hw.snapshot_le user) hle
    have hz : unaccrued s user = 0 := by rw [unaccrued, he, sub_self, mul_zero]
    exact ⟨fun _ => accrualFits_of_unaccrued hz, fun _ => ⟨s, rfl⟩⟩
  · have hb : (∃ s', (bankAccrued user s : Outcome ε State) = .ok s') ↔ AccrualFits s user := by
      by_cases hs : 0 < getStakedBalance s user
      · exact bankAccrued_isOk_iff hw hs
      · have hs₀ : getStakedBalance s user = 0 :=
          le_antisymm (not_lt.mp hs) (hw.share_nonneg user)
        have hz : unaccrued s user = 0 := by rw [unaccrued, hs₀, zero_mul]
        unfold bankAccrued
        rw [if_neg hs]
        exact ⟨fun _ => accrualFits_of_unaccrued hz, fun _ => ⟨s, rfl⟩⟩
    rw [← hb]
    simp only [bind_ok, pure_ok]
    constructor
    · rintro ⟨_, s', h, _⟩
      exact ⟨s', h⟩
    · rintro ⟨s', h⟩
      exact ⟨_, s', h, rfl⟩

section
variable {own : Address} {tok : Token T} {env : Env own} {w : World T}

/-- A user's unused stake can be withdrawn at any time, as long as the accrual before it does not
overflow. -/
theorem unstake_isOk_iff (hh : tok.Honours) (hb : Books w.pool) (hr : Ready w.pool)
    (hp : Partitioned w.pool) (hc : getStakedBalance w.pool user ≤ tok.balance w.token own)
    (ha : env.authorized user = true) (hn : w.pool.paused.getD false = false)
    (hpos : 0 < amount) :
    (∃ w', unstake tok env user amount w = .ok w') ↔
      amount ≤ getStakedBalance w.pool user - getUsedStake w.pool user ∧
        AccrualFits w.pool user := by
  have hu := getUsedStake_nonneg w.pool user
  have hs : 0 ≤ getStakedBalance w.pool user := hb.wellFormed.share_nonneg user
  have ht : getStakedBalance w.pool user ≤ getTotalStaked w.pool := by
    rw [hb.total]
    exact le_finsum hb.wellFormed.share_finite hb.wellFormed.share_nonneg user
  have hi : InI128 (getStakedBalance w.pool user) := hr.total.of_nonneg hs ht
  have hsat : i128SaturatingSub (getStakedBalance w.pool user) (getUsedStake w.pool user) =
      getStakedBalance w.pool user - getUsedStake w.pool user :=
    i128SaturatingSub_eq (hi.of_nonneg (sub_nonneg.mpr (hp user)) (sub_le_self _ hu))
  have hfits : (∃ s₁, (accrueUserRewards user { w.pool with reentrancy := some true } :
      Outcome ContractError State) = .ok s₁) ↔ AccrualFits w.pool user :=
    accrueUserRewards_isOk_iff hb.wellFormed
  have hunused (s₁) (hA : Accrued user w.pool s₁) : getUnusedStake s₁ user =
      getStakedBalance w.pool user - getUsedStake w.pool user := by
    rw [getUnusedStake, hA.share_eq, hA.used, hsat]
  constructor
  · rintro ⟨w', h⟩
    simp only [unstake, bind_ok, enterNonreentrant_ok, require_ok] at h
    obtain ⟨_, ⟨_, rfl⟩, _, _, _, _, _, _, s₁, hs₁, _, hle, _⟩ := h
    rw [hunused s₁ (hb.accrued hs₁)] at hle
    exact ⟨hle, hfits.mp ⟨s₁, hs₁⟩⟩
  · rintro ⟨hle, hf⟩
    obtain ⟨s₁, hs₁⟩ := hfits.mpr hf
    have hA := hb.accrued hs₁
    have hbal : InI128 (getStakedBalance s₁ user - amount) := by
      rw [hA.share_eq]
      exact hi.of_nonneg (by omega) (by omega)
    have htot : InI128 (getTotalStaked s₁ - amount) := by
      rw [hA.total]
      exact hr.total.of_nonneg (by omega) (by omega)
    obtain ⟨token, hk⟩ := Option.ne_none_iff_exists'.mp hr.token
    have hbal' : amount ≤ tok.balance w.token own := by omega
    obtain ⟨t, hpay⟩ : ∃ t, (tok.call env w.token own user amount :
        Outcome ContractError T) = .ok t := hh.pay env user hpos.le hbal'
    simp only [unstake, bind_ok, enterNonreentrant_ok, requireAuth_ok, requireNotPaused,
      requirePositiveAmount, demand_ok, require_ok, i128Sub_ok, transfer, expect_ok, pure_ok]
    exact ⟨_, _, ⟨hr.reentrancy, rfl⟩, (), ha, (), hn, (), hpos, s₁, hs₁, (),
      (hunused s₁ hA).ge.trans' hle, _, ⟨hbal, rfl⟩, _, ⟨htot, rfl⟩, t,
      ⟨token, hA.token.trans hk, hpay⟩, rfl⟩

theorem initialized_ready (admin token : Address) : Ready (initialized admin token) :=
  ⟨Option.some_ne_none token, rfl, inI128_zero⟩

theorem initialized_partitioned (admin token : Address) :
    Partitioned (initialized admin token) := fun _ => le_refl (0 : Int)

theorem run_partitioned
    (h : (machine tok own).Run ⟨initialized admin token, t₀⟩ t w) :
    Books w.pool ∧ Ready w.pool ∧ Partitioned w.pool ∧
      ∀ e ∈ t, ∀ user, getUsedStake e.pre.pool user ≤ getUsedStake e.post.pool user := by
  refine h.invariant (P := fun t w => Books w.pool ∧ Ready w.pool ∧ Partitioned w.pool ∧
      ∀ e ∈ t, ∀ user, getUsedStake e.pre.pool user ≤ getUsedStake e.post.pool user)
    ⟨initialized_books _ _, initialized_ready _ _, initialized_partitioned _ _,
      List.forall_mem_nil _⟩ ?_
  rintro t w a w' o ⟨hb, hr, hp, hm⟩ hs
  have hstep : Ready w'.pool ∧ Partitioned w'.pool ∧
      ∀ user, getUsedStake w.pool user ≤ getUsedStake w'.pool user := by
    cases a with
    | traffic t =>
      simp only [machine, act, Option.ite_none_right_eq_some, Option.some.injEq,
        Prod.mk.injEq] at hs
      obtain ⟨_, rfl, _⟩ := hs
      exact ⟨hr, hp, fun _ => le_rfl⟩
    | call env c =>
      obtain ⟨hc, hst⟩ := invoke_changes hb hs
      exact ⟨hst.ready hr, hc.partitioned hp, hc.used_le⟩
  obtain ⟨hr', hp', hm'⟩ := hstep
  exact ⟨act_books hb hs, hr', hp', List.forall_mem_cons.mpr ⟨hm', hm⟩⟩

/-- The stake of every user is split in two in every reachable state, the used part only grows,
and the unused part can be withdrawn unless the accrual before it overflows. -/
theorem stake_partition (hx : tok.Exact) (hh : tok.Honours) (h₀ : 0 ≤ tok.balance t₀ own)
    (h : (machine tok own).Run ⟨initialized admin token, t₀⟩ t w) :
    (∀ user, 0 ≤ getUsedStake w.pool user ∧
      getUsedStake w.pool user ≤ getStakedBalance w.pool user ∧
      getUserRewardIndex w.pool user ≤ getGlobalRewardIndex w.pool) ∧
    getTotalStaked w.pool = ∑ᶠ user, getStakedBalance w.pool user ∧
    (∀ e ∈ t, ∀ user, getUsedStake e.pre.pool user ≤ getUsedStake e.post.pool user) ∧
    ∀ (env : Env own) user amount, env.authorized user = true →
      w.pool.paused.getD false = false → 0 < amount →
      ((∃ w', unstake tok env user amount w = .ok w') ↔
        amount ≤ getStakedBalance w.pool user - getUsedStake w.pool user ∧
          AccrualFits w.pool user) := by
  obtain ⟨hb, hr, hp, hm⟩ := run_partitioned h
  obtain ⟨_, hl⟩ := run_liability hx h₀ h
  have hc := (hb.covered hl).stake_le hb
  refine ⟨fun user => ⟨getUsedStake_nonneg _ user, hp user, hb.wellFormed.snapshot_le user⟩,
    hb.total, hm, fun env user amount ha hn hpos => ?_⟩
  exact unstake_isOk_iff hh hb hr hp (hc user) ha hn hpos

end

/-- A user with used stake and rewards to accrue. -/
def utilized : List (Action ⟨0⟩ (Address → Int)) :=
  [.call (.signed ⟨0⟩ 0) (.stake ⟨2⟩ 50), .call (.signed ⟨0⟩ 0) (.utilizeStake ⟨1⟩ ⟨2⟩ 20),
    .call (.signed ⟨0⟩ 0) (.fundRewards ⟨1⟩ 10)]

theorem stake_partition_utilized :
    (∃ w', unstake plainToken (.signed ⟨0⟩ 0) ⟨2⟩ 30
      ((machine plainToken ⟨0⟩).replay sampleStart utilized).2 = .ok w') ∧
    ¬ ∃ w', unstake plainToken (.signed ⟨0⟩ 0) ⟨2⟩ 31
      ((machine plainToken ⟨0⟩).replay sampleStart utilized).2 = .ok w' := by
  obtain ⟨_, _, _, hu⟩ := stake_partition plainToken_exact plainToken_honours (by decide)
    ((machine plainToken ⟨0⟩).run_replay sampleStart utilized)
  refine ⟨(hu (.signed ⟨0⟩ 0) ⟨2⟩ 30 (by decide) (by decide) (by decide)).mpr (by decide), ?_⟩
  intro h
  exact absurd ((hu (.signed ⟨0⟩ 0) ⟨2⟩ 31 (by decide) (by decide) (by decide)).mp h) (by decide)

def richStart : World (Address → Int) :=
  ⟨initialized ⟨1⟩ ⟨9⟩, fun a => if a = ⟨0⟩ then 0 else 2 ^ 100⟩

/-- The one stake is so small beside the fundings that its earnings no longer fit. -/
def overfunded : List (Action ⟨0⟩ (Address → Int)) :=
  [.call (.signed ⟨0⟩ 0) (.stake ⟨2⟩ 2), .call (.signed ⟨0⟩ 0) (.fundRewards ⟨1⟩ (2 ^ 86)),
    .call (.signed ⟨0⟩ 0) (.fundRewards ⟨1⟩ (2 ^ 86)),
    .call (.signed ⟨0⟩ 0) (.fundRewards ⟨1⟩ (2 ^ 86))]

theorem unstake_blocked :
    ¬ ∀ t w, (machine plainToken ⟨0⟩).Run richStart t w →
      ∀ (env : Env ⟨0⟩) user amount, env.authorized user = true →
        w.pool.paused.getD false = false → 0 < amount →
        ((∃ w', unstake plainToken env user amount w = .ok w') ↔
          amount ≤ getStakedBalance w.pool user - getUsedStake w.pool user) := by
  intro hall
  have hr := (machine plainToken ⟨0⟩).run_replay richStart overfunded
  have hu := hall _ _ hr (.signed ⟨0⟩ 0) ⟨2⟩ 1 (by decide) (by decide) (by decide)
  obtain ⟨w', hw⟩ := hu.mpr (by decide)
  have hf : (unstake plainToken (.signed ⟨0⟩ 0) ⟨2⟩ 1
      ((machine plainToken ⟨0⟩).replay richStart overfunded).2).isOk = false := by decide
  rw [hw] at hf
  cases hf

end Shelterflex.MvpStakingPool
