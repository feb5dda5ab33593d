import Shelterflex.MvpStakingPool.Account
import Shelterflex.MvpStakingPool.Solvency
import Shelterflex.Lib.Rounding

namespace Shelterflex.MvpStakingPool
open Lib
set_option autoImplicit true

/-- The fundings of a history, each with the state it was made in. -/
def fundings (t : History own T) : List (Int × State) :=
  t.filterMap fun e => e.input.funded.map (·, e.pre.pool)

/-- The exact part of all fundings that falls to a user's stake. -/
def entitlement (user : Address) (t : History own T) : ℚ :=
  ((fundings t).map fun f =>
    (f.1 * getStakedBalance f.2 user : ℚ) / getTotalStaked f.2).sum

/-- What rounding the index down can cost a user. -/
def dust (user : Address) (t : History own T) : ℚ :=
  ((fundings t).map fun f => (getStakedBalance f.2 user : ℚ) / rewardIndexScale).sum

/-- The index has grown since the user's rewards were last accrued. -/
def Behind (user : Address) (s : State) : Prop :=
  getUserRewardIndex s user < getGlobalRewardIndex s

instance : Decidable (Behind user s) := inferInstanceAs (Decidable (_ < _))

/-- How often a user's rewards were accrued over a growth of the index. -/
def accruals (user : Address) (t : History own T) : Nat :=
  t.countP fun e => e.input.settles = some user ∧ Behind user e.pre.pool

/-- The error allowed to a reading of what the user can claim, which accrues it first. -/
def errorBound (user : Address) (t : History own T) (s : State) : ℚ :=
  accruals user t + dust user t + if Behind user s then 1 else 0

/-- What a user is entitled to and neither was paid nor is owed. -/
def lost (user : Address) (t : History own T) (s : State) : ℚ :=
  entitlement user t - claimed user t - (ledger s).owed rewardIndexScale user / rewardIndexScale

section
variable {own : Address} {t : History own T} {w w' : World T} {a : Action own T}

theorem fundings_cons_of_none (h : a.funded = none) :
    fundings (⟨w, a, o, w'⟩ :: t) = fundings t := by
  rw [fundings, List.filterMap_cons, h]
  rfl

theorem fundings_cons_of_some (h : a.funded = some amount) :
    fundings (⟨w, a, o, w'⟩ :: t) = (amount, w.pool) :: fundings t := by
  rw [fundings, List.filterMap_cons, h]
  rfl

theorem claimed_cons (user : Address) :
    claimed user (⟨w, a, o, w'⟩ :: t) = a.paid user o + claimed user t := List.sum_cons

theorem Action.funded_of_settles (h : a.settles = some user) : a.funded = none := by
  rcases a with ⟨env, c⟩ | t
  · cases c with
    | fundRewards source amount => cases h
    | _ => rfl
  · rfl

theorem Posts.owed_settled (h : Posts user s s' a o) (hs : a.settles = some user) :
    (ledger s').owed rewardIndexScale user + a.paid user o * rewardIndexScale +
      (ledger s).residue rewardIndexScale user = (ledger s).owed rewardIndexScale user := by
  obtain ⟨hsnap, hbank⟩ := h.settled hs
  have hidx := h.index
  rw [Action.raised_of_settles hs, add_zero] at hidx
  have ho : (ledger s').owed rewardIndexScale user =
      getClaimableReward s' user * rewardIndexScale := by
    have hz : getGlobalRewardIndex s' - getUserRewardIndex s' user = 0 := by
      rw [hidx, hsnap, sub_self]
    change _ + getStakedBalance s' user * (getGlobalRewardIndex s' - getUserRewardIndex s' user) = _
    rw [hz, mul_zero, add_zero]
    rfl
  rw [ho, ← add_mul, hbank, ← RewardIndex.owed_eq]

theorem Posts.owed_kept (h : Posts user s s' a o) (hs : a.settles ≠ some user) :
    (ledger s').owed rewardIndexScale user = (ledger s).owed rewardIndexScale user +
      getStakedBalance s user * a.raised (getTotalStaked s) := by
  obtain ⟨hsnap, hbank, _⟩ := h.kept hs
  have hshare := h.share
  rw [Action.addedTo_of_not_settles hs, add_zero] at hshare
  change getClaimableReward s' user * rewardIndexScale + getStakedBalance s' user *
    (getGlobalRewardIndex s' - getUserRewardIndex s' user) = getClaimableReward s user *
    rewardIndexScale + getStakedBalance s user *
      (getGlobalRewardIndex s - getUserRewardIndex s user) + _
  rw [hsnap, hbank, hshare, h.index]
  ring

theorem rewardIndexScale_cast_pos : (0 : ℚ) < rewardIndexScale :=
  Int.cast_pos.mpr rewardIndexScale_pos

theorem Posts.lost_settled (h : Posts user w.pool w'.pool a o) (hs : a.settles = some user) :
    lost user (⟨w, a, o, w'⟩ :: t) w'.pool =
      lost user t w.pool +
        ((ledger w.pool).residue rewardIndexScale user : ℚ) / rewardIndexScale := by
  have ho : ((ledger w'.pool).owed rewardIndexScale user : ℚ) +
      a.paid user o * rewardIndexScale + (ledger w.pool).residue rewardIndexScale user =
      (ledger w.pool).owed rewardIndexScale user := by
    exact_mod_cast h.owed_settled hs
  have hS := rewardIndexScale_cast_pos.ne'
  have hf : fundings (⟨w, a, o, w'⟩ :: t) = fundings t :=
    fundings_cons_of_none (Action.funded_of_settles hs)
  rw [lost, lost, entitlement, hf, claimed_cons, Int.cast_add, ← ho, add_div, add_div,
    mul_div_cancel_right₀ _ hS, entitlement]
  ring

/-- The error of a funding is the part of the index that was rounded away, once for each unit of
the user's stake. -/
theorem Posts.lost_funded (h : Posts user w.pool w'.pool a o) (hf : a.funded = some amount)
    (ht : 0 < getTotalStaked w.pool) :
    lost user (⟨w, a, o, w'⟩ :: t) w'.pool = lost user t w.pool +
      (getStakedBalance w.pool user : ℚ) / rewardIndexScale *
        ((amount * rewardIndexScale % getTotalStaked w.pool : ℤ) / getTotalStaked w.pool) := by
  have hs : a.settles ≠ some user := by
    intro hs
    rw [Action.funded_of_settles hs] at hf
    cases hf
  have hS := rewardIndexScale_cast_pos.ne'
  have hT : (getTotalStaked w.pool : ℚ) ≠ 0 := (Int.cast_pos.mpr ht).ne'
  have hr : a.raised (getTotalStaked w.pool) =
      amount * rewardIndexScale / getTotalStaked w.pool := by rw [Action.raised, hf]
  have hd := div_sub_ediv (K := ℚ) ht (amount * rewardIndexScale)
  obtain ⟨_, _, hp⟩ := h.kept hs
  rw [lost, lost, entitlement, fundings_cons_of_some hf, claimed_cons, hp, h.owed_kept hs, hr, ← hd,
    entitlement, List.map_cons, List.sum_cons]
  push_cast
  field_simp
  ring

theorem Posts.lost_kept (h : Posts user w.pool w'.pool a o) (hs : a.settles ≠ some user)
    (hf : a.funded = none) : lost user (⟨w, a, o, w'⟩ :: t) w'.pool = lost user t w.pool := by
  have hr : a.raised (getTotalStaked w.pool) = 0 := by rw [Action.raised, hf]
  obtain ⟨_, _, hp⟩ := h.kept hs
  rw [lost, lost, entitlement, fundings_cons_of_none hf, claimed_cons, hp, h.owed_kept hs, hr,
    mul_zero, add_zero, zero_add, entitlement]

theorem residue_within (hb : Books s) (user : Address) :
    Within (((ledger s).residue rewardIndexScale user : ℚ) / rewardIndexScale)
      (if Behind user s then 1 else 0) := by
  by_cases h : Behind user s
  · rw [if_pos h]
    exact Within.remainder rewardIndexScale_pos _
  · have he : getUserRewardIndex s user = getGlobalRewardIndex s :=
      le_antisymm (hb.wellFormed.snapshot_le user) (not_lt.mp h)
    rw [if_neg h, RewardIndex.residue_of_current he, Int.cast_zero, zero_div]
    exact Within.zero

theorem accruals_cons (user : Address) : (accruals user (⟨w, a, o, w'⟩ :: t) : ℚ) =
    accruals user t + if a.settles = some user ∧ Behind user w.pool then 1 else 0 := by
  rw [accruals, List.countP_cons]
  simp only [decide_eq_true_eq]
  push_cast
  rfl

theorem act_funded {tok : Token T} (hb : Books w.pool) (h : act tok w a = some (w', o))
    (hf : a.funded = some amount) : 0 < getTotalStaked w.pool := by
  rcases a with ⟨env, c⟩ | t
  · change invoke tok env w c = some (w', o) at h
    cases c with
    | fundRewards source n =>
      cases (invoke_changes hb h).1 with
      | fundRewards ha hpos hl ht hu => exact hpos
      | keep hc hl ht hu => cases hc
    | _ => cases hf
  · cases hf

theorem act_lost {tok : Token T} (hb : Books w.pool) (h : act tok w a = some (w', o))
    (hl : Within (lost user t w.pool) (accruals user t + dust user t)) :
    Within (lost user (⟨w, a, o, w'⟩ :: t) w'.pool)
      (accruals user (⟨w, a, o, w'⟩ :: t) + dust user (⟨w, a, o, w'⟩ :: t)) := by
  have hp := act_posts hb h user
  rw [accruals_cons]
  by_cases hs : a.settles = some user
  · have hd : dust user (⟨w, a, o, w'⟩ :: t) = dust user t := by
      rw [dust, fundings_cons_of_none (Action.funded_of_settles hs), dust]
    rw [hp.lost_settled hs, hd, add_right_comm]
    simp only [hs, true_and]
    exact hl.add (residue_within hb user)
  · simp only [hs, false_and, if_false, add_zero]
    cases hf : a.funded with
    | none =>
      rw [hp.lost_kept hs hf, dust, fundings_cons_of_none hf]
      exact hl
    | some amount =>
      have ht := act_funded hb h hf
      have hn : 0 ≤ (getStakedBalance w.pool user : ℚ) / rewardIndexScale :=
        div_nonneg (Int.cast_nonneg (hb.wellFormed.share_nonneg user))
          rewardIndexScale_cast_pos.le
      have hd : dust user (⟨w, a, o, w'⟩ :: t) =
          dust user t + (getStakedBalance w.pool user : ℚ) / rewardIndexScale * 1 := by
        rw [dust, fundings_cons_of_some hf, List.map_cons, List.sum_cons, mul_one, add_comm, dust]
      rw [hp.lost_funded hf ht, hd, ← add_assoc]
      exact hl.add ((Within.remainder ht _).mul hn)

theorem run_lost {tok : Token T} (h : (machine tok own).Run ⟨initialized admin token, t₀⟩ t w)
    (user : Address) :
    Books w.pool ∧ Within (lost user t w.pool) (accruals user t + dust user t) := by
  refine h.invariant (P := fun t w => Books w.pool ∧
    Within (lost user t w.pool) (accruals user t + dust user t)) ⟨initialized_books _ _, ?_⟩ ?_
  · have hz : lost user ([] : History own T) (initialized admin token) = 0 := by
      simp [lost, entitlement, fundings, claimed, ledger, RewardIndex.owed, initialized,
        getStakedBalance, getClaimableReward, State.fresh]
    have hd : (accruals user ([] : History own T) : ℚ) + dust user ([] : History own T) = 0 :=
      add_zero _
    rw [hz, hd]
    exact Within.zero
  · rintro t w a w' o ⟨hb, hl⟩ hs
    exact ⟨act_books hb hs, act_lost hb hs hl⟩

theorem claimable_amount (hb : Books s) (h : claimable user s = .ok (s', n)) :
    n = (ledger s).claimable rewardIndexScale user := by
  cases (claimable_ok hb h).1 with
  | claimable hw hu => rfl
  | keep hc hl ht hu => cases hc

/-- In every run a user is paid and can claim no more than the exact part of the fundings, and
less by at most one unit an accrual and what rounding the index down costs. -/
theorem reward_accuracy {tok : Token T}
    (h : (machine tok own).Run ⟨initialized admin token, t₀⟩ t w)
    (hq : claimable user w.pool = .ok (s', n)) :
    (claimed user t + n : ℚ) ≤ entitlement user t ∧
    entitlement user t - (claimed user t + n) ≤ errorBound user t w.pool ∧
    (0 < errorBound user t w.pool →
      entitlement user t - (claimed user t + n) < errorBound user t w.pool) ∧
    ∀ later earlier, t = later ++ earlier →
      (∀ f ∈ fundings earlier, getStakedBalance f.2 user = 0) →
      (claimed user t + n : ℚ) ≤ entitlement user later := by
  obtain ⟨hb, hl⟩ := run_lost h user
  have he : entitlement user t - (claimed user t + n) = lost user t w.pool +
      ((ledger w.pool).residue rewardIndexScale user : ℚ) / rewardIndexScale := by
    rw [lost, RewardIndex.owed_eq, claimable_amount hb hq]
    push_cast
    rw [add_div, mul_div_cancel_right₀ _ rewardIndexScale_cast_pos.ne']
    ring
  have hw := hl.add (residue_within hb user)
  rw [← he] at hw
  have hle := sub_nonneg.mp hw.nonneg
  refine ⟨hle, hw.le, hw.lt, ?_⟩
  rintro later earlier rfl hz
  have hz' : entitlement user earlier = 0 := by
    apply List.sum_eq_zero
    simp only [List.mem_map]
    rintro _ ⟨f, hf, rfl⟩
    rw [hz f hf, Int.cast_zero, mul_zero, zero_div]
  have hs : entitlement user (later ++ earlier) =
      entitlement user later + entitlement user earlier := by
    rw [entitlement, fundings, List.filterMap_append, List.map_append, List.sum_append]
    rfl
  rwa [hs, hz', add_zero] at hle

end

/-- A funding of which a third falls to the first staker. -/
def thirds : List (Action ⟨0⟩ (Address → Int)) :=
  [.call (.signed ⟨0⟩ 0) (.stake ⟨2⟩ 1), .call (.signed ⟨0⟩ 0) (.stake ⟨3⟩ 2),
    .call (.signed ⟨0⟩ 0) (.fundRewards ⟨1⟩ 1)]

def thirdsRun : History ⟨0⟩ (Address → Int) × World (Address → Int) :=
  (machine plainToken ⟨0⟩).replay sampleStart thirds

theorem run_thirds : (machine plainToken ⟨0⟩).Run sampleStart thirdsRun.1 thirdsRun.2 :=
  Machine.run_replay _ _ _

theorem claimable_thirds : ∃ s', claimable ⟨2⟩ thirdsRun.2.pool = .ok (s', 0) := ⟨_, rfl⟩

theorem fundings_thirds : ∃ s, fundings thirdsRun.1 = [(1, s)] ∧
    getStakedBalance s ⟨2⟩ = 1 ∧ getTotalStaked s = 3 := ⟨_, rfl, rfl, rfl⟩

theorem entitlement_thirds : entitlement ⟨2⟩ thirdsRun.1 = 1 / 3 := by
  obtain ⟨s, hf, hs, ht⟩ := fundings_thirds
  simp [entitlement, hf, hs, ht]

theorem dust_thirds : dust ⟨2⟩ thirdsRun.1 = 1 / 1000000000000 := by
  obtain ⟨s, hf, hs, _⟩ := fundings_thirds
  simp [dust, hf, hs, rewardIndexScale]

theorem reward_accuracy_thirds :
    entitlement ⟨2⟩ thirdsRun.1 - (claimed ⟨2⟩ thirdsRun.1 + (0 : Int)) <
      errorBound ⟨2⟩ thirdsRun.1 thirdsRun.2.pool := by
  obtain ⟨s', hq⟩ := claimable_thirds
  obtain ⟨_, _, hlt, _⟩ := reward_accuracy run_thirds hq
  apply hlt
  rw [errorBound, dust_thirds, if_pos (by decide)]
  positivity

theorem reward_error_reached :
    (¬ ∀ t w user s' n, (machine plainToken ⟨0⟩).Run sampleStart t w →
      claimable user w.pool = .ok (s', n) →
      entitlement user t - (claimed user t + n) < accruals user t + dust user t) ∧
    ¬ ∀ t w user s' n, (machine plainToken ⟨0⟩).Run sampleStart t w →
      claimable user w.pool = .ok (s', n) →
      entitlement user t - (claimed user t + n) < errorBound user t w.pool := by
  constructor
  · intro hall
    obtain ⟨s', hq⟩ := claimable_thirds
    have hlt := hall _ _ _ _ _ run_thirds hq
    have ha : accruals ⟨2⟩ thirdsRun.1 = 0 := rfl
    have hc : claimed ⟨2⟩ thirdsRun.1 = 0 := rfl
    rw [entitlement_thirds, dust_thirds, ha, hc] at hlt
    norm_num at hlt
  · intro hall
    have hlt := hall [] sampleStart ⟨2⟩ _ 0 .start rfl
    exact absurd hlt (by simp [entitlement, errorBound, dust, fundings, claimed, accruals, Behind,
      sampleStart, initialized, getUserRewardIndex, getGlobalRewardIndex, State.fresh])

end Shelterflex.MvpStakingPool
