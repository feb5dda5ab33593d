import Shelterflex.StakingRewards.Conservation

namespace Shelterflex.StakingRewards
open Lib
set_option autoImplicit true

/-- The calls that settle the account of a user. -/
def Call.settles : Call → Bool
  | .stake _ _ => true
  | .unstake _ _ => true
  | .claim _ => true
  | _ => false

/-- The calls that fund rewards. -/
def Call.distributes : Call → Bool
  | .fundRewards _ => true
  | .distributeRewards _ => true
  | _ => false

abbrev History (own : Address) := List (Event State (Env own × Call) Output)

def settlements (t : History own) : Nat := t.countP fun e => e.input.2.settles

def distributions (t : History own) : Nat := t.countP fun e => e.input.2.distributes

/-- The part of what a call funds that no later distribution takes up. -/
def Call.dropped (c : Call) (s : State) : Int := if getTotalStaked s = 0 then c.funds else 0

def dropped (t : History own) : Int := (t.map fun e => e.input.2.dropped e.pre).sum

/-- What is outstanding when every staker is short of one unit. -/
noncomputable def reserve (s : State) : Int := outstanding s - scale * (ledger s).holders

theorem Writes.reserve_le (hb : Books s) (h : Writes user staked x s s') (hn : 0 ≤ staked) :
    reserve s ≤ reserve s' + scale * x + scale := by
  have hp := RewardIndex.potential_write_eq hb.wellFormed scale_pos user hn x
  have hc := RewardIndex.write_cost_le hb.wellFormed scale_pos user staked x
  rw [reserve, reserve, outstanding, outstanding, h.books, h.dust]
  linarith

theorem Funds.reserve_le {c : Call} (hb : Books s) (h : Funds amount s s')
    (hc : c.funds = amount) : reserve s + scale * getTotalFunded s' ≤
      reserve s' + scale * getTotalFunded s + scale * c.dropped s := by
  cases h with
  | idle ha ht hs =>
    have hr : reserve s' = reserve s := by
      rw [hs]
      rfl
    have hf : getTotalFunded s' = getTotalFunded s + amount := by
      rw [hs]
      rfl
    rw [hr, hf, Call.dropped, if_pos ht, hc]
    linarith
  | spread ha ht hs =>
    have hl : ledger s' = (ledger s).raise (increment s amount) := by
      rw [hs]
      rfl
    have ho := outstanding_spread hb ha hl (by rw [hs]; rfl)
    have hd : 0 ≤ doubled s amount := Int.emod_nonneg _ scale_pos.ne'
    have hf : getTotalFunded s' = getTotalFunded s + amount := by
      rw [hs]
      rfl
    have hh : (ledger s').holders = (ledger s).holders := by
      rw [hl]
      rfl
    rw [reserve, reserve, ho, hf, hh, Call.dropped, if_neg ht]
    linarith

theorem Changes.reserve_le (hb : Books s) (h : Changes s s' c o) :
    reserve s + scale * getTotalFunded s' ≤ reserve s' + scale * getTotalFunded s +
      scale * o.paid + scale * (if c.settles then 1 else 0) + scale * c.dropped s := by
  have hn := hb.wellFormed.share_nonneg
  have hz {c : Call} (hf : c.funds = 0) : c.dropped s = 0 := by rw [Call.dropped, hf, ite_self]
  cases h with
  | stake ha hw =>
    have hr := hw.reserve_le hb (add_nonneg (hn _) ha.le)
    rw [hw.funded, hz rfl]
    simp only [Call.settles, Output.paid, if_true]
    linarith
  | unstake ha hle hw =>
    have hr := hw.reserve_le hb (sub_nonneg.mpr hle)
    rw [hw.funded, hz rfl]
    simp only [Call.settles, Output.paid, if_true]
    linarith
  | claim hw =>
    have hr := hw.reserve_le hb (hn _)
    rw [hw.funded, hz rfl]
    simp only [Call.settles, Output.paid, if_true]
    linarith
  | fundRewards hf =>
    have hr := hf.reserve_le hb (c := .fundRewards _) rfl
    simp only [Call.settles, Output.paid, Bool.false_eq_true, if_false]
    linarith
  | distributeRewards hf =>
    have hr := hf.reserve_le hb (c := .distributeRewards _) rfl
    simp only [Call.settles, Output.paid, Bool.false_eq_true, if_false]
    linarith
  | keep hk ho hl ht hd hf =>
    have hr : reserve s' = reserve s := by rw [reserve, reserve, outstanding, outstanding, hl, hd]
    have hs : (0 : Int) ≤ scale * (if c.settles then 1 else 0) := by
      split
      · exact mul_nonneg scale_pos.le Int.one_nonneg
      · exact mul_nonneg scale_pos.le le_rfl
    rw [hr, hf, ho, hz (Call.funds_of_not_moves hk)]
    linarith

theorem run_reserve (h : (machine own).Run .fresh t s) :
    Books s ∧ scale * getTotalFunded s ≤
      reserve s + scale * paid t + scale * settlements t + scale * dropped t := by
  refine h.invariant (P := fun t s => Books s ∧ scale * getTotalFunded s ≤
    reserve s + scale * paid t + scale * settlements t + scale * dropped t) ⟨fresh_books, ?_⟩ ?_
  · have hp : (ledger .fresh).potential scale = 0 := finsum_zero
    have hh : (ledger .fresh).holders = 0 := by
      rw [RewardIndex.holders, Function.support_eq_empty_iff.mpr]
      · exact Set.ncard_empty _
      · rfl
    rw [reserve, outstanding, hp, hh]
    exact le_refl (0 : Int)
  · rintro t s i s' o ⟨hb, hr⟩ he
    have hc := invoke_changes hb he
    have hle := hc.reserve_le hb
    refine ⟨(hc.moves hb).books hb, ?_⟩
    have hs : (settlements (⟨s, i, o, s'⟩ :: t) : Int) =
        settlements t + if i.2.settles then 1 else 0 := by
      rw [settlements, List.countP_cons]
      push_cast
      rfl
    have hp : paid (⟨s, i, o, s'⟩ :: t) = o.paid + paid t := List.sum_cons
    have hd : dropped (⟨s, i, o, s'⟩ :: t) = i.2.dropped s + dropped t := List.sum_cons
    rw [hs, hp, hd]
    linarith

/-- All that was funded is paid, claimable, kept as dust or dropped, up to one unit for each
settlement. -/
theorem run_accounted (h : (machine own).Run .fresh t s)
    (hv : ∀ u, ∃ n, getClaimable s u = .ok n) :
    getTotalFunded s ≤ paid t + ∑ᶠ u, claimableView s u + getPendingDust s + settlements t +
      dropped t := by
  obtain ⟨hb, hr⟩ := run_reserve h
  have hp := hb.wellFormed.potential_le scale_pos
  have hc : ∑ᶠ u, claimableView s u = ∑ᶠ u, (ledger s).claimable scale u :=
    finsum_congr fun u => by
      obtain ⟨n, hn⟩ := hv u
      exact claimableView_of_ok hb.wellFormed hn
  rw [reserve, outstanding] at hr
  rw [hc]
  exact le_of_mul_le_mul_left (by linarith) scale_pos

theorem dropped_nonpos {t : History own}
    (hC : ∀ e ∈ t, 0 < e.input.2.funds → getTotalStaked e.pre ≠ 0) : dropped t ≤ 0 := by
  induction t with
  | nil => exact le_rfl
  | cons e t ih =>
    obtain ⟨he, ht⟩ := List.forall_mem_cons.mp hC
    have hd : dropped (e :: t) = e.input.2.dropped e.pre + dropped t := List.sum_cons
    have hn : e.input.2.dropped e.pre ≤ 0 := by
      rw [Call.dropped]
      split
      · rename_i hz
        exact not_lt.mp fun hpos => he hpos hz
      · exact le_rfl
    rw [hd]
    exact add_nonpos hn (ih ht)

/-- As long as nobody funds a pool without stakers, no funding is lost. -/
theorem funding_kept (h : (machine own).Run .fresh t s)
    (hv : ∀ u, ∃ n, getClaimable s u = .ok n)
    (hC : ∀ e ∈ t, 0 < e.input.2.funds → getTotalStaked e.pre ≠ 0) :
    getTotalFunded s ≤ paid t + ∑ᶠ u, claimableView s u + getPendingDust s +
      (settlements t + distributions t) := by
  have hle := run_accounted h hv
  have hd := dropped_nonpos hC
  have hn : (0 : Int) ≤ distributions t := Int.natCast_nonneg _
  linarith

theorem getClaimable_absent (h : s.userStake.get u = none) (hi : InI128 (getRewardIndex s)) :
    getClaimable s u = .ok 0 := by
  have hu : getUserStake s u = ⟨0, 0, 0⟩ := by
    rw [getUserStake, Store.getD, h]
    rfl
  have hp : calcPending ⟨0, 0, 0⟩ (getRewardIndex s) = .ok 0 := by
    simp only [calcPending, bind_ok, i128Sub_ok, i128Mul_ok, i128Div_ok, sub_zero, zero_mul]
    exact ⟨_, ⟨hi, rfl⟩, 0, ⟨inI128_zero, rfl⟩, by decide, inI128_zero, rfl⟩
  rw [getClaimable, hu]
  exact bind_ok.mpr ⟨0, hp, i128Add_ok.mpr ⟨inI128_zero, rfl⟩⟩

def stakedFirst : List (Env ⟨0⟩ × Call) :=
  [(.signed ⟨0⟩ 0, .init ⟨1⟩), (.signed ⟨0⟩ 0, .stake ⟨2⟩ 3),
    (.signed ⟨0⟩ 0, .distributeRewards 10), (.signed ⟨0⟩ 0, .unstake ⟨2⟩ 1)]

theorem getClaimable_stakedFirst (hu : u ≠ ⟨2⟩) :
    getClaimable ((machine ⟨0⟩).replay .fresh stakedFirst).2 u = .ok 0 := by
  have hn : ((machine ⟨0⟩).replay .fresh stakedFirst).2.userStake.get u =
      if u = ⟨2⟩ then _ else if u = ⟨2⟩ then _ else none := rfl
  rw [if_neg hu, if_neg hu] at hn
  exact getClaimable_absent hn (by decide)

theorem funding_kept_stakedFirst :
    getTotalFunded ((machine ⟨0⟩).replay .fresh stakedFirst).2 ≤
      paid ((machine ⟨0⟩).replay .fresh stakedFirst).1 +
        ∑ᶠ u, claimableView ((machine ⟨0⟩).replay .fresh stakedFirst).2 u +
        getPendingDust ((machine ⟨0⟩).replay .fresh stakedFirst).2 +
        (settlements ((machine ⟨0⟩).replay .fresh stakedFirst).1 +
          distributions ((machine ⟨0⟩).replay .fresh stakedFirst).1) := by
  refine funding_kept ((machine ⟨0⟩).run_replay .fresh stakedFirst) (fun u => ?_) (by decide)
  by_cases hu : u = ⟨2⟩
  · subst hu
    exact ⟨_, rfl⟩
  · exact ⟨0, getClaimable_stakedFirst hu⟩

/-- Ten units are funded before anybody has staked, and one after. -/
def fundedEarly : List (Env ⟨0⟩ × Call) :=
  [(.signed ⟨0⟩ 0, .init ⟨1⟩), (.signed ⟨0⟩ 0, .distributeRewards 10),
    (.signed ⟨0⟩ 0, .stake ⟨2⟩ 1), (.signed ⟨0⟩ 0, .distributeRewards 1)]

theorem getClaimable_fundedEarly (hu : u ≠ ⟨2⟩) :
    getClaimable ((machine ⟨0⟩).replay .fresh fundedEarly).2 u = .ok 0 := by
  have hn : ((machine ⟨0⟩).replay .fresh fundedEarly).2.userStake.get u =
      if u = ⟨2⟩ then _ else none := rfl
  rw [if_neg hu] at hn
  exact getClaimable_absent hn (by decide)

theorem claimable_fundedEarly :
    ∑ᶠ u, claimableView ((machine ⟨0⟩).replay .fresh fundedEarly).2 u = 1 := by
  have hs : claimableView ((machine ⟨0⟩).replay .fresh fundedEarly).2 ⟨2⟩ = 1 := by decide
  rw [finsum_eq_single _ ⟨2⟩, hs]
  intro u hu
  rw [claimableView, getClaimable_fundedEarly hu]
  rfl

theorem early_funding_lost :
    ¬ ∀ t s, (machine ⟨0⟩).Run .fresh t s → (∀ u, ∃ n, getClaimable s u = .ok n) →
      getTotalFunded s ≤ paid t + ∑ᶠ u, claimableView s u + getPendingDust s +
        (settlements t + distributions t) := by
  intro hall
  have hv (u) : ∃ n, getClaimable ((machine ⟨0⟩).replay .fresh fundedEarly).2 u = .ok n := by
    by_cases hu : u = ⟨2⟩
    · subst hu
      exact ⟨_, rfl⟩
    · exact ⟨0, getClaimable_fundedEarly hu⟩
  have hle := hall _ _ ((machine ⟨0⟩).run_replay .fresh fundedEarly) hv
  rw [claimable_fundedEarly] at hle
  exact absurd hle (by decide)

end Shelterflex.StakingRewards
