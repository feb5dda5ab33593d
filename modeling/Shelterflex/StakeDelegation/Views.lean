import Shelterflex.StakeDelegation.Funding

/-! The views of what a delegatee can claim return what the claims return. -/

namespace Shelterflex.StakeDelegation
open Lib
set_option autoImplicit true

/-- The banked amounts are stored as `i128`s. -/
structure Stored (s : State) : Prop where
  pending : ∀ d, InI128 (getPendingRewards s d)
  commission : ∀ d, InI128 (getCommissionBalance s d)

theorem inI128_set {m : Store Address Int} (hm : ∀ a, InI128 (m.getD a 0)) (hn : InI128 n)
    (d a : Address) : InI128 ((m.set d n).getD a 0) := by
  rw [Store.getD_set]
  split
  · exact hn
  · exact hm a

theorem creditCommission_stored (h : creditCommission d n s = .ok s') (hs : Stored s) :
    Stored s' := by
  unfold creditCommission at h
  split at h
  · simp only [bind_ok, i128Add_ok, pure_ok] at h
    obtain ⟨_, ⟨hfit, rfl⟩, rfl⟩ := h
    exact ⟨hs.pending, inI128_set hs.commission hfit d⟩
  · cases pure_ok.mp h
    exact hs

theorem creditRewards_stored (h : creditRewards d n s = .ok s') (hs : Stored s) : Stored s' := by
  unfold creditRewards at h
  split at h
  · simp only [bind_ok, i128Add_ok, pure_ok] at h
    obtain ⟨_, ⟨hfit, rfl⟩, rfl⟩ := h
    exact ⟨inI128_set hs.pending hfit d, hs.commission⟩
  · cases pure_ok.mp h
    exact hs

theorem settlePendingFor_stored (h : settlePendingFor d i s = .ok s') (hs : Stored s) :
    Stored s' := by
  simp only [settlePendingFor, bankRewards, bind_ok, pure_ok] at h
  obtain ⟨s₁, hb, rfl⟩ := h
  have hs₁ : Stored s₁ := by
    split at hb
    · simp only [bind_ok] at hb
      obtain ⟨gross, _, hb⟩ := hb
      split at hb
      · simp only [bind_ok] at hb
        obtain ⟨_, _, _, _, s₂, hc, hr⟩ := hb
        exact creditRewards_stored hr (creditCommission_stored hc hs)
      · cases pure_ok.mp hb
        exact hs
    · cases pure_ok.mp hb
      exact hs
  exact ⟨hs₁.pending, hs₁.commission⟩

theorem settleFor_stored (h : settleFor ds s = .ok s') (hs : Stored s) : Stored s' :=
  foldlM_invariant Stored (fun hs hd => settlePendingFor_stored hd hs) hs h

theorem Effects.stored (h : Effects within even s s' n m k) (hs : Stored s) : Stored s' := by
  cases h with
  | start _ he => exact he ▸ ⟨hs.pending, hs.commission⟩
  | restake he =>
    obtain ⟨_, s₁, hr⟩ := he.restakes
    have hs₁ := settleFor_stored hr.settled hs
    have hp : getPendingRewards s' = getPendingRewards s₁ :=
      congrArg (fun m => (Store.getD m · 0)) hr.pendingRewards
    have hc : getCommissionBalance s' = getCommissionBalance s₁ :=
      congrArg (fun m => (Store.getD m · 0)) hr.commission
    exact ⟨hp ▸ hs₁.pending, hc ▸ hs₁.commission⟩
  | drawRewards h₁ he =>
    have hs₁ := settleFor_stored h₁ hs
    exact he ▸ ⟨inI128_set hs₁.pending inI128_zero _, hs₁.commission⟩
  | drawCommission h₁ he =>
    have hs₁ := settleFor_stored h₁ hs
    exact he ▸ ⟨hs₁.pending, inI128_set hs₁.commission inI128_zero _⟩
  | fund _ _ _ he => exact he ▸ ⟨hs.pending, hs.commission⟩
  | idle _ he => exact he ▸ hs

theorem run_stored (h : (machine own).Run .fresh t s) : Stored s :=
  h.invariant_on (C := fun _ => True) (P := fun _ => Stored) (fun _ _ => trivial)
    ⟨fun _ => inI128_zero, fun _ => inI128_zero⟩
    fun hr hs he _ => (invoke_changes (run_valid hr) he).effects.stored hs

/-! Settling leaves the views alone. -/

theorem getDelegateeClaimable_eq (hs : Sound s) (h : getDelegateeClaimable s d = .ok n) :
    n = earned s d - kept s d + getPendingRewards s d := by
  simp only [getDelegateeClaimable, bind_ok, i128Add_ok] at h
  obtain ⟨m, hm, _, rfl⟩ := h
  rw [liveRewards_ok hm hs]

theorem getCommissionClaimable_eq (hs : Sound s) (h : getCommissionClaimable s d = .ok n) :
    n = kept s d + getCommissionBalance s d := by
  simp only [getCommissionClaimable, bind_ok, i128Add_ok] at h
  obtain ⟨m, hm, _, rfl⟩ := h
  rw [liveCommission_ok hm hs]

theorem views_idle
    (hidle : ¬ (0 < getDelegateeStake s d ∧ getDelegateeIndex s d < getRewardIndex s))
    (hs : Stored s) :
    getDelegateeClaimable s d = .ok (getPendingRewards s d) ∧
      getCommissionClaimable s d = .ok (getCommissionBalance s d) := by
  have hp : (i128Add 0 (getPendingRewards s d) : Outcome ContractError Int) =
      .ok (getPendingRewards s d) := i128Add_ok.mpr ⟨by simpa using hs.pending d, zero_add _⟩
  have hc : (i128Add 0 (getCommissionBalance s d) : Outcome ContractError Int) =
      .ok (getCommissionBalance s d) := i128Add_ok.mpr ⟨by simpa using hs.commission d, zero_add _⟩
  rw [getDelegateeClaimable, liveRewards, if_neg hidle, getCommissionClaimable, liveCommission,
    if_neg hidle]
  exact ⟨hp, hc⟩

theorem views_current (hs : Stored s) (h : getDelegateeIndex s d = getRewardIndex s) :
    getDelegateeClaimable s d = .ok (getPendingRewards s d) ∧
      getCommissionClaimable s d = .ok (getCommissionBalance s d) :=
  views_idle (fun hlt => hlt.2.ne h) hs

theorem getDelegateeClaimable_congr (hst : getDelegateeStake s' d = getDelegateeStake s d)
    (hx : getDelegateeIndex s' d = getDelegateeIndex s d)
    (hi : getRewardIndex s' = getRewardIndex s)
    (hr : getCommissionRate s' d = getCommissionRate s d)
    (hp : getPendingRewards s' d = getPendingRewards s d) :
    getDelegateeClaimable s' d = getDelegateeClaimable s d := by
  simp only [getDelegateeClaimable, liveRewards, grossReward, commissionOn, hst, hx, hi, hr, hp]

theorem getCommissionClaimable_congr (hst : getDelegateeStake s' d = getDelegateeStake s d)
    (hx : getDelegateeIndex s' d = getDelegateeIndex s d)
    (hi : getRewardIndex s' = getRewardIndex s)
    (hr : getCommissionRate s' d = getCommissionRate s d)
    (hc : getCommissionBalance s' d = getCommissionBalance s d) :
    getCommissionClaimable s' d = getCommissionClaimable s d := by
  simp only [getCommissionClaimable, liveCommission, grossReward, commissionOn, hst, hx, hi, hr, hc]

theorem credit_iff {f : Int → State} (hn : 0 ≤ n) (hb : InI128 b) :
    (∃ s', (if 0 < n then do
        let x ← i128Add b n
        return f x
      else return s : Outcome ContractError State) = .ok s') ↔ InI128 (n + b) := by
  split
  · simp only [bind_ok, i128Add_ok, pure_ok]
    rw [add_comm]
    constructor
    · rintro ⟨_, _, ⟨hfit, _⟩, _⟩
      exact hfit
    · intro hfit
      exact ⟨_, _, ⟨hfit, rfl⟩, rfl⟩
  · rename_i hz
    rw [le_antisymm (not_lt.mp hz) hn, zero_add]
    exact iff_of_true ⟨s, rfl⟩ hb

theorem creditCommission_iff (hn : 0 ≤ n) (hs : Stored s) :
    (∃ s', creditCommission d n s = .ok s') ↔ InI128 (n + getCommissionBalance s d) :=
  credit_iff hn (hs.commission d)

theorem creditRewards_iff (hn : 0 ≤ n) (hs : Stored s) :
    (∃ s', creditRewards d n s = .ok s') ↔ InI128 (n + getPendingRewards s d) :=
  credit_iff hn (hs.pending d)

theorem commissionOn_zero (d : Address) (s : State) : commissionOn 0 d s = .ok 0 := by
  simp only [commissionOn, bind_ok, i128Mul_ok, i128Div_ok, zero_mul]
  exact ⟨0, ⟨inI128_zero, rfl⟩, by decide, inI128_zero, rfl⟩

/-- The two credits of a settlement do not get in each other's way. -/
theorem credits_iff (hc : 0 ≤ c) (hn : 0 ≤ n) (hst : Stored s) :
    (∃ s₁ s', creditCommission d c s = .ok s₁ ∧ creditRewards d n s₁ = .ok s') ↔
      InI128 (c + getCommissionBalance s d) ∧ InI128 (n + getPendingRewards s d) := by
  constructor
  · rintro ⟨s₁, s', h₁, h₂⟩
    have hfit := (creditRewards_iff hn (creditCommission_stored h₁ hst)).mp ⟨s', h₂⟩
    rw [(creditCommission_ok h₁ hc).2] at hfit
    exact ⟨(creditCommission_iff hc hst).mp ⟨s₁, h₁⟩, hfit⟩
  · rintro ⟨hfit₁, hfit₂⟩
    obtain ⟨s₁, h₁⟩ := (creditCommission_iff hc hst).mpr hfit₁
    rw [← (creditCommission_ok h₁ hc).2] at hfit₂
    obtain ⟨s', h₂⟩ := (creditRewards_iff hn (creditCommission_stored h₁ hst)).mpr hfit₂
    exact ⟨s₁, s', h₁, h₂⟩

theorem shares_nonneg (hs : Sound s)
    (hc : 0 < getDelegateeStake s d ∧ getDelegateeIndex s d < getRewardIndex s)
    (hg : grossReward d (getRewardIndex s) s = .ok g) :
    0 ≤ g ∧ ∀ c, commissionOn g d s = .ok c → 0 ≤ c ∧ 0 ≤ g - c := by
  have hge : g = earned s d := grossReward_ok hc.1 hc.2 hg
  have hg₀ : 0 ≤ g := hge ▸ hs.earned_nonneg d
  refine ⟨hg₀, fun c hcom => ?_⟩
  have hce : c = kept s d := by rw [commissionOn_ok hcom hg₀, kept, hge]
  rw [hce, hge]
  exact ⟨hs.kept_nonneg d, sub_nonneg.mpr (hs.kept_le d)⟩

theorem bankRewards_iff (hs : Sound s) (hst : Stored s) :
    (∃ s', bankRewards d (getRewardIndex s) s = .ok s') ↔
      (∃ n, getDelegateeClaimable s d = .ok n) ∧ ∃ n, getCommissionClaimable s d = .ok n := by
  by_cases hc : 0 < getDelegateeStake s d ∧ getDelegateeIndex s d < getRewardIndex s
  · simp only [bankRewards, getDelegateeClaimable, liveRewards, getCommissionClaimable,
      liveCommission, if_pos hc, bind_ok, i128Add_ok]
    constructor
    · rintro ⟨s', g, hg, h⟩
      obtain ⟨hg₀, hshares⟩ := shares_nonneg hs hc hg
      split at h
      · simp only [bind_ok, i128Sub_ok] at h
        obtain ⟨c, hcom, _, ⟨hfit, rfl⟩, s₁, h₁, h₂⟩ := h
        obtain ⟨hc₀, hn₀⟩ := hshares c hcom
        obtain ⟨hfit₁, hfit₂⟩ := (credits_iff hc₀ hn₀ hst).mp ⟨s₁, s', h₁, h₂⟩
        exact ⟨⟨_, _, ⟨g, hg, c, hcom, i128Sub_ok.mpr ⟨hfit, rfl⟩⟩, hfit₂, rfl⟩,
          ⟨_, c, ⟨g, hg, hcom⟩, hfit₁, rfl⟩⟩
      · rename_i hz
        obtain rfl : g = 0 := le_antisymm (not_lt.mp hz) hg₀
        have hsub : (i128Sub 0 0 : Outcome ContractError Int) = .ok 0 := rfl
        exact ⟨⟨_, 0, ⟨0, hg, 0, commissionOn_zero d s, hsub⟩, by simpa using hst.pending d, rfl⟩,
          ⟨_, 0, ⟨0, hg, commissionOn_zero d s⟩, by simpa using hst.commission d, rfl⟩⟩
    · rintro ⟨⟨_, _, ⟨g, hg, c, hcom, hsub⟩, hfit₂, _⟩, ⟨_, _, ⟨g', hg', hcom'⟩, hfit₁, _⟩⟩
      cases hg.symm.trans hg'
      cases hcom.symm.trans hcom'
      obtain ⟨_, rfl⟩ := i128Sub_ok.mp hsub
      obtain ⟨hc₀, hn₀⟩ := (shares_nonneg hs hc hg).2 c hcom
      obtain ⟨s₁, s', h₁, h₂⟩ := (credits_iff hc₀ hn₀ hst).mpr ⟨hfit₁, hfit₂⟩
      by_cases hpos : 0 < g
      · refine ⟨s', g, hg, ?_⟩
        rw [if_pos hpos]
        simp only [bind_ok]
        exact ⟨c, hcom, _, hsub, s₁, h₁, h₂⟩
      · refine ⟨s, g, hg, ?_⟩
        rw [if_neg hpos]
        rfl
  · obtain ⟨hp, hcm⟩ := views_idle hc hst
    rw [bankRewards, if_neg hc]
    exact iff_of_true ⟨s, rfl⟩ ⟨⟨_, hp⟩, ⟨_, hcm⟩⟩

/-- Settling a delegatee changes no view. -/
theorem views_settled (h : settlePendingFor d (getRewardIndex s) s = .ok s₁) (hs : Sound s)
    (hst : Stored s) (a : Address) :
    getDelegateeClaimable s₁ a = getDelegateeClaimable s a ∧
      getCommissionClaimable s₁ a = getCommissionClaimable s a := by
  have hst₁ := settlePendingFor_stored h hst
  simp only [settlePendingFor, bind_ok, pure_ok] at h
  obtain ⟨s₂, hb, rfl⟩ := h
  obtain ⟨hp, hc⟩ := bankRewards_ok hb hs
  obtain ⟨P, C, rfl⟩ := bankRewards_credits hb
  by_cases ha : a = d
  · subst ha
    obtain ⟨⟨n, hn⟩, m, hm⟩ := (bankRewards_iff hs hst).mp ⟨_, hb⟩
    have hidx : getDelegateeIndex { s with
        pendingRewards := P
        delegateeCommissionBalance := C
        delegateeRewardIndex := s.delegateeRewardIndex.set a (getRewardIndex s) } a =
          getRewardIndex s := Store.getD_set_self ..
    obtain ⟨hv, hv'⟩ := views_current hst₁ hidx
    have hpd : P.getD a 0 = getPendingRewards s a + (earned s a - kept s a) :=
      (congrFun hp a).trans (Function.update_self ..)
    have hcd : C.getD a 0 = getCommissionBalance s a + kept s a :=
      (congrFun hc a).trans (Function.update_self ..)
    rw [hv, hv', hn, hm, getDelegateeClaimable_eq hs hn, getCommissionClaimable_eq hs hm]
    refine ⟨congrArg Except.ok ?_, congrArg Except.ok ?_⟩
    · exact hpd.trans (add_comm _ _)
    · exact hcd.trans (add_comm _ _)
  · have hidx : getDelegateeIndex { s with
        pendingRewards := P
        delegateeCommissionBalance := C
        delegateeRewardIndex := s.delegateeRewardIndex.set d (getRewardIndex s) } a =
          getDelegateeIndex s a := Store.getD_set_of_ne _ _ _ ha
    have hpa : P.getD a 0 = getPendingRewards s a :=
      (congrFun hp a).trans (Function.update_of_ne ha _ _)
    have hca : C.getD a 0 = getCommissionBalance s a :=
      (congrFun hc a).trans (Function.update_of_ne ha _ _)
    exact ⟨getDelegateeClaimable_congr rfl hidx rfl rfl hpa,
      getCommissionClaimable_congr rfl hidx rfl rfl hca⟩

/-! The claims -/

/-- The views of a delegatee, and the calls they are about. -/
structure ViewsAgree (own : Address) (s : State) (d : Address) : Prop where
  rewards : ∀ (env : Env own) s' n, claimDelegateeRewards env d s = .ok (s', n) →
    getDelegateeClaimable s d = .ok n ∧
      getCommissionClaimable s' d = getCommissionClaimable s d
  commission : ∀ (env : Env own) s' n, claimCommission env d s = .ok (s', n) →
    getCommissionClaimable s d = .ok n ∧
      getDelegateeClaimable s' d = getDelegateeClaimable s d
  claims : ∀ (env : Env own) n m, s.paused.getD false = false → env.authorized d = true →
    getDelegateeClaimable s d = .ok n → getCommissionClaimable s d = .ok m →
    (∃ s₁ s₂, claimDelegateeRewards env d s = .ok (s₁, n) ∧
      claimCommission env d s₁ = .ok (s₂, m)) ∧
    ∃ s₁ s₂, claimCommission env d s = .ok (s₁, m) ∧
      claimDelegateeRewards env d s₁ = .ok (s₂, n)
  rate : ∀ (env : Env own) delegatee rateBps s', setCommission env delegatee rateBps s = .ok s' →
    getDelegateeClaimable s' d = getDelegateeClaimable s d ∧
      getCommissionClaimable s' d = getCommissionClaimable s d

theorem settlePendingFor_current (h : settlePendingFor d (getRewardIndex s) s = .ok s₁) :
    getDelegateeIndex s₁ d = getRewardIndex s₁ := by
  simp only [settlePendingFor, bind_ok, pure_ok] at h
  obtain ⟨s₂, hb, rfl⟩ := h
  obtain ⟨P, C, rfl⟩ := bankRewards_credits hb
  exact Store.getD_set_self ..

section
variable {env : Env own}

theorem claimDelegateeRewards_views (hs : Sound s) (hst : Stored s)
    (h : claimDelegateeRewards env d s = .ok (s', n)) :
    getDelegateeClaimable s d = .ok n ∧ getDelegateeClaimable s' d = .ok 0 ∧
      getCommissionClaimable s' d = getCommissionClaimable s d := by
  have hst' := (claimDelegateeRewards_effects h : Effects True True s s' 0 n 0).stored hst
  obtain ⟨s₁, h₁, rfl, rfl⟩ := claimDelegateeRewards_ok h
  rw [← settlePendingFor_eq] at h₁
  obtain ⟨hv, hv'⟩ := views_settled h₁ hs hst d
  have hidx := settlePendingFor_current h₁
  refine ⟨?_, ?_, ?_⟩
  · rw [← hv]
    exact (views_current (settlePendingFor_stored h₁ hst) hidx).1
  · rw [(views_current hst' hidx).1]
    exact congrArg Except.ok (Store.getD_set_self ..)
  · rw [← hv']
    exact getCommissionClaimable_congr rfl rfl rfl rfl rfl

theorem claimCommission_views (hs : Sound s) (hst : Stored s)
    (h : claimCommission env d s = .ok (s', n)) :
    getCommissionClaimable s d = .ok n ∧ getCommissionClaimable s' d = .ok 0 ∧
      getDelegateeClaimable s' d = getDelegateeClaimable s d := by
  have hst' := (claimCommission_effects h : Effects True True s s' 0 n 0).stored hst
  obtain ⟨s₁, h₁, rfl, rfl⟩ := claimCommission_ok h
  rw [← settlePendingFor_eq] at h₁
  obtain ⟨hv, hv'⟩ := views_settled h₁ hs hst d
  have hidx := settlePendingFor_current h₁
  refine ⟨?_, ?_, ?_⟩
  · rw [← hv']
    exact (views_current (settlePendingFor_stored h₁ hst) hidx).2
  · rw [(views_current hst' hidx).2]
    exact congrArg Except.ok (Store.getD_set_self ..)
  · rw [← hv]
    exact getDelegateeClaimable_congr rfl rfl rfl rfl rfl

theorem claimDelegateeRewards_paused (h : claimDelegateeRewards env d s = .ok (s', n)) :
    s'.paused = s.paused := by
  obtain ⟨s₁, h₁, _, rfl⟩ := claimDelegateeRewards_ok h
  obtain ⟨_, _, _, rfl⟩ := settleFor_settles h₁
  rfl

theorem claimCommission_paused (h : claimCommission env d s = .ok (s', n)) :
    s'.paused = s.paused := by
  obtain ⟨s₁, h₁, _, rfl⟩ := claimCommission_ok h
  obtain ⟨_, _, _, rfl⟩ := settleFor_settles h₁
  rfl

theorem claims_enabled (hs : Sound s) (hst : Stored s) (hn : s.paused.getD false = false)
    (ha : env.authorized d = true) (hr : getDelegateeClaimable s d = .ok n)
    (hc : getCommissionClaimable s d = .ok m) :
    (∃ s', claimDelegateeRewards env d s = .ok (s', n)) ∧
      ∃ s', claimCommission env d s = .ok (s', m) := by
  obtain ⟨s₂, hb⟩ := (bankRewards_iff hs hst).mpr ⟨⟨n, hr⟩, ⟨m, hc⟩⟩
  have hset : settlePendingFor d (getRewardIndex s) s = .ok _ := bind_of_ok hb _
  have hrewards : ∃ s' n', claimDelegateeRewards env d s = .ok (s', n') := by
    simp only [claimDelegateeRewards, requireNotPaused, bind_ok, require_ok, requireAuth_ok]
    exact ⟨_, _, (), hn, (), ha, _, hset, rfl⟩
  have hcommission : ∃ s' m', claimCommission env d s = .ok (s', m') := by
    simp only [claimCommission, requireNotPaused, bind_ok, require_ok, requireAuth_ok]
    exact ⟨_, _, (), hn, (), ha, _, hset, rfl⟩
  obtain ⟨s₃, n', hrewards⟩ := hrewards
  obtain ⟨s₄, m', hcommission⟩ := hcommission
  cases hr.symm.trans (claimDelegateeRewards_views hs hst hrewards).1
  cases hc.symm.trans (claimCommission_views hs hst hcommission).1
  exact ⟨⟨s₃, hrewards⟩, ⟨s₄, hcommission⟩⟩

/-- After either claim the other one still returns what its view did. -/
theorem claims_in_order (hs : Sound s) (hst : Stored s) (hn : s.paused.getD false = false)
    (ha : env.authorized d = true) (hr : getDelegateeClaimable s d = .ok n)
    (hc : getCommissionClaimable s d = .ok m) :
    (∃ s₁ s₂, claimDelegateeRewards env d s = .ok (s₁, n) ∧
      claimCommission env d s₁ = .ok (s₂, m)) ∧
    ∃ s₁ s₂, claimCommission env d s = .ok (s₁, m) ∧
      claimDelegateeRewards env d s₁ = .ok (s₂, n) := by
  obtain ⟨⟨s₁, h₁⟩, s₂, h₂⟩ := claims_enabled hs hst hn ha hr hc
  have hx₁ : Effects True True s s₁ 0 n 0 := claimDelegateeRewards_effects h₁
  have hx₂ : Effects True True s s₂ 0 m 0 := claimCommission_effects h₂
  obtain ⟨_, hr₁, hc₁⟩ := claimDelegateeRewards_views hs hst h₁
  obtain ⟨_, hc₂, hr₂⟩ := claimCommission_views hs hst h₂
  rw [hc] at hc₁
  rw [hr] at hr₂
  rw [← claimDelegateeRewards_paused h₁] at hn
  obtain ⟨_, s₃, h₃⟩ := claims_enabled (hx₁.sound hs) (hx₁.stored hst) hn ha hr₁ hc₁
  rw [claimDelegateeRewards_paused h₁, ← claimCommission_paused h₂] at hn
  obtain ⟨⟨s₄, h₄⟩, _⟩ := claims_enabled (hx₂.sound hs) (hx₂.stored hst) hn ha hr₂ hc₂
  exact ⟨⟨s₁, s₃, h₁, h₃⟩, ⟨s₂, s₄, h₂, h₄⟩⟩

theorem setCommission_views (hs : Sound s) (hst : Stored s)
    (h : setCommission env delegatee rateBps s = .ok s') (d : Address) :
    getDelegateeClaimable s' d = getDelegateeClaimable s d ∧
      getCommissionClaimable s' d = getCommissionClaimable s d := by
  simp only [setCommission, bind_ok] at h
  obtain ⟨_, _, _, _, h⟩ := h
  split at h
  · rename_i hle
    simp only [bind_ok, pure_ok] at h
    obtain ⟨s₁, h₁, rfl⟩ := h
    obtain ⟨hv, hv'⟩ := views_settled h₁ hs hst d
    have hst₁ := settlePendingFor_stored h₁ hst
    rw [← hv, ← hv']
    by_cases hd : d = delegatee
    · subst hd
      -- the rate is read only where the index is behind, and the call has just settled it
      have hidx := settlePendingFor_current h₁
      obtain ⟨hr, hc⟩ := views_current hst₁ hidx
      have hst' : Stored { s₁ with
          delegateeCommissionRate := s₁.delegateeCommissionRate.set d ⟨rateBps, hle⟩ } :=
        ⟨hst₁.pending, hst₁.commission⟩
      rw [hr, hc]
      exact views_current hst' hidx
    · have hrate : getCommissionRate { s₁ with
          delegateeCommissionRate := s₁.delegateeCommissionRate.set delegatee ⟨rateBps, hle⟩ } d =
            getCommissionRate s₁ d :=
        congrArg (fun r : { n : Nat // n ≤ 10000 } => (r.val : Int)) (Store.getD_set_of_ne _ _ _ hd)
      exact ⟨getDelegateeClaimable_congr rfl rfl rfl hrate rfl,
        getCommissionClaimable_congr rfl rfl rfl hrate rfl⟩
  · cases h

end

/-- The views return what the claims do, in either order, whatever the rate is set to. -/
theorem views_agree (h : (machine own).Reachable .fresh s) (d : Address) :
    ViewsAgree own s d := by
  obtain ⟨t, ht⟩ := h
  have hs := run_sound ht
  have hst := run_stored ht
  exact ⟨fun _ _ _ he => ⟨(claimDelegateeRewards_views hs hst he).1,
      (claimDelegateeRewards_views hs hst he).2.2⟩,
    fun _ _ _ he => ⟨(claimCommission_views hs hst he).1, (claimCommission_views hs hst he).2.2⟩,
    fun _ _ _ => claims_in_order hs hst,
    fun _ _ _ _ hr => setCommission_views hs hst hr d⟩

theorem views_agree_even :
    ViewsAgree ⟨0⟩ ((machine ⟨0⟩).replay .fresh evenFundingCalls).2 ⟨9⟩ :=
  views_agree ⟨_, (machine ⟨0⟩).run_replay .fresh evenFundingCalls⟩ ⟨9⟩

end Shelterflex.StakeDelegation
