import Shelterflex.StakeDelegation.Operations
import Shelterflex.Lib.RewardIndex

namespace Shelterflex.StakeDelegation
open Lib
set_option autoImplicit true

theorem scale_pos : 0 < scale := by decide

/-- The reward entries as accounts of one index, whose share is the delegatee's stake. -/
def ledger (s : State) : RewardIndex Address where
  share d := max (getDelegateeStake s d) 0
  snapshot := getDelegateeIndex s
  banked d := getPendingRewards s d + getCommissionBalance s d
  index := getRewardIndex s

theorem share_finite (s : State) : (ledger s).share.support.Finite :=
  s.delegateeStake.support_finite fun d hd => by
    simp only [ledger, getDelegateeStake, Store.getD, hd]
    rfl

theorem banked_finite (s : State) : (ledger s).banked.support.Finite := by
  have hp : (getPendingRewards s).support.Finite :=
    s.pendingRewards.support_finite fun d hd => by
      simp only [getPendingRewards, Store.getD, hd]
      rfl
  have hc : (getCommissionBalance s).support.Finite :=
    s.delegateeCommissionBalance.support_finite fun d hd => by
      simp only [getCommissionBalance, Store.getD, hd]; rfl
  apply (hp.union hc).subset
  intro d hd
  by_contra hn
  simp only [Set.mem_union, Function.mem_support, not_or, not_not] at hn
  exact hd (by simp only [ledger, hn.1, hn.2, add_zero])

/-- What holds of the reward entries in every reachable state. Nothing is funded before `init`. -/
structure Sound (s : State) : Prop where
  pending_nonneg : ∀ d, 0 ≤ getPendingRewards s d
  commission_nonneg : ∀ d, 0 ≤ getCommissionBalance s d
  snapshot_le : ∀ d, getDelegateeIndex s d ≤ getRewardIndex s
  idle : s.admin = none → getRewardIndex s = 0

theorem Sound.wellFormed (h : Sound s) : (ledger s).WellFormed where
  share_nonneg _ := le_max_right _ _
  banked_nonneg d := add_nonneg (h.pending_nonneg d) (h.commission_nonneg d)
  snapshot_le := h.snapshot_le
  share_finite := share_finite s
  banked_finite := banked_finite s

/-- What a delegatee has earned since its snapshot, commission included. -/
def earned (s : State) (d : Address) : Int :=
  (ledger s).share d * ((ledger s).index - (ledger s).snapshot d) / scale

/-- The part of `earned` that the delegatee keeps as commission. -/
def kept (s : State) (d : Address) : Int := earned s d * getCommissionRate s d / 10000

theorem Sound.earned_nonneg (h : Sound s) (d : Address) : 0 ≤ earned s d :=
  Int.ediv_nonneg (h.wellFormed.accrued_nonneg d) scale_pos.le

theorem Sound.kept_nonneg (h : Sound s) (d : Address) : 0 ≤ kept s d :=
  Int.ediv_nonneg (mul_nonneg (h.earned_nonneg d) (Int.natCast_nonneg _)) (by decide)

theorem Sound.kept_le (h : Sound s) (d : Address) : kept s d ≤ earned s d :=
  part_le (h.earned_nonneg d)
    (Int.ofNat_le.mpr (s.delegateeCommissionRate.getD d ⟨0, Nat.zero_le _⟩).property) (by decide)

theorem earned_of_inactive (h : Sound s)
    (hn : ¬ (0 < getDelegateeStake s d ∧ getDelegateeIndex s d < getRewardIndex s)) :
    earned s d = 0 := by
  have hle := h.snapshot_le d
  rw [earned, ledger]
  by_cases hs : 0 < getDelegateeStake s d
  · have he : getRewardIndex s - getDelegateeIndex s d = 0 := by
      have := fun hi => hn ⟨hs, hi⟩
      omega
    simp only [he, mul_zero, Int.zero_ediv]
  · simp only [max_eq_right (not_lt.mp hs), zero_mul, Int.zero_ediv]

theorem grossReward_ok (hs : 0 < getDelegateeStake s d)
    (hi : getDelegateeIndex s d < getRewardIndex s)
    (h : grossReward d (getRewardIndex s) s = .ok n) : n = earned s d := by
  simp only [grossReward, bind_ok, i128Sub_ok, i128Mul_ok, i128Div_ok] at h
  obtain ⟨_, ⟨_, rfl⟩, _, ⟨_, rfl⟩, _, _, rfl⟩ := h
  rw [Int.tdiv_eq_ediv_of_nonneg (mul_nonneg hs.le (sub_nonneg.mpr hi.le)), earned, ledger]
  simp only [max_eq_left hs.le]

theorem commissionOn_ok (h : commissionOn n d s = .ok m) (hn : 0 ≤ n) :
    m = n * getCommissionRate s d / 10000 := by
  simp only [commissionOn, bind_ok, i128Mul_ok, i128Div_ok] at h
  obtain ⟨_, ⟨_, rfl⟩, _, _, rfl⟩ := h
  exact Int.tdiv_eq_ediv_of_nonneg (mul_nonneg hn (Int.natCast_nonneg _))

theorem creditCommission_ok (h : creditCommission d n s = .ok s') (hn : 0 ≤ n) :
    getCommissionBalance s' =
        Function.update (getCommissionBalance s) d (getCommissionBalance s d + n) ∧
      getPendingRewards s' = getPendingRewards s := by
  unfold creditCommission at h
  split at h <;> rename_i hp
  · simp only [bind_ok, i128Add_ok, pure_ok] at h
    obtain ⟨_, ⟨_, rfl⟩, rfl⟩ := h
    exact ⟨Store.getD_set_update .., rfl⟩
  · cases pure_ok.mp h
    rw [show n = 0 by omega, add_zero, Function.update_eq_self]
    exact ⟨rfl, rfl⟩

theorem creditRewards_ok (h : creditRewards d n s = .ok s') (hn : 0 ≤ n) :
    getPendingRewards s' = Function.update (getPendingRewards s) d (getPendingRewards s d + n) ∧
      getCommissionBalance s' = getCommissionBalance s := by
  unfold creditRewards at h
  split at h <;> rename_i hp
  · simp only [bind_ok, i128Add_ok, pure_ok] at h
    obtain ⟨_, ⟨_, rfl⟩, rfl⟩ := h
    exact ⟨Store.getD_set_update .., rfl⟩
  · cases pure_ok.mp h
    rw [show n = 0 by omega, add_zero, Function.update_eq_self]
    exact ⟨rfl, rfl⟩

theorem bankRewards_ok (h : bankRewards d (getRewardIndex s) s = .ok s') (hs : Sound s) :
    getPendingRewards s' = Function.update (getPendingRewards s) d
        (getPendingRewards s d + (earned s d - kept s d)) ∧
      getCommissionBalance s' = Function.update (getCommissionBalance s) d
        (getCommissionBalance s d + kept s d) := by
  have hz (he : earned s d = 0) (hs' : s' = s) :
      getPendingRewards s' = Function.update (getPendingRewards s) d
          (getPendingRewards s d + (earned s d - kept s d)) ∧
        getCommissionBalance s' = Function.update (getCommissionBalance s) d
          (getCommissionBalance s d + kept s d) := by
    rw [kept, he, zero_mul, Int.zero_ediv, sub_zero, add_zero, add_zero, Function.update_eq_self,
      Function.update_eq_self, hs']
    exact ⟨rfl, rfl⟩
  unfold bankRewards at h
  split at h <;> rename_i hc
  · simp only [bind_ok] at h
    obtain ⟨g, hg, h⟩ := h
    have hg := grossReward_ok hc.1 hc.2 hg
    split at h <;> rename_i hp
    · simp only [bind_ok, i128Sub_ok] at h
      obtain ⟨c, hcom, _, ⟨_, rfl⟩, s₁, h₁, h₂⟩ := h
      have hc' : c = kept s d := (commissionOn_ok hcom hp.le).trans (by rw [hg, kept])
      obtain ⟨h₁, h₁'⟩ := creditCommission_ok h₁ (hc' ▸ hs.kept_nonneg d)
      obtain ⟨h₂, h₂'⟩ := creditRewards_ok h₂ (by
        have := hs.kept_le d
        omega)
      rw [h₂, h₂', h₁, h₁', hg, hc']
      exact ⟨rfl, rfl⟩
    · have := hs.earned_nonneg d
      exact hz (by omega) (pure_ok.mp h).symm
  · exact hz (earned_of_inactive hs hc) (pure_ok.mp h).symm

/-- Settling a delegatee settles its account of the index. -/
theorem settlePendingFor_ok (h : settlePendingFor d (getRewardIndex s) s = .ok s')
    (hs : Sound s) : ledger s' = (ledger s).settle scale d ∧ Sound s' := by
  simp only [settlePendingFor, bind_ok, pure_ok] at h
  obtain ⟨s₁, hb, h⟩ := h
  obtain ⟨hp, hc⟩ := bankRewards_ok hb hs
  obtain ⟨P, C, h₁⟩ := bankRewards_credits hb
  have hx : getDelegateeIndex s' = Function.update (getDelegateeIndex s) d (getRewardIndex s) := by
    rw [← h, h₁]
    exact Store.getD_set_update ..
  have hi : getRewardIndex s' = getRewardIndex s := by
    rw [← h, h₁]
    rfl
  have hst : getDelegateeStake s' = getDelegateeStake s := by
    rw [← h, h₁]
    rfl
  have hp' : getPendingRewards s' = getPendingRewards s₁ := by rw [← h]; rfl
  have hc' : getCommissionBalance s' = getCommissionBalance s₁ := by rw [← h]; rfl
  rw [hp] at hp'
  rw [hc] at hc'
  constructor
  · ext a
    · simp only [ledger, hst, RewardIndex.settle]
    · simp only [ledger, hx, RewardIndex.settle]
    · simp only [ledger, hp', hc', RewardIndex.settle]
      by_cases he : a = d
      · rw [he, Function.update_self, Function.update_self, Function.update_self,
          RewardIndex.claimable, earned, ledger]
        ring
      · rw [Function.update_of_ne he, Function.update_of_ne he, Function.update_of_ne he]
    · exact hi
  · have hk := hs.kept_le d
    have hn := hs.kept_nonneg d
    have ha : s'.admin = s.admin := by
      rw [← h, h₁]
    constructor
    · intro a
      by_cases he : a = d
      · have := hs.pending_nonneg d
        rw [hp', he, Function.update_self]
        omega
      · rw [hp', Function.update_of_ne he]
        exact hs.pending_nonneg a
    · intro a
      by_cases he : a = d
      · have := hs.commission_nonneg d
        rw [hc', he, Function.update_self]
        omega
      · rw [hc', Function.update_of_ne he]
        exact hs.commission_nonneg a
    · intro a
      by_cases he : a = d
      · rw [hx, hi, he, Function.update_self]
      · rw [hx, hi, Function.update_of_ne he]
        exact hs.snapshot_le a
    · rw [ha, hi]
      exact hs.idle

theorem settleFor_ok (h : settleFor ds s = .ok s') (hs : Sound s) :
    ledger s' = ds.foldl (RewardIndex.settle scale) (ledger s) ∧ Sound s' := by
  have hfold (ds : List Address) (i : Int) (s₁ : State) (hi : getRewardIndex s₁ = i)
      (hs : Sound s₁) (h : ds.foldlM (fun s' d => settlePendingFor d i s') s₁ = .ok s') :
      ledger s' = ds.foldl (RewardIndex.settle scale) (ledger s₁) ∧ Sound s' := by
    induction ds generalizing s₁ with
    | nil =>
      cases h
      exact ⟨rfl, hs⟩
    | cons d ds ih =>
      simp only [List.foldlM_cons, bind_ok] at h
      obtain ⟨s₂, hd, h⟩ := h
      rw [← hi] at hd
      obtain ⟨hl, hs₂⟩ := settlePendingFor_ok hd hs
      have hi₂ : getRewardIndex s₂ = getRewardIndex s₁ := congrArg RewardIndex.index hl
      obtain ⟨hl', hs'⟩ := ih s₂ (hi₂.trans hi) hs₂ h
      rw [hl] at hl'
      exact ⟨hl', hs'⟩
  exact hfold ds _ s rfl hs h

theorem Restakes.sound (h : Restakes ds s s₁ s') (hs : Sound s) :
    Sound s' ∧ (ledger s').potential scale ≤ (ledger s).potential scale := by
  obtain ⟨hl, hs₁⟩ := settleFor_ok h.settled hs
  obtain ⟨_, hidx, hpot, hsnap⟩ := RewardIndex.settleAll_spec hs.wellFormed scale_pos ds
  rw [← hl] at hidx hpot hsnap
  have hp : getPendingRewards s' = getPendingRewards s₁ :=
    congrArg (fun m => (Store.getD m · 0)) h.pendingRewards
  have hc : getCommissionBalance s' = getCommissionBalance s₁ :=
    congrArg (fun m => (Store.getD m · 0)) h.commission
  have hx : getDelegateeIndex s' = getDelegateeIndex s₁ :=
    congrArg (fun m => (Store.getD m · 0)) h.snapshot
  have hi : getRewardIndex s' = getRewardIndex s₁ := congrArg (Option.getD · 0) h.index
  refine ⟨⟨hp ▸ hs₁.pending_nonneg, hc ▸ hs₁.commission_nonneg, hx ▸ hi ▸ hs₁.snapshot_le,
    h.admin ▸ hi ▸ hs₁.idle⟩, ?_⟩
  refine (RewardIndex.potential_reshare ?_ hx hi fun d => ?_).trans_le hpot
  · funext d
    simp only [ledger, hp, hc]
  · by_cases hd : d ∈ ds
    · exact .inr ((hsnap d (.inl hd)).trans hidx.symm)
    · exact .inl (congrArg (max · 0) (h.stake d hd))

theorem ledger_drawRewards (s : State) (d : Address) :
    ledger { s with pendingRewards := s.pendingRewards.set d 0 } =
      (ledger s).withdraw d (getPendingRewards s d) := by
  ext a
  · rfl
  · rfl
  · by_cases he : a = d
    · simp [ledger, RewardIndex.withdraw, he, getPendingRewards, getCommissionBalance]
    · simp [ledger, RewardIndex.withdraw, he, getPendingRewards, getCommissionBalance,
        Store.getD_set_of_ne]
  · rfl

theorem ledger_drawCommission (s : State) (d : Address) :
    ledger { s with delegateeCommissionBalance := s.delegateeCommissionBalance.set d 0 } =
      (ledger s).withdraw d (getCommissionBalance s d) := by
  ext a
  · rfl
  · rfl
  · by_cases he : a = d
    · simp [ledger, RewardIndex.withdraw, he, getPendingRewards, getCommissionBalance]
    · simp [ledger, RewardIndex.withdraw, he, getPendingRewards, getCommissionBalance,
        Store.getD_set_of_ne]
  · rfl

theorem set_zero_nonneg (m : Store Address Int) (h : ∀ a, 0 ≤ m.getD a 0) (d a : Address) :
    0 ≤ (m.set d 0).getD a 0 := by
  rw [Store.getD_set]
  split
  · exact le_rfl
  · exact h a

/-- `init` leaves the rewards alone, since the index is still at 0. -/
theorem start_ledger (hs : Sound s) (hn : s.admin = none) :
    ledger (started admin epochDurationSecs s) = ledger s := by
  ext d
  · rfl
  · rfl
  · rfl
  · exact (hs.idle hn).symm

theorem Effects.sound (h : Effects within even s s' n m k) (hs : Sound s) : Sound s' := by
  cases h with
  | start hn he =>
    rw [he]
    refine ⟨hs.pending_nonneg, hs.commission_nonneg, fun d => ?_, nofun⟩
    exact (hs.snapshot_le d).trans (hs.idle hn).le
  | restake he =>
    obtain ⟨_, _, hr⟩ := he.restakes
    exact (hr.sound hs).1
  | drawRewards h₁ he =>
    have hs₁ := (settleFor_ok h₁ hs).2
    rw [he]
    exact ⟨set_zero_nonneg _ hs₁.pending_nonneg _, hs₁.commission_nonneg, hs₁.snapshot_le,
      hs₁.idle⟩
  | drawCommission h₁ he =>
    have hs₁ := (settleFor_ok h₁ hs).2
    rw [he]
    exact ⟨hs₁.pending_nonneg, set_zero_nonneg _ hs₁.commission_nonneg _, hs₁.snapshot_le,
      hs₁.idle⟩
  | fund hn ht hset he =>
    rw [he]
    refine ⟨hs.pending_nonneg, hs.commission_nonneg, fun d => (hs.snapshot_le d).trans ?_,
      fun hnone => absurd hnone hset⟩
    exact le_add_of_nonneg_right (Int.tdiv_nonneg (mul_nonneg hn.le scale_pos.le) ht.le)
  | idle _ he => exact he ▸ hs

/-- All delegated stake is part of the total that rewards are spread over. -/
def StakeCounted (s : State) : Prop := ∑ᶠ d, max (getDelegateeStake s d) 0 ≤ getTotalStaked s

theorem Effects.potential_le (h : Effects within even s s' n m k) (hs : Sound s)
    (hc : 0 < n → 0 < getTotalStaked s → StakeCounted s) :
    (ledger s').potential scale + scale * m ≤ (ledger s).potential scale + scale * n := by
  have hdraw (d : Address) (s₁ : State) (h₁ : settleFor [d] s = .ok s₁) (m : Int) :
      ((ledger s₁).withdraw d m).potential scale + scale * m ≤ (ledger s).potential scale := by
    obtain ⟨hl, hs₁⟩ := settleFor_ok h₁ hs
    have hp := RewardIndex.potential_settle hs.wellFormed scale_pos d
    rw [RewardIndex.potential_withdraw hs₁.wellFormed, hl, List.foldl_cons, List.foldl_nil]
    linarith
  cases h with
  | start hn he => rw [he, start_ledger hs hn]
  | restake he =>
    obtain ⟨_, _, hr⟩ := he.restakes
    have hp := (hr.sound hs).2
    linarith
  | @drawRewards d s₁ h₁ he =>
    have hd := hdraw d s₁ h₁ (getPendingRewards s₁ d)
    rw [he, ledger_drawRewards]
    linarith
  | @drawCommission d s₁ h₁ he =>
    have hd := hdraw d s₁ h₁ (getCommissionBalance s₁ d)
    rw [he, ledger_drawCommission]
    linarith
  | fund hn ht _ he =>
    have hm : 0 ≤ n * scale := mul_nonneg hn.le scale_pos.le
    have hd := Int.tdiv_nonneg hm ht.le
    have hle : (∑ᶠ d, (ledger s).share d) * (n * scale).tdiv (getTotalStaked s) ≤ scale * n := by
      refine (mul_le_mul_of_nonneg_right (hc hn ht) hd).trans ?_
      rw [Int.tdiv_eq_ediv_of_nonneg hm, mul_comm, mul_comm scale]
      exact Int.ediv_mul_le _ ht.ne'
    have hr := RewardIndex.potential_raise_le hs.wellFormed hle
    have hl : ledger s' = (ledger s).raise ((n * scale).tdiv (getTotalStaked s)) := by
      rw [he]
      rfl
    rw [hl]
    linarith
  | idle hn he =>
    rw [he]
    have := mul_pos scale_pos hn
    linarith

end Shelterflex.StakeDelegation
