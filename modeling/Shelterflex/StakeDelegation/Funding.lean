import Shelterflex.StakeDelegation.Agreement
import Shelterflex.StakeDelegation.Rewards

namespace Shelterflex.StakeDelegation
open Lib
set_option autoImplicit true

/-! What the views promise -/

/-- What `get_delegatee_claimable` returns; a view that overflows returns nothing. -/
def claimableView (s : State) (d : Address) : Int := (getDelegateeClaimable s d).toOption.getD 0

/-- What `get_commission_claimable` returns; a view that overflows returns nothing. -/
def commissionView (s : State) (d : Address) : Int := (getCommissionClaimable s d).toOption.getD 0

theorem liveRewards_ok (h : liveRewards s d = .ok n) (hs : Sound s) :
    n = earned s d - kept s d := by
  unfold liveRewards at h
  split at h <;> rename_i hc
  · simp only [bind_ok, i128Sub_ok] at h
    obtain ⟨g, hg, c, hcom, _, rfl⟩ := h
    rw [grossReward_ok hc.1 hc.2 hg] at hcom ⊢
    rw [commissionOn_ok hcom (hs.earned_nonneg d), kept]
  · rw [kept, earned_of_inactive hs hc, zero_mul]
    exact (pure_ok.mp h).symm

theorem liveCommission_ok (h : liveCommission s d = .ok n) (hs : Sound s) : n = kept s d := by
  unfold liveCommission at h
  split at h <;> rename_i hc
  · simp only [bind_ok] at h
    obtain ⟨g, hg, hcom⟩ := h
    rw [grossReward_ok hc.1 hc.2 hg] at hcom
    exact commissionOn_ok hcom (hs.earned_nonneg d)
  · rw [kept, earned_of_inactive hs hc, zero_mul]
    exact (pure_ok.mp h).symm

theorem claimableView_cases (hs : Sound s) (d : Address) :
    claimableView s d = 0 ∨
      claimableView s d = earned s d - kept s d + getPendingRewards s d := by
  unfold claimableView
  cases h : getDelegateeClaimable s d with
  | error e => exact .inl rfl
  | ok n =>
    simp only [getDelegateeClaimable, bind_ok, i128Add_ok] at h
    obtain ⟨m, hm, _, rfl⟩ := h
    exact .inr (congrArg (· + _) (liveRewards_ok hm hs))

theorem commissionView_cases (hs : Sound s) (d : Address) :
    commissionView s d = 0 ∨ commissionView s d = kept s d + getCommissionBalance s d := by
  unfold commissionView
  cases h : getCommissionClaimable s d with
  | error e => exact .inl rfl
  | ok n =>
    simp only [getCommissionClaimable, bind_ok, i128Add_ok] at h
    obtain ⟨m, hm, _, rfl⟩ := h
    exact .inr (congrArg (· + _) (liveCommission_ok hm hs))

theorem claimable_eq (s : State) (d : Address) :
    (ledger s).claimable scale d =
      getPendingRewards s d + getCommissionBalance s d + earned s d := rfl

theorem views_nonneg (hs : Sound s) (d : Address) :
    0 ≤ claimableView s d + commissionView s d := by
  have hp := hs.pending_nonneg d
  have hc := hs.commission_nonneg d
  have hk := hs.kept_nonneg d
  have hle := hs.kept_le d
  rcases claimableView_cases hs d with h | h <;>
    rcases commissionView_cases hs d with h' | h' <;> omega

theorem views_le (hs : Sound s) (d : Address) :
    claimableView s d + commissionView s d ≤ (ledger s).claimable scale d := by
  have hp := hs.pending_nonneg d
  have hc := hs.commission_nonneg d
  have hk := hs.kept_nonneg d
  have hle := hs.kept_le d
  rw [claimable_eq]
  rcases claimableView_cases hs d with h | h <;>
    rcases commissionView_cases hs d with h' | h' <;> omega

theorem views_finite (hs : Sound s) :
    (fun d => claimableView s d + commissionView s d).support.Finite := by
  apply (hs.wellFormed.claimable_finite scale).subset
  intro d hd he
  have hn := views_nonneg hs d
  have hle := views_le hs d
  exact hd (by simp only at he ⊢; omega)

theorem Sound.sum_views_le (hs : Sound s) :
    scale * ∑ᶠ d, (claimableView s d + commissionView s d) ≤ (ledger s).potential scale := by
  have h := hs.wellFormed.sum_claimable_mul_le scale_pos
  have hle := finsum_le_finsum' (views_finite hs) (hs.wellFormed.claimable_finite scale)
    (views_le hs)
  have hm := mul_le_mul_of_nonneg_left hle scale_pos.le
  linarith

/-! Whole runs -/

def funded (t : List (Event State (Env own × Call) Output)) : Int :=
  (t.map fun e => e.input.2.funds).sum

def paidOut (t : List (Event State (Env own × Call) Output)) : Int :=
  (t.map fun e => paid e.input.2 e.output).sum

theorem fresh_sound : Sound .fresh :=
  ⟨fun _ => le_rfl, fun _ => le_rfl, fun _ => le_rfl, fun _ => rfl⟩

theorem run_sound (h : (machine own).Run .fresh t s) : Sound s :=
  h.invariant_on (C := fun _ => True) (P := fun _ => Sound) (fun _ _ => trivial) fresh_sound
    fun hr hs he _ => (invoke_changes (run_valid hr) he).effects.sound hs

theorem run_potential (h : (machine own).Run .fresh t s)
    (hC : ∀ e ∈ t, 0 < e.input.2.funds → 0 < getTotalStaked e.pre → StakeCounted e.pre) :
    (ledger s).potential scale + scale * paidOut t ≤ scale * funded t := by
  refine h.invariant_on (P := fun t s =>
    (ledger s).potential scale + scale * paidOut t ≤ scale * funded t) hC ?_ ?_
  · have hp : (ledger .fresh).potential scale = 0 := by
      refine (finsum_congr fun d => ?_).trans finsum_zero
      rfl
    rw [hp]
    exact le_refl (0 : Int)
  · intro t s i s' o hr ho he hx
    have hle := (invoke_changes (run_valid hr) he).effects.potential_le (run_sound hr) hx
    simp only [paidOut, funded, List.map_cons, List.sum_cons] at ho ⊢
    linarith

/-- While rewards are only spread over a total that counts all delegated stake, delegatees never
draw more than was funded. -/
theorem rewards_within_funding (h : (machine own).Run .fresh t s)
    (hC : ∀ e ∈ t, 0 < e.input.2.funds → 0 < getTotalStaked e.pre → StakeCounted e.pre) :
    paidOut t + ∑ᶠ d, (claimableView s d + commissionView s d) ≤ funded t := by
  have ho := run_potential h hC
  have hv := (run_sound h).sum_views_le
  exact le_of_mul_le_mul_left (by linarith) scale_pos

/-- Slashes that divide evenly keep all delegated stake counted, when `init` comes before every
stake. -/
theorem stakeCounted_of_even (h : (machine own).Run .fresh t s)
    (hC : ∀ e ∈ t, e.input.2.forgets e.pre = 0 ∧ e.input.2.SlashesEvenly e.pre) :
    ∀ e ∈ t, StakeCounted e.pre := by
  refine h.pre_of ?_ hC
  intro t s h hC
  have hv := run_valid h
  have hb := run_balanced h fun e he => (hC e he).1
  have hk : (book s).Backed := by
    refine h.invariant_on (P := fun _ s => (book s).Backed) hC (fun _ => finsum_zero.ge) ?_
    intro t s i s' o hr hk he hx
    have hv := run_valid hr
    exact (invoke_changes hv he).effects.backed hv hx.2 hk
  refine le_trans ?_ (hv.sum_received_le.trans_eq hb.symm)
  exact finsum_le_finsum' (share_finite s) hv.received_finite fun d =>
    max_le (hk d) (hv.received_nonneg d)

def evenFundingCalls : List (Env ⟨0⟩ × Call) :=
  [(.signed ⟨0⟩ 0, .init ⟨1⟩ 100), (.signed ⟨0⟩ 0, .stake ⟨2⟩ 40), (.signed ⟨0⟩ 0, .stake ⟨3⟩ 60),
    (.signed ⟨0⟩ 0, .delegate ⟨2⟩ ⟨9⟩ 40), (.signed ⟨0⟩ 0, .delegate ⟨3⟩ ⟨8⟩ 50),
    (.signed ⟨0⟩ 0, .setCommission ⟨9⟩ 2500), (.signed ⟨0⟩ 0, .fundRewards ⟨1⟩ 1000),
    (.signed ⟨0⟩ 0, .setSlashingAuthority ⟨1⟩ ⟨5⟩),
    (.signed ⟨0⟩ 0, .applyDelegateeSlash ⟨5⟩ ⟨9⟩ 20), (.signed ⟨0⟩ 0, .fundRewards ⟨1⟩ 80),
    (.signed ⟨0⟩ 0, .claimCommission ⟨9⟩), (.signed ⟨0⟩ 0, .claimDelegateeRewards ⟨8⟩)]

theorem rewards_within_funding_even :
    paidOut ((machine ⟨0⟩).replay .fresh evenFundingCalls).1 +
        ∑ᶠ d, (claimableView ((machine ⟨0⟩).replay .fresh evenFundingCalls).2 d +
          commissionView ((machine ⟨0⟩).replay .fresh evenFundingCalls).2 d) ≤
      funded ((machine ⟨0⟩).replay .fresh evenFundingCalls).1 :=
  rewards_within_funding ((machine ⟨0⟩).run_replay .fresh evenFundingCalls)
    fun e he _ _ => stakeCounted_of_even
      ((machine ⟨0⟩).run_replay .fresh evenFundingCalls) (by decide) e he

/-- A slash of three delegations of one token takes all of them, but only one token of the
delegatee's stake. Rewards are then spread over the one token that someone else stakes. -/
def roundedSlashCalls : List (Env ⟨0⟩ × Call) :=
  [(.signed ⟨0⟩ 0, .init ⟨1⟩ 100), (.signed ⟨0⟩ 0, .stake ⟨2⟩ 1), (.signed ⟨0⟩ 0, .stake ⟨3⟩ 1),
    (.signed ⟨0⟩ 0, .stake ⟨4⟩ 1),
    (.signed ⟨0⟩ 0, .delegate ⟨2⟩ ⟨9⟩ 1), (.signed ⟨0⟩ 0, .delegate ⟨3⟩ ⟨9⟩ 1),
    (.signed ⟨0⟩ 0, .delegate ⟨4⟩ ⟨9⟩ 1), (.signed ⟨0⟩ 0, .setSlashingAuthority ⟨1⟩ ⟨5⟩),
    (.signed ⟨0⟩ 0, .applyDelegateeSlash ⟨5⟩ ⟨9⟩ 1), (.signed ⟨0⟩ 0, .stake ⟨6⟩ 1),
    (.signed ⟨0⟩ 0, .fundRewards ⟨1⟩ 100), (.signed ⟨0⟩ 0, .claimDelegateeRewards ⟨9⟩)]

theorem rewards_exceed_funding :
    ¬ ∀ t s, (machine ⟨0⟩).Run .fresh t s →
      paidOut t + ∑ᶠ d, (claimableView s d + commissionView s d) ≤ funded t := by
  intro hall
  have hr := (machine ⟨0⟩).run_replay .fresh roundedSlashCalls
  have hle := hall _ _ hr
  have hn : 0 ≤ ∑ᶠ d, (claimableView
      ((machine ⟨0⟩).replay .fresh roundedSlashCalls).2 d +
        commissionView ((machine ⟨0⟩).replay .fresh roundedSlashCalls).2 d) :=
    finsum_nonneg (views_nonneg (run_sound hr))
  have hp : paidOut ((machine ⟨0⟩).replay .fresh roundedSlashCalls).1 = 200 := by
    decide
  have hf : funded ((machine ⟨0⟩).replay .fresh roundedSlashCalls).1 = 100 := by
    decide
  omega

end Shelterflex.StakeDelegation
