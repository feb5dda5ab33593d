import Shelterflex.Lib.FairShare
import Shelterflex.StakeDelegation.Views

/-! What a delegatee gets, commission included, against an exact division of every funding by the
stake delegated to it. -/

namespace Shelterflex.StakeDelegation
open Lib Book
set_option autoImplicit true

abbrev Step (own : Address) := Event State (Env own × Call) Output

/-- What a call does for a delegatee. Any other call than these may settle it on the way. -/
def posting (d : Address) (e : Step own) : RewardIndex.Posting :=
  match e.input.2 with
  | .claimDelegateeRewards d' | .claimCommission d' =>
    if d = d' then ⟨0, paid e.input.2 e.output, (ledger e.pre).settleSlack d⟩ else .none
  | .fundRewards _ amount =>
    if 0 < getTotalStaked e.pre then
      ⟨(ledger e.pre).share d * amount / getTotalStaked e.pre, 0, (ledger e.pre).share d / scale⟩
    else .none
  | _ => ⟨0, 0, if getDelegateeIndex e.post d = getDelegateeIndex e.pre d then 0 else 1⟩

noncomputable def delegatedTo (s : State) (d : Address) : Int := ∑ᶠ a, delegated s a d

noncomputable def stakedByAll (s : State) : Int := ∑ᶠ a, getStakedBalance s a

/-- The part of a funding that falls to what is delegated to `d`, out of all that is staked. A
funding that finds no stake is shared out among nobody. -/
noncomputable def dueTo (d : Address) (e : Step own) : ℚ :=
  match e.input.2 with
  | .fundRewards _ amount =>
    if 0 < stakedByAll e.pre then delegatedTo e.pre d * amount / stakedByAll e.pre else 0
  | _ => 0

/-- The exact part of all fundings that falls to the delegations to a delegatee. -/
noncomputable def entitlement (d : Address) (t : List (Step own)) : ℚ := (t.map (dueTo d)).sum

/-- The rewards and the commission that a delegatee has drawn. -/
def drawn (d : Address) (t : List (Step own)) : Int := (t.map fun e => (posting d e).drawn).sum

/-- One unit each time the delegatee is settled after the index has grown, and for each funding
what rounding the index down costs its stake. -/
def errorBound (d : Address) (t : List (Step own)) (s : State) : ℚ :=
  (t.map fun e => (posting d e).slack).sum + (ledger s).settleSlack d

theorem Restakes.posts (h : Restakes ds s s₁ s') (hs : Sound s) (d : Address) :
    (ledger s).Posts scale d (ledger s')
      ⟨0, 0, if getDelegateeIndex s' d = getDelegateeIndex s d then 0 else 1⟩ := by
  obtain ⟨hl, _⟩ := settleFor_ok h.settled hs
  have hp : getPendingRewards s' = getPendingRewards s₁ :=
    congrArg (fun m => (Store.getD m · 0)) h.pendingRewards
  have hc : getCommissionBalance s' = getCommissionBalance s₁ :=
    congrArg (fun m => (Store.getD m · 0)) h.commission
  apply RewardIndex.posts_reshare ds hs.wellFormed scale_pos
  · rw [← hl]
    funext d
    simp only [ledger, hp, hc]
  · rw [← hl]
    exact congrArg (fun m => (Store.getD m · 0)) h.snapshot
  · rw [← hl]
    exact congrArg (Option.getD · 0) h.index
  · intro b hb
    rw [← hl]
    exact congrArg (max · 0) (h.stake b hb)

theorem posts_draw (hs : Sound s) (h₁ : settleFor [d'] s = .ok s₁)
    (hl : ledger s' = (ledger s₁).withdraw d' n) (d : Address) :
    (ledger s).Posts scale d (ledger s')
      (if d = d' then ⟨0, n, (ledger s).settleSlack d⟩ else .none) := by
  apply RewardIndex.posts_write (n := (ledger s).share d')
  rw [hl, (settleFor_ok h₁ hs).1, List.foldl_cons, List.foldl_nil, RewardIndex.write_withdraw]

theorem Effects.posts_quiet (h : Effects within even s s' n m k) (hs : Sound s) (hn : n = 0)
    (hm : m = 0) (d : Address) :
    (ledger s).Posts scale d (ledger s')
      ⟨0, 0, if getDelegateeIndex s' d = getDelegateeIndex s d then 0 else 1⟩ := by
  have hquiet {d' s₁} (h₁ : settleFor [d'] s = .ok s₁)
      (hl : ledger s' = (ledger s₁).withdraw d' 0) :
      (ledger s).Posts scale d (ledger s')
        ⟨0, 0, if getDelegateeIndex s' d = getDelegateeIndex s d then 0 else 1⟩ := by
    have he : (ledger s₁).withdraw d' 0 = ledger s₁ := by
      simp only [RewardIndex.withdraw, sub_zero, Function.update_eq_self]
    rw [he, (settleFor_ok h₁ hs).1] at hl
    apply RewardIndex.posts_reshare [d'] hs.wellFormed scale_pos
    all_goals rw [hl]
    exact fun _ _ => rfl
  cases h with
  | start hnone he =>
    rw [he, start_ledger hs hnone]
    exact if_pos rfl ▸ .keep rfl
  | restake he =>
    obtain ⟨_, _, hr⟩ := he.restakes
    exact hr.posts hs d
  | @drawRewards d' s₁ h₁ he =>
    apply hquiet h₁
    rw [he, ledger_drawRewards, hm]
  | @drawCommission d' s₁ h₁ he =>
    apply hquiet h₁
    rw [he, ledger_drawCommission, hm]
  | fund hpos _ _ _ => omega
  | idle hpos _ => omega

theorem fundRewards_posts (h : fundRewards env a n s = .ok s') (d : Address) :
    (ledger s).Posts scale d (ledger s')
      (if 0 < getTotalStaked s then
        ⟨(ledger s).share d * n / getTotalStaked s, 0, (ledger s).share d / scale⟩
      else .none) := by
  obtain ⟨hn, _, he⟩ := fundRewards_ok h
  split
  · rename_i ht
    rw [if_pos ht, Int.tdiv_eq_ediv_of_nonneg (mul_nonneg hn.le scale_pos.le)] at he
    refine RewardIndex.posts_spread scale_pos ht ?_ d
    rw [he]
    rfl
  · rename_i ht
    rw [if_neg ht] at he
    rw [he]
    exact .keep rfl

theorem invoke_posts {env : Env own} (hv : (book s).Valid) (hs : Sound s)
    (h : invoke env s c = some (s', o)) (d : Address) :
    (ledger s).Posts scale d (ledger s') (posting d ⟨s, (env, c), o, s'⟩) := by
  cases c with
  | claimDelegateeRewards d' =>
    obtain ⟨⟨_, n⟩, hc, he⟩ := commit_some.mp h
    cases he
    obtain ⟨s₁, h₁, rfl, he⟩ := claimDelegateeRewards_ok hc
    refine posts_draw hs h₁ ?_ d
    rw [he, ledger_drawRewards]
    rfl
  | claimCommission d' =>
    obtain ⟨⟨_, n⟩, hc, he⟩ := commit_some.mp h
    cases he
    obtain ⟨s₁, h₁, rfl, he⟩ := claimCommission_ok hc
    refine posts_draw hs h₁ ?_ d
    rw [he, ledger_drawCommission]
    rfl
  | fundRewards a n =>
    obtain ⟨_, hc, he⟩ := commit_some.mp h
    cases he
    exact fundRewards_posts hc d
  | _ => exact (invoke_changes hv h).effects.posts_quiet hs rfl rfl d

/-- While the books of the contract are those of its stakers, a call is posted with what is due for
their delegations. -/
theorem posting_due {e : Step own} (hv : (book e.pre).Valid) (hb : (book e.pre).Balanced)
    (ha : (book e.pre).Agrees) (d : Address) : (posting d e).due = dueTo d e := by
  have hstake : getDelegateeStake e.pre d = delegatedTo e.pre d := ha d
  have hshare : (ledger e.pre).share d = delegatedTo e.pre d :=
    (max_eq_left (hstake ▸ hv.received_nonneg d)).trans hstake
  have htotal : getTotalStaked e.pre = stakedByAll e.pre := hb
  unfold posting dueTo
  cases e.input.2 with
  | fundRewards a n =>
    dsimp only
    rw [hshare, htotal]
    split <;> rfl
  | claimDelegateeRewards d' | claimCommission d' =>
    dsimp only
    split <;> rfl
  | _ => rfl

/-- In every run whose `init` comes before every stake, while no call undelegates more than is
delegated and every slash of a delegatee divides evenly, a delegatee has drawn and can draw no more
than the exact part of the fundings that falls to the delegations to it, and less by at most what
rounding costs. -/
theorem delegatee_rewards_fair (h : (machine own).Run .fresh t s) (ht : StartsEmpty t)
    (hC : ∀ e ∈ t, e.input.2.UndelegatesWithin e.pre ∧ e.input.2.SlashesEvenly e.pre)
    (hn : getDelegateeClaimable s d = .ok n) (hm : getCommissionClaimable s d = .ok m) :
    (drawn d t + (n + m) : ℚ) ≤ entitlement d t ∧
    entitlement d t - (drawn d t + (n + m)) ≤ errorBound d t s := by
  have hs := run_sound h
  have hw := h.accuracy ledger (posting d) d scale_pos rfl
    (fun ⟨_, hr⟩ he => ⟨(run_sound hr).wellFormed,
      invoke_posts (run_valid hr) (run_sound hr) he d⟩) hs.wellFormed
  have hc : (ledger s).claimable scale d = n + m := by
    rw [claimable_eq, getDelegateeClaimable_eq hs hn, getCommissionClaimable_eq hs hm]
    omega
  have hv := h.pre_of (C := fun _ => True) (fun hr _ => run_valid hr) fun _ _ => trivial
  have hb := h.pre_of run_balanced ht
  have ha := h.pre_of run_agrees hC
  have hdue : (t.map fun e => (posting d e).due) = t.map (dueTo d) :=
    List.map_congr_left fun e he => posting_due (hv e he) (hb e he) (ha e he) d
  rw [hc, hdue] at hw
  exact ⟨by exact_mod_cast sub_nonneg.mp hw.nonneg, by exact_mod_cast hw.le⟩

def evenFunding : List (Step ⟨0⟩) × State :=
  (machine ⟨0⟩).replay .fresh evenFundingCalls

/-- The delegatee was funded, slashed by half, funded again, and has drawn its commission. -/
theorem delegatee_rewards_fair_even :
    drawn ⟨9⟩ evenFunding.1 = 105 ∧ getDelegateeClaimable evenFunding.2 ⟨9⟩ = .ok 315 ∧
      (drawn ⟨9⟩ evenFunding.1 + ((315 : Int) + (0 : Int)) : ℚ) ≤
        entitlement ⟨9⟩ evenFunding.1 := by
  have hn : getDelegateeClaimable evenFunding.2 ⟨9⟩ = .ok 315 := by decide
  have hm : getCommissionClaimable evenFunding.2 ⟨9⟩ = .ok 0 := by decide
  exact ⟨by decide, hn, (delegatee_rewards_fair
    ((machine ⟨0⟩).run_replay .fresh evenFundingCalls) (by decide) (by decide) hn hm).1⟩

end Shelterflex.StakeDelegation
