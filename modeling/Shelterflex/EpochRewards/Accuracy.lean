import Shelterflex.EpochRewards.Solvency
import Shelterflex.Lib.FairShare

/-! What a staker gets, against an exact division of every funding by stake. -/

namespace Shelterflex.EpochRewards
open Lib
set_option autoImplicit true

/-- What a call does for a user. A funding that finds no stake is shared out among nobody. -/
def posting (user : Address) (e : Event State (Env own × Call) Output) : RewardIndex.Posting :=
  match e.input.2 with
  | .stake user' _ | .unstake user' _ | .claim user' =>
    if user = user' then ⟨0, e.output.paid, (ledger e.pre).settleSlack user⟩ else .none
  | .fundEpochRewards _ amount =>
    if 0 < getTotalStaked e.pre then
      ⟨(ledger e.pre).share user * amount / getTotalStaked e.pre, 0,
        (ledger e.pre).share user / scale⟩
    else .none
  | _ => .none

/-- The exact part of all fundings that falls to a user's stake. -/
def entitlement (user : Address) (t : History own) : ℚ := (t.map fun e => (posting user e).due).sum

def claimedBy (user : Address) (t : History own) : Int :=
  (t.map fun e => (posting user e).drawn).sum

/-- One unit each time the user's account is settled after the index has grown, and for each
funding what rounding the index down costs the user's stake. -/
def errorBound (user : Address) (t : History own) (s : State) : ℚ :=
  (t.map fun e => (posting user e).slack).sum + (ledger s).settleSlack user

section
variable {env : Env own}

theorem Funds.posts (ha : 0 < amount) (h : Funds amount s s') (user : Address) :
    (ledger s).Posts scale user (ledger s')
      (if 0 < getTotalStaked s then
        ⟨(ledger s).share user * amount / getTotalStaked s, 0, (ledger s).share user / scale⟩
      else .none) := by
  have hbooks := h.books
  rw [increment] at hbooks
  split
  · rename_i ht
    rw [if_pos ht, Int.tdiv_eq_ediv_of_nonneg (mul_nonneg ha.le scale_pos.le)] at hbooks
    exact RewardIndex.posts_spread scale_pos ht hbooks user
  · rename_i ht
    rw [if_neg ht] at hbooks
    apply RewardIndex.Posts.keep
    rw [hbooks, RewardIndex.owed_raise, mul_zero, add_zero]

theorem Changes.posts (hb : Books s) (h : Changes s s' c o) (user : Address) :
    (ledger s).Posts scale user (ledger s') (posting user ⟨s, (env, c), o, s'⟩) := by
  cases h with
  | start hs => exact .keep (by rw [start_ledger hb hs])
  | stake _ hw => exact RewardIndex.posts_write hw.books user
  | unstake _ _ hw => exact RewardIndex.posts_write hw.books user
  | claim hw => exact RewardIndex.posts_write hw.books user
  | fund ha hf => exact hf.posts ha user
  | close hs => exact .keep (by rw [hs.ledger])
  | setOperator hl _ _ | pause hl _ _ | unpause hl _ _ => exact .keep (by rw [hl])

end

theorem claimable_of_ok (hw : (ledger s).WellFormed) (h : getClaimable s u = .ok n) :
    (ledger s).claimable scale u = n := by
  simp only [getClaimable, bind_ok, i128Add_ok] at h
  obtain ⟨live, hl, _, rfl⟩ := h
  rw [calcPending_claimable hw hl]
  exact add_comm _ _

/-- In every run whose `init` comes before every stake a user claims and can claim no more than the
exact part of the fundings that falls to the user's stake, and less by at most what rounding costs,
however the epochs are sealed. -/
theorem epoch_rewards_fair (h : (machine own).Run .fresh t s) (ht : StartsEmpty t)
    (hq : getClaimable s user = .ok n) :
    (∀ e ∈ t, getTotalStaked e.pre = ∑ᶠ u, (getUserStake e.pre u).amount) ∧
    (claimedBy user t + n : ℚ) ≤ entitlement user t ∧
    entitlement user t - (claimedBy user t + n) ≤ errorBound user t s := by
  have hb := run_books h
  have hw := h.accuracy ledger (posting user) user scale_pos rfl
    (fun ⟨_, hr⟩ hs => ⟨(run_books hr).wellFormed,
      (invoke_changes (run_books hr) hs).posts (run_books hr) user⟩) hb.wellFormed
  rw [claimable_of_ok hb.wellFormed hq] at hw
  exact ⟨run_balanced h ht, by exact_mod_cast sub_nonneg.mp hw.nonneg, by exact_mod_cast hw.le⟩

/-- The second user has two thirds of the stake, and claims between two fundings that do not divide
by three. -/
def thirdsCalls : List (Env ⟨0⟩ × Call) :=
  [(.signed ⟨0⟩ 0, .init ⟨1⟩ 60), (.signed ⟨0⟩ 0, .stake ⟨2⟩ 1), (.signed ⟨0⟩ 0, .stake ⟨3⟩ 2),
    (.signed ⟨0⟩ 0, .fundEpochRewards ⟨1⟩ 10), (.signed ⟨0⟩ 60, .sealEpoch ⟨1⟩ 1 60),
    (.signed ⟨0⟩ 60, .claim ⟨3⟩), (.signed ⟨0⟩ 60, .fundEpochRewards ⟨1⟩ 1)]

def thirds : History ⟨0⟩ × State := (machine ⟨0⟩).replay .fresh thirdsCalls

theorem epoch_rewards_fair_thirds :
    claimedBy ⟨3⟩ thirds.1 = 6 ∧ getClaimable thirds.2 ⟨3⟩ = .ok 0 ∧
      (claimedBy ⟨3⟩ thirds.1 + (0 : Int) : ℚ) ≤ entitlement ⟨3⟩ thirds.1 ∧
      entitlement ⟨3⟩ thirds.1 - (claimedBy ⟨3⟩ thirds.1 + (0 : Int)) ≤
        errorBound ⟨3⟩ thirds.1 thirds.2 := by
  have hq : getClaimable thirds.2 ⟨3⟩ = .ok 0 := by decide
  obtain ⟨_, hle, herr⟩ :=
    epoch_rewards_fair ((machine ⟨0⟩).run_replay .fresh thirdsCalls) (by decide) hq
  exact ⟨by decide, hq, hle, herr⟩

end Shelterflex.EpochRewards
