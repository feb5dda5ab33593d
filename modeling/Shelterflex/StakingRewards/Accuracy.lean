import Shelterflex.Lib.FairShare
import Shelterflex.StakingRewards.Claimable

/-! What a staker gets, against an exact division by stake of every amount distributed and of the
dust carried into it. -/

namespace Shelterflex.StakingRewards
open Lib
set_option autoImplicit true

/-- The part of an amount that falls to a user's stake; nothing does while nobody has staked. -/
def part (user : Address) (s : State) (amount : Int) : ℚ :=
  (ledger s).share user * amount / getTotalStaked s

/-- What a call does for a user. A distribution shares out the dust of those before it as well. -/
def posting (user : Address) (e : Event State (Env own × Call) Output) : RewardIndex.Posting :=
  match e.input.2 with
  | .stake user' _ | .unstake user' _ | .claim user' =>
    if user = user' then ⟨0, e.output.paid, (ledger e.pre).settleSlack user⟩ else .none
  | .fundRewards amount | .distributeRewards amount =>
    if getTotalStaked e.pre = 0 then .none
    else
      ⟨part user e.pre (amount + getPendingDust e.pre), 0, (ledger e.pre).share user / scale⟩
  | _ => .none

/-- The exact part of every amount distributed. -/
def entitlement (user : Address) (t : History own) : ℚ :=
  (t.map fun e => part user e.pre e.input.2.funds).sum

/-- The exact part of the dust that every distribution takes up from those before it. -/
def carried (user : Address) (t : History own) : ℚ :=
  (t.map fun e => if e.input.2.distributes then part user e.pre (getPendingDust e.pre) else 0).sum

def claimedBy (user : Address) (t : History own) : Int :=
  (t.map fun e => (posting user e).drawn).sum

/-- One unit each time the user's account is settled after the index has grown, and for each
distribution what rounding the index down costs the user's stake. -/
def errorBound (user : Address) (t : History own) (s : State) : ℚ :=
  (t.map fun e => (posting user e).slack).sum + (ledger s).settleSlack user

section
variable {env : Env own}

theorem Funds.posts (hb : Books s) (h : Funds amount s s') (user : Address) :
    (ledger s).Posts scale user (ledger s')
      (if getTotalStaked s = 0 then .none
      else ⟨part user s (amount + getPendingDust s), 0, (ledger s).share user / scale⟩) := by
  cases h with
  | idle _ ht hs =>
    subst hs
    rw [if_pos ht]
    exact .keep rfl
  | spread ha ht hs =>
    subst hs
    rw [if_neg ht]
    refine RewardIndex.posts_spread scale_pos (hb.total_nonneg.lt_of_ne' ht) ?_ user
    rw [← increment_eq hb ha]
    rfl

theorem Changes.posts (hb : Books s) (h : Changes s s' c o) (user : Address) :
    (ledger s).Posts scale user (ledger s') (posting user ⟨s, (env, c), o, s'⟩) := by
  cases h with
  | stake _ hw => exact RewardIndex.posts_write hw.books user
  | unstake _ _ hw => exact RewardIndex.posts_write hw.books user
  | fundRewards hf => exact hf.posts hb user
  | distributeRewards hf => exact hf.posts hb user
  | claim hw => exact RewardIndex.posts_write hw.books user
  | keep hc _ hl _ _ _ =>
    have hp : posting user ⟨s, (env, c), o, s'⟩ = .none := by
      cases c with
      | stake _ _ | unstake _ _ | fundRewards _ | distributeRewards _ | claim _ => cases hc
      | _ => rfl
    rw [hp, hl]
    exact .keep rfl

end

theorem part_add (user : Address) (s : State) (m n : Int) :
    part user s (m + n) = part user s m + part user s n := by
  rw [part, part, part, ← add_div, ← mul_add, Int.cast_add]

theorem part_idle (h : getTotalStaked s = 0) (user : Address) (n : Int) : part user s n = 0 := by
  rw [part, h, Int.cast_zero, div_zero]

theorem part_zero (user : Address) (s : State) : part user s 0 = 0 := by
  rw [part, Int.cast_zero, mul_zero, zero_div]

/-- What a call hands out for a user is of its amount and of the dust it takes up. -/
theorem posting_due (user : Address) (e : Event State (Env own × Call) Output) :
    (posting user e).due = part user e.pre e.input.2.funds +
      if e.input.2.distributes then part user e.pre (getPendingDust e.pre) else 0 := by
  rcases e with ⟨s, ⟨env, c⟩, o, s'⟩
  have hidle : (0 : ℚ) = part user s 0 + 0 := by rw [part_zero, add_zero]
  cases c with
  | fundRewards amount | distributeRewards amount =>
    change (if getTotalStaked s = 0 then (.none : RewardIndex.Posting) else ⟨_, _, _⟩).due =
      part user s amount + part user s (getPendingDust s)
    rw [← part_add]
    split
    · rename_i ht
      exact (part_idle ht user _).symm
    · rfl
  | stake user' _ | unstake user' _ | claim user' =>
    refine Eq.trans ?_ hidle
    change (if user = user' then (⟨0, _, _⟩ : RewardIndex.Posting) else .none).due = 0
    split <;> rfl
  | _ => exact hidle

/-- The second user has two thirds of the stake, and claims between two distributions that do not
divide by three. -/
def thirdsCalls : List (Env ⟨0⟩ × Call) :=
  [(.signed ⟨0⟩ 0, .init ⟨1⟩), (.signed ⟨0⟩ 0, .stake ⟨2⟩ 1), (.signed ⟨0⟩ 0, .stake ⟨3⟩ 2),
    (.signed ⟨0⟩ 0, .distributeRewards 10), (.signed ⟨0⟩ 0, .claim ⟨3⟩),
    (.signed ⟨0⟩ 0, .distributeRewards 1)]

def thirds : History ⟨0⟩ × State := (machine ⟨0⟩).replay .fresh thirdsCalls

end Shelterflex.StakingRewards
