import Shelterflex.MvpStakingPool.Operations

/-! What a step does to the account of one user. -/

namespace Shelterflex.MvpStakingPool
open Lib
set_option autoImplicit true

/-- The user whose rewards a step accrues. -/
def Action.settles : Action own T → Option Address
  | .call _ (.stake user _) => some user
  | .call _ (.unstake user _) => some user
  | .call _ (.utilizeStake _ user _) => some user
  | .call _ (.claimable user) => some user
  | .call _ (.claim target) => some target
  | _ => none

/-- What a step adds to the total stake. -/
def Action.added : Action own T → Int
  | .call _ (.stake _ amount) => amount
  | .call _ (.unstake _ amount) => -amount
  | _ => 0

/-- What a step adds to the stake of a user. -/
def Action.addedTo (user : Address) (a : Action own T) : Int :=
  if a.settles = some user then a.added else 0

/-- What a step adds to the pool's rewards. -/
def Action.funded : Action own T → Option Int
  | .call _ (.fundRewards _ amount) => some amount
  | _ => none

/-- What a step adds to the reward index. -/
def Action.raised (total : Int) (a : Action own T) : Int :=
  match a.funded with
  | some amount => amount * rewardIndexScale / total
  | none => 0

/-- What a step pays to a user out of the rewards. -/
def Action.paid (user : Address) : Action own T → Output → Int
  | .call _ (.claim target), .amount n => if target = user then n else 0
  | _, _ => 0

abbrev History (own : Address) (T : Type) := List (Event (World T) (Action own T) Output)

/-- What a user was paid out of the rewards. -/
def claimed (user : Address) (t : History own T) : Int :=
  (t.map fun e => e.input.paid user e.output).sum

/-- One step as the account of one user sees it. -/
structure Posts (user : Address) (s s' : State) (a : Action own T) (o : Output) : Prop where
  share : getStakedBalance s' user = getStakedBalance s user + a.addedTo user
  total : getTotalStaked s' = getTotalStaked s + a.added
  index : getGlobalRewardIndex s' = getGlobalRewardIndex s + a.raised (getTotalStaked s)
  settled : a.settles = some user →
    getUserRewardIndex s' user = getGlobalRewardIndex s ∧
      getClaimableReward s' user + a.paid user o = (ledger s).claimable rewardIndexScale user
  kept : a.settles ≠ some user →
    getUserRewardIndex s' user = getUserRewardIndex s user ∧
      getClaimableReward s' user = getClaimableReward s user ∧ a.paid user o = 0

theorem Action.raised_of_settles {a : Action own T} (h : a.settles = some user) (total : Int) :
    a.raised total = 0 := by
  rcases a with ⟨env, c⟩ | t
  · cases c with
    | fundRewards source amount => cases h
    | _ => rfl
  · rfl

theorem Action.paid_of_not_settles {a : Action own T} (h : a.settles ≠ some user) (o : Output) :
    a.paid user o = 0 := by
  rcases a with ⟨env, c⟩ | t
  · cases c with
    | claim target =>
      cases o with
      | amount n => exact if_neg fun he => h (congrArg some he)
      | _ => rfl
    | _ => rfl
  · rfl

theorem Action.paid_claim {env : Env own} (target : Address) (n : Int) :
    (.call env (.claim target) : Action own T).paid target (.amount n) = n := if_pos rfl

theorem Action.addedTo_of_not_settles {a : Action own T} (h : a.settles ≠ some user) :
    a.addedTo user = 0 := if_neg h

theorem Action.addedTo_of_added {a : Action own T} (h : a.added = 0) (user : Address) :
    a.addedTo user = 0 := by rw [Action.addedTo, h, ite_self]

theorem Writes.posts {a : Action own T} (h : Writes u staked x s s') (hs : a.settles = some u)
    (hadd : staked = getStakedBalance s u + a.added) (hp : a.paid u o = x) (user : Address) :
    Posts user s s' a o := by
  constructor
  case share =>
    rw [h.share]
    by_cases he : user = u
    · subst user
      rw [Function.update_self, Action.addedTo, if_pos hs, hadd]
    · have hn : a.settles ≠ some user := by
        rw [hs]
        exact fun h => he (Option.some.inj h).symm
      rw [Function.update_of_ne he, Action.addedTo_of_not_settles hn, add_zero]
  case total =>
    rw [h.total, hadd]
    ring
  case index => rw [h.index, Action.raised_of_settles hs, add_zero]
  case settled =>
    intro hu
    cases hs.symm.trans hu
    rw [h.snapshot, h.banked, Function.update_self, Function.update_self, hp, sub_add_cancel]
    exact ⟨rfl, rfl⟩
  case kept =>
    intro hn
    have he : user ≠ u := by
      rintro rfl
      exact hn hs
    rw [h.snapshot, h.banked, Function.update_of_ne he, Function.update_of_ne he]
    exact ⟨rfl, rfl, Action.paid_of_not_settles hn o⟩

theorem posts_of_raise {a : Action own T} (hs : a.settles = none) (hadd : a.added = 0)
    (hl : ledger s' = (ledger s).raise (a.raised (getTotalStaked s)))
    (ht : getTotalStaked s' = getTotalStaked s) (user : Address) (o : Output) :
    Posts user s s' a o := by
  have hn : a.settles ≠ some user := by
    rw [hs]
    exact Option.some_ne_none user ∘ Eq.symm
  have hb (f : RewardIndex Address → Address → Int) := congrFun (congrArg f hl) user
  constructor
  case share =>
    rw [Action.addedTo_of_not_settles hn, add_zero]
    exact hb RewardIndex.share
  case total => rw [ht, hadd, add_zero]
  case index => exact congrArg RewardIndex.index hl
  case settled => exact fun h => absurd h hn
  case kept =>
    intro _
    exact ⟨hb RewardIndex.snapshot, hb RewardIndex.banked, Action.paid_of_not_settles hn o⟩

theorem Changes.posts {env : Env own} (h : Changes s s' c o) (user : Address) :
    Posts user s s' (.call env c : Action own T) o := by
  cases h with
  | stake ha hw hu => exact hw.posts rfl rfl rfl user
  | unstake ha hle hw hu => exact hw.posts rfl rfl rfl user
  | utilizeStake ha hle hw hu => exact hw.posts rfl (add_zero _).symm rfl user
  | fundRewards ha hpos hl ht hu => exact posts_of_raise rfl rfl hl ht user _
  | claimable hw hu => exact hw.posts rfl (add_zero _).symm rfl user
  | claim hw hu => exact hw.posts rfl (add_zero _).symm (Action.paid_claim _ _) user
  | keep hc hl ht hu =>
    have hl' : ledger s' = (ledger s).raise 0 := by
      rw [hl, RewardIndex.raise, add_zero]
    cases c with
    | stake _ _ | unstake _ _ | utilizeStake _ _ _ | fundRewards _ _ | claimable _ | claim _ =>
      cases hc
    | _ => exact posts_of_raise rfl rfl hl' ht user o

theorem act_posts {own : Address} {tok : Token T} {a : Action own T} {w w' : World T}
    (hb : Books w.pool) (h : act tok w a = some (w', o)) (user : Address) :
    Posts user w.pool w'.pool a o := by
  cases a with
  | traffic t =>
    simp only [act, Option.ite_none_right_eq_some, Option.some.injEq, Prod.mk.injEq] at h
    obtain ⟨_, rfl, _⟩ := h
    refine posts_of_raise rfl rfl ?_ rfl user o
    exact congrArg (fun i => { ledger w.pool with index := i }) (add_zero _).symm
  | call env c => exact (invoke_changes hb h).1.posts user

end Shelterflex.MvpStakingPool
