import Shelterflex.UpgradeGovernance.Core
import Shelterflex.Host.Token
import Shelterflex.Lib.Machine
import Shelterflex.Lib.Store

namespace Shelterflex.MvpStakingPool
open Lib UpgradeGovernance
set_option autoImplicit true

inductive ContractError where
  | upgradeAlreadyPending
  | noUpgradePending
  | upgradeDelayNotMet
  | notAuthorized
  | insufficientUnusedStake
  | utilizationExceedsUnused
  | reentrancyDetected
deriving DecidableEq, Repr

def rewardIndexScale : Int := 1000000000000

/-- `put_used_stake` alone writes the used stakes, and only positive ones. -/
structure State where
  gov : Gov
  token : Option Address
  totalStaked : Option Int
  paused : Option Bool
  globalRewardIndex : Option Int
  stakedBalance : Store Address Int
  usedStake : Store Address {n : Int // 0 < n}
  userRewardIndex : Store Address Int
  claimableReward : Store Address Int
  reentrancy : Option Bool

def State.fresh : State :=
  ⟨.fresh, none, none, none, none, .empty, .empty, .empty, .empty, none⟩

/-- The pool beside the state of its token. -/
structure World (T : Type) where
  pool : State
  token : T

def getTotalStaked (s : State) : Int := s.totalStaked.getD 0

def getGlobalRewardIndex (s : State) : Int := s.globalRewardIndex.getD 0

def getStakedBalance (s : State) (user : Address) : Int := s.stakedBalance.getD user 0

def getUsedStake (s : State) (user : Address) : Int :=
  ((s.usedStake.get user).map Subtype.val).getD 0

def getUnusedStake (s : State) (user : Address) : Int :=
  i128SaturatingSub (getStakedBalance s user) (getUsedStake s user)

def getUserRewardIndex (s : State) (user : Address) : Int := s.userRewardIndex.getD user 0

def getClaimableReward (s : State) (user : Address) : Int := s.claimableReward.getD user 0

def requireNotPaused (s : State) : Outcome ε Unit :=
  demand (s.paused.getD false = false) "contract is paused"

def requirePositiveAmount (amount : Int) : Outcome ε Unit :=
  demand (0 < amount) "amount must be positive"

def putUsedStake (user : Address) (used : Int) (s : State) : State :=
  if h : used ≤ 0 then { s with usedStake := s.usedStake.remove user }
  else { s with usedStake := s.usedStake.set user ⟨used, not_le.mp h⟩ }

/-- What a user with stake earned since the snapshot goes to the user's claimable reward. -/
def bankAccrued (user : Address) (s : State) : Outcome ε State :=
  if 0 < getStakedBalance s user then do
    let delta ← i128Sub (getGlobalRewardIndex s) (getUserRewardIndex s user)
    let product ← i128Mul (getStakedBalance s user) delta
    let accrued ← i128Div product rewardIndexScale
    if 0 < accrued then do
      let reward ← i128Add (getClaimableReward s user) accrued
      return { s with claimableReward := s.claimableReward.set user reward }
    else
      return s
  else
    return s

def accrueUserRewards (user : Address) (s : State) : Outcome ε State :=
  if getGlobalRewardIndex s ≤ getUserRewardIndex s user then
    return s
  else do
    let s ← bankAccrued user s
    return { s with userRewardIndex := s.userRewardIndex.set user (getGlobalRewardIndex s) }

def enterNonreentrant (s : State) : Outcome ContractError State := do
  let lock ← enter s.reentrancy .reentrancyDetected
  return { s with reentrancy := lock }

def exitNonreentrant (s : State) : State := { s with reentrancy := exit }

def transfer (tok : Token T) (env : Env own) (s : State) (t : T) (source target : Address)
    (amount : Int) : Outcome ε T := do
  let _ ← expect s.token
  tok.call env t source target amount

def init (admin token : Address) (s : State) : Outcome ContractError State := do
  demand (s.gov.admin = none) "already initialized"
  return { s with
    gov := { s.gov with admin := some admin, contractVersion := some 2 }
    token := some token
    totalStaked := some 0
    globalRewardIndex := some 0 }

/-- The state that `init` leaves behind. -/
def initialized (admin token : Address) : State :=
  { State.fresh with
    gov := { Gov.fresh with admin := some admin, contractVersion := some 2 }
    token := some token
    totalStaked := some 0
    globalRewardIndex := some 0 }

theorem init_fresh (admin token : Address) :
    init admin token .fresh = .ok (initialized admin token) := rfl

section
variable (tok : Token T) (env : Env own)

def stake (user : Address) (amount : Int) (w : World T) : Outcome ContractError (World T) := do
  let s ← orPanic "reentrancy detected" (enterNonreentrant w.pool)
  env.requireAuth user
  requireNotPaused s
  requirePositiveAmount amount
  let s ← accrueUserRewards user s
  let balance ← i128Add (getStakedBalance s user) amount
  let total ← i128Add (getTotalStaked s) amount
  let s := { s with
    stakedBalance := s.stakedBalance.set user balance
    totalStaked := some total }
  let t ← transfer tok env s w.token user own amount
  return ⟨exitNonreentrant s, t⟩

def unstake (user : Address) (amount : Int) (w : World T) : Outcome ContractError (World T) := do
  let s ← enterNonreentrant w.pool
  env.requireAuth user
  requireNotPaused s
  requirePositiveAmount amount
  let s ← accrueUserRewards user s
  require (amount ≤ getUnusedStake s user) .insufficientUnusedStake
  let balance ← i128Sub (getStakedBalance s user) amount
  let total ← i128Sub (getTotalStaked s) amount
  let s := { s with
    stakedBalance := s.stakedBalance.set user balance
    totalStaked := some total }
  let t ← transfer tok env s w.token own user amount
  return ⟨exitNonreentrant s, t⟩

def utilizeStake (admin user : Address) (amount : Int) (s : State) :
    Outcome ContractError State := do
  let currentAdmin ← expect s.gov.admin
  requireAdminPermission env currentAdmin admin .notAuthorized
  requireNotPaused s
  requirePositiveAmount amount
  let s ← accrueUserRewards user s
  require (amount ≤ getUnusedStake s user) .utilizationExceedsUnused
  let newUsed ← i128Add (getUsedStake s user) amount
  return putUsedStake user newUsed s

def fundRewards (source : Address) (amount : Int) (w : World T) :
    Outcome ContractError (World T) := do
  let s ← orPanic "reentrancy detected" (enterNonreentrant w.pool)
  let admin ← expect s.gov.admin
  requireAdminAuth env admin
  requireNotPaused s
  requirePositiveAmount amount
  demand (source = admin) "from must be admin"
  let total := getTotalStaked s
  demand (0 < total) "no stakers"
  let t ← transfer tok env s w.token source own amount
  let scaled ← i128Mul amount rewardIndexScale
  let increment ← i128Div scaled total
  let newIdx ← i128Add (getGlobalRewardIndex s) increment
  return ⟨{ exitNonreentrant s with globalRewardIndex := some newIdx }, t⟩

def claimable (user : Address) (s : State) : Outcome ContractError (State × Int) := do
  let s ← accrueUserRewards user s
  return (s, getClaimableReward s user)

def claim (target : Address) (w : World T) : Outcome ContractError (World T × Int) := do
  let s ← orPanic "reentrancy detected" (enterNonreentrant w.pool)
  env.requireAuth target
  requireNotPaused s
  let s ← accrueUserRewards target s
  let amount := getClaimableReward s target
  if amount ≤ 0 then
    return (⟨exitNonreentrant s, w.token⟩, 0)
  else
    let s := { s with claimableReward := s.claimableReward.set target 0 }
    let t ← transfer tok env s w.token own target amount
    return (⟨exitNonreentrant s, t⟩, amount)

def setGuardian (admin guardian : Address) (s : State) : Outcome ContractError State := do
  let gov ← mapErr (fun _ => .notAuthorized)
    (UpgradeGovernance.setGuardian env admin (some guardian) s.gov)
  return { s with gov }

def setUpgradeDelay (admin : Address) (delay : Nat) (s : State) : Outcome ContractError State := do
  let gov ← mapErr (fun _ => .notAuthorized)
    (UpgradeGovernance.setUpgradeDelay env admin delay s.gov)
  return { s with gov }

def proposeError : UpgradeGovernanceError → ContractError
  | .upgradeAlreadyPending => .upgradeAlreadyPending
  | _ => .notAuthorized

def executeError : UpgradeGovernanceError → ContractError
  | .noPendingUpgrade => .noUpgradePending
  | .upgradeDelayNotElapsed => .upgradeDelayNotMet
  | _ => .notAuthorized

def proposeUpgrade (admin : Address) (newWasmHash : BytesN 32) (s : State) :
    Outcome ContractError State := do
  let gov ← mapErr proposeError
    (UpgradeGovernance.proposeUpgrade env admin newWasmHash 0 none s.gov)
  return { s with gov }

def executeUpgrade (admin : Address) (newWasmHash : BytesN 32) (s : State) :
    Outcome ContractError (State × BytesN 32) := do
  let (gov, deployed) ← mapErr executeError
    (UpgradeGovernance.executeUpgrade env admin newWasmHash s.gov)
  return ({ s with gov }, deployed)

def emergencyUpgrade (admin : Address) (newWasmHash : BytesN 32) (s : State) :
    Outcome ContractError (State × BytesN 32) := do
  let (gov, deployed) ← mapErr (fun _ => .notAuthorized)
    (UpgradeGovernance.emergencyUpgrade env admin newWasmHash 0 none true s.gov)
  return ({ s with gov }, deployed)

def cancelUpgrade (admin : Address) (s : State) : Outcome ContractError State := do
  let gov ← UpgradeGovernance.cancelUpgrade env false .notAuthorized .noUpgradePending admin s.gov
  return { s with gov }

def pause (admin : Address) (s : State) : Outcome PausableError State := do
  let currentAdmin ← expect s.gov.admin
  requireAdminPermission env currentAdmin admin .notAuthorized
  return { s with paused := some true }

def unpause (admin : Address) (s : State) : Outcome PausableError State := do
  let currentAdmin ← expect s.gov.admin
  requireAdminPermission env currentAdmin admin .notAuthorized
  return { s with paused := some false }

end

/-- The calls after `init`, which does not run on a pool that has an admin. -/
inductive Call where
  | stake (user : Address) (amount : Int)
  | unstake (user : Address) (amount : Int)
  | utilizeStake (admin user : Address) (amount : Int)
  | fundRewards (source : Address) (amount : Int)
  | claimable (user : Address)
  | claim (target : Address)
  | setGuardian (admin guardian : Address)
  | setUpgradeDelay (admin : Address) (delay : Nat)
  | proposeUpgrade (admin : Address) (newWasmHash : BytesN 32)
  | executeUpgrade (admin : Address) (newWasmHash : BytesN 32)
  | emergencyUpgrade (admin : Address) (newWasmHash : BytesN 32)
  | cancelUpgrade (admin : Address)
  | pause (admin : Address)
  | unpause (admin : Address)
deriving DecidableEq

inductive Output where
  | unit
  | amount (n : Int)
  | deployed (wasmHash : BytesN 32)
deriving DecidableEq

def World.done (w : World T) (s : State) : World T × Output := ({ w with pool := s }, .unit)

def invoke (tok : Token T) (env : Env own) (w : World T) : Call → Option (World T × Output)
  | .stake user amount => commit (stake tok env user amount w) (·, .unit)
  | .unstake user amount => commit (unstake tok env user amount w) (·, .unit)
  | .utilizeStake admin user amount => commit (utilizeStake env admin user amount w.pool) w.done
  | .fundRewards source amount => commit (fundRewards tok env source amount w) (·, .unit)
  | .claimable user => commit (claimable user w.pool) fun r => ({ w with pool := r.1 }, .amount r.2)
  | .claim target => commit (claim tok env target w) fun r => (r.1, .amount r.2)
  | .setGuardian admin guardian => commit (setGuardian env admin guardian w.pool) w.done
  | .setUpgradeDelay admin delay => commit (setUpgradeDelay env admin delay w.pool) w.done
  | .proposeUpgrade admin newWasmHash =>
    commit (proposeUpgrade env admin newWasmHash w.pool) w.done
  | .executeUpgrade admin newWasmHash =>
    commit (executeUpgrade env admin newWasmHash w.pool) fun r =>
      ({ w with pool := r.1 }, .deployed r.2)
  | .emergencyUpgrade admin newWasmHash =>
    commit (emergencyUpgrade env admin newWasmHash w.pool) fun r =>
      ({ w with pool := r.1 }, .deployed r.2)
  | .cancelUpgrade admin => commit (cancelUpgrade env admin w.pool) w.done
  | .pause admin => commit (pause env admin w.pool) w.done
  | .unpause admin => commit (unpause env admin w.pool) w.done

/-- What can happen next: a call of the pool, or token traffic that others authorized, which
cannot take from the pool. -/
inductive Action (own : Address) (T : Type) where
  | call (env : Env own) (c : Call)
  | traffic (t : T)

def act (tok : Token T) (w : World T) : Action own T → Option (World T × Output)
  | .call env c => invoke tok env w c
  | .traffic t =>
    if tok.balance w.token own ≤ tok.balance t own then some (⟨w.pool, t⟩, .unit) else none

/-- The pool at the address `own`. -/
def machine (tok : Token T) (own : Address) : Machine (World T) (Action own T) Output where
  step := act tok

end Shelterflex.MvpStakingPool
