import Shelterflex.Host.Guards
import Shelterflex.Lib.Machine
import Shelterflex.Lib.Store

namespace Shelterflex.StakingRewards
open Lib
set_option autoImplicit true

inductive ContractError where
  | alreadyInitialized
  | notAuthorized
  | paused
  | invalidAmount
  | upgradeAlreadyPending
  | noUpgradePending
  | upgradeDelayNotMet
deriving DecidableEq, Repr

structure UserStake where
  amount : Int
  userIndex : Int
  pendingAmount : Int
deriving DecidableEq, Repr

def scale : Int := 1000000000

/-- Instance storage comes first, then the persistent entries. -/
structure State where
  contractVersion : Option Nat
  admin : Option Address
  operator : Option Address
  paused : Option Bool
  guardian : Option Address
  upgradeDelay : Option Nat
  pendingUpgradeHash : Option (BytesN 32)
  pendingUpgradeAt : Option Nat
  userStake : Store Address UserStake
  rewardIndex : Option Int
  totalStaked : Option Int
  pendingDust : Option Int
  totalFunded : Option Int

def State.fresh : State :=
  ⟨none, none, none, none, none, none, none, none, .empty, none, none, none, none⟩

def getUserStake (s : State) (user : Address) : UserStake := s.userStake.getD user ⟨0, 0, 0⟩

def getRewardIndex (s : State) : Int := s.rewardIndex.getD 0

def getTotalStaked (s : State) : Int := s.totalStaked.getD 0

def getPendingDust (s : State) : Int := s.pendingDust.getD 0

def getTotalFunded (s : State) : Int := s.totalFunded.getD 0

def calcPending (userStake : UserStake) (rewardIndex : Int) : Outcome ContractError Int := do
  let delta ← i128Sub rewardIndex userStake.userIndex
  let product ← i128Mul userStake.amount delta
  i128Div product scale

def requireAdmin (env : Env own) (s : State) : Outcome ContractError Unit := do
  let admin ← okOr s.admin .notAuthorized
  env.requireAuth admin

def requireOperator (env : Env own) (s : State) : Outcome ContractError Unit := do
  let operator ← okOr s.operator .notAuthorized
  env.requireAuth operator

def requireNotPaused (s : State) : Outcome ContractError Unit :=
  require (s.paused.getD false = false) .paused

/-- The caller-passing admin gate of the upgrade entry points. -/
def requireStoredAdmin (env : Env own) (admin : Address) (s : State) :
    Outcome ContractError Unit := do
  env.requireAuth admin
  let storedAdmin ← okOr s.admin .notAuthorized
  require (admin = storedAdmin) .notAuthorized

def requireGuardianIfSet (env : Env own) (s : State) : Outcome ContractError Unit :=
  match s.guardian with
  | some guardian => env.requireAuth guardian
  | none => .ok ()

def init (admin : Address) (s : State) : Outcome ContractError State := do
  require (s.admin = none) .alreadyInitialized
  return { s with admin := some admin, contractVersion := some 1, paused := some false }

def setAdmin (env : Env own) (newAdmin : Address) (s : State) : Outcome ContractError State := do
  requireAdmin env s
  return { s with admin := some newAdmin }

def addOperator (env : Env own) (operator : Address) (s : State) :
    Outcome ContractError State := do
  requireAdmin env s
  return { s with operator := some operator }

def removeOperator (env : Env own) (s : State) : Outcome ContractError State := do
  requireAdmin env s
  return { s with operator := none }

def stake (env : Env own) (user : Address) (amount : Int) (s : State) :
    Outcome ContractError State := do
  requireNotPaused s
  env.requireAuth user
  require (0 < amount) .invalidAmount
  let userStake := getUserStake s user
  let rewardIndex := getRewardIndex s
  let earned ← calcPending userStake rewardIndex
  let pendingAmount ← i128Add userStake.pendingAmount earned
  let staked ← i128Add userStake.amount amount
  let total ← i128Add (getTotalStaked s) amount
  return { s with
    userStake := s.userStake.set user ⟨staked, rewardIndex, pendingAmount⟩
    totalStaked := some total }

def unstake (env : Env own) (user : Address) (amount : Int) (s : State) :
    Outcome ContractError State := do
  requireNotPaused s
  env.requireAuth user
  require (0 < amount) .invalidAmount
  let userStake := getUserStake s user
  demand (amount ≤ userStake.amount) "Insufficient staked amount"
  let rewardIndex := getRewardIndex s
  let earned ← calcPending userStake rewardIndex
  let pendingAmount ← i128Add userStake.pendingAmount earned
  let staked ← i128Sub userStake.amount amount
  let total ← i128Sub (getTotalStaked s) amount
  return { s with
    userStake := s.userStake.set user ⟨staked, rewardIndex, pendingAmount⟩
    totalStaked := some total }

/-- The common body of `fund_rewards` and `distribute_rewards`. -/
def distribute (amount : Int) (s : State) : Outcome ContractError State := do
  require (0 < amount) .invalidAmount
  let totalFunded ← i128Add (getTotalFunded s) amount
  let total := getTotalStaked s
  if total = 0 then
    return { s with totalFunded := some totalFunded }
  else
    let totalToDist ← i128Add amount (getPendingDust s)
    let scaled ← i128Mul totalToDist scale
    let indexIncrement ← i128Div scaled total
    let weighted ← i128Mul indexIncrement total
    let committed ← i128Div weighted scale
    let newDust ← i128Sub totalToDist committed
    let rewardIndex ← i128Add (getRewardIndex s) indexIncrement
    return { s with
      totalFunded := some totalFunded
      rewardIndex := some rewardIndex
      pendingDust := some newDust }

def fundRewards (env : Env own) (amount : Int) (s : State) : Outcome ContractError State := do
  requireNotPaused s
  requireOperator env s
  distribute amount s

def distributeRewards (env : Env own) (amount : Int) (s : State) :
    Outcome ContractError State := do
  requireNotPaused s
  requireAdmin env s
  distribute amount s

def claim (env : Env own) (user : Address) (s : State) :
    Outcome ContractError (State × Int) := do
  requireNotPaused s
  env.requireAuth user
  let userStake := getUserStake s user
  let rewardIndex := getRewardIndex s
  let earned ← calcPending userStake rewardIndex
  let claimable ← i128Add earned userStake.pendingAmount
  return ({ s with userStake := s.userStake.set user ⟨userStake.amount, rewardIndex, 0⟩ },
    claimable)

def getClaimable (s : State) (user : Address) : Outcome ContractError Int := do
  let userStake := getUserStake s user
  let earned ← calcPending userStake (getRewardIndex s)
  i128Add earned userStake.pendingAmount

def setGuardian (env : Env own) (admin guardian : Address) (s : State) :
    Outcome ContractError State := do
  requireStoredAdmin env admin s
  return { s with guardian := some guardian }

def setUpgradeDelay (env : Env own) (admin : Address) (delay : Nat) (s : State) :
    Outcome ContractError State := do
  requireStoredAdmin env admin s
  return { s with upgradeDelay := some delay }

def proposeUpgrade (env : Env own) (admin : Address) (newWasmHash : BytesN 32) (s : State) :
    Outcome ContractError State := do
  requireStoredAdmin env admin s
  require (s.pendingUpgradeHash = none) .upgradeAlreadyPending
  let executeAt ← u64Add env.timestamp (s.upgradeDelay.getD 0)
  return { s with pendingUpgradeHash := some newWasmHash, pendingUpgradeAt := some executeAt }

/-- The hash is that of the code the host runs from now on. -/
def executeUpgrade (env : Env own) (admin : Address) (s : State) :
    Outcome ContractError (State × BytesN 32) := do
  requireStoredAdmin env admin s
  let hash ← okOr s.pendingUpgradeHash .noUpgradePending
  let executeAt ← okOr s.pendingUpgradeAt .noUpgradePending
  require (executeAt ≤ env.timestamp) .upgradeDelayNotMet
  return ({ s with pendingUpgradeHash := none, pendingUpgradeAt := none }, hash)

def emergencyUpgrade (env : Env own) (admin : Address) (newWasmHash : BytesN 32) (s : State) :
    Outcome ContractError (State × BytesN 32) := do
  requireStoredAdmin env admin s
  requireGuardianIfSet env s
  return ({ s with pendingUpgradeHash := none, pendingUpgradeAt := none }, newWasmHash)

def cancelUpgrade (env : Env own) (admin : Address) (s : State) :
    Outcome ContractError State := do
  requireStoredAdmin env admin s
  require (s.pendingUpgradeHash ≠ none) .noUpgradePending
  return { s with pendingUpgradeHash := none, pendingUpgradeAt := none }

def pause (env : Env own) (s : State) : Outcome ContractError State := do
  requireAdmin env s
  return { s with paused := some true }

def unpause (env : Env own) (s : State) : Outcome ContractError State := do
  requireAdmin env s
  return { s with paused := some false }

inductive Call where
  | init (admin : Address)
  | setAdmin (newAdmin : Address)
  | addOperator (operator : Address)
  | removeOperator
  | stake (user : Address) (amount : Int)
  | unstake (user : Address) (amount : Int)
  | fundRewards (amount : Int)
  | distributeRewards (amount : Int)
  | claim (user : Address)
  | setGuardian (admin guardian : Address)
  | setUpgradeDelay (admin : Address) (delay : Nat)
  | proposeUpgrade (admin : Address) (newWasmHash : BytesN 32)
  | executeUpgrade (admin : Address)
  | emergencyUpgrade (admin : Address) (newWasmHash : BytesN 32)
  | cancelUpgrade (admin : Address)
  | pause
  | unpause
deriving DecidableEq

inductive Output where
  | unit
  | amount (n : Int)
  | deployed (hash : BytesN 32)
deriving DecidableEq

def Output.paid : Output → Int
  | .amount n => n
  | _ => 0

def done (s : State) : State × Output := (s, .unit)

def invoke (env : Env own) (s : State) : Call → Option (State × Output)
  | .init admin => commit (init admin s) done
  | .setAdmin newAdmin => commit (setAdmin env newAdmin s) done
  | .addOperator operator => commit (addOperator env operator s) done
  | .removeOperator => commit (removeOperator env s) done
  | .stake user amount => commit (stake env user amount s) done
  | .unstake user amount => commit (unstake env user amount s) done
  | .fundRewards amount => commit (fundRewards env amount s) done
  | .distributeRewards amount => commit (distributeRewards env amount s) done
  | .claim user => commit (claim env user s) fun r => (r.1, .amount r.2)
  | .setGuardian admin guardian => commit (setGuardian env admin guardian s) done
  | .setUpgradeDelay admin delay => commit (setUpgradeDelay env admin delay s) done
  | .proposeUpgrade admin hash => commit (proposeUpgrade env admin hash s) done
  | .executeUpgrade admin => commit (executeUpgrade env admin s) fun r => (r.1, .deployed r.2)
  | .emergencyUpgrade admin hash =>
    commit (emergencyUpgrade env admin hash s) fun r => (r.1, .deployed r.2)
  | .cancelUpgrade admin => commit (cancelUpgrade env admin s) done
  | .pause => commit (pause env s) done
  | .unpause => commit (unpause env s) done

/-- The contract at the address `own`, before its `init`. -/
def machine (own : Address) : Machine State (Env own × Call) Output where
  step s i := invoke i.1 s i.2

end Shelterflex.StakingRewards
