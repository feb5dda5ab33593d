import Shelterflex.Host.Basic
import Shelterflex.Lib.Machine
import Shelterflex.Lib.Store

namespace Shelterflex.EpochRewards
open Lib
set_option autoImplicit true

inductive ContractError where
  | alreadyInitialized
  | notAuthorized
  | invalidAmount
  | epochAlreadySealed
  | epochNotFound
  | outOfOrderSealing
  | epochNotExpired
  | paused
  | claimBeforeSeal
deriving DecidableEq, Repr

structure EpochInfo where
  epochNumber : Nat
  startTs : Nat
  durationSecs : Nat
  endTs : Nat
  sealTs : Nat
  sealed : Bool
  totalRewards : Int
  carriedForward : Int
  rewardIndexAtSeal : Int
  dust : Int
  totalClaimableAtSeal : Int
deriving DecidableEq, Repr

structure UserStake where
  amount : Int
  userRewardIndex : Int
deriving DecidableEq, Repr

def scale : Int := 1000000000

/-- Instance storage comes first, then the persistent entries. -/
structure State where
  admin : Option Address
  operator : Option Address
  currentEpoch : Option Nat
  paused : Option Bool
  epoch : Store Nat EpochInfo
  unclaimedRewards : Store Address Int
  rewardIndex : Option Int
  epochStartIndex : Store Nat Int
  totalStaked : Option Int
  userStake : Store Address UserStake

def State.fresh : State := ⟨none, none, none, none, .empty, .empty, none, .empty, none, .empty⟩

def getRewardIndex (s : State) : Int := s.rewardIndex.getD 0

def getTotalStaked (s : State) : Int := s.totalStaked.getD 0

def getUserStake (s : State) (user : Address) : UserStake := s.userStake.getD user ⟨0, 0⟩

def getUnclaimed (s : State) (user : Address) : Int := s.unclaimedRewards.getD user 0

def getCurrentEpoch (s : State) : Nat := s.currentEpoch.getD 1

def getEpoch (s : State) (epochNumber : Nat) : Option EpochInfo := s.epoch.get epochNumber

def calcPending (stake : UserStake) (rewardIndex : Int) : Outcome ContractError Int :=
  if stake.amount = 0 then
    return 0
  else do
    let delta ← i128Sub rewardIndex stake.userRewardIndex
    let product ← i128Mul stake.amount delta
    i128Div product scale

/-- An epoch that has just been opened. -/
def openEpoch (number startTs durationSecs : Nat) (carriedForward : Int) : EpochInfo :=
  { epochNumber := number, startTs, durationSecs, endTs := 0, sealTs := 0, sealed := false,
    totalRewards := 0, carriedForward, rewardIndexAtSeal := 0, dust := 0,
    totalClaimableAtSeal := 0 }

section
variable (env : Env own)

def init (admin : Address) (epochDurationSecs : Nat) (s : State) :
    Outcome ContractError State := do
  require (s.admin = none) .alreadyInitialized
  return { s with
    admin := some admin
    currentEpoch := some 1
    rewardIndex := some 0
    totalStaked := some 0
    epoch := s.epoch.set 1 (openEpoch 1 env.timestamp epochDurationSecs 0)
    epochStartIndex := s.epochStartIndex.set 1 0 }

end

/-- The state that `init` leaves behind when it opens the first epoch. -/
def initialized (admin : Address) (now epochDurationSecs : Nat) : State :=
  { State.fresh with
    admin := some admin
    currentEpoch := some 1
    rewardIndex := some 0
    totalStaked := some 0
    epoch := Store.empty.set 1 (openEpoch 1 now epochDurationSecs 0)
    epochStartIndex := Store.empty.set 1 0 }

theorem init_fresh (env : Env own) (admin : Address) (epochDurationSecs : Nat) :
    init env admin epochDurationSecs .fresh =
      .ok (initialized admin env.timestamp epochDurationSecs) := rfl

section
variable (env : Env own)

def requireAdmin (caller : Address) (s : State) : Outcome ContractError Unit := do
  let admin ← okOr s.admin .notAuthorized
  env.requireAuth caller
  require (caller = admin) .notAuthorized

def requireNotPaused (s : State) : Outcome ContractError Unit :=
  require (s.paused.getD false = false) .paused

def requireOperatorOrAdmin (caller : Address) (s : State) : Outcome ContractError Unit := do
  let admin ← okOr s.admin .notAuthorized
  require (caller = admin ∨ s.operator = some caller) .notAuthorized
  env.requireAuth caller

def setOperator (admin operator : Address) (s : State) : Outcome ContractError State := do
  requireAdmin env admin s
  return { s with operator := some operator }

def pause (admin : Address) (s : State) : Outcome ContractError State := do
  requireAdmin env admin s
  return { s with paused := some true }

def unpause (admin : Address) (s : State) : Outcome ContractError State := do
  requireAdmin env admin s
  return { s with paused := some false }

/-- Pending rewards are banked before the stake of a user changes. -/
def bank (user : Address) (pending : Int) (s : State) : Outcome ContractError State :=
  if 0 < pending then do
    let banked ← i128Add (getUnclaimed s user) pending
    return { s with unclaimedRewards := s.unclaimedRewards.set user banked }
  else
    return s

def stake (user : Address) (amount : Int) (s : State) : Outcome ContractError State := do
  env.requireAuth user
  require (0 < amount) .invalidAmount
  let rewardIndex := getRewardIndex s
  let userStake := getUserStake s user
  let pending ← calcPending userStake rewardIndex
  let s ← bank user pending s
  let staked ← i128Add userStake.amount amount
  let total ← i128Add (getTotalStaked s) amount
  return { s with
    userStake := s.userStake.set user ⟨staked, rewardIndex⟩
    totalStaked := some total }

def unstake (user : Address) (amount : Int) (s : State) : Outcome ContractError State := do
  env.requireAuth user
  require (0 < amount) .invalidAmount
  let rewardIndex := getRewardIndex s
  let userStake := getUserStake s user
  require (amount ≤ userStake.amount) .invalidAmount
  let pending ← calcPending userStake rewardIndex
  let s ← bank user pending s
  let staked ← i128Sub userStake.amount amount
  let total ← i128Sub (getTotalStaked s) amount
  return { s with
    userStake := s.userStake.set user ⟨staked, rewardIndex⟩
    totalStaked := some total }

/-- Raise the index for a funding, and say what part of it is dust: all of it without stakers. -/
def distribute (amount : Int) (s : State) : Outcome ContractError (State × Int) :=
  let total := getTotalStaked s
  if 0 < total then do
    let scaled ← i128Mul amount scale
    let deltaIndex ← i128Div scaled total
    let weighted ← i128Mul deltaIndex total
    let effectivelyDistributed ← i128Div weighted scale
    let dust ← i128Sub amount effectivelyDistributed
    let newIndex ← i128Add (getRewardIndex s) deltaIndex
    return ({ s with rewardIndex := some newIndex }, dust)
  else
    return (s, amount)

def fundEpochRewards (caller : Address) (amount : Int) (s : State) :
    Outcome ContractError State := do
  requireNotPaused s
  requireOperatorOrAdmin env caller s
  require (0 < amount) .invalidAmount
  let (s, dustThisFunding) ← distribute amount s
  let currentEpoch := getCurrentEpoch s
  match getEpoch s currentEpoch with
  | some epoch => do
    let totalRewards ← i128Add epoch.totalRewards amount
    let dust ← i128Add epoch.dust dustThisFunding
    return { s with epoch := s.epoch.set currentEpoch { epoch with totalRewards, dust } }
  | none => return s

/-- The figure that the seal records: the growth of the index over the epoch, on the stake that is
there when the epoch is sealed. -/
def totalClaimable (totalStaked rewardIndexAtSeal startIndex : Int) : Outcome ContractError Int :=
  if 0 < totalStaked then do
    let growth ← i128Sub rewardIndexAtSeal startIndex
    let product ← i128Mul totalStaked growth
    i128Div product scale
  else
    return 0

def sealEpoch (caller : Address) (targetEpoch nextEpochDurationSecs : Nat) (s : State) :
    Outcome ContractError State := do
  requireOperatorOrAdmin env caller s
  let currentEpoch := getCurrentEpoch s
  require (targetEpoch = currentEpoch) .outOfOrderSealing
  let epoch ← okOr (getEpoch s targetEpoch) .epochNotFound
  require (epoch.sealed = false) .epochAlreadySealed
  let expiry ← u64Add epoch.startTs epoch.durationSecs
  require (expiry ≤ env.timestamp) .epochNotExpired
  let rewardIndexAtSeal := getRewardIndex s
  let startIndex := s.epochStartIndex.getD targetEpoch 0
  let totalClaimableAtSeal ← totalClaimable (getTotalStaked s) rewardIndexAtSeal startIndex
  let dust ← i128Sub epoch.totalRewards totalClaimableAtSeal
  let carryForward ← i128Add epoch.carriedForward epoch.totalRewards
  let sealedInfo : EpochInfo := { epoch with
    endTs := env.timestamp
    sealTs := env.timestamp
    sealed := true
    rewardIndexAtSeal
    dust := max dust 0
    totalClaimableAtSeal }
  let nextEpoch ← u64Add currentEpoch 1
  return { s with
    currentEpoch := some nextEpoch
    epochStartIndex := s.epochStartIndex.set nextEpoch rewardIndexAtSeal
    epoch := (s.epoch.set targetEpoch sealedInfo).set nextEpoch
      (openEpoch nextEpoch expiry nextEpochDurationSecs carryForward) }

def claim (user : Address) (s : State) : Outcome ContractError (State × Int) := do
  env.requireAuth user
  require (1 < getCurrentEpoch s) .claimBeforeSeal
  let rewardIndex := getRewardIndex s
  let userStake := getUserStake s user
  let livePending ← calcPending userStake rewardIndex
  let totalClaimable ← i128Add livePending (getUnclaimed s user)
  return ({ s with
    userStake := s.userStake.set user { userStake with userRewardIndex := rewardIndex }
    unclaimedRewards := s.unclaimedRewards.set user 0 }, totalClaimable)

end

def getClaimable (s : State) (user : Address) : Outcome ContractError Int := do
  let live ← calcPending (getUserStake s user) (getRewardIndex s)
  i128Add live (getUnclaimed s user)

inductive Call where
  | init (admin : Address) (epochDurationSecs : Nat)
  | setOperator (admin operator : Address)
  | pause (admin : Address)
  | unpause (admin : Address)
  | stake (user : Address) (amount : Int)
  | unstake (user : Address) (amount : Int)
  | fundEpochRewards (caller : Address) (amount : Int)
  | sealEpoch (caller : Address) (targetEpoch nextEpochDurationSecs : Nat)
  | claim (user : Address)
deriving DecidableEq

inductive Output where
  | unit
  | amount (n : Int)
deriving DecidableEq

def Output.paid : Output → Int
  | .amount n => n
  | .unit => 0

def done (s : State) : State × Output := (s, .unit)

def invoke (env : Env own) (s : State) : Call → Option (State × Output)
  | .init admin epochDurationSecs => commit (init env admin epochDurationSecs s) done
  | .setOperator admin operator => commit (setOperator env admin operator s) done
  | .pause admin => commit (pause env admin s) done
  | .unpause admin => commit (unpause env admin s) done
  | .stake user amount => commit (stake env user amount s) done
  | .unstake user amount => commit (unstake env user amount s) done
  | .fundEpochRewards caller amount => commit (fundEpochRewards env caller amount s) done
  | .sealEpoch caller targetEpoch nextEpochDurationSecs =>
    commit (sealEpoch env caller targetEpoch nextEpochDurationSecs s) done
  | .claim user => commit (claim env user s) fun r => (r.1, .amount r.2)

/-- The contract at the address `own`. -/
def machine (own : Address) : Machine State (Env own × Call) Output where
  step s i := invoke i.1 s i.2

end Shelterflex.EpochRewards
