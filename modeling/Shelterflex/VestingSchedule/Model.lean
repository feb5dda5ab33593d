import Shelterflex.Host.Guards
import Shelterflex.Lib.Machine
import Shelterflex.Lib.Store

namespace Shelterflex.VestingSchedule
open Lib
set_option autoImplicit true

inductive ContractError where
  | alreadyInitialized
  | notAuthorized
  | paused
  | invalidAmount
  | insufficientBalance
  | scheduleNotFound
  | scheduleAlreadyExists
  | invalidTimeParameters
  | invalidCliffTime
  | cliffNotReached
  | notRevocable
  | alreadyRevoked
  | tokenNotSet
  | revoked
  | nothingToClaim
  | reentrancyDetected
deriving DecidableEq, Repr

structure VestingSchedule where
  beneficiary : Address
  totalAmount : Int
  claimedAmount : Int
  startTime : Nat
  endTime : Nat
  cliffTime : Nat
  revocable : Bool
  revoked : Bool
deriving DecidableEq, Repr

structure State where
  contractVersion : Option Nat
  admin : Option Address
  paused : Option Bool
  vestingSchedule : Store Address VestingSchedule
  token : Option Address
  reentrancy : Option Bool

def State.fresh : State := ⟨none, none, none, .empty, none, none⟩

def isPaused (s : State) : Bool := s.paused.getD false

/-- The `get_vesting_schedule` of storage, without the error of the entry point. -/
def getVestingSchedule (s : State) (beneficiary : Address) : Option VestingSchedule :=
  s.vestingSchedule.get beneficiary

def setVestingSchedule (beneficiary : Address) (schedule : VestingSchedule) (s : State) : State :=
  { s with vestingSchedule := s.vestingSchedule.set beneficiary schedule }

def calculateVestedAmount (schedule : VestingSchedule) (currentTime : Nat) :
    Outcome ContractError Int :=
  if currentTime < schedule.startTime then
    return 0
  else if schedule.endTime ≤ currentTime then
    return schedule.totalAmount
  else if schedule.endTime ≤ schedule.startTime then
    return 0
  else do
    let elapsed := currentTime - schedule.startTime
    let totalDuration := schedule.endTime - schedule.startTime
    let product ← i128Mul elapsed schedule.totalAmount
    let vested ← i128Div product totalDuration
    return min vested schedule.totalAmount

def calculateClaimableAmount (schedule : VestingSchedule) (currentTime : Nat) :
    Outcome ContractError Int :=
  if currentTime < schedule.cliffTime then
    return 0
  else do
    let vested ← calculateVestedAmount schedule currentTime
    return i128SaturatingSub vested schedule.claimedAmount

section
variable (env : Env own)

def requireAdmin (caller : Address) (s : State) : Outcome ContractError Unit := do
  let admin ← okOr s.admin .notAuthorized
  env.requireAuth caller
  require (caller = admin) .notAuthorized

def requireNotPaused (s : State) : Outcome ContractError Unit :=
  require (isPaused s = false) .paused

/-- The scope of the guard ends with the call. -/
def reentrancyScope (s : State) : Outcome ContractError State := do
  let _ ← enter s.reentrancy ContractError.reentrancyDetected
  return { s with reentrancy := exit }

/-- The entry point `initialize`. -/
def initializeContract (admin token : Address) (s : State) : Outcome ContractError State := do
  require (s.admin = none) .alreadyInitialized
  env.requireAuth admin
  return { s with
    admin := some admin
    token := some token
    contractVersion := some 1 }

def createVestingSchedule (admin beneficiary : Address) (totalAmount : Int)
    (startTime endTime cliffTime : Nat) (revocable : Bool) (s : State) :
    Outcome ContractError State := do
  requireAdmin env admin s
  require (0 < totalAmount) .invalidAmount
  require (startTime < endTime) .invalidTimeParameters
  require (startTime ≤ cliffTime ∧ cliffTime ≤ endTime) .invalidCliffTime
  require (getVestingSchedule s beneficiary = none) .scheduleAlreadyExists
  return setVestingSchedule beneficiary
    { beneficiary, totalAmount, claimedAmount := 0, startTime, endTime, cliffTime, revocable,
      revoked := false } s

def claim (beneficiary : Address) (s : State) : Outcome ContractError (State × Int) := do
  requireNotPaused s
  env.requireAuth beneficiary
  let schedule ← okOr (getVestingSchedule s beneficiary) .scheduleNotFound
  require (schedule.revoked = false) .revoked
  let currentTime := env.timestamp
  require (schedule.cliffTime ≤ currentTime) .cliffNotReached
  let claimable ← calculateClaimableAmount schedule currentTime
  require (0 < claimable) .nothingToClaim
  let claimedAmount ← i128Add schedule.claimedAmount claimable
  let s := setVestingSchedule beneficiary { schedule with claimedAmount } s
  let s ← reentrancyScope s
  return (s, claimable)

def revoke (admin beneficiary : Address) (s : State) : Outcome ContractError (State × Int) := do
  requireAdmin env admin s
  let schedule ← okOr (getVestingSchedule s beneficiary) .scheduleNotFound
  require (schedule.revocable = true) .notRevocable
  require (schedule.revoked = false) .alreadyRevoked
  let unclaimed ← i128Sub schedule.totalAmount schedule.claimedAmount
  let s := setVestingSchedule beneficiary { schedule with revoked := true } s
  let s ← reentrancyScope s
  return (s, unclaimed)

def getClaimableAmount (beneficiary : Address) (s : State) : Outcome ContractError Int := do
  let schedule ← okOr (getVestingSchedule s beneficiary) .scheduleNotFound
  if schedule.revoked then
    return 0
  else
    calculateClaimableAmount schedule env.timestamp

def setAdmin (admin newAdmin : Address) (s : State) : Outcome ContractError State := do
  requireAdmin env admin s
  return { s with admin := some newAdmin }

def pause (admin : Address) (s : State) : Outcome ContractError State := do
  requireAdmin env admin s
  return { s with paused := some true }

def unpause (admin : Address) (s : State) : Outcome ContractError State := do
  requireAdmin env admin s
  return { s with paused := some false }

end

inductive Call where
  | initializeContract (admin token : Address)
  | createVestingSchedule (admin beneficiary : Address) (totalAmount : Int)
      (startTime endTime cliffTime : Nat) (revocable : Bool)
  | claim (beneficiary : Address)
  | revoke (admin beneficiary : Address)
  | setAdmin (admin newAdmin : Address)
  | pause (admin : Address)
  | unpause (admin : Address)
deriving DecidableEq

inductive Output where
  | unit
  | amount (n : Int)
deriving DecidableEq

def done (s : State) : State × Output := (s, .unit)

def paidOut (r : State × Int) : State × Output := (r.1, .amount r.2)

def invoke (env : Env own) (s : State) : Call → Option (State × Output)
  | .initializeContract admin token => commit (initializeContract env admin token s) done
  | .createVestingSchedule admin beneficiary totalAmount startTime endTime cliffTime revocable =>
    commit (createVestingSchedule env admin beneficiary totalAmount startTime endTime cliffTime
      revocable s) done
  | .claim beneficiary => commit (claim env beneficiary s) paidOut
  | .revoke admin beneficiary => commit (revoke env admin beneficiary s) paidOut
  | .setAdmin admin newAdmin => commit (setAdmin env admin newAdmin s) done
  | .pause admin => commit (pause env admin s) done
  | .unpause admin => commit (unpause env admin s) done

/-- The contract at the address `own`. -/
def machine (own : Address) : Machine State (Env own × Call) Output where
  step s i := invoke i.1 s i.2

end Shelterflex.VestingSchedule
