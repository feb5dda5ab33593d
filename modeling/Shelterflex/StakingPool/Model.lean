import Shelterflex.UpgradeGovernance.Core
import Shelterflex.Host.Token
import Shelterflex.Lib.Machine
import Shelterflex.Lib.Store

namespace Shelterflex.StakingPool
open Lib UpgradeGovernance
set_option autoImplicit true

inductive ContractError where
  | alreadyInitialized
  | notAuthorized
  | paused
  | invalidAmount
  | invalidLockPeriod
  | insufficientBalance
  | tokensLocked
  | noStakeTimestamp
  | reentrancyDetected
  | upgradeAlreadyPending
  | noUpgradePending
  | upgradeDelayNotMet
  | invalidUpgradeVersion
  | incompatibleStateSchema
deriving DecidableEq, Repr

structure Deposit where
  amount : Int
  timestamp : Nat
deriving DecidableEq, Repr

/-- `operator` is what the key holds: nothing, or the optional address that `set_operator` was
given. -/
structure State where
  gov : Gov
  operator : Option (Option Address)
  token : Option Address
  stakedBalance : Store Address Int
  totalStaked : Option Int
  paused : Option Bool
  lockPeriod : Option Nat
  depositCount : Store Address Nat
  deposit : Store (Address × Nat) Deposit
  reentrancy : Option Bool

def State.fresh : State :=
  ⟨.fresh, none, none, .empty, none, none, none, .empty, .empty, none⟩

/-- The pool beside the state of its token. -/
structure World (T : Type) where
  pool : State
  token : T

def getStateSchemaVersion (s : State) : Nat := s.gov.storageSchemaVersion.getD 0

def contractVersion (s : State) : Nat := s.gov.contractVersion.getD 0

/-- An operator that was set to nothing is stored as a void, which does not read as an address. -/
def getOperator (s : State) : Outcome ε (Option Address) :=
  match s.operator with
  | none => .ok none
  | some (some op) => .ok (some op)
  | some none => .error (.trap (.panicked "ConversionError"))

def isOperator (s : State) (addr : Address) : Outcome ε Bool := do
  let operator ← getOperator s
  return operator = some addr

def getStakedBalance (s : State) (user : Address) : Int := s.stakedBalance.getD user 0

def getTotalStaked (s : State) : Int := s.totalStaked.getD 0

def getLockPeriod (s : State) : Nat := s.lockPeriod.getD 0

def getDepositCount (s : State) (user : Address) : Nat := s.depositCount.getD user 0

def getDeposit (s : State) (user : Address) (index : Nat) : Option Deposit :=
  s.deposit.get (user, index)

def enterNonreentrant (s : State) : Outcome ContractError State := do
  let lock ← enter s.reentrancy .reentrancyDetected
  return { s with reentrancy := lock }

def exitNonreentrant (s : State) : State := { s with reentrancy := exit }

def requireNotPaused (s : State) : Outcome ContractError Unit :=
  require (s.paused.getD false = false) .paused

def requireValidAmount (amount : Int) : Outcome ContractError Unit :=
  require (0 < amount) .invalidAmount

def requireValidLockPeriod (lockPeriod : Nat) : Outcome ContractError Unit :=
  require (lockPeriod ≤ 31536000) .invalidLockPeriod

def init (admin token : Address) (s : State) : Outcome ContractError State := do
  require (s.gov.admin = none) .alreadyInitialized
  return { s with
    gov := { s.gov with
      admin := some admin
      contractVersion := some 1
      storageSchemaVersion := some 1 }
    token := some token
    totalStaked := some 0
    lockPeriod := some 0
    paused := some false }

/-- The state that `init` leaves behind. -/
def initialized (admin token : Address) : State :=
  { State.fresh with
    gov := { Gov.fresh with
      admin := some admin
      contractVersion := some 1
      storageSchemaVersion := some 1 }
    token := some token
    totalStaked := some 0
    lockPeriod := some 0
    paused := some false }

theorem init_fresh (admin token : Address) :
    init admin token .fresh = .ok (initialized admin token) := rfl

section
variable (env : Env own)

/-- Only the operator may authorize once one is set, else only the user. -/
def requireUserOrOperator (user caller : Address) (s : State) :
    Outcome ContractError Address := do
  let operator ← getOperator s
  match operator with
  | some op =>
    env.requireAuth op
    return op
  | none =>
    env.requireAuth user
    require (caller = user) .notAuthorized
    return user

def setOperator (admin : Address) (newOperator : Option Address) (s : State) :
    Outcome ContractError State := do
  let currentAdmin ← expect s.gov.admin
  requireAdminPermission env currentAdmin admin .notAuthorized
  let _ ← getOperator s
  return { s with operator := some newOperator }

def setAdmin (admin newAdmin : Address) (s : State) : Outcome ContractError State := do
  let currentAdmin ← expect s.gov.admin
  requireAdminPermission env currentAdmin admin .notAuthorized
  return { s with gov := { s.gov with admin := some newAdmin } }

def setLockPeriod (admin : Address) (seconds : Nat) (s : State) :
    Outcome ContractError State := do
  let currentAdmin ← expect s.gov.admin
  requireAdminPermission env currentAdmin admin .notAuthorized
  requireValidLockPeriod seconds
  return { s with lockPeriod := some seconds }

end

/-! Deposits -/

def isUnlocked (lockPeriod currentTime : Nat) (d : Deposit) : Outcome ContractError Bool :=
  if lockPeriod = 0 then
    return true
  else do
    let unlockTime ← u64Add d.timestamp lockPeriod
    return unlockTime ≤ currentTime

/-- One turn of the first loop of `unstake`, which adds up what is unlocked. -/
def addUnlocked (lockPeriod currentTime : Nat) (user : Address) (s : State)
    (unlockedBalance : Int) (i : Nat) : Outcome ContractError Int :=
  match getDeposit s user i with
  | some d => do
    let unlocked ← isUnlocked lockPeriod currentTime d
    if unlocked then i128Add unlockedBalance d.amount else return unlockedBalance
  | none => return unlockedBalance

/-- Take from one unlocked deposit. -/
def takeFrom (user : Address) (i : Nat) (d : Deposit) (remainingToUnstake : Int) (s : State) :
    Outcome ContractError (Int × State) :=
  if d.amount ≤ remainingToUnstake then do
    let remaining ← i128Sub remainingToUnstake d.amount
    return (remaining, { s with deposit := s.deposit.remove (user, i) })
  else do
    let left ← i128Sub d.amount remainingToUnstake
    return (0, { s with deposit := s.deposit.set (user, i) { d with amount := left } })

/-- One turn of the second loop of `unstake`, which takes what is unlocked. -/
def consumeDeposit (lockPeriod currentTime : Nat) (user : Address) (acc : Int × State) (i : Nat) :
    Outcome ContractError (Int × State) :=
  if acc.1 = 0 then
    return acc
  else
    match getDeposit acc.2 user i with
    | some d => do
      let unlocked ← isUnlocked lockPeriod currentTime d
      if unlocked then takeFrom user i d acc.1 acc.2 else return acc
    | none => return acc

section
variable (tok : Token T) (env : Env own)

def transfer (s : State) (t : T) (source target : Address) (amount : Int) : Outcome ε T := do
  let _ ← expect s.token
  tok.call env t source target amount

def stake (source : Address) (amount : Int) (w : World T) : Outcome ContractError (World T) := do
  requireNotPaused w.pool
  let _ ← requireUserOrOperator env source source w.pool
  requireValidAmount amount
  let s ← enterNonreentrant w.pool
  let t ← transfer tok env s w.token source own amount
  let s := exitNonreentrant s
  let balance ← i128Add (getStakedBalance s source) amount
  let total ← i128Add (getTotalStaked s) amount
  let count := getDepositCount s source
  let next ← u32Add count 1
  return ⟨{ s with
    stakedBalance := s.stakedBalance.set source balance
    totalStaked := some total
    deposit := s.deposit.set (source, count) ⟨amount, env.timestamp⟩
    depositCount := s.depositCount.set source next }, t⟩

def unstake (target : Address) (amount : Int) (w : World T) :
    Outcome ContractError (World T) := do
  let s := w.pool
  requireNotPaused s
  let _ ← requireUserOrOperator env target target s
  requireValidAmount amount
  let currentBalance := getStakedBalance s target
  require (amount ≤ currentBalance) .insufficientBalance
  let indices := List.range (getDepositCount s target)
  let unlockedBalance ← indices.foldlM
    (addUnlocked (getLockPeriod s) env.timestamp target s) 0
  require (amount ≤ unlockedBalance) .tokensLocked
  let (_, s) ← indices.foldlM
    (consumeDeposit (getLockPeriod s) env.timestamp target) (amount, s)
  let balance ← i128Sub currentBalance amount
  let total ← i128Sub (getTotalStaked s) amount
  let s := { s with
    stakedBalance := s.stakedBalance.set target balance
    totalStaked := some total }
  let s ← enterNonreentrant s
  let t ← transfer tok env s w.token own target amount
  return ⟨exitNonreentrant s, t⟩

end

section
variable (env : Env own)

def setGuardian (admin guardian : Address) (s : State) : Outcome ContractError State := do
  let gov ← mapErr (fun _ => .notAuthorized)
    (UpgradeGovernance.setGuardian env admin (some guardian) s.gov)
  return { s with gov }

def setUpgradeDelay (admin : Address) (delay : Nat) (s : State) : Outcome ContractError State := do
  let gov ← mapErr (fun _ => .notAuthorized)
    (UpgradeGovernance.setUpgradeDelay env admin delay s.gov)
  return { s with gov }

def proposeError : UpgradeGovernanceError → ContractError
  | .notAuthorized => .notAuthorized
  | .upgradeAlreadyPending => .upgradeAlreadyPending
  | .invalidUpgradeVersion => .invalidUpgradeVersion
  | .incompatibleSchemaVersion => .incompatibleStateSchema
  | _ => .notAuthorized

def executeError : UpgradeGovernanceError → ContractError
  | .notAuthorized => .notAuthorized
  | .noPendingUpgrade => .noUpgradePending
  | .upgradeDelayNotElapsed => .upgradeDelayNotMet
  | _ => .notAuthorized

def proposeUpgrade (admin : Address) (newWasmHash : BytesN 32) (newVersion : Nat) (s : State) :
    Outcome ContractError State := do
  require (getStateSchemaVersion s = contractVersion s) .incompatibleStateSchema
  let gov ← mapErr proposeError (UpgradeGovernance.proposeUpgrade env admin newWasmHash newVersion
    (some (getStateSchemaVersion s)) s.gov)
  return { s with gov }

def executeUpgrade (admin : Address) (newWasmHash : BytesN 32) (s : State) :
    Outcome ContractError (State × BytesN 32) := do
  let (gov, deployed) ← mapErr executeError
    (UpgradeGovernance.executeUpgrade env admin newWasmHash s.gov)
  return ({ s with gov }, deployed)

def emergencyUpgrade (admin : Address) (newWasmHash : BytesN 32) (newVersion : Nat) (s : State) :
    Outcome ContractError (State × BytesN 32) := do
  require (getStateSchemaVersion s = contractVersion s) .incompatibleStateSchema
  let (gov, deployed) ← mapErr (fun _ => .notAuthorized)
    (UpgradeGovernance.emergencyUpgrade env admin newWasmHash newVersion
      (some (getStateSchemaVersion s)) true s.gov)
  return ({ s with gov }, deployed)

def cancelUpgrade (admin : Address) (s : State) : Outcome ContractError State := do
  let gov ← UpgradeGovernance.cancelUpgrade env true .notAuthorized .noUpgradePending admin s.gov
  return { s with gov }

def pause (admin : Address) (s : State) : Outcome PausableError State := do
  let currentAdmin ← expect s.gov.admin
  requireAdminPermission env currentAdmin admin .notAuthorized
  return { s with paused := some true }

def unpause (admin : Address) (s : State) : Outcome PausableError State := do
  let currentAdmin ← expect s.gov.admin
  requireAdminPermission env currentAdmin admin .notAuthorized
  return { s with paused := some false }

end

/-- The calls after `init`, which does not run on a pool that has an admin. -/
inductive Call where
  | setOperator (admin : Address) (newOperator : Option Address)
  | setAdmin (admin newAdmin : Address)
  | stake (source : Address) (amount : Int)
  | unstake (target : Address) (amount : Int)
  | setLockPeriod (admin : Address) (seconds : Nat)
  | setGuardian (admin guardian : Address)
  | setUpgradeDelay (admin : Address) (delay : Nat)
  | proposeUpgrade (admin : Address) (newWasmHash : BytesN 32) (newVersion : Nat)
  | executeUpgrade (admin : Address) (newWasmHash : BytesN 32)
  | emergencyUpgrade (admin : Address) (newWasmHash : BytesN 32) (newVersion : Nat)
  | cancelUpgrade (admin : Address)
  | pause (admin : Address)
  | unpause (admin : Address)
deriving DecidableEq

inductive Output where
  | unit
  | deployed (wasmHash : BytesN 32)
deriving DecidableEq

def World.done (w : World T) (s : State) : World T × Output := ({ w with pool := s }, .unit)

def World.installed (w : World T) (r : State × BytesN 32) : World T × Output :=
  ({ w with pool := r.1 }, .deployed r.2)

def invoke (tok : Token T) (env : Env own) (w : World T) : Call → Option (World T × Output)
  | .setOperator admin newOperator => commit (setOperator env admin newOperator w.pool) w.done
  | .setAdmin admin newAdmin => commit (setAdmin env admin newAdmin w.pool) w.done
  | .stake source amount => commit (stake tok env source amount w) (·, .unit)
  | .unstake target amount => commit (unstake tok env target amount w) (·, .unit)
  | .setLockPeriod admin seconds => commit (setLockPeriod env admin seconds w.pool) w.done
  | .setGuardian admin guardian => commit (setGuardian env admin guardian w.pool) w.done
  | .setUpgradeDelay admin delay => commit (setUpgradeDelay env admin delay w.pool) w.done
  | .proposeUpgrade admin newWasmHash newVersion =>
    commit (proposeUpgrade env admin newWasmHash newVersion w.pool) w.done
  | .executeUpgrade admin newWasmHash =>
    commit (executeUpgrade env admin newWasmHash w.pool) w.installed
  | .emergencyUpgrade admin newWasmHash newVersion =>
    commit (emergencyUpgrade env admin newWasmHash newVersion w.pool) w.installed
  | .cancelUpgrade admin => commit (cancelUpgrade env admin w.pool) w.done
  | .pause admin => commit (pause env admin w.pool) w.done
  | .unpause admin => commit (unpause env admin w.pool) w.done

/-- What can happen next: a call of the pool, or token traffic that others authorized, which
cannot take from the pool. -/
inductive Action (own : Address) (T : Type) where
  | call (env : Env own) (c : Call)
  | traffic (t : T)

def act (tok : Token T) (w : World T) : Action own T → Option (World T × Output)
  | .call env c => invoke tok env w c
  | .traffic t =>
    if tok.balance w.token own ≤ tok.balance t own then some (⟨w.pool, t⟩, .unit) else none

/-- The pool at the address `own`. -/
def machine (tok : Token T) (own : Address) : Machine (World T) (Action own T) Output where
  step := act tok

end Shelterflex.StakingPool
