import Shelterflex.UpgradeGovernance.Core
import Shelterflex.Lib.Machine
import Shelterflex.Lib.Store

namespace Shelterflex.RentWallet
open Lib UpgradeGovernance
set_option autoImplicit true

inductive ContractError where
  | alreadyInitialized
  | notAuthorized
  | paused
  | invalidAmount
  | insufficientBalance
  | upgradeAlreadyPending
  | noUpgradePending
  | upgradeDelayNotMet
  | amountTooLarge
  | balanceOverflow
  | invalidUpgradeVersion
  | incompatibleStateSchema
  | monthlyCapExceeded
deriving DecidableEq, Repr

structure State where
  gov : Gov
  balance : Store Address Int
  paused : Option Bool
  monthlyCapDefault : Option Int
  monthlyCapOverride : Store Address Int
  monthlySpent : Store (Address × Nat) Int

def State.fresh : State := ⟨.fresh, .empty, none, none, .empty, .empty⟩

def getAdmin (s : State) : Outcome ε Address := expect s.gov.admin

def getBalance (s : State) (user : Address) : Int := s.balance.getD user 0

def putBalance (user : Address) (amount : Int) (s : State) : State :=
  { s with balance := s.balance.set user amount }

def requireNotPaused (s : State) : Outcome ContractError Unit :=
  require (s.paused.getD false = false) .paused

def contractVersion (s : State) : Nat := s.gov.contractVersion.getD 0

/-- The schema version as the upgrade entry points read it. -/
def schemaVersion (s : State) : Nat := s.gov.storageSchemaVersion.getD 0

/-! `validation` -/

def maxAmount : Int := 1000000000000000000

def minAmount : Int := 1

def validateAmount (amount : Int) : Outcome ContractError Unit := do
  require (minAmount ≤ amount) .invalidAmount
  require (amount ≤ maxAmount) .amountTooLarge

/-! `monthly_cap` -/

def secondsPerMonth : Nat := 2592000

/-- The cast to a `u32` drops the high bits. -/
def currentMonthKey (timestamp : Nat) : Nat := timestamp / secondsPerMonth % 2 ^ 32

def getMonthlyCapDefault (s : State) : Int := s.monthlyCapDefault.getD 0

def getMonthlyCapOverride (s : State) (user : Address) : Option Int := s.monthlyCapOverride.get user

def effectiveCap (s : State) (user : Address) : Int :=
  (getMonthlyCapOverride s user).getD (getMonthlyCapDefault s)

def getMonthlySpent (s : State) (user : Address) (key : Nat) : Int :=
  s.monthlySpent.getD (user, key) 0

def recordMonthlySpent (user : Address) (key : Nat) (additional : Int) (s : State) :
    Outcome ContractError State := do
  let spent ← i128Add (getMonthlySpent s user key) additional
  return { s with monthlySpent := s.monthlySpent.set (user, key) spent }

/-- Without a cap nothing is recorded. -/
def checkAndRecordDebit (timestamp : Nat) (user : Address) (amount : Int) (s : State) :
    Outcome ContractError State :=
  if effectiveCap s user = 0 then
    return s
  else do
    let key := currentMonthKey timestamp
    let spent ← i128Add (getMonthlySpent s user key) amount
    require (spent ≤ effectiveCap s user) .monthlyCapExceeded
    recordMonthlySpent user key amount s

def init (admin : Address) (s : State) : Outcome ContractError State := do
  require (s.gov.admin = none) .alreadyInitialized
  return { s with
    gov := { s.gov with
      admin := some admin
      contractVersion := some 1
      storageSchemaVersion := some 1 }
    paused := some false }

/-- The state that `init` leaves behind. -/
def initialized (admin : Address) : State :=
  { State.fresh with
    gov := { Gov.fresh with
      admin := some admin
      contractVersion := some 1
      storageSchemaVersion := some 1 }
    paused := some false }

theorem init_fresh (admin : Address) : init admin .fresh = .ok (initialized admin) := rfl

section
variable (env : Env own)

def requireAdmin (caller : Address) (s : State) : Outcome ContractError Unit := do
  let currentAdmin ← getAdmin s
  requireAdminPermission env currentAdmin caller .notAuthorized

def credit (admin user : Address) (amount : Int) (s : State) : Outcome ContractError State := do
  requireAdmin env admin s
  requireNotPaused s
  validateAmount amount
  let newBalance := getBalance s user + amount
  require (InI128 newBalance) .balanceOverflow
  return putBalance user newBalance s

def debit (admin user : Address) (amount : Int) (s : State) : Outcome ContractError State := do
  requireAdmin env admin s
  requireNotPaused s
  validateAmount amount
  let cur := getBalance s user
  require (amount ≤ cur) .insufficientBalance
  let s ← checkAndRecordDebit env.timestamp user amount s
  let newBalance ← i128Sub cur amount
  return putBalance user newBalance s

def setAdmin (admin newAdmin : Address) (s : State) : Outcome ContractError State := do
  requireAdmin env admin s
  return { s with gov := { s.gov with admin := some newAdmin } }

def pause (admin : Address) (s : State) : Outcome PausableError State := do
  mapErr (fun _ => .notAuthorized) (requireAdmin env admin s)
  return { s with paused := some true }

def unpause (admin : Address) (s : State) : Outcome PausableError State := do
  mapErr (fun _ => .notAuthorized) (requireAdmin env admin s)
  return { s with paused := some false }

/-! Upgrades -/

def setGuardian (admin guardian : Address) (s : State) : Outcome ContractError State := do
  let gov ← mapErr (fun _ => .notAuthorized)
    (UpgradeGovernance.setGuardian env admin (some guardian) s.gov)
  return { s with gov }

def setUpgradeDelay (admin : Address) (delay : Nat) (s : State) : Outcome ContractError State := do
  let gov ← mapErr (fun _ => .notAuthorized)
    (UpgradeGovernance.setUpgradeDelay env admin delay s.gov)
  return { s with gov }

def proposeError : UpgradeGovernanceError → ContractError
  | .notAuthorized => .notAuthorized
  | .upgradeAlreadyPending => .upgradeAlreadyPending
  | .invalidUpgradeVersion => .invalidUpgradeVersion
  | .incompatibleSchemaVersion => .incompatibleStateSchema
  | _ => .notAuthorized

def executeError : UpgradeGovernanceError → ContractError
  | .notAuthorized => .notAuthorized
  | .noPendingUpgrade => .noUpgradePending
  | .upgradeDelayNotElapsed => .upgradeDelayNotMet
  | _ => .notAuthorized

def emergencyError : UpgradeGovernanceError → ContractError
  | .notAuthorized => .notAuthorized
  | .guardianNotConfigured => .notAuthorized
  | .invalidUpgradeVersion => .invalidUpgradeVersion
  | .incompatibleSchemaVersion => .incompatibleStateSchema
  | _ => .notAuthorized

def proposeUpgrade (admin : Address) (newWasmHash : BytesN 32) (newVersion : Nat) (s : State) :
    Outcome ContractError State := do
  require (schemaVersion s = contractVersion s) .incompatibleStateSchema
  let gov ← mapErr proposeError (UpgradeGovernance.proposeUpgrade env admin newWasmHash newVersion
    (some (schemaVersion s)) s.gov)
  return { s with gov }

def executeUpgrade (admin : Address) (newWasmHash : BytesN 32) (s : State) :
    Outcome ContractError (State × BytesN 32) := do
  let (gov, deployed) ← mapErr executeError
    (UpgradeGovernance.executeUpgrade env admin newWasmHash s.gov)
  return ({ s with gov }, deployed)

def emergencyUpgrade (admin : Address) (newWasmHash : BytesN 32) (newVersion : Nat) (s : State) :
    Outcome ContractError (State × BytesN 32) := do
  require (schemaVersion s = contractVersion s) .incompatibleStateSchema
  let (gov, deployed) ← mapErr emergencyError
    (UpgradeGovernance.emergencyUpgrade env admin newWasmHash newVersion
      (some (schemaVersion s)) true s.gov)
  return ({ s with gov }, deployed)

def cancelUpgrade (admin : Address) (s : State) : Outcome ContractError State := do
  let gov ← UpgradeGovernance.cancelUpgrade env true .notAuthorized .noUpgradePending admin s.gov
  return { s with gov }

/-! Caps -/

def validateCap (cap : Int) : Outcome ContractError Unit := do
  require (0 ≤ cap) .invalidAmount
  require (cap ≤ maxAmount) .amountTooLarge

def setDefaultMonthlyCap (admin : Address) (cap : Int) (s : State) :
    Outcome ContractError State := do
  requireAdmin env admin s
  validateCap cap
  return { s with monthlyCapDefault := some cap }

def setUserMonthlyCap (admin user : Address) (cap : Int) (s : State) :
    Outcome ContractError State := do
  requireAdmin env admin s
  validateCap cap
  return { s with monthlyCapOverride := s.monthlyCapOverride.set user cap }

end

/-- The calls after `init`, which does not run on a wallet that has an admin. -/
inductive Call where
  | credit (admin user : Address) (amount : Int)
  | debit (admin user : Address) (amount : Int)
  | setAdmin (admin newAdmin : Address)
  | pause (admin : Address)
  | unpause (admin : Address)
  | setGuardian (admin guardian : Address)
  | setUpgradeDelay (admin : Address) (delay : Nat)
  | proposeUpgrade (admin : Address) (newWasmHash : BytesN 32) (newVersion : Nat)
  | executeUpgrade (admin : Address) (newWasmHash : BytesN 32)
  | emergencyUpgrade (admin : Address) (newWasmHash : BytesN 32) (newVersion : Nat)
  | cancelUpgrade (admin : Address)
  | setDefaultMonthlyCap (admin : Address) (cap : Int)
  | setUserMonthlyCap (admin user : Address) (cap : Int)
deriving DecidableEq

inductive Output where
  | unit
  | deployed (wasmHash : BytesN 32)
deriving DecidableEq

def invoke (env : Env own) (s : State) : Call → Option (State × Output)
  | .credit admin user amount => commit (credit env admin user amount s) (·, .unit)
  | .debit admin user amount => commit (debit env admin user amount s) (·, .unit)
  | .setAdmin admin newAdmin => commit (setAdmin env admin newAdmin s) (·, .unit)
  | .pause admin => commit (pause env admin s) (·, .unit)
  | .unpause admin => commit (unpause env admin s) (·, .unit)
  | .setGuardian admin guardian => commit (setGuardian env admin guardian s) (·, .unit)
  | .setUpgradeDelay admin delay => commit (setUpgradeDelay env admin delay s) (·, .unit)
  | .proposeUpgrade admin newWasmHash newVersion =>
    commit (proposeUpgrade env admin newWasmHash newVersion s) (·, .unit)
  | .executeUpgrade admin newWasmHash =>
    commit (executeUpgrade env admin newWasmHash s) fun r => (r.1, .deployed r.2)
  | .emergencyUpgrade admin newWasmHash newVersion =>
    commit (emergencyUpgrade env admin newWasmHash newVersion s) fun r => (r.1, .deployed r.2)
  | .cancelUpgrade admin => commit (cancelUpgrade env admin s) (·, .unit)
  | .setDefaultMonthlyCap admin cap => commit (setDefaultMonthlyCap env admin cap s) (·, .unit)
  | .setUserMonthlyCap admin user cap => commit (setUserMonthlyCap env admin user cap s) (·, .unit)

/-- The wallet at the address `own`. -/
def machine (own : Address) : Machine State (Env own × Call) Output where
  step s c := invoke c.1 s c.2

end Shelterflex.RentWallet
