import Shelterflex.UpgradeGovernance.Core
import Shelterflex.Host.Token
import Shelterflex.Lib.Machine
import Shelterflex.Lib.Store

namespace Shelterflex.BondCollateral
open Lib UpgradeGovernance
set_option autoImplicit true

inductive ContractError where
  | alreadyInitialized
  | notAuthorized
  | paused
  | invalidAmount
  | insufficientCollateral
  | positionNotFound
  | cannotLiquidate
  | belowThreshold
  | invalidThreshold
  | invalidRewardCap
  | collateralRatioTooLow
  | noSurplus
  | bondLocked
  | insufficientBond
  | lockAlreadyExists
  | lockNotFound
  | slashingModuleNotSet
  | oracleStale
  | upgradeAlreadyPending
  | noUpgradePending
  | upgradeDelayNotMet
  | incompatibleStateSchema
  | invalidUpgradeVersion
deriving DecidableEq, Repr

structure CollateralPosition where
  owner : Address
  collateralAmount : Int
  bondAmount : Int
  createdAt : Nat
deriving DecidableEq, Repr

structure OraclePrice where
  price : Int
  timestamp : Nat
deriving DecidableEq, Repr

structure State where
  gov : Gov
  paused : Option Bool
  token : Option Address
  bondCollateral : Store (BytesN 32) CollateralPosition
  totalCollateral : Option Int
  warningThreshold : Option Nat
  liquidationThreshold : Option Nat
  keeperRewardCap : Option Nat
  slashingModule : Option Address
  operator : Option Address
  inspectorBond : Store Address Int
  inspectorLocks : Store Address (List Bytes)
  oracleFeed : Option Address
  oracleStaleness : Option Nat
  targetHealthRatio : Option Nat

def State.fresh : State :=
  ⟨.fresh, none, none, .empty, none, none, none, none, none, none, .empty, .empty, none, none,
    none⟩

/-- The price feeds and slashing modules that the contract can be linked to: the price that a
feed answers with, and what becomes of them after a call of `slash`, made with the given
authorizations; nothing when the call fails. -/
structure Peers (P : Type) where
  price : P → Address → Option OraclePrice
  slash : P → Nat → (Address → Bool) → Address → Address → Address → Int → Bytes → Bytes → Option P

/-- The contract beside the state of its token and of its peers. -/
structure World (T P : Type) where
  bond : State
  token : T
  peers : P

def priceScale : Int := 10000000

def u32Max : Nat := 4294967295

def getAdmin (s : State) : Outcome ε Address := expect s.gov.admin

def getToken (s : State) : Outcome ε Address := expect s.token

def getContractVersion (s : State) : Nat := s.gov.contractVersion.getD 1

def getStorageSchemaVersion (s : State) : Nat := s.gov.storageSchemaVersion.getD 1

def getWarningThreshold (s : State) : Nat := s.warningThreshold.getD 150

def getLiquidationThreshold (s : State) : Nat := s.liquidationThreshold.getD 120

def getKeeperRewardCap (s : State) : Nat := s.keeperRewardCap.getD 500

/-- The one computation in `f64`: both amounts are rounded, and so are the quotient and the
percentage; the cast back truncates, and stops at the bounds of a `u32`. -/
def calculateCollateralRatio (collateral bond : Int) : Nat :=
  if bond = 0 then u32Max
  else
    (Float.Model.ofInt collateral / Float.Model.ofInt bond * Float.Model.ofNat 100).toUInt32.toNat

/-- The cast to a `u32` drops the high bits. -/
def calculateCollateralRatioOracle (collateral bond price : Int) : Outcome ε Nat :=
  if bond = 0 then
    return u32Max
  else if price = 0 then
    return 0
  else do
    let value ← i128Mul collateral price
    let percent ← i128Mul value 100
    let scaled ← i128Mul priceScale bond
    let ratio ← i128Div percent scaled
    return (ratio % 2 ^ 32).toNat

def computeSeizeAmount (collateral bond price : Int) (targetRatio : Nat) : Outcome ε Int :=
  if targetRatio ≤ 100 ∨ price = 0 then
    return collateral
  else do
    let wanted ← i128Mul targetRatio bond
    let wanted ← i128Mul wanted priceScale
    let held ← i128Mul 100 collateral
    let held ← i128Mul held price
    let numerator ← i128Sub wanted held
    let excess ← i128Sub targetRatio 100
    let denominator ← i128Mul price excess
    if denominator ≤ 0 then return collateral else i128Div numerator denominator

def tryFetchOraclePrice (net : Peers P) (p : P) (s : State) : Outcome ε (Option OraclePrice) :=
  match s.oracleFeed with
  | none => .ok none
  | some feed => do
    let priceData ← expect (net.price p feed)
    return some priceData

def getPosition (s : State) (positionId : BytesN 32) : Option CollateralPosition :=
  s.bondCollateral.get positionId

def putPosition (positionId : BytesN 32) (position : CollateralPosition) (s : State) : State :=
  { s with bondCollateral := s.bondCollateral.set positionId position }

def removePosition (positionId : BytesN 32) (s : State) : State :=
  { s with bondCollateral := s.bondCollateral.remove positionId }

def getTotalCollateral (s : State) : Int := s.totalCollateral.getD 0

def putTotalCollateral (total : Int) (s : State) : State :=
  { s with totalCollateral := some total }

def getInspectorBond (s : State) (inspector : Address) : Int := s.inspectorBond.getD inspector 0

def getInspectorLocks (s : State) (inspector : Address) : List Bytes :=
  s.inspectorLocks.getD inspector []

def requireNotPaused (s : State) : Outcome ContractError Unit :=
  require (s.paused.getD false = false) .paused

section
variable (env : Env own)

def requireAdmin (caller : Address) (s : State) : Outcome ContractError Unit := do
  let admin ← getAdmin s
  requireAdminPermission env admin caller .notAuthorized

def requireOperator (caller : Address) (s : State) : Outcome ContractError Unit := do
  let operator ← okOr s.operator .notAuthorized
  requireAdminPermission env operator caller .notAuthorized

def init (admin token : Address) (s : State) : Outcome ContractError State := do
  require (s.gov.admin = none) .alreadyInitialized
  env.requireAuth admin
  return { s with
    gov := { s.gov with
      admin := some admin
      contractVersion := some 1
      storageSchemaVersion := some 1 }
    token := some token
    totalCollateral := some 0
    warningThreshold := some 150
    liquidationThreshold := some 120
    keeperRewardCap := some 500 }

def setAdmin (admin newAdmin : Address) (s : State) : Outcome ContractError State := do
  requireNotPaused s
  requireAdmin env admin s
  return { s with gov := { s.gov with admin := some newAdmin } }

def setThresholds (admin : Address) (warning liquidation : Nat) (s : State) :
    Outcome ContractError State := do
  requireNotPaused s
  requireAdmin env admin s
  require (liquidation < warning ∧ 100 ≤ liquidation) .invalidThreshold
  return { s with
    warningThreshold := some warning
    liquidationThreshold := some liquidation }

def setKeeperRewardCap (admin : Address) (capBps : Nat) (s : State) :
    Outcome ContractError State := do
  requireNotPaused s
  requireAdmin env admin s
  require (capBps ≤ 5000) .invalidRewardCap
  return { s with keeperRewardCap := some capBps }

def setOracleFeed (admin feed : Address) (staleness : Nat) (s : State) :
    Outcome ContractError State := do
  requireNotPaused s
  requireAdmin env admin s
  return { s with
    oracleFeed := some feed
    oracleStaleness := some staleness }

def setTargetHealthRatio (admin : Address) (ratio : Nat) (s : State) :
    Outcome ContractError State := do
  requireNotPaused s
  requireAdmin env admin s
  require (100 < ratio) .invalidThreshold
  return { s with targetHealthRatio := some ratio }

/-! Upgrades -/

def setGuardian (admin guardian : Address) (s : State) : Outcome ContractError State := do
  let gov ← mapErr (fun _ => .notAuthorized)
    (UpgradeGovernance.setGuardian env admin (some guardian) s.gov)
  return { s with gov }

def setUpgradeDelay (admin : Address) (delay : Nat) (s : State) : Outcome ContractError State := do
  let gov ← mapErr (fun _ => .notAuthorized)
    (UpgradeGovernance.setUpgradeDelay env admin delay s.gov)
  return { s with gov }

def proposeError : UpgradeGovernanceError → ContractError
  | .notAuthorized => .notAuthorized
  | .upgradeAlreadyPending => .upgradeAlreadyPending
  | .invalidUpgradeVersion => .invalidUpgradeVersion
  | .incompatibleSchemaVersion => .incompatibleStateSchema
  | _ => .notAuthorized

def executeError : UpgradeGovernanceError → ContractError
  | .notAuthorized => .notAuthorized
  | .noPendingUpgrade => .noUpgradePending
  | .upgradeDelayNotElapsed => .upgradeDelayNotMet
  | _ => .notAuthorized

def proposeUpgrade (admin : Address) (newWasmHash : BytesN 32) (newVersion : Nat) (s : State) :
    Outcome ContractError State := do
  require (getStorageSchemaVersion s = getContractVersion s) .incompatibleStateSchema
  let gov ← mapErr proposeError (UpgradeGovernance.proposeUpgrade env admin newWasmHash newVersion
    (some (getStorageSchemaVersion s)) s.gov)
  return { s with gov }

def executeUpgrade (admin : Address) (newWasmHash : BytesN 32) (s : State) :
    Outcome ContractError (State × BytesN 32) := do
  let (gov, deployed) ← mapErr executeError
    (UpgradeGovernance.executeUpgrade env admin newWasmHash s.gov)
  return ({ s with gov }, deployed)

def emergencyUpgrade (admin : Address) (newWasmHash : BytesN 32) (newVersion : Nat) (s : State) :
    Outcome ContractError (State × BytesN 32) := do
  require (getStorageSchemaVersion s = getContractVersion s) .incompatibleStateSchema
  let (gov, deployed) ← mapErr (fun _ => .notAuthorized)
    (UpgradeGovernance.emergencyUpgrade env admin newWasmHash newVersion
      (some (getStorageSchemaVersion s)) true s.gov)
  return ({ s with gov }, deployed)

def cancelUpgrade (admin : Address) (s : State) : Outcome ContractError State := do
  requireNotPaused s
  let gov ← UpgradeGovernance.cancelUpgrade env true .notAuthorized .noUpgradePending admin s.gov
  return { s with gov }

end

/-! Collateral positions -/

section
variable (tok : Token T) (env : Env own)

def transfer (s : State) (t : T) (source target : Address) (amount : Int) : Outcome ε T := do
  let _ ← getToken s
  tok.call env t source target amount

/-- The position of that id, or a new one of the caller. -/
def positionOr (owner : Address) (positionId : BytesN 32) (s : State) : CollateralPosition :=
  (getPosition s positionId).getD ⟨owner, 0, 0, env.timestamp⟩

/-- The token is asked before the owner of the position is compared. -/
def depositCollateral (owner : Address) (positionId : BytesN 32) (amount : Int)
    (w : World T P) : Outcome ContractError (World T P) := do
  let s := w.bond
  requireNotPaused s
  env.requireAuth owner
  require (0 < amount) .invalidAmount
  let t ← transfer tok env s w.token owner own amount
  let position := positionOr env owner positionId s
  require (position.owner = owner) .notAuthorized
  let collateral ← i128Add position.collateralAmount amount
  let position := { position with collateralAmount := collateral, createdAt := env.timestamp }
  let s := putPosition positionId position s
  let total ← i128Add (getTotalCollateral s) amount
  return { w with bond := putTotalCollateral total s, token := t }

def issueBond (owner : Address) (positionId : BytesN 32) (bondAmount : Int) (s : State) :
    Outcome ContractError State := do
  requireNotPaused s
  env.requireAuth owner
  require (0 < bondAmount) .invalidAmount
  let position := positionOr env owner positionId s
  require (position.owner = owner) .notAuthorized
  let bond ← i128Add position.bondAmount bondAmount
  let position := { position with bondAmount := bond }
  let ratio := calculateCollateralRatio position.collateralAmount position.bondAmount
  require (getLiquidationThreshold s ≤ ratio) .collateralRatioTooLow
  return putPosition positionId position s

def redeemBond (owner : Address) (positionId : BytesN 32) (bondAmount : Int) (s : State) :
    Outcome ContractError State := do
  requireNotPaused s
  env.requireAuth owner
  require (0 < bondAmount) .invalidAmount
  let position ← okOr (getPosition s positionId) .positionNotFound
  require (position.owner = owner) .notAuthorized
  require (bondAmount ≤ position.bondAmount) .insufficientCollateral
  let bond ← i128Sub position.bondAmount bondAmount
  return putPosition positionId { position with bondAmount := bond } s

def withdrawCollateral (owner : Address) (positionId : BytesN 32) (amount : Int)
    (w : World T P) : Outcome ContractError (World T P) := do
  let s := w.bond
  requireNotPaused s
  env.requireAuth owner
  require (0 < amount) .invalidAmount
  let position ← okOr (getPosition s positionId) .positionNotFound
  require (position.owner = owner) .notAuthorized
  require (amount ≤ position.collateralAmount) .insufficientCollateral
  let newCollateral ← i128Sub position.collateralAmount amount
  let ratio := calculateCollateralRatio newCollateral position.bondAmount
  require (position.bondAmount ≤ 0 ∨ getLiquidationThreshold s ≤ ratio) .belowThreshold
  let s := putPosition positionId { position with collateralAmount := newCollateral } s
  let t ← transfer tok env s w.token own owner amount
  let total ← i128Sub (getTotalCollateral s) amount
  return { w with bond := putTotalCollateral total s, token := t }

/-- The price a position is liquidated at: what the feed says, if it is recent enough, or one to
one without a feed. -/
def effectivePrice (oracle : Option OraclePrice) (s : State) : Outcome ContractError Int :=
  match oracle with
  | some op => do
    let expiry ← u64Add op.timestamp (s.oracleStaleness.getD 3600)
    require (env.timestamp ≤ expiry) .oracleStale
    return op.price
  | none => return priceScale

/-- What a liquidation takes from a position, and what the keeper gets of it. -/
structure Seizure where
  seizeAmount : Int
  bondReduction : Int
  keeperReward : Int
deriving DecidableEq, Repr

def seizure (collateral bond price : Int) (s : State) : Outcome ContractError Seizure := do
  let rawSeize ← computeSeizeAmount collateral bond price (s.targetHealthRatio.getD 150)
  let seizeAmount := min (max rawSeize 1) collateral
  let value ← i128Mul seizeAmount price
  let reduction ← i128Div value priceScale
  let share ← i128Mul seizeAmount (getKeeperRewardCap s)
  let reward ← i128Div share 10000
  return ⟨seizeAmount, min reduction bond, min reward seizeAmount⟩

/-- A position without collateral or without bond is dropped, with all its collateral. -/
def settlePosition (positionId : BytesN 32) (position : CollateralPosition)
    (seizeAmount newCollateral newBond : Int) (s : State) : State :=
  if newCollateral = 0 ∨ newBond = 0 then
    let s := removePosition positionId s
    putTotalCollateral (i128SaturatingSub (getTotalCollateral s) position.collateralAmount) s
  else
    let s := putPosition positionId
      { position with collateralAmount := newCollateral, bondAmount := newBond } s
    putTotalCollateral (i128SaturatingSub (getTotalCollateral s) seizeAmount) s

def liquidate (net : Peers P) (keeper : Address) (positionId : BytesN 32) (w : World T P) :
    Outcome ContractError (World T P) := do
  let s := w.bond
  requireNotPaused s
  env.requireAuth keeper
  let position ← okOr (getPosition s positionId) .positionNotFound
  let collateral := position.collateralAmount
  let bond := position.bondAmount
  require (bond ≠ 0 ∧ collateral ≠ 0) .cannotLiquidate
  let oracle ← tryFetchOraclePrice net w.peers s
  let price ← effectivePrice env oracle s
  let ratio ← calculateCollateralRatioOracle collateral bond price
  require (ratio < getLiquidationThreshold s) .cannotLiquidate
  let taken ← seizure collateral bond price s
  let newCollateral ← i128Sub collateral taken.seizeAmount
  let newBond ← i128Sub bond taken.bondReduction
  -- the resulting ratio goes into the event
  let _ ← calculateCollateralRatioOracle newCollateral newBond price
  let s := settlePosition positionId position taken.seizeAmount newCollateral newBond s
  if 0 < taken.keeperReward then do
    let t ← transfer tok env s w.token own keeper taken.keeperReward
    return { w with bond := s, token := t }
  else
    return { w with bond := s }

def getCollateralRatio (net : Peers P) (positionId : BytesN 32) (w : World T P) :
    Outcome ContractError (Option Nat) :=
  match getPosition w.bond positionId with
  | none => return none
  | some p => do
    let oracle ← tryFetchOraclePrice net w.peers w.bond
    let price := (oracle.map OraclePrice.price).getD priceScale
    let ratio ← calculateCollateralRatioOracle p.collateralAmount p.bondAmount price
    return some ratio

end

/-! Inspector bonds -/

section
variable (env : Env own)

def setSlashingModule (admin slashingModule : Address) (s : State) :
    Outcome ContractError State := do
  requireNotPaused s
  requireAdmin env admin s
  return { s with slashingModule := some slashingModule }

def setOperator (admin operator : Address) (s : State) : Outcome ContractError State := do
  requireNotPaused s
  requireAdmin env admin s
  return { s with operator := some operator }

/-- No token moves. -/
def depositBond (inspector : Address) (amount : Int) (s : State) :
    Outcome ContractError State := do
  requireNotPaused s
  env.requireAuth inspector
  require (0 < amount) .invalidAmount
  let bond ← i128Add (getInspectorBond s inspector) amount
  return { s with inspectorBond := s.inspectorBond.set inspector bond }

def withdrawBond (inspector : Address) (amount : Int) (s : State) :
    Outcome ContractError State := do
  requireNotPaused s
  env.requireAuth inspector
  require (0 < amount) .invalidAmount
  require (getInspectorLocks s inspector = []) .bondLocked
  let current := getInspectorBond s inspector
  require (amount ≤ current) .insufficientBond
  let bond ← i128Sub current amount
  return { s with inspectorBond := s.inspectorBond.set inspector bond }

def lockBond (operator inspector : Address) (inspectionId : Bytes) (s : State) :
    Outcome ContractError State := do
  requireNotPaused s
  requireOperator env operator s
  let locks := getInspectorLocks s inspector
  require (inspectionId ∉ locks) .lockAlreadyExists
  return { s with inspectorLocks := s.inspectorLocks.set inspector (locks ++ [inspectionId]) }

def unlockBond (operator inspector : Address) (inspectionId : Bytes) (s : State) :
    Outcome ContractError State := do
  requireNotPaused s
  requireOperator env operator s
  let locks := getInspectorLocks s inspector
  require (inspectionId ∈ locks) .lockNotFound
  let pruned := locks.filter fun existing => existing ≠ inspectionId
  return { s with inspectorLocks := s.inspectorLocks.set inspector pruned }

/-- The slashing module is called by the contract, which thereby authorizes its own address. -/
def executeSlash (net : Peers P) (admin inspector : Address) (slashAmount : Int)
    (inspectionId reason : Bytes) (w : World T P) : Outcome ContractError (World T P) := do
  let s := w.bond
  requireNotPaused s
  requireAdmin env admin s
  require (0 < slashAmount) .invalidAmount
  let current := getInspectorBond s inspector
  require (slashAmount ≤ current) .insufficientBond
  let slashingModule ← okOr s.slashingModule .slashingModuleNotSet
  let p ← expect (net.slash w.peers env.timestamp (fun a => a = own || env.authorized a)
    slashingModule own inspector slashAmount inspectionId reason)
  let bond ← i128Sub current slashAmount
  return { w with
    bond := { s with inspectorBond := s.inspectorBond.set inspector bond }
    peers := p }

def pause (admin : Address) (s : State) : Outcome PausableError State := do
  mapErr (fun _ => .notAuthorized) (requireAdmin env admin s)
  return { s with paused := some true }

def unpause (admin : Address) (s : State) : Outcome PausableError State := do
  mapErr (fun _ => .notAuthorized) (requireAdmin env admin s)
  return { s with paused := some false }

end

inductive Call where
  | init (admin token : Address)
  | setAdmin (admin newAdmin : Address)
  | setThresholds (admin : Address) (warning liquidation : Nat)
  | setKeeperRewardCap (admin : Address) (capBps : Nat)
  | setOracleFeed (admin feed : Address) (staleness : Nat)
  | setTargetHealthRatio (admin : Address) (ratio : Nat)
  | setGuardian (admin guardian : Address)
  | setUpgradeDelay (admin : Address) (delay : Nat)
  | proposeUpgrade (admin : Address) (newWasmHash : BytesN 32) (newVersion : Nat)
  | executeUpgrade (admin : Address) (newWasmHash : BytesN 32)
  | emergencyUpgrade (admin : Address) (newWasmHash : BytesN 32) (newVersion : Nat)
  | cancelUpgrade (admin : Address)
  | depositCollateral (owner : Address) (positionId : BytesN 32) (amount : Int)
  | issueBond (owner : Address) (positionId : BytesN 32) (bondAmount : Int)
  | redeemBond (owner : Address) (positionId : BytesN 32) (bondAmount : Int)
  | withdrawCollateral (owner : Address) (positionId : BytesN 32) (amount : Int)
  | liquidate (keeper : Address) (positionId : BytesN 32)
  | setSlashingModule (admin slashingModule : Address)
  | setOperator (admin operator : Address)
  | depositBond (inspector : Address) (amount : Int)
  | withdrawBond (inspector : Address) (amount : Int)
  | lockBond (operator inspector : Address) (inspectionId : Bytes)
  | unlockBond (operator inspector : Address) (inspectionId : Bytes)
  | executeSlash (admin inspector : Address) (slashAmount : Int) (inspectionId reason : Bytes)
  | pause (admin : Address)
  | unpause (admin : Address)
deriving DecidableEq

inductive Output where
  | unit
  | deployed (wasmHash : BytesN 32)
deriving DecidableEq

def World.done (w : World T P) (s : State) : World T P × Output := ({ w with bond := s }, .unit)

def World.installed (w : World T P) (r : State × BytesN 32) : World T P × Output :=
  ({ w with bond := r.1 }, .deployed r.2)

def invoke (tok : Token T) (net : Peers P) (env : Env own) (w : World T P) :
    Call → Option (World T P × Output)
  | .init admin token => commit (init env admin token w.bond) w.done
  | .setAdmin admin newAdmin => commit (setAdmin env admin newAdmin w.bond) w.done
  | .setThresholds admin warning liquidation =>
    commit (setThresholds env admin warning liquidation w.bond) w.done
  | .setKeeperRewardCap admin capBps => commit (setKeeperRewardCap env admin capBps w.bond) w.done
  | .setOracleFeed admin feed staleness =>
    commit (setOracleFeed env admin feed staleness w.bond) w.done
  | .setTargetHealthRatio admin ratio =>
    commit (setTargetHealthRatio env admin ratio w.bond) w.done
  | .setGuardian admin guardian => commit (setGuardian env admin guardian w.bond) w.done
  | .setUpgradeDelay admin delay => commit (setUpgradeDelay env admin delay w.bond) w.done
  | .proposeUpgrade admin newWasmHash newVersion =>
    commit (proposeUpgrade env admin newWasmHash newVersion w.bond) w.done
  | .executeUpgrade admin newWasmHash =>
    commit (executeUpgrade env admin newWasmHash w.bond) w.installed
  | .emergencyUpgrade admin newWasmHash newVersion =>
    commit (emergencyUpgrade env admin newWasmHash newVersion w.bond) w.installed
  | .cancelUpgrade admin => commit (cancelUpgrade env admin w.bond) w.done
  | .depositCollateral owner positionId amount =>
    commit (depositCollateral tok env owner positionId amount w) (·, .unit)
  | .issueBond owner positionId bondAmount =>
    commit (issueBond env owner positionId bondAmount w.bond) w.done
  | .redeemBond owner positionId bondAmount =>
    commit (redeemBond env owner positionId bondAmount w.bond) w.done
  | .withdrawCollateral owner positionId amount =>
    commit (withdrawCollateral tok env owner positionId amount w) (·, .unit)
  | .liquidate keeper positionId => commit (liquidate tok env net keeper positionId w) (·, .unit)
  | .setSlashingModule admin slashingModule =>
    commit (setSlashingModule env admin slashingModule w.bond) w.done
  | .setOperator admin operator => commit (setOperator env admin operator w.bond) w.done
  | .depositBond inspector amount => commit (depositBond env inspector amount w.bond) w.done
  | .withdrawBond inspector amount => commit (withdrawBond env inspector amount w.bond) w.done
  | .lockBond operator inspector inspectionId =>
    commit (lockBond env operator inspector inspectionId w.bond) w.done
  | .unlockBond operator inspector inspectionId =>
    commit (unlockBond env operator inspector inspectionId w.bond) w.done
  | .executeSlash admin inspector slashAmount inspectionId reason =>
    commit (executeSlash env net admin inspector slashAmount inspectionId reason w) (·, .unit)
  | .pause admin => commit (pause env admin w.bond) w.done
  | .unpause admin => commit (unpause env admin w.bond) w.done

/-- What can happen next: a call of the contract, or traffic that others authorized, which
cannot take from what the contract holds of the token. -/
inductive Action (own : Address) (T P : Type) where
  | call (env : Env own) (c : Call)
  | traffic (t : T) (p : P)

def act (tok : Token T) (net : Peers P) (w : World T P) :
    Action own T P → Option (World T P × Output)
  | .call env c => invoke tok net env w c
  | .traffic t p =>
    if tok.balance w.token own ≤ tok.balance t own then some (⟨w.bond, t, p⟩, .unit) else none

/-- The contract at the address `own`. -/
def machine (tok : Token T) (net : Peers P) (own : Address) :
    Machine (World T P) (Action own T P) Output where
  step := act tok net

end Shelterflex.BondCollateral
