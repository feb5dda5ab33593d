import Shelterflex.UpgradeGovernance.Core
import Shelterflex.Lib.Machine
import Shelterflex.Lib.Store

namespace Shelterflex.RentToOwn
open Lib UpgradeGovernance
set_option autoImplicit true

inductive ContractError where
  | alreadyInitialized
  | notAuthorized
  | dealNotFound
  | dealNotActive
  | paymentsNotComplete
  | equityOverflow
  | invalidAmount
  | dealAlreadyExists
  | alreadySettled
  | dealNotDefaulted
  | settlementNotFound
  | invalidTransfer
  | paused
  | upgradeAlreadyPending
  | noUpgradePending
  | upgradeDelayNotMet
deriving DecidableEq, Repr

inductive DealStatus where
  | active
  | completed
  | defaulted
  | cancelled
deriving DecidableEq, Repr

structure RentToOwnDeal where
  dealId : BytesN 32
  tenant : Address
  propertyValueUsdc : Int
  equityAccumulatedUsdc : Int
  monthlyEquityUsdc : Int
  paymentsMade : Nat
  totalPaymentsRequired : Nat
  status : DealStatus
deriving DecidableEq

structure EquityPayment where
  dealId : BytesN 32
  paymentNumber : Nat
  equityAmount : Int
  totalRentAmount : Int
  paidAt : Nat
deriving DecidableEq

structure DefaultSettlementRecord where
  refundableUsdc : Int
  forfeitedUsdc : Int
  settled : Bool
deriving DecidableEq, Repr

/-- Payments are kept by deal and number. -/
structure State where
  gov : Gov
  paused : Option Bool
  forfeitureBps : Option Nat
  deal : Store (BytesN 32) RentToOwnDeal
  payment : Store (BytesN 32 × Nat) EquityPayment
  defaultSettlement : Store (BytesN 32) DefaultSettlementRecord

def State.fresh : State := ⟨.fresh, none, none, .empty, .empty, .empty⟩

def getPausedState (s : State) : Bool := s.paused.getD false

def requireNotPaused (s : State) : Outcome ContractError Unit :=
  require (getPausedState s = false) .paused

def getForfeitureBps (s : State) : Nat := s.forfeitureBps.getD 0

/-- The refundable and the forfeited part of the equity. -/
def equitySplit (equity : Int) (forfeitureBps : Nat) : Outcome ε (Int × Int) := do
  let product ← i128Mul equity forfeitureBps
  let forfeited ← i128Div product 10000
  let refundable ← i128Sub equity forfeited
  return (refundable, forfeited)

def init (admin : Address) (forfeitureBps : Nat) (s : State) : Outcome ContractError State := do
  require (s.gov.admin = none) .alreadyInitialized
  require (forfeitureBps ≤ 10000) .invalidAmount
  return { s with
    gov := { s.gov with admin := some admin, contractVersion := some 1 }
    forfeitureBps := some forfeitureBps
    paused := some false }

def loadDeal (dealId : BytesN 32) (s : State) : Outcome ContractError RentToOwnDeal :=
  okOr (s.deal.get dealId) .dealNotFound

def putDeal (dealId : BytesN 32) (deal : RentToOwnDeal) (s : State) : State :=
  { s with deal := s.deal.set dealId deal }

section
variable (env : Env own)

def requireAdmin (caller : Address) (s : State) : Outcome ContractError Unit := do
  let admin ← expect s.gov.admin
  requireAdminPermission env admin caller .notAuthorized

def registerDeal (admin : Address) (dealId : BytesN 32) (tenant : Address)
    (propertyValueUsdc monthlyEquityUsdc : Int) (totalPaymentsRequired : Nat) (s : State) :
    Outcome ContractError State := do
  requireNotPaused s
  requireAdmin env admin s
  require (¬ (propertyValueUsdc ≤ 0 ∨ monthlyEquityUsdc ≤ 0)) .invalidAmount
  require (s.deal.has dealId = false) .dealAlreadyExists
  return putDeal dealId
    { dealId, tenant, propertyValueUsdc, equityAccumulatedUsdc := 0, monthlyEquityUsdc,
      paymentsMade := 0, totalPaymentsRequired, status := .active } s

def recordEquityPayment (admin : Address) (dealId : BytesN 32) (rentAmount equityAmount : Int)
    (s : State) : Outcome ContractError State := do
  requireNotPaused s
  requireAdmin env admin s
  require (¬ (rentAmount ≤ 0 ∨ equityAmount ≤ 0)) .invalidAmount
  let deal ← loadDeal dealId s
  require (deal.status = .active) .dealNotActive
  let newEquity ← i128Add deal.equityAccumulatedUsdc equityAmount
  require (newEquity ≤ deal.propertyValueUsdc) .equityOverflow
  let paymentNumber ← u32Add deal.paymentsMade 1
  let s := putDeal dealId
    { deal with equityAccumulatedUsdc := newEquity, paymentsMade := paymentNumber } s
  return { s with
    payment := s.payment.set (dealId, paymentNumber)
      ⟨dealId, paymentNumber, equityAmount, rentAmount, env.timestamp⟩ }

def completeDeal (admin : Address) (dealId : BytesN 32) (s : State) :
    Outcome ContractError State := do
  requireNotPaused s
  requireAdmin env admin s
  let deal ← loadDeal dealId s
  require (deal.status = .active) .dealNotActive
  require (deal.paymentsMade = deal.totalPaymentsRequired) .paymentsNotComplete
  return putDeal dealId { deal with status := .completed } s

def defaultDeal (admin : Address) (dealId : BytesN 32) (s : State) :
    Outcome ContractError State := do
  requireNotPaused s
  requireAdmin env admin s
  let deal ← loadDeal dealId s
  require (deal.status = .active) .dealNotActive
  let (refundable, forfeited) ← equitySplit deal.equityAccumulatedUsdc (getForfeitureBps s)
  let s := putDeal dealId { deal with status := .defaulted } s
  return { s with
    defaultSettlement := s.defaultSettlement.set dealId ⟨refundable, forfeited, false⟩ }

def settleDefault (admin : Address) (dealId : BytesN 32) (s : State) :
    Outcome ContractError (State × DefaultSettlementRecord) := do
  requireNotPaused s
  requireAdmin env admin s
  let deal ← loadDeal dealId s
  require (deal.status = .defaulted) .dealNotDefaulted
  let settlement ← okOr (s.defaultSettlement.get dealId) .settlementNotFound
  require (settlement.settled = false) .alreadySettled
  let settlement := { settlement with settled := true }
  return ({ s with defaultSettlement := s.defaultSettlement.set dealId settlement }, settlement)

def transferPosition (admin fromParty toParty : Address) (dealId : BytesN 32) (s : State) :
    Outcome ContractError State := do
  requireNotPaused s
  requireAdmin env admin s
  env.requireAuth fromParty
  let deal ← loadDeal dealId s
  require (deal.tenant = fromParty) .notAuthorized
  require (deal.status = .active) .invalidTransfer
  require (fromParty ≠ toParty) .invalidTransfer
  return putDeal dealId { deal with tenant := toParty } s

def pause (admin : Address) (s : State) : Outcome PausableError State := do
  mapErr (fun _ => .notAuthorized) (requireAdmin env admin s)
  return { s with paused := some true }

def unpause (admin : Address) (s : State) : Outcome PausableError State := do
  mapErr (fun _ => .notAuthorized) (requireAdmin env admin s)
  return { s with paused := some false }

def setGuardian (admin guardian : Address) (s : State) : Outcome ContractError State := do
  let gov ← mapErr (fun _ => .notAuthorized)
    (UpgradeGovernance.setGuardian env admin (some guardian) s.gov)
  return { s with gov }

def setUpgradeDelay (admin : Address) (delaySeconds : Nat) (s : State) :
    Outcome ContractError State := do
  let gov ← mapErr (fun _ => .notAuthorized)
    (UpgradeGovernance.setUpgradeDelay env admin delaySeconds s.gov)
  return { s with gov }

def proposeError : UpgradeGovernanceError → ContractError
  | .upgradeAlreadyPending => .upgradeAlreadyPending
  | _ => .notAuthorized

def executeError : UpgradeGovernanceError → ContractError
  | .noPendingUpgrade => .noUpgradePending
  | .upgradeDelayNotElapsed => .upgradeDelayNotMet
  | _ => .notAuthorized

def proposeUpgrade (admin : Address) (newWasmHash : BytesN 32) (newVersion : Nat) (s : State) :
    Outcome ContractError State := do
  let gov ← mapErr proposeError
    (UpgradeGovernance.proposeUpgrade env admin newWasmHash newVersion none s.gov)
  return { s with gov }

def executeUpgrade (admin : Address) (newWasmHash : BytesN 32) (s : State) :
    Outcome ContractError (State × BytesN 32) := do
  let (gov, deployed) ← mapErr executeError
    (UpgradeGovernance.executeUpgrade env admin newWasmHash s.gov)
  return ({ s with gov }, deployed)

/-- The contract holds no funds: a guardian authorizes if there is one. -/
def emergencyUpgrade (admin : Address) (newWasmHash : BytesN 32) (newVersion : Nat) (s : State) :
    Outcome ContractError (State × BytesN 32) := do
  let (gov, deployed) ← mapErr (fun _ => .notAuthorized)
    (UpgradeGovernance.emergencyUpgrade env admin newWasmHash newVersion none false s.gov)
  return ({ s with gov }, deployed)

def cancelUpgrade (admin : Address) (s : State) : Outcome ContractError State := do
  requireNotPaused s
  let gov ← UpgradeGovernance.cancelUpgrade env true .notAuthorized .noUpgradePending admin s.gov
  return { s with gov }

end

/-- Equity in basis points of the property value. -/
def getEquityPercentage (dealId : BytesN 32) (s : State) : Outcome ε Nat :=
  match s.deal.get dealId with
  | none => return 0
  | some deal =>
    if deal.propertyValueUsdc = 0 then
      return 0
    else do
      let product ← i128Mul deal.equityAccumulatedUsdc 10000
      let bps ← i128Div product deal.propertyValueUsdc
      return (bps % 2 ^ 32).toNat

inductive Call where
  | init (admin : Address) (forfeitureBps : Nat)
  | registerDeal (admin : Address) (dealId : BytesN 32) (tenant : Address)
      (propertyValueUsdc monthlyEquityUsdc : Int) (totalPaymentsRequired : Nat)
  | recordEquityPayment (admin : Address) (dealId : BytesN 32) (rentAmount equityAmount : Int)
  | completeDeal (admin : Address) (dealId : BytesN 32)
  | defaultDeal (admin : Address) (dealId : BytesN 32)
  | settleDefault (admin : Address) (dealId : BytesN 32)
  | transferPosition (admin fromParty toParty : Address) (dealId : BytesN 32)
  | getEquityPercentage (dealId : BytesN 32)
  | pause (admin : Address)
  | unpause (admin : Address)
  | setGuardian (admin guardian : Address)
  | setUpgradeDelay (admin : Address) (delaySeconds : Nat)
  | proposeUpgrade (admin : Address) (newWasmHash : BytesN 32) (newVersion : Nat)
  | executeUpgrade (admin : Address) (newWasmHash : BytesN 32)
  | emergencyUpgrade (admin : Address) (newWasmHash : BytesN 32) (newVersion : Nat)
  | cancelUpgrade (admin : Address)
deriving DecidableEq

inductive Output where
  | unit
  | settlement (r : DefaultSettlementRecord)
  | bps (n : Nat)
  | deployed (wasmHash : BytesN 32)
deriving DecidableEq

def done (s : State) : State × Output := (s, .unit)

def installed (r : State × BytesN 32) : State × Output := (r.1, .deployed r.2)

def invoke (env : Env own) (s : State) : Call → Option (State × Output)
  | .init admin forfeitureBps => commit (init admin forfeitureBps s) done
  | .registerDeal admin dealId tenant propertyValueUsdc monthlyEquityUsdc totalPaymentsRequired =>
    commit (registerDeal env admin dealId tenant propertyValueUsdc monthlyEquityUsdc
      totalPaymentsRequired s) done
  | .recordEquityPayment admin dealId rentAmount equityAmount =>
    commit (recordEquityPayment env admin dealId rentAmount equityAmount s) done
  | .completeDeal admin dealId => commit (completeDeal env admin dealId s) done
  | .defaultDeal admin dealId => commit (defaultDeal env admin dealId s) done
  | .settleDefault admin dealId =>
    commit (settleDefault env admin dealId s) fun r => (r.1, .settlement r.2)
  | .transferPosition admin fromParty toParty dealId =>
    commit (transferPosition env admin fromParty toParty dealId s) done
  | .getEquityPercentage dealId =>
    commit (getEquityPercentage dealId s : Outcome ContractError Nat) fun n => (s, .bps n)
  | .pause admin => commit (pause env admin s) done
  | .unpause admin => commit (unpause env admin s) done
  | .setGuardian admin guardian => commit (setGuardian env admin guardian s) done
  | .setUpgradeDelay admin delaySeconds => commit (setUpgradeDelay env admin delaySeconds s) done
  | .proposeUpgrade admin newWasmHash newVersion =>
    commit (proposeUpgrade env admin newWasmHash newVersion s) done
  | .executeUpgrade admin newWasmHash => commit (executeUpgrade env admin newWasmHash s) installed
  | .emergencyUpgrade admin newWasmHash newVersion =>
    commit (emergencyUpgrade env admin newWasmHash newVersion s) installed
  | .cancelUpgrade admin => commit (cancelUpgrade env admin s) done

/-- The contract at the address `own`. -/
def machine (own : Address) : Machine State (Env own × Call) Output where
  step s i := invoke i.1 s i.2

end Shelterflex.RentToOwn
