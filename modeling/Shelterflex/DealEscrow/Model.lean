import Shelterflex.UpgradeGovernance.Core
import Shelterflex.Host.Token
import Shelterflex.Lib.Machine
import Shelterflex.Lib.Store

namespace Shelterflex.DealEscrow
open Lib UpgradeGovernance
set_option autoImplicit true

inductive ContractError where
  | alreadyInitialized
  | notAuthorized
  | paused
  | invalidAmount
  | insufficientBalance
  | emptyString
  | reentrancyDetected
  | upgradeAlreadyPending
  | noUpgradePending
  | upgradeDelayNotMet
  | invalidSplit
  | frozen
  | recoveryDelayNotMet
  | invalidReleaseWindow
  | invalidSchemaVersion
  | pendingReleaseExists
  | noPendingRelease
  | disputeNotAllowed
  | noOpenDispute
  | invalidSettlement
  | invalidGovernanceDrain
  | migrationInvariantViolation
  | invalidDealTransition
deriving DecidableEq, Repr

inductive DealLifecycleStatus where
  | draft
  | active
  | completed
  | defaulted
deriving DecidableEq, Repr

structure DealState where
  totalBalance : Int
  lockedAmount : Int
  pendingPayout : Int
deriving DecidableEq, Repr

structure PendingRentRelease where
  target : Address
  amount : Int
  requestedBy : Address
  requestedAt : Nat
  challengeEndAt : Nat
  externalRefSource : Bytes
  externalRef : Bytes
deriving DecidableEq, Repr

structure RentDispute where
  openedBy : Address
  openedAt : Nat
  evidenceRef : Bytes
  challengeEvidenceRef : Bytes
  resolved : Bool
deriving DecidableEq, Repr

inductive SettlementOutcome where
  | releaseToRecipient
  | refundToDepositor
deriving DecidableEq, Repr

inductive CircuitBreakerState where
  | unfrozen
  | frozen
  | recoveryAwaiting
deriving DecidableEq, Repr

def storageSchemaV1 : Nat := 1

def storageSchemaV2 : Nat := 2

def storageSchemaV3 : Nat := 3

structure State where
  gov : Gov
  operator : Option Address
  resolver : Option Address
  challengeWindowSeconds : Option Nat
  disputeTimeoutSeconds : Option Nat
  token : Option Address
  receiptContract : Option Address
  paused : Option Bool
  dealBalance : Store Bytes Int
  dealDepositor : Store Bytes Address
  dealState : Store Bytes DealState
  dealLifecycle : Store Bytes DealLifecycleStatus
  pendingRentRelease : Store Bytes PendingRentRelease
  rentDispute : Store Bytes RentDispute
  legacyLockedAmountV2 : Store Bytes Int
  legacyPendingPayoutV2 : Store Bytes Int
  reentrancy : Option Bool
  circuitBreakerState : Option CircuitBreakerState
  pendingDrainHash : Option (BytesN 32)
  pendingDrainAt : Option Nat
  recoveryDelaySeconds : Option Nat

def State.fresh : State :=
  ⟨.fresh, none, none, none, none, none, none, none, .empty, .empty, .empty, .empty, .empty,
    .empty, .empty, .empty, none, none, none, none, none⟩

/-- The escrow beside the state of its token. -/
structure World (T : Type) where
  escrow : State
  token : T

def getStorageSchemaVersion (s : State) : Nat := s.gov.storageSchemaVersion.getD storageSchemaV1

def getChallengeWindowSeconds (s : State) : Nat := s.challengeWindowSeconds.getD (24 * 60 * 60)

def getDisputeTimeoutSeconds (s : State) : Nat := s.disputeTimeoutSeconds.getD (48 * 60 * 60)

def getCircuitBreakerState (s : State) : CircuitBreakerState :=
  s.circuitBreakerState.getD .unfrozen

def getRecoveryDelaySeconds (s : State) : Nat := s.recoveryDelaySeconds.getD (24 * 60 * 60)

def requireNotFrozen (s : State) (isGovernanceDrain : Bool) : Outcome ContractError Unit :=
  match getCircuitBreakerState s with
  | .unfrozen => .ok ()
  | .frozen => require (isGovernanceDrain = true) .frozen
  | .recoveryAwaiting => .error (.err .recoveryDelayNotMet)

def requireNotPaused (s : State) : Outcome ContractError Unit :=
  require (s.paused.getD false = false) .paused

def requireValidAmount (amount : Int) : Outcome ContractError Unit :=
  require (0 < amount) .invalidAmount

def requireNonEmptyString (text : Bytes) : Outcome ContractError Unit :=
  require (text.length ≠ 0) .emptyString

def getDealBalance (s : State) (dealId : Bytes) : Int := s.dealBalance.getD dealId 0

def getDealState (s : State) (dealId : Bytes) : DealState :=
  s.dealState.getD dealId ⟨getDealBalance s dealId, 0, 0⟩

def assertDealInvariants (d : DealState) : Outcome ContractError Unit := do
  require (0 ≤ d.totalBalance ∧ 0 ≤ d.lockedAmount ∧ 0 ≤ d.pendingPayout)
    .migrationInvariantViolation
  require (d.lockedAmount = d.pendingPayout) .migrationInvariantViolation
  require (d.lockedAmount ≤ d.totalBalance) .migrationInvariantViolation

def putDealState (dealId : Bytes) (d : DealState) (s : State) : State :=
  { s with dealState := s.dealState.set dealId d }

def putDealBalance (dealId : Bytes) (amount : Int) (s : State) : State :=
  { s with dealBalance := s.dealBalance.set dealId amount }

def setDealDepositorIfMissing (dealId : Bytes) (depositor : Address) (s : State) : State :=
  if s.dealDepositor.has dealId then s
  else { s with dealDepositor := s.dealDepositor.set dealId depositor }

def requireAdmin (env : Env own) (admin : Address) (s : State) : Outcome ContractError Unit := do
  let currentAdmin ← expect s.gov.admin
  requireAdminPermission env currentAdmin admin .notAuthorized

def requireAdminOrOperator (env : Env own) (caller : Address) (s : State) :
    Outcome ContractError Unit := do
  let admin ← expect s.gov.admin
  let operator ← expect s.operator
  requireAdminOrOperatorPermission env admin (some operator) caller .notAuthorized

def init (admin operator token receiptContract : Address) (s : State) :
    Outcome ContractError State := do
  require (s.gov.admin = none) .alreadyInitialized
  return { s with
    gov := { s.gov with
      admin := some admin
      contractVersion := some 1
      storageSchemaVersion := some storageSchemaV3 }
    operator := some operator
    token := some token
    receiptContract := some receiptContract
    paused := some false }

/-- The state that `init` leaves behind. -/
def initialized (admin operator token receiptContract : Address) : State :=
  { State.fresh with
    gov := { Gov.fresh with
      admin := some admin
      contractVersion := some 1
      storageSchemaVersion := some storageSchemaV3 }
    operator := some operator
    token := some token
    receiptContract := some receiptContract
    paused := some false }

theorem init_fresh (admin operator token receiptContract : Address) :
    init admin operator token receiptContract .fresh =
      .ok (initialized admin operator token receiptContract) := rfl

/-- A positive part of a release goes to its receiver. -/
def payPart (tok : Token T) (env : Env own) (t : T) (target : Address) (amount : Int) :
    Outcome ContractError T :=
  if 0 < amount then tok.call env t own target amount else return t

section
variable (tok : Token T) (env : Env own)

def deposit (source : Address) (dealId : Bytes) (amount : Int) (w : World T) :
    Outcome ContractError (World T) := do
  let s := w.escrow
  requireNotPaused s
  requireValidAmount amount
  requireNonEmptyString dealId
  env.requireAuth source
  let _ ← expect s.token
  let _ ← enter s.reentrancy .reentrancyDetected
  let t ← tok.call env w.token source own amount
  let s := { s with reentrancy := exit }
  let total ← i128Add (getDealBalance s dealId) amount
  let s := setDealDepositorIfMissing dealId source (putDealBalance dealId total s)
  let d := { getDealState s dealId with totalBalance := total }
  assertDealInvariants d
  return ⟨putDealState dealId d s, t⟩

/-- How a direct release divides the balance of a deal. -/
structure Split where
  target : Address
  principalAmount : Int
  platformAddr : Address
  platformAmount : Int
  reporterAddr : Address
  reporterAmount : Int
deriving DecidableEq, Repr

def release (caller : Address) (dealId : Bytes) (split : Split) (externalRef : Bytes)
    (w : World T) : Outcome ContractError (World T × Int) := do
  let s := w.escrow
  requireNotPaused s
  requireNotFrozen s false
  requireNonEmptyString dealId
  requireNonEmptyString externalRef
  requireAdminOrOperator env caller s
  require (0 ≤ split.principalAmount ∧ 0 ≤ split.platformAmount ∧ 0 ≤ split.reporterAmount)
    .invalidAmount
  let cur := getDealBalance s dealId
  require (0 < cur) .insufficientBalance
  let parts ← i128Add split.principalAmount split.platformAmount
  let parts ← i128Add parts split.reporterAmount
  require (parts = cur) .invalidSplit
  let _ ← expect s.token
  assertDealInvariants ⟨0, 0, 0⟩
  let s := putDealState dealId ⟨0, 0, 0⟩ (putDealBalance dealId 0 s)
  let _ ← enter s.reentrancy .reentrancyDetected
  let t ← payPart tok env w.token split.target split.principalAmount
  let t ← payPart tok env t split.platformAddr split.platformAmount
  let t ← payPart tok env t split.reporterAddr split.reporterAmount
  return (⟨{ s with reentrancy := exit }, t⟩, cur)

def configureDisputeWindows (admin : Address) (challengeWindowSeconds disputeTimeoutSeconds : Nat)
    (s : State) : Outcome ContractError State := do
  requireAdmin env admin s
  require (challengeWindowSeconds ≠ 0 ∧ disputeTimeoutSeconds ≠ 0) .invalidReleaseWindow
  return { s with
    challengeWindowSeconds := some challengeWindowSeconds
    disputeTimeoutSeconds := some disputeTimeoutSeconds }

def setResolver (admin resolver : Address) (s : State) : Outcome ContractError State := do
  requireAdmin env admin s
  return { s with resolver := some resolver }

def migrateDeal (fromVersion : Nat) (s : State) (dealId : Bytes) :
    Outcome ContractError State := do
  let legacy (m : Store Bytes Int) := if fromVersion = storageSchemaV2 then m.getD dealId 0 else 0
  let d : DealState :=
    ⟨getDealBalance s dealId, legacy s.legacyLockedAmountV2, legacy s.legacyPendingPayoutV2⟩
  assertDealInvariants d
  return putDealState dealId d s

def migrateStorageSchema (admin : Address) (fromVersion : Nat) (dealIds : List Bytes) (s : State) :
    Outcome ContractError State := do
  requireAdmin env admin s
  let current := getStorageSchemaVersion s
  if current = storageSchemaV3 then
    return s
  else
    require (current = fromVersion) .invalidSchemaVersion
    require (fromVersion = storageSchemaV1 ∨ fromVersion = storageSchemaV2) .invalidSchemaVersion
    let s ← dealIds.foldlM (migrateDeal fromVersion) s
    return { s with gov := { s.gov with storageSchemaVersion := some storageSchemaV3 } }

def requestRentRelease (caller : Address) (dealId : Bytes) (target : Address) (amount : Int)
    (externalRefSource externalRef : Bytes) (s : State) : Outcome ContractError State := do
  requireNotPaused s
  requireValidAmount amount
  requireNonEmptyString dealId
  requireNonEmptyString externalRef
  requireAdminOrOperator env caller s
  require (s.pendingRentRelease.get dealId = none) .pendingReleaseExists
  let d := getDealState s dealId
  require (amount ≤ d.totalBalance) .insufficientBalance
  let d := { d with lockedAmount := amount, pendingPayout := amount }
  assertDealInvariants d
  let challengeEndAt ← u64Add env.timestamp (getChallengeWindowSeconds s)
  let pending : PendingRentRelease :=
    ⟨target, amount, caller, env.timestamp, challengeEndAt, externalRefSource, externalRef⟩
  return { putDealState dealId d s with
    pendingRentRelease := s.pendingRentRelease.set dealId pending }

def challengeRentRelease (caller : Address) (dealId challengeEvidenceRef : Bytes) (s : State) :
    Outcome ContractError State := do
  requireNotPaused s
  requireNonEmptyString dealId
  requireNonEmptyString challengeEvidenceRef
  env.requireAuth caller
  let pending ← okOr (s.pendingRentRelease.get dealId) .noPendingRelease
  require (env.timestamp ≤ pending.challengeEndAt) .disputeNotAllowed
  let depositor ← okOr (s.dealDepositor.get dealId) .disputeNotAllowed
  require (caller = depositor ∨ caller = pending.target) .notAuthorized
  return { s with
    rentDispute := s.rentDispute.set dealId
      ⟨caller, env.timestamp, pending.externalRef, challengeEvidenceRef, false⟩ }

def SettlementOutcome.recipient (pending : PendingRentRelease) (depositor : Address) :
    SettlementOutcome → Address
  | .releaseToRecipient => pending.target
  | .refundToDepositor => depositor

/-- What a settlement paid, and to whom. -/
structure Settlement where
  recipient : Address
  amount : Int
  outcome : SettlementOutcome
deriving DecidableEq, Repr

def settleReleaseInner (dealId : Bytes) (outcome : SettlementOutcome) (w : World T) :
    Outcome ContractError (World T × Settlement) := do
  let s := w.escrow
  let pending ← okOr (s.pendingRentRelease.get dealId) .noPendingRelease
  let depositor ← okOr (s.dealDepositor.get dealId) .invalidSettlement
  let d := getDealState s dealId
  require (d.lockedAmount = pending.amount ∧ d.pendingPayout = pending.amount)
    .migrationInvariantViolation
  let recipient := outcome.recipient pending depositor
  let _ ← expect s.token
  let _ ← enter s.reentrancy .reentrancyDetected
  let t ← tok.call env w.token own recipient pending.amount
  let total ← i128Sub d.totalBalance pending.amount
  let d : DealState := ⟨total, 0, 0⟩
  assertDealInvariants d
  let s := putDealBalance dealId total (putDealState dealId d s)
  return (⟨{ s with
    reentrancy := exit
    pendingRentRelease := s.pendingRentRelease.remove dealId
    rentDispute := s.rentDispute.remove dealId }, t⟩, ⟨recipient, pending.amount, outcome⟩)

def resolveRentDispute (caller : Address) (dealId : Bytes) (outcome : SettlementOutcome)
    (resolutionEvidenceRef : Bytes) (w : World T) :
    Outcome ContractError (World T × Settlement) := do
  let s := w.escrow
  requireNotPaused s
  requireNonEmptyString dealId
  requireNonEmptyString resolutionEvidenceRef
  let resolver ← okOr s.resolver .notAuthorized
  require (caller = resolver) .notAuthorized
  env.requireAuth caller
  let dispute ← okOr (s.rentDispute.get dealId) .noOpenDispute
  require (dispute.resolved = false) .invalidSettlement
  settleReleaseInner tok env dealId outcome w

def settleRentReleaseTimeout (dealId : Bytes) (w : World T) :
    Outcome ContractError (World T × Settlement) := do
  let s := w.escrow
  requireNotPaused s
  requireNonEmptyString dealId
  require (s.rentDispute.get dealId = none) .disputeNotAllowed
  let pending ← okOr (s.pendingRentRelease.get dealId) .noPendingRelease
  require (pending.challengeEndAt ≤ env.timestamp) .invalidReleaseWindow
  settleReleaseInner tok env dealId .releaseToRecipient w

def settleDisputeTimeout (dealId : Bytes) (w : World T) :
    Outcome ContractError (World T × Settlement) := do
  let s := w.escrow
  requireNotPaused s
  requireNonEmptyString dealId
  let dispute ← okOr (s.rentDispute.get dealId) .noOpenDispute
  require (dispute.resolved = false) .invalidSettlement
  let timeoutAt ← u64Add dispute.openedAt (getDisputeTimeoutSeconds s)
  require (timeoutAt ≤ env.timestamp) .invalidReleaseWindow
  settleReleaseInner tok env dealId .refundToDepositor w

def pause (admin : Address) (s : State) : Outcome PausableError State := do
  let stored ← expect s.gov.admin
  requireAdminPermission env stored admin .notAuthorized
  return { s with paused := some true }

def unpause (admin : Address) (s : State) : Outcome PausableError State := do
  let stored ← expect s.gov.admin
  requireAdminPermission env stored admin .notAuthorized
  return { s with paused := some false }

def setGuardian (admin guardian : Address) (s : State) : Outcome ContractError State := do
  let gov ← mapErr (fun _ => .notAuthorized)
    (UpgradeGovernance.setGuardian env admin (some guardian) s.gov)
  return { s with gov }

def setUpgradeDelay (admin : Address) (delaySeconds : Nat) (s : State) :
    Outcome ContractError State := do
  let gov ← mapErr (fun _ => .notAuthorized)
    (UpgradeGovernance.setUpgradeDelay env admin delaySeconds s.gov)
  return { s with gov }

def proposeError : UpgradeGovernanceError → ContractError
  | .upgradeAlreadyPending => .upgradeAlreadyPending
  | _ => .notAuthorized

def executeError : UpgradeGovernanceError → ContractError
  | .noPendingUpgrade => .noUpgradePending
  | .upgradeDelayNotElapsed => .upgradeDelayNotMet
  | _ => .notAuthorized

def proposeUpgrade (admin : Address) (newWasmHash : BytesN 32) (s : State) :
    Outcome ContractError State := do
  let gov ← mapErr proposeError
    (UpgradeGovernance.proposeUpgrade env admin newWasmHash 0 none s.gov)
  return { s with gov }

def executeUpgrade (admin : Address) (newWasmHash : BytesN 32) (s : State) :
    Outcome ContractError (State × BytesN 32) := do
  let (gov, deployed) ← mapErr executeError
    (UpgradeGovernance.executeUpgrade env admin newWasmHash s.gov)
  return ({ s with gov }, deployed)

def emergencyUpgrade (admin : Address) (newWasmHash : BytesN 32) (s : State) :
    Outcome ContractError (State × BytesN 32) := do
  let (gov, deployed) ← mapErr (fun _ => .notAuthorized)
    (UpgradeGovernance.emergencyUpgrade env admin newWasmHash 0 none true s.gov)
  return ({ s with gov }, deployed)

def cancelUpgrade (admin : Address) (s : State) : Outcome ContractError State := do
  let gov ← UpgradeGovernance.cancelUpgrade env false .notAuthorized .noUpgradePending admin s.gov
  return { s with gov }

def freeze (admin : Address) (s : State) : Outcome ContractError State := do
  requireAdmin env admin s
  require (getCircuitBreakerState s ≠ .frozen) .frozen
  return { s with circuitBreakerState := some .frozen }

def proposeDrain (admin : Address) (drainHash : BytesN 32) (s : State) :
    Outcome ContractError State := do
  requireAdmin env admin s
  require (getCircuitBreakerState s = .frozen) .invalidGovernanceDrain
  return { s with pendingDrainHash := some drainHash, pendingDrainAt := some env.timestamp }

def executeDrain (admin : Address) (drainHash : BytesN 32) (s : State) :
    Outcome ContractError State := do
  requireAdmin env admin s
  let pendingHash ← okOr s.pendingDrainHash .noPendingRelease
  require (pendingHash = drainHash) .noPendingRelease
  let proposedAt ← okOr s.pendingDrainAt .noPendingRelease
  let executeAt ← u64Add proposedAt (getRecoveryDelaySeconds s)
  require (executeAt ≤ env.timestamp) .recoveryDelayNotMet
  require (getCircuitBreakerState s = .frozen) .invalidGovernanceDrain
  return { s with
    pendingDrainHash := none
    pendingDrainAt := none
    circuitBreakerState := some .unfrozen }

def setRecoveryDelay (admin : Address) (delaySeconds : Nat) (s : State) :
    Outcome ContractError State := do
  requireAdmin env admin s
  return { s with recoveryDelaySeconds := some delaySeconds }

/-- The common body of `activate_deal`, `complete_deal` and `default_deal`. -/
def moveDeal (before after : DealLifecycleStatus) (admin : Address) (dealId : Bytes) (s : State) :
    Outcome ContractError State := do
  requireNotPaused s
  requireNonEmptyString dealId
  requireAdmin env admin s
  require (s.dealLifecycle.getD dealId .draft = before) .invalidDealTransition
  return { s with dealLifecycle := s.dealLifecycle.set dealId after }

def activateDeal := moveDeal env .draft .active

def completeDeal := moveDeal env .active .completed

def defaultDeal := moveDeal env .active .defaulted

end

inductive Call where
  | init (admin operator token receiptContract : Address)
  | deposit (source : Address) (dealId : Bytes) (amount : Int)
  | release (caller : Address) (dealId : Bytes) (split : Split) (externalRef : Bytes)
  | configureDisputeWindows (admin : Address) (challengeWindowSeconds disputeTimeoutSeconds : Nat)
  | setResolver (admin resolver : Address)
  | migrateStorageSchema (admin : Address) (fromVersion : Nat) (dealIds : List Bytes)
  | requestRentRelease (caller : Address) (dealId : Bytes) (target : Address) (amount : Int)
      (externalRefSource externalRef : Bytes)
  | challengeRentRelease (caller : Address) (dealId challengeEvidenceRef : Bytes)
  | resolveRentDispute (caller : Address) (dealId : Bytes) (outcome : SettlementOutcome)
      (resolutionEvidenceRef : Bytes)
  | settleRentReleaseTimeout (dealId : Bytes)
  | settleDisputeTimeout (dealId : Bytes)
  | pause (admin : Address)
  | unpause (admin : Address)
  | setGuardian (admin guardian : Address)
  | setUpgradeDelay (admin : Address) (delaySeconds : Nat)
  | proposeUpgrade (admin : Address) (newWasmHash : BytesN 32)
  | executeUpgrade (admin : Address) (newWasmHash : BytesN 32)
  | emergencyUpgrade (admin : Address) (newWasmHash : BytesN 32)
  | cancelUpgrade (admin : Address)
  | freeze (admin : Address)
  | proposeDrain (admin : Address) (drainHash : BytesN 32)
  | executeDrain (admin : Address) (drainHash : BytesN 32)
  | setRecoveryDelay (admin : Address) (delaySeconds : Nat)
  | activateDeal (admin : Address) (dealId : Bytes)
  | completeDeal (admin : Address) (dealId : Bytes)
  | defaultDeal (admin : Address) (dealId : Bytes)
deriving DecidableEq

inductive Output where
  | unit
  | released (amount : Int)
  | settled (settlement : Settlement)
  | deployed (wasmHash : BytesN 32)
deriving DecidableEq

def World.done (w : World T) (s : State) : World T × Output := ({ w with escrow := s }, .unit)

def settled (r : World T × Settlement) : World T × Output := (r.1, .settled r.2)

def invoke (tok : Token T) (env : Env own) (w : World T) : Call → Option (World T × Output)
  | .init admin operator token receiptContract =>
    commit (init admin operator token receiptContract w.escrow) w.done
  | .deposit source dealId amount => commit (deposit tok env source dealId amount w) (·, .unit)
  | .release caller dealId split externalRef =>
    commit (release tok env caller dealId split externalRef w) fun r => (r.1, .released r.2)
  | .configureDisputeWindows admin challengeWindowSeconds disputeTimeoutSeconds =>
    commit (configureDisputeWindows env admin challengeWindowSeconds disputeTimeoutSeconds w.escrow)
      w.done
  | .setResolver admin resolver => commit (setResolver env admin resolver w.escrow) w.done
  | .migrateStorageSchema admin fromVersion dealIds =>
    commit (migrateStorageSchema env admin fromVersion dealIds w.escrow) w.done
  | .requestRentRelease caller dealId target amount externalRefSource externalRef =>
    commit (requestRentRelease env caller dealId target amount externalRefSource externalRef
      w.escrow) w.done
  | .challengeRentRelease caller dealId challengeEvidenceRef =>
    commit (challengeRentRelease env caller dealId challengeEvidenceRef w.escrow) w.done
  | .resolveRentDispute caller dealId outcome resolutionEvidenceRef =>
    commit (resolveRentDispute tok env caller dealId outcome resolutionEvidenceRef w) settled
  | .settleRentReleaseTimeout dealId => commit (settleRentReleaseTimeout tok env dealId w) settled
  | .settleDisputeTimeout dealId => commit (settleDisputeTimeout tok env dealId w) settled
  | .pause admin => commit (pause env admin w.escrow) w.done
  | .unpause admin => commit (unpause env admin w.escrow) w.done
  | .setGuardian admin guardian => commit (setGuardian env admin guardian w.escrow) w.done
  | .setUpgradeDelay admin delaySeconds =>
    commit (setUpgradeDelay env admin delaySeconds w.escrow) w.done
  | .proposeUpgrade admin newWasmHash =>
    commit (proposeUpgrade env admin newWasmHash w.escrow) w.done
  | .executeUpgrade admin newWasmHash =>
    commit (executeUpgrade env admin newWasmHash w.escrow) fun r =>
      ({ w with escrow := r.1 }, .deployed r.2)
  | .emergencyUpgrade admin newWasmHash =>
    commit (emergencyUpgrade env admin newWasmHash w.escrow) fun r =>
      ({ w with escrow := r.1 }, .deployed r.2)
  | .cancelUpgrade admin => commit (cancelUpgrade env admin w.escrow) w.done
  | .freeze admin => commit (freeze env admin w.escrow) w.done
  | .proposeDrain admin drainHash => commit (proposeDrain env admin drainHash w.escrow) w.done
  | .executeDrain admin drainHash => commit (executeDrain env admin drainHash w.escrow) w.done
  | .setRecoveryDelay admin delaySeconds =>
    commit (setRecoveryDelay env admin delaySeconds w.escrow) w.done
  | .activateDeal admin dealId => commit (activateDeal env admin dealId w.escrow) w.done
  | .completeDeal admin dealId => commit (completeDeal env admin dealId w.escrow) w.done
  | .defaultDeal admin dealId => commit (defaultDeal env admin dealId w.escrow) w.done

/-- A call of the escrow, or token traffic that others authorized, which cannot take from it. -/
inductive Action (own : Address) (T : Type) where
  | call (env : Env own) (c : Call)
  | traffic (t : T)

def act (tok : Token T) (w : World T) : Action own T → Option (World T × Output)
  | .call env c => invoke tok env w c
  | .traffic t =>
    if tok.balance w.token own ≤ tok.balance t own then some (⟨w.escrow, t⟩, .unit) else none

/-- The escrow at the address `own`. -/
def machine (tok : Token T) (own : Address) : Machine (World T) (Action own T) Output where
  step := act tok

end Shelterflex.DealEscrow
