import Shelterflex.UpgradeGovernance.Core
import Shelterflex.Host.Token
import Shelterflex.Lib.Machine
import Shelterflex.Lib.Store

namespace Shelterflex.WhistleblowerRewards
open Lib UpgradeGovernance
set_option autoImplicit true

inductive AllocationStatus where
  | pending
  | claimed
  | revoked
deriving DecidableEq, Repr

structure AllocationRecord where
  amount : Int
  claimedAmount : Int
  timestamp : Nat
  status : AllocationStatus
deriving DecidableEq, Repr

inductive ContractError where
  | alreadyInitialized
  | notAuthorized
  | paused
  | invalidAmount
  | nothingToClaim
  | amountExceedsClaimable
  | emptyString
  | stringTooLong
  | upgradeAlreadyPending
  | noUpgradePending
  | upgradeDelayNotMet
  | holdWindowNotElapsed
  | allocationAlreadyClaimed
  | allocationAlreadyRevoked
  | allocationNotFound
  | holdWindowElapsed
deriving DecidableEq, Repr

/-- Allocations are kept by whistleblower, listing and nonce. -/
structure State where
  gov : Gov
  operator : Option Address
  token : Option Address
  paused : Option Bool
  holdWindow : Option Nat
  allocationNonce : Store (Address × Bytes) Nat
  allocation : Store (Address × Bytes × Nat) AllocationRecord

def State.fresh : State := ⟨.fresh, none, none, none, none, .empty, .empty⟩

/-- The contract beside the state of its token. -/
structure World (T : Type) where
  rewards : State
  token : T

def requireNotPaused (s : State) : Outcome ContractError Unit :=
  require (s.paused.getD false = false) .paused

def maxStringLen : Nat := 256

def requireNonEmptyString (x : Bytes) : Outcome ContractError Unit :=
  require (x.length ≠ 0) .emptyString

def requireStringMaxLen (x : Bytes) : Outcome ContractError Unit :=
  require (x.length ≤ maxStringLen) .stringTooLong

def getHoldWindow (s : State) : Nat := s.holdWindow.getD 0

def getAllocationNonce (s : State) (whistleblower : Address) (listingId : Bytes) : Nat :=
  s.allocationNonce.getD (whistleblower, listingId) 0

def getAllocation (s : State) (whistleblower : Address) (listingId : Bytes) (id : Nat) :
    Option AllocationRecord :=
  s.allocation.get (whistleblower, listingId, id)

def putAllocation (whistleblower : Address) (listingId : Bytes) (id : Nat)
    (record : AllocationRecord) (s : State) : State :=
  { s with allocation := s.allocation.set (whistleblower, listingId, id) record }

def contractVersion (s : State) : Nat := s.gov.contractVersion.getD 0

/-- A claim can draw on a pending record whose hold window has passed. -/
def eligible (holdWindow now : Nat) (record : AllocationRecord) : Outcome ε Bool :=
  if record.status = .pending then do
    let claimableAt ← u64Add record.timestamp holdWindow
    return claimableAt ≤ now
  else
    return false

def addClaimable (holdWindow now : Nat) (whistleblower : Address) (listingId : Bytes) (s : State)
    (total : Int) (i : Nat) : Outcome ε Int :=
  match getAllocation s whistleblower listingId i with
  | some record => do
    let ready ← eligible holdWindow now record
    if ready then do
      let available ← i128Sub record.amount record.claimedAmount
      i128Add total available
    else
      return total
  | none => return total

def sumClaimable (now : Nat) (whistleblower : Address) (listingId : Bytes) (s : State) :
    Outcome ε Int :=
  (List.range (getAllocationNonce s whistleblower listingId)).foldlM
    (addClaimable (getHoldWindow s) now whistleblower listingId s) 0

/-- Take up to `remaining` from one record. -/
def takeAllocation (whistleblower : Address) (listingId : Bytes) (i : Nat)
    (record : AllocationRecord) (remaining : Int) (s : State) : Outcome ε (Int × State) := do
  let available ← i128Sub record.amount record.claimedAmount
  if 0 < available then do
    let take := min remaining available
    let claimed ← i128Add record.claimedAmount take
    let status := if record.amount ≤ claimed then .claimed else record.status
    let left ← i128Sub remaining take
    return (left, putAllocation whistleblower listingId i
      { record with claimedAmount := claimed, status } s)
  else
    return (remaining, s)

/-- One turn of the loop of `claim`, over what remains to be claimed. -/
def consumeAllocation (holdWindow now : Nat) (whistleblower : Address) (listingId : Bytes)
    (acc : Int × State) (i : Nat) : Outcome ε (Int × State) :=
  if 0 < acc.1 then
    match getAllocation acc.2 whistleblower listingId i with
    | some record => do
      let ready ← eligible holdWindow now record
      if ready then takeAllocation whistleblower listingId i record acc.1 acc.2 else return acc
    | none => return acc
  else
    return acc

def init (admin operator token : Address) (holdWindowSecs : Nat) (s : State) :
    Outcome ContractError State := do
  require (s.gov.admin = none) .alreadyInitialized
  return { s with
    gov := { s.gov with admin := some admin, contractVersion := some 1 }
    operator := some operator
    token := some token
    paused := some false
    holdWindow := some holdWindowSecs }

/-- The state that `init` leaves behind. -/
def initialized (admin operator token : Address) (holdWindowSecs : Nat) : State :=
  { State.fresh with
    gov := { Gov.fresh with admin := some admin, contractVersion := some 1 }
    operator := some operator
    token := some token
    paused := some false
    holdWindow := some holdWindowSecs }

theorem init_fresh (admin operator token : Address) (holdWindowSecs : Nat) :
    init admin operator token holdWindowSecs .fresh =
      .ok (initialized admin operator token holdWindowSecs) := rfl

section
variable (env : Env own)

def requireOperator (caller : Address) (s : State) : Outcome ContractError Unit := do
  let operator ← expect s.operator
  requireAdminPermission env operator caller .notAuthorized

def requireAdmin (caller : Address) (s : State) : Outcome ContractError Unit := do
  let admin ← expect s.gov.admin
  requireAdminPermission env admin caller .notAuthorized

def setHoldWindow (admin : Address) (windowSecs : Nat) (s : State) :
    Outcome ContractError State := do
  requireAdmin env admin s
  return { s with holdWindow := some windowSecs }

def allocate (operator whistleblower : Address) (listingId dealId : Bytes) (amount : Int)
    (s : State) : Outcome ContractError State := do
  requireOperator env operator s
  requireNotPaused s
  requireNonEmptyString listingId
  requireStringMaxLen listingId
  requireNonEmptyString dealId
  requireStringMaxLen dealId
  require (0 < amount) .invalidAmount
  let nonce := getAllocationNonce s whistleblower listingId
  let s := putAllocation whistleblower listingId nonce ⟨amount, 0, env.timestamp, .pending⟩ s
  let next ← u64Add nonce 1
  let _ ← u64Add env.timestamp (getHoldWindow s)
  return { s with allocationNonce := s.allocationNonce.set (whistleblower, listingId) next }

/-- The operator and the guardian may revoke. -/
def requireRevoker (caller : Address) (s : State) : Outcome ContractError Unit := do
  env.requireAuth caller
  let operator ← expect s.operator
  require (caller = operator ∨ s.gov.guardian = some caller) .notAuthorized

def requirePending : AllocationStatus → Outcome ContractError Unit
  | .claimed => .error (.err .allocationAlreadyClaimed)
  | .revoked => .error (.err .allocationAlreadyRevoked)
  | .pending => .ok ()

def revokeAllocation (caller whistleblower : Address) (listingId : Bytes) (allocationId : Nat)
    (s : State) : Outcome ContractError State := do
  requireRevoker env caller s
  requireNotPaused s
  requireNonEmptyString listingId
  requireStringMaxLen listingId
  let record ← okOr (getAllocation s whistleblower listingId allocationId) .allocationNotFound
  requirePending record.status
  require (record.claimedAmount ≤ 0) .allocationAlreadyClaimed
  require (getHoldWindow s ≠ 0) .holdWindowElapsed
  let claimableAt ← u64Add record.timestamp (getHoldWindow s)
  require (env.timestamp < claimableAt) .holdWindowElapsed
  return putAllocation whistleblower listingId allocationId { record with status := .revoked } s

/-- The amount of a claim: everything unless one is asked for. -/
def claimAmount (totalClaimable : Int) : Option Int → Outcome ContractError Int
  | none => return totalClaimable
  | some amount => do
    require (0 < amount) .invalidAmount
    require (amount ≤ totalClaimable) .amountExceedsClaimable
    return amount

def claim (tok : Token T) (target : Address) (listingId : Bytes) (amount : Option Int)
    (w : World T) : Outcome ContractError (World T × Int) := do
  let s := w.rewards
  env.requireAuth target
  requireNotPaused s
  requireNonEmptyString listingId
  requireStringMaxLen listingId
  let totalClaimable ← sumClaimable env.timestamp target listingId s
  require (0 < totalClaimable) .nothingToClaim
  let toClaim ← claimAmount totalClaimable amount
  let (_, s) ← (List.range (getAllocationNonce s target listingId)).foldlM
    (consumeAllocation (getHoldWindow s) env.timestamp target listingId) (toClaim, s)
  let _ ← expect s.token
  let t ← tok.call env w.token own target toClaim
  let _ ← sumClaimable env.timestamp target listingId s
  return (⟨s, t⟩, toClaim)

def claimable (whistleblower : Address) (listingId : Bytes) (s : State) : Outcome ε Int :=
  if listingId.length = 0 ∨ maxStringLen < listingId.length then return 0
  else sumClaimable env.timestamp whistleblower listingId s

def setOperator (admin newOperator : Address) (s : State) : Outcome ContractError State := do
  requireAdmin env admin s
  let _ ← expect s.operator
  return { s with operator := some newOperator }

def pause (admin : Address) (s : State) : Outcome PausableError State := do
  mapErr (fun _ => .notAuthorized) (requireAdmin env admin s)
  return { s with paused := some true }

def unpause (admin : Address) (s : State) : Outcome PausableError State := do
  mapErr (fun _ => .notAuthorized) (requireAdmin env admin s)
  return { s with paused := some false }

def setGuardian (admin guardian : Address) (s : State) : Outcome ContractError State := do
  let gov ← mapErr (fun _ => .notAuthorized)
    (UpgradeGovernance.setGuardian env admin (some guardian) s.gov)
  return { s with gov }

def setUpgradeDelay (admin : Address) (delay : Nat) (s : State) : Outcome ContractError State := do
  let gov ← mapErr (fun _ => .notAuthorized)
    (UpgradeGovernance.setUpgradeDelay env admin delay s.gov)
  return { s with gov }

def proposeError : UpgradeGovernanceError → ContractError
  | .upgradeAlreadyPending => .upgradeAlreadyPending
  | _ => .notAuthorized

def executeError : UpgradeGovernanceError → ContractError
  | .noPendingUpgrade => .noUpgradePending
  | .upgradeDelayNotElapsed => .upgradeDelayNotMet
  | _ => .notAuthorized

def proposeUpgrade (admin : Address) (newWasmHash : BytesN 32) (s : State) :
    Outcome ContractError State := do
  let gov ← mapErr proposeError
    (UpgradeGovernance.proposeUpgrade env admin newWasmHash 0 none s.gov)
  return { s with gov }

def executeUpgrade (admin : Address) (newWasmHash : BytesN 32) (s : State) :
    Outcome ContractError (State × BytesN 32) := do
  let (gov, deployed) ← mapErr executeError
    (UpgradeGovernance.executeUpgrade env admin newWasmHash s.gov)
  return ({ s with gov }, deployed)

def emergencyUpgrade (admin : Address) (newWasmHash : BytesN 32) (s : State) :
    Outcome ContractError (State × BytesN 32) := do
  let (gov, deployed) ← mapErr (fun _ => .notAuthorized)
    (UpgradeGovernance.emergencyUpgrade env admin newWasmHash 0 none true s.gov)
  return ({ s with gov }, deployed)

def cancelUpgrade (admin : Address) (s : State) : Outcome ContractError State := do
  let gov ← UpgradeGovernance.cancelUpgrade env false .notAuthorized .noUpgradePending admin s.gov
  return { s with gov }

end

/-- The calls after `init`, which does not run on a contract that has an admin. -/
inductive Call where
  | setHoldWindow (admin : Address) (windowSecs : Nat)
  | allocate (operator whistleblower : Address) (listingId dealId : Bytes) (amount : Int)
  | revokeAllocation (caller whistleblower : Address) (listingId : Bytes) (allocationId : Nat)
  | claim (target : Address) (listingId : Bytes) (amount : Option Int)
  | claimable (whistleblower : Address) (listingId : Bytes)
  | setOperator (admin newOperator : Address)
  | pause (admin : Address)
  | unpause (admin : Address)
  | setGuardian (admin guardian : Address)
  | setUpgradeDelay (admin : Address) (delay : Nat)
  | proposeUpgrade (admin : Address) (newWasmHash : BytesN 32)
  | executeUpgrade (admin : Address) (newWasmHash : BytesN 32)
  | emergencyUpgrade (admin : Address) (newWasmHash : BytesN 32)
  | cancelUpgrade (admin : Address)
deriving DecidableEq

inductive Output where
  | unit
  | amount (n : Int)
  | deployed (wasmHash : BytesN 32)
deriving DecidableEq

def World.done (w : World T) (s : State) : World T × Output := ({ w with rewards := s }, .unit)

def World.installed (w : World T) (r : State × BytesN 32) : World T × Output :=
  ({ w with rewards := r.1 }, .deployed r.2)

def invoke (tok : Token T) (env : Env own) (w : World T) : Call → Option (World T × Output)
  | .setHoldWindow admin windowSecs =>
    commit (setHoldWindow env admin windowSecs w.rewards) w.done
  | .allocate operator whistleblower listingId dealId amount =>
    commit (allocate env operator whistleblower listingId dealId amount w.rewards) w.done
  | .revokeAllocation caller whistleblower listingId allocationId =>
    commit (revokeAllocation env caller whistleblower listingId allocationId w.rewards) w.done
  | .claim target listingId amount =>
    commit (claim env tok target listingId amount w) fun r => (r.1, .amount r.2)
  | .claimable whistleblower listingId =>
    commit (claimable env whistleblower listingId w.rewards : Outcome ContractError Int)
      fun n => (w, .amount n)
  | .setOperator admin newOperator => commit (setOperator env admin newOperator w.rewards) w.done
  | .pause admin => commit (pause env admin w.rewards) w.done
  | .unpause admin => commit (unpause env admin w.rewards) w.done
  | .setGuardian admin guardian => commit (setGuardian env admin guardian w.rewards) w.done
  | .setUpgradeDelay admin delay => commit (setUpgradeDelay env admin delay w.rewards) w.done
  | .proposeUpgrade admin newWasmHash =>
    commit (proposeUpgrade env admin newWasmHash w.rewards) w.done
  | .executeUpgrade admin newWasmHash =>
    commit (executeUpgrade env admin newWasmHash w.rewards) w.installed
  | .emergencyUpgrade admin newWasmHash =>
    commit (emergencyUpgrade env admin newWasmHash w.rewards) w.installed
  | .cancelUpgrade admin => commit (cancelUpgrade env admin w.rewards) w.done

/-- What can happen next: a call of the contract, or token traffic that others authorized, which
cannot take from it. -/
inductive Action (own : Address) (T : Type) where
  | call (env : Env own) (c : Call)
  | traffic (t : T)

def act (tok : Token T) (w : World T) : Action own T → Option (World T × Output)
  | .call env c => invoke tok env w c
  | .traffic t =>
    if tok.balance w.token own ≤ tok.balance t own then some (⟨w.rewards, t⟩, .unit) else none

/-- The contract at the address `own`. -/
def machine (tok : Token T) (own : Address) : Machine (World T) (Action own T) Output where
  step := act tok

end Shelterflex.WhistleblowerRewards
