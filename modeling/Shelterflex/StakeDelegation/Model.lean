import Shelterflex.Host.Guards
import Shelterflex.Lib.Machine
import Shelterflex.Lib.Store

namespace Shelterflex.StakeDelegation
open Lib
set_option autoImplicit true

inductive ContractError where
  | alreadyInitialized
  | notAuthorized
  | paused
  | invalidAmount
  | delegationNotFound
  | insufficientStake
  | revocationTooEarly
  | alreadyDelegated
  | cooldownNotElapsed
  | noPendingUndelegation
  | slashExceedsBalance
  | commissionTooHigh
deriving DecidableEq, Repr

structure Delegation where
  delegatee : Address
  amount : Int
  activatedEpoch : Nat
deriving DecidableEq, Repr

/-- `request_undelegate` alone writes such records, and only for positive amounts. -/
structure PendingUndelegationRecord where
  amount : Int
  requestTime : Nat
  positive : 0 < amount
deriving DecidableEq, Repr

def scale : Int := 1000000000

/-- `set_commission` alone writes the rates, and only rates up to 10000 bps. -/
structure State where
  admin : Option Address
  paused : Option Bool
  epochDuration : Option Nat
  currentEpoch : Option Nat
  delegations : Store Address (List Delegation)
  stakedBalance : Store Address Int
  rewardIndex : Option Int
  totalStaked : Option Int
  pendingRewards : Store Address Int
  revocationRequest : Store (Address × Address) Nat
  delegateeStake : Store Address Int
  delegateeRewardIndex : Store Address Int
  undelegationCooldown : Option Nat
  pendingUndelegation : Store (Address × Address) PendingUndelegationRecord
  delegateeCommissionRate : Store Address {n : Nat // n ≤ 10000}
  delegateeCommissionBalance : Store Address Int
  slashingAuthority : Option Address
  delegatorsOf : Store Address (List Address)

def State.fresh : State :=
  ⟨none, none, none, none, .empty, .empty, none, none, .empty, .empty, .empty, .empty, none, .empty,
    .empty, .empty, none, .empty⟩

def getDelegations (s : State) (delegator : Address) : List Delegation :=
  s.delegations.getD delegator []

def getStakedBalance (s : State) (user : Address) : Int := s.stakedBalance.getD user 0

def getTotalStaked (s : State) : Int := s.totalStaked.getD 0

def getRewardIndex (s : State) : Int := s.rewardIndex.getD 0

def getDelegateeStake (s : State) (addr : Address) : Int := s.delegateeStake.getD addr 0

def getDelegateeIndex (s : State) (addr : Address) : Int := s.delegateeRewardIndex.getD addr 0

def getPendingRewards (s : State) (addr : Address) : Int := s.pendingRewards.getD addr 0

def getCommissionBalance (s : State) (addr : Address) : Int :=
  s.delegateeCommissionBalance.getD addr 0

def getCommissionRate (s : State) (addr : Address) : Int :=
  (s.delegateeCommissionRate.getD addr ⟨0, Nat.zero_le _⟩).val

def getDelegatorsOf (s : State) (delegatee : Address) : List Address :=
  s.delegatorsOf.getD delegatee []

def getCurrentEpoch (s : State) : Nat := s.currentEpoch.getD 1

def getUndelegationCooldown (s : State) : Nat := s.undelegationCooldown.getD 604800

def requireAdmin (env : Env own) (caller : Address) (s : State) : Outcome ContractError Unit := do
  let admin ← okOr s.admin .notAuthorized
  env.requireAuth caller
  require (caller = admin) .notAuthorized

def requireNotPaused (s : State) : Outcome ContractError Unit :=
  require (s.paused.getD false = false) .paused

def init (admin : Address) (epochDurationSecs : Nat) (s : State) : Outcome ContractError State := do
  require (s.admin = none) .alreadyInitialized
  return { s with
    admin := some admin
    epochDuration := some epochDurationSecs
    currentEpoch := some 1
    undelegationCooldown := some 604800
    rewardIndex := some 0
    totalStaked := some 0 }

/-- The state that `init` leaves behind on a new contract. -/
def initialized (admin : Address) (epochDurationSecs : Nat) : State :=
  { State.fresh with
    admin := some admin
    epochDuration := some epochDurationSecs
    currentEpoch := some 1
    undelegationCooldown := some 604800
    rewardIndex := some 0
    totalStaked := some 0 }

/-! Rewards of the delegatees -/

def creditCommission (addr : Address) (commission : Int) (s : State) :
    Outcome ContractError State :=
  if 0 < commission then do
    let balance ← i128Add (getCommissionBalance s addr) commission
    return { s with delegateeCommissionBalance := s.delegateeCommissionBalance.set addr balance }
  else
    return s

def creditRewards (addr : Address) (netRewards : Int) (s : State) : Outcome ContractError State :=
  if 0 < netRewards then do
    let banked ← i128Add (getPendingRewards s addr) netRewards
    return { s with pendingRewards := s.pendingRewards.set addr banked }
  else
    return s

/-- The part of a reward that the delegatee keeps as commission. -/
def commissionOn (gross : Int) (addr : Address) (s : State) : Outcome ContractError Int := do
  let scaled ← i128Mul gross (getCommissionRate s addr)
  i128Div scaled 10000

/-- What the index has brought a delegatee since the last settlement. -/
def grossReward (addr : Address) (currentRewardIndex : Int) (s : State) :
    Outcome ContractError Int := do
  let delta ← i128Sub currentRewardIndex (getDelegateeIndex s addr)
  let product ← i128Mul (getDelegateeStake s addr) delta
  i128Div product scale

def bankRewards (addr : Address) (currentRewardIndex : Int) (s : State) :
    Outcome ContractError State :=
  if 0 < getDelegateeStake s addr ∧ getDelegateeIndex s addr < currentRewardIndex then do
    let gross ← grossReward addr currentRewardIndex s
    if 0 < gross then do
      let commission ← commissionOn gross addr s
      let netRewards ← i128Sub gross commission
      let s ← creditCommission addr commission s
      creditRewards addr netRewards s
    else
      return s
  else
    return s

def settlePendingFor (addr : Address) (currentRewardIndex : Int) (s : State) :
    Outcome ContractError State := do
  let s ← bankRewards addr currentRewardIndex s
  return { s with delegateeRewardIndex := s.delegateeRewardIndex.set addr currentRewardIndex }

def settleAllDelegates (delegator : Address) (s : State) : Outcome ContractError State :=
  (getDelegations s delegator).foldlM
    (fun s' d => settlePendingFor d.delegatee (getRewardIndex s) s') s

def totalDelegated (s : State) (delegator : Address) : Outcome ContractError Int :=
  (getDelegations s delegator).foldlM (fun total d => i128Add total d.amount) 0

/-! The reverse index -/

def addDelegatorToDelegatee (delegatee delegator : Address) (s : State) : State :=
  if delegator ∈ getDelegatorsOf s delegatee then s
  else { s with
    delegatorsOf := s.delegatorsOf.set delegatee (getDelegatorsOf s delegatee ++ [delegator]) }

def removeDelegatorFromDelegatee (delegatee delegator : Address) (s : State) : State :=
  { s with
    delegatorsOf := s.delegatorsOf.set delegatee
      ((getDelegatorsOf s delegatee).filter (· ≠ delegator)) }

/-! Entry points -/

section
variable (env : Env own)

def advanceEpoch (admin : Address) (s : State) : Outcome ContractError (State × Nat) := do
  requireNotPaused s
  requireAdmin env admin s
  let next ← u64Add (getCurrentEpoch s) 1
  return ({ s with currentEpoch := some next }, next)

def setUndelegationCooldown (admin : Address) (cooldownSecs : Nat) (s : State) :
    Outcome ContractError State := do
  requireNotPaused s
  requireAdmin env admin s
  return { s with undelegationCooldown := some cooldownSecs }

def setCommission (delegatee : Address) (rateBps : Nat) (s : State) :
    Outcome ContractError State := do
  requireNotPaused s
  env.requireAuth delegatee
  if h : rateBps ≤ 10000 then
    let s ← settlePendingFor delegatee (getRewardIndex s) s
    return { s with
      delegateeCommissionRate := s.delegateeCommissionRate.set delegatee ⟨rateBps, h⟩ }
  else
    .error (.err .commissionTooHigh)

def claimCommission (delegatee : Address) (s : State) : Outcome ContractError (State × Int) := do
  requireNotPaused s
  env.requireAuth delegatee
  let s ← settlePendingFor delegatee (getRewardIndex s) s
  return ({ s with delegateeCommissionBalance := s.delegateeCommissionBalance.set delegatee 0 },
    getCommissionBalance s delegatee)

def setSlashingAuthority (admin authority : Address) (s : State) :
    Outcome ContractError State := do
  requireAdmin env admin s
  return { s with slashingAuthority := some authority }

def stake (source : Address) (amount : Int) (s : State) : Outcome ContractError State := do
  requireNotPaused s
  env.requireAuth source
  require (0 < amount) .invalidAmount
  let s ← settleAllDelegates source s
  let balance ← i128Add (getStakedBalance s source) amount
  let total ← i128Add (getTotalStaked s) amount
  return { s with
    stakedBalance := s.stakedBalance.set source balance
    totalStaked := some total }

def unstake (source : Address) (amount : Int) (s : State) : Outcome ContractError State := do
  requireNotPaused s
  env.requireAuth source
  require (0 < amount) .invalidAmount
  let bal := getStakedBalance s source
  require (amount ≤ bal) .insufficientStake
  let delegated ← totalDelegated s source
  let free ← i128Sub bal delegated
  require (amount ≤ free) .insufficientStake
  let s ← settleAllDelegates source s
  let balance ← i128Sub bal amount
  let total ← i128Sub (getTotalStaked s) amount
  return { s with
    stakedBalance := s.stakedBalance.set source balance
    totalStaked := some total }

/-- Raise the delegation to a delegatee, if there is one. -/
def raiseDelegation (delegatee : Address) (amount : Int) (d : Delegation) :
    Outcome ContractError Delegation :=
  if d.delegatee = delegatee then do
    let raised ← i128Add d.amount amount
    return { d with amount := raised }
  else
    return d

def delegate (delegator delegatee : Address) (amount : Int) (s : State) :
    Outcome ContractError State := do
  requireNotPaused s
  env.requireAuth delegator
  require (0 < amount) .invalidAmount
  let alreadyDelegated ← totalDelegated s delegator
  let free ← i128Sub (getStakedBalance s delegator) alreadyDelegated
  require (amount ≤ free) .insufficientStake
  let s ← settlePendingFor delegatee (getRewardIndex s) s
  let stake ← i128Add (getDelegateeStake s delegatee) amount
  let s := { s with delegateeStake := s.delegateeStake.set delegatee stake }
  let delegations := getDelegations s delegator
  let raised ← delegations.mapM (raiseDelegation delegatee amount)
  if delegations.any (·.delegatee = delegatee) then
    return { s with delegations := s.delegations.set delegator raised }
  else
    let s := addDelegatorToDelegatee delegatee delegator s
    return { s with
      delegations := s.delegations.set delegator
        (raised ++ [⟨delegatee, amount, getCurrentEpoch s⟩]) }

def requestRevocation (delegator delegatee : Address) (s : State) :
    Outcome ContractError State := do
  requireNotPaused s
  env.requireAuth delegator
  require ((getDelegations s delegator).any (·.delegatee = delegatee)) .delegationNotFound
  return { s with
    revocationRequest := s.revocationRequest.set (delegator, delegatee) (getCurrentEpoch s) }

def finalizeRevocation (delegator delegatee : Address) (s : State) :
    Outcome ContractError State := do
  requireNotPaused s
  env.requireAuth delegator
  let requestedEpoch ← okOr (s.revocationRequest.get (delegator, delegatee)) .delegationNotFound
  require (requestedEpoch < getCurrentEpoch s) .revocationTooEarly
  let s ← settlePendingFor delegatee (getRewardIndex s) s
  let delegations := getDelegations s delegator
  let amountToRemove :=
    ((delegations.find? (·.delegatee = delegatee)).map Delegation.amount).getD 0
  let stake ← i128Sub (getDelegateeStake s delegatee) amountToRemove
  let s := { s with
    delegateeStake := s.delegateeStake.set delegatee stake
    delegations := s.delegations.set delegator (delegations.filter (·.delegatee ≠ delegatee)) }
  let s := removeDelegatorFromDelegatee delegatee delegator s
  return { s with revocationRequest := s.revocationRequest.remove (delegator, delegatee) }

def requestUndelegate (delegator delegatee : Address) (amount : Int) (s : State) :
    Outcome ContractError State := do
  requireNotPaused s
  env.requireAuth delegator
  if h : 0 < amount then
    let delegation ← okOr ((getDelegations s delegator).find? (·.delegatee = delegatee))
      .delegationNotFound
    require (amount ≤ delegation.amount) .insufficientStake
    return { s with
      pendingUndelegation := s.pendingUndelegation.set (delegator, delegatee)
        ⟨amount, env.timestamp, h⟩ }
  else
    .error (.err .invalidAmount)

/-- How far `complete_undelegate` has come through the delegations of a delegator. -/
structure Undelegation where
  newDelegations : List Delegation
  amountRemoved : Int
  fullyRemoved : Bool

def undelegateFrom (delegatee : Address) (amount : Int) (acc : Undelegation) (d : Delegation) :
    Outcome ContractError Undelegation :=
  if d.delegatee = delegatee then do
    let left ← i128Sub d.amount amount
    if 0 < left then
      return ⟨acc.newDelegations ++ [{ d with amount := left }], amount, acc.fullyRemoved⟩
    else
      return ⟨acc.newDelegations, amount, true⟩
  else
    return { acc with newDelegations := acc.newDelegations ++ [d] }

def removeIfUndelegated (delegationFullyRemoved : Bool) (delegatee delegator : Address)
    (s : State) : State :=
  if delegationFullyRemoved then removeDelegatorFromDelegatee delegatee delegator s else s

def completeUndelegate (delegator delegatee : Address) (s : State) :
    Outcome ContractError State := do
  requireNotPaused s
  env.requireAuth delegator
  let pending ← okOr (s.pendingUndelegation.get (delegator, delegatee)) .noPendingUndelegation
  require (getUndelegationCooldown s ≤ env.timestamp - pending.requestTime) .cooldownNotElapsed
  let s ← settlePendingFor delegatee (getRewardIndex s) s
  let r ← (getDelegations s delegator).foldlM (undelegateFrom delegatee pending.amount)
    ⟨[], 0, false⟩
  let stake ← i128Sub (getDelegateeStake s delegatee) r.amountRemoved
  let s := { s with
    delegations := s.delegations.set delegator r.newDelegations
    delegateeStake := s.delegateeStake.set delegatee stake }
  let s := removeIfUndelegated r.fullyRemoved delegatee delegator s
  return { s with pendingUndelegation := s.pendingUndelegation.remove (delegator, delegatee) }

def fundRewards (admin : Address) (amount : Int) (s : State) : Outcome ContractError State := do
  requireNotPaused s
  requireAdmin env admin s
  require (0 < amount) .invalidAmount
  let total := getTotalStaked s
  if 0 < total then
    let scaled ← i128Mul amount scale
    let increment ← i128Div scaled total
    let index ← i128Add (getRewardIndex s) increment
    return { s with rewardIndex := some index }
  else
    return s

def claimDelegateeRewards (delegatee : Address) (s : State) :
    Outcome ContractError (State × Int) := do
  requireNotPaused s
  env.requireAuth delegatee
  let s ← settlePendingFor delegatee (getRewardIndex s) s
  return ({ s with pendingRewards := s.pendingRewards.set delegatee 0 },
    getPendingRewards s delegatee)

def pause (admin : Address) (s : State) : Outcome ContractError State := do
  requireAdmin env admin s
  return { s with paused := some true }

def unpause (admin : Address) (s : State) : Outcome ContractError State := do
  requireAdmin env admin s
  return { s with paused := some false }

/-- How far `apply_delegatee_slash` has come: the state, what was taken from balances so far, and
the delegations that the current delegator keeps. -/
structure DelegateeSlash where
  state : State
  totalBalanceSlashed : Int
  newDelegations : List Delegation

/-- The part of a delegation that is left when its delegatee's stake shrinks. -/
def proportion (amount newStake oldStake : Int) : Outcome ContractError Int :=
  if 0 < oldStake then do
    let product ← i128Mul amount newStake
    i128Div product oldStake
  else
    return 0

def slashDelegation (delegatee : Address) (newStake oldStake : Int) (delegator : Address)
    (acc : DelegateeSlash) (d : Delegation) : Outcome ContractError DelegateeSlash :=
  if d.delegatee = delegatee then do
    let newAmount ← proportion d.amount newStake oldStake
    let delta ← i128Sub d.amount newAmount
    let slashed ← i128Add acc.totalBalanceSlashed delta
    let left ← i128Sub (getStakedBalance acc.state delegator) delta
    let s := { acc.state with
      stakedBalance := acc.state.stakedBalance.set delegator (max left 0) }
    return ⟨s, slashed,
      if 0 < newAmount then acc.newDelegations ++ [{ d with amount := newAmount }]
      else acc.newDelegations⟩
  else
    return { acc with newDelegations := acc.newDelegations ++ [d] }

def slashDelegator (delegatee : Address) (newStake oldStake : Int) (acc : State × Int)
    (delegator : Address) : Outcome ContractError (State × Int) := do
  let r ← (getDelegations acc.1 delegator).foldlM
    (slashDelegation delegatee newStake oldStake delegator) ⟨acc.1, acc.2, []⟩
  return ({ r.state with delegations := r.state.delegations.set delegator r.newDelegations },
    r.totalBalanceSlashed)

def applyDelegateeSlash (slashAuthority delegatee : Address) (slashAmount : Int) (s : State) :
    Outcome ContractError State := do
  let authority ← okOr s.slashingAuthority .notAuthorized
  env.requireAuth slashAuthority
  require (slashAuthority = authority) .notAuthorized
  require (0 < slashAmount) .invalidAmount
  let delegateeStake := getDelegateeStake s delegatee
  require (slashAmount ≤ delegateeStake) .slashExceedsBalance
  let s ← settlePendingFor delegatee (getRewardIndex s) s
  let newDelegateeStake ← i128Sub delegateeStake slashAmount
  let s := { s with delegateeStake := s.delegateeStake.set delegatee newDelegateeStake }
  let (s, totalBalanceSlashed) ← (getDelegatorsOf s delegatee).foldlM
    (slashDelegator delegatee newDelegateeStake delegateeStake) (s, 0)
  let remaining := (getDelegatorsOf s delegatee).filter fun a =>
    (getDelegations s a).any (·.delegatee = delegatee)
  let total ← i128Sub (getTotalStaked s) totalBalanceSlashed
  return { s with
    delegatorsOf := s.delegatorsOf.set delegatee remaining
    totalStaked := some (max total 0) }

def lowerDelegateeStake (delegatee : Address) (delta : Int) (s : State) :
    Outcome ContractError State :=
  if 0 < delta then do
    let left ← i128Sub (getDelegateeStake s delegatee) delta
    return { s with delegateeStake := s.delegateeStake.set delegatee (max left 0) }
  else
    return s

/-- One delegation of a slashed delegator, trimmed to what the remaining balance covers. -/
def trimDelegation (delegator : Address) (newBalance totalDelegated : Int)
    (acc : State × List Delegation) (d : Delegation) :
    Outcome ContractError (State × List Delegation) := do
  let product ← i128Mul d.amount newBalance
  let trimmed ← i128Div product totalDelegated
  let delta ← i128Sub d.amount trimmed
  let s ← lowerDelegateeStake d.delegatee delta acc.1
  if 0 < trimmed then
    return (s, acc.2 ++ [{ d with amount := trimmed }])
  else
    return (removeDelegatorFromDelegatee d.delegatee delegator s, acc.2)

def slashStake (admin delegator : Address) (amount : Int) (s : State) :
    Outcome ContractError (State × Int) := do
  requireAdmin env admin s
  require (0 < amount) .invalidAmount
  let balance := getStakedBalance s delegator
  require (amount ≤ balance) .slashExceedsBalance
  let s ← settleAllDelegates delegator s
  let newBalance ← i128Sub balance amount
  let total ← i128Sub (getTotalStaked s) amount
  let s := { s with
    stakedBalance := s.stakedBalance.set delegator newBalance
    totalStaked := some total }
  let delegated ← totalDelegated s delegator
  if 0 < delegated ∧ newBalance < delegated then
    let (s, newDelegations) ← (getDelegations s delegator).foldlM
      (trimDelegation delegator newBalance delegated) (s, [])
    return ({ s with delegations := s.delegations.set delegator newDelegations }, amount)
  else
    return (s, amount)

end

/-! Views -/

def liveCommission (s : State) (delegatee : Address) : Outcome ContractError Int :=
  if 0 < getDelegateeStake s delegatee ∧ getDelegateeIndex s delegatee < getRewardIndex s then do
    let gross ← grossReward delegatee (getRewardIndex s) s
    commissionOn gross delegatee s
  else
    return 0

def getCommissionClaimable (s : State) (delegatee : Address) : Outcome ContractError Int := do
  let live ← liveCommission s delegatee
  i128Add live (getCommissionBalance s delegatee)

def liveRewards (s : State) (delegatee : Address) : Outcome ContractError Int :=
  if 0 < getDelegateeStake s delegatee ∧ getDelegateeIndex s delegatee < getRewardIndex s then do
    let gross ← grossReward delegatee (getRewardIndex s) s
    let commission ← commissionOn gross delegatee s
    i128Sub gross commission
  else
    return 0

def getDelegateeClaimable (s : State) (delegatee : Address) : Outcome ContractError Int := do
  let live ← liveRewards s delegatee
  i128Add live (getPendingRewards s delegatee)

inductive Call where
  | init (admin : Address) (epochDurationSecs : Nat)
  | advanceEpoch (admin : Address)
  | setUndelegationCooldown (admin : Address) (cooldownSecs : Nat)
  | setCommission (delegatee : Address) (rateBps : Nat)
  | claimCommission (delegatee : Address)
  | setSlashingAuthority (admin authority : Address)
  | applyDelegateeSlash (slashAuthority delegatee : Address) (slashAmount : Int)
  | stake (source : Address) (amount : Int)
  | unstake (source : Address) (amount : Int)
  | delegate (delegator delegatee : Address) (amount : Int)
  | requestRevocation (delegator delegatee : Address)
  | finalizeRevocation (delegator delegatee : Address)
  | requestUndelegate (delegator delegatee : Address) (amount : Int)
  | completeUndelegate (delegator delegatee : Address)
  | fundRewards (admin : Address) (amount : Int)
  | claimDelegateeRewards (delegatee : Address)
  | pause (admin : Address)
  | unpause (admin : Address)
  | slashStake (admin delegator : Address) (amount : Int)
deriving DecidableEq

inductive Output where
  | unit
  | amount (n : Int)
  | epoch (n : Nat)
deriving DecidableEq

def done (s : State) : State × Output := (s, .unit)

def returned (r : State × Int) : State × Output := (r.1, .amount r.2)

def invoke (env : Env own) (s : State) : Call → Option (State × Output)
  | .init admin epochDurationSecs => commit (init admin epochDurationSecs s) done
  | .advanceEpoch admin => commit (advanceEpoch env admin s) fun r => (r.1, .epoch r.2)
  | .setUndelegationCooldown admin cooldownSecs =>
    commit (setUndelegationCooldown env admin cooldownSecs s) done
  | .setCommission delegatee rateBps => commit (setCommission env delegatee rateBps s) done
  | .claimCommission delegatee => commit (claimCommission env delegatee s) returned
  | .setSlashingAuthority admin authority =>
    commit (setSlashingAuthority env admin authority s) done
  | .applyDelegateeSlash slashAuthority delegatee slashAmount =>
    commit (applyDelegateeSlash env slashAuthority delegatee slashAmount s) done
  | .stake source amount => commit (stake env source amount s) done
  | .unstake source amount => commit (unstake env source amount s) done
  | .delegate delegator delegatee amount => commit (delegate env delegator delegatee amount s) done
  | .requestRevocation delegator delegatee =>
    commit (requestRevocation env delegator delegatee s) done
  | .finalizeRevocation delegator delegatee =>
    commit (finalizeRevocation env delegator delegatee s) done
  | .requestUndelegate delegator delegatee amount =>
    commit (requestUndelegate env delegator delegatee amount s) done
  | .completeUndelegate delegator delegatee =>
    commit (completeUndelegate env delegator delegatee s) done
  | .fundRewards admin amount => commit (fundRewards env admin amount s) done
  | .claimDelegateeRewards delegatee => commit (claimDelegateeRewards env delegatee s) returned
  | .pause admin => commit (pause env admin s) done
  | .unpause admin => commit (unpause env admin s) done
  | .slashStake admin delegator amount => commit (slashStake env admin delegator amount s) returned

/-- The contract at the address `own`. -/
def machine (own : Address) : Machine State (Env own × Call) Output where
  step s i := invoke i.1 s i.2

end Shelterflex.StakeDelegation
