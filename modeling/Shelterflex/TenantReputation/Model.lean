import Shelterflex.Host.Guards
import Shelterflex.Lib.Machine
import Shelterflex.Lib.Store

namespace Shelterflex.TenantReputation
open Lib
set_option autoImplicit true

inductive ContractError where
  | alreadyInitialized
  | notAuthorized
  | paused
  | invalidScore
deriving DecidableEq, Repr

abbrev Result (α : Type) := Outcome ContractError α

structure ReputationRecord where
  compositeScore : UInt32
  paymentScore : UInt32
  propertyCareScore : UInt32
  communicationScore : UInt32
  totalRatings : UInt32
  lastUpdated : Nat
deriving DecidableEq, Repr

structure State where
  admin : Option Address
  operator : Option Address
  paused : Option Bool
  reputation : Store Address ReputationRecord
  decayRatePerPeriod : Option UInt32
  decayPeriodSecs : Option Nat
  scoreMin : Option UInt32
  scoreMax : Option UInt32

def State.fresh : State := ⟨none, none, none, .empty, none, none, none, none⟩

def getAdmin (s : State) : Outcome ε Address := orPanic "admin not set" (okOr s.admin ())

def getOperator (s : State) : Outcome ε Address := orPanic "operator not set" (okOr s.operator ())

def requireNotPaused (s : State) : Result Unit := require (s.paused.getD false = false) .paused

def scoreMax (s : State) : UInt32 := s.scoreMax.getD 1000

def scoreMin (s : State) : UInt32 := s.scoreMin.getD 0

def clampScore (s : State) (score : UInt32) : UInt32 := min (max score (scoreMin s)) (scoreMax s)

/-- The number of periods is cut down to a `u32`. -/
def computeDecayedScore (env : Env own) (s : State) (record : ReputationRecord) :
    UInt32 × Bool :=
  let rate := s.decayRatePerPeriod.getD 0
  let period := s.decayPeriodSecs.getD 86400
  if rate = 0 ∨ period = 0 then (record.compositeScore, false)
  else
    let now := env.timestamp
    if now ≤ record.lastUpdated then (record.compositeScore, false)
    else
      let elapsed := now - record.lastUpdated
      let periods := UInt32.ofNat (elapsed / period)
      if periods = 0 then (record.compositeScore, false)
      else
        let decayAmount := u32SaturatingMul periods rate
        let newScore := max (u32SaturatingSub record.compositeScore decayAmount) (scoreMin s)
        (newScore, newScore ≠ record.compositeScore)

def init (admin operator : Address) (s : State) : Result State := do
  require (s.admin = none) .alreadyInitialized
  return { s with
    admin := some admin
    operator := some operator
    paused := some false
    decayRatePerPeriod := some 0
    decayPeriodSecs := some 86400
    scoreMin := some 0
    scoreMax := some 1000 }

section
variable (env : Env own)

def setDecayConfig (admin : Address) (decayRatePerPeriod : UInt32) (periodSecs : Nat)
    (s : State) : Result State := do
  let current ← getAdmin s
  requireAdminPermission env current admin .notAuthorized
  return { s with
    decayRatePerPeriod := some decayRatePerPeriod
    decayPeriodSecs := some periodSecs }

/-- The bounds are not compared with each other. -/
def setScoreBounds (admin : Address) (scoreMin scoreMax : UInt32) (s : State) : Result State := do
  let current ← getAdmin s
  requireAdminPermission env current admin .notAuthorized
  return { s with scoreMin := some scoreMin, scoreMax := some scoreMax }

def updateReputation (caller tenant : Address) (record : ReputationRecord) (s : State) :
    Result State := do
  requireNotPaused s
  let admin ← getAdmin s
  let operator ← getOperator s
  requireAdminOrOperatorPermission env admin (some operator) caller .notAuthorized
  let updated := { record with
    compositeScore := clampScore s record.compositeScore
    lastUpdated := env.timestamp }
  return { s with reputation := s.reputation.set tenant updated }

def getReputation (tenant : Address) (s : State) : Option ReputationRecord :=
  match s.reputation.get tenant with
  | none => none
  | some record =>
    let (decayedScore, didDecay) := computeDecayedScore env s record
    if didDecay then some { record with compositeScore := decayedScore } else some record

def hasReputation (tenant : Address) (s : State) : Bool := s.reputation.has tenant

def revokeReputation (caller tenant : Address) (s : State) : Result State := do
  let admin ← getAdmin s
  requireAdminPermission env admin caller .notAuthorized
  if s.reputation.has tenant then
    return { s with reputation := s.reputation.remove tenant }
  else return s

def pause (admin : Address) (s : State) : Outcome PausableError State := do
  let current ← getAdmin s
  mapErr (fun _ => .notAuthorized)
    (requireAdminPermission env current admin ContractError.notAuthorized)
  return { s with paused := some true }

def unpause (admin : Address) (s : State) : Outcome PausableError State := do
  let current ← getAdmin s
  mapErr (fun _ => .notAuthorized)
    (requireAdminPermission env current admin ContractError.notAuthorized)
  return { s with paused := some false }

end

def isPaused (s : State) : Bool := s.paused.getD false

inductive Call where
  | init (admin operator : Address)
  | setDecayConfig (admin : Address) (decayRatePerPeriod : UInt32) (periodSecs : Nat)
  | setScoreBounds (admin : Address) (scoreMin scoreMax : UInt32)
  | updateReputation (caller tenant : Address) (record : ReputationRecord)
  | revokeReputation (caller tenant : Address)
  | pause (admin : Address)
  | unpause (admin : Address)
deriving DecidableEq

def done (s : State) : State × Unit := (s, ())

def invoke (env : Env own) (s : State) : Call → Option (State × Unit)
  | .init admin operator => commit (init admin operator s) done
  | .setDecayConfig admin decayRatePerPeriod periodSecs =>
    commit (setDecayConfig env admin decayRatePerPeriod periodSecs s) done
  | .setScoreBounds admin scoreMin scoreMax =>
    commit (setScoreBounds env admin scoreMin scoreMax s) done
  | .updateReputation caller tenant record =>
    commit (updateReputation env caller tenant record s) done
  | .revokeReputation caller tenant => commit (revokeReputation env caller tenant s) done
  | .pause admin => commit (pause env admin s) done
  | .unpause admin => commit (unpause env admin s) done

/-- The contract at the address `own`. -/
def machine (own : Address) : Machine State (Env own × Call) Unit where
  step s i := invoke i.1 s i.2

end Shelterflex.TenantReputation
