import Shelterflex.Host.Guards
import Shelterflex.Lib.Machine
import Shelterflex.Lib.Store

namespace Shelterflex.InspectorBond
open Lib
set_option autoImplicit true

inductive ContractError where
  | alreadyInitialized
  | notAuthorized
  | paused
  | invalidAmount
  | bondTooLow
  | lockNotExpired
  | bondBelowMinimum
  | noBond
  | slashNotFound
  | challengeWindowNotElapsed
  | slashAlreadyResolved
  | reentrancyDetected
deriving DecidableEq, Repr

structure BondRecord where
  inspector : Address
  amount : Int
  lockedUntil : Nat
  slashCount : Nat
deriving DecidableEq, Repr

inductive SlashSeverity where
  | low
  | medium
  | high
deriving DecidableEq, Repr

inductive InspectorSlashStatus where
  | pending
  | finalized
  | cancelled
deriving DecidableEq, Repr

structure PendingInspectorSlash where
  id : Nat
  inspector : Address
  severity : SlashSeverity
  penaltyAmount : Int
  deadline : Nat
  status : InspectorSlashStatus
  reportId : BytesN 32
  reason : Bytes
deriving DecidableEq

structure State where
  admin : Option Address
  paused : Option Bool
  minBondAmount : Option Int
  slashPenaltyBps : Option Int
  unstakeLockDays : Option Nat
  bond : Store Address BondRecord
  reentrancy : Option Bool
  challengeWindow : Option Nat
  nextSlashId : Option Nat
  pendingInspectorSlash : Store Nat PendingInspectorSlash

def State.fresh : State :=
  ⟨none, none, none, none, none, .empty, none, none, none, .empty⟩

def isPaused (s : State) : Bool := s.paused.getD false

def requireNotPaused (s : State) : Outcome ContractError Unit :=
  require (isPaused s = false) .paused

/-- The scope of the guard ends with the call. -/
def reentrancyScope (s : State) : Outcome ContractError State := do
  let _ ← enter s.reentrancy ContractError.reentrancyDetected
  return { s with reentrancy := exit }

def minBond (s : State) : Int := s.minBondAmount.getD 10000000000

def slashBps (s : State) : Int := s.slashPenaltyBps.getD 1000

/-- The configured penalty, scaled by the severity. -/
def tierPenaltyBps (s : State) : SlashSeverity → Outcome ε Int
  | .low => do
    let scaled ← i128Mul (slashBps s) 25
    i128Div scaled 100
  | .medium => do
    let scaled ← i128Mul (slashBps s) 50
    i128Div scaled 100
  | .high => return slashBps s

def lockDays (s : State) : Nat := s.unstakeLockDays.getD 30

def inspectorChallengeWindow (s : State) : Nat := s.challengeWindow.getD 604800

def getBond (s : State) (inspector : Address) : Option BondRecord := s.bond.get inspector

def putBond (inspector : Address) (bond : BondRecord) (s : State) : State :=
  { s with bond := s.bond.set inspector bond }

def isBonded (inspector : Address) (s : State) : Bool :=
  match getBond s inspector with
  | some b => minBond s ≤ b.amount
  | none => false

def getPendingInspectorSlash (s : State) (slashId : Nat) : Option PendingInspectorSlash :=
  s.pendingInspectorSlash.get slashId

def putPendingInspectorSlash (slashId : Nat) (pending : PendingInspectorSlash) (s : State) :
    State :=
  { s with pendingInspectorSlash := s.pendingInspectorSlash.set slashId pending }

def nextSlashId (s : State) : Outcome ε (State × Nat) := do
  let next ← u64Add (s.nextSlashId.getD 0) 1
  return ({ s with nextSlashId := some next }, next)

def init (admin : Address) (minBondAmount slashPenaltyBps : Int) (unstakeLockDays : Nat)
    (s : State) : Outcome ContractError State := do
  require (s.admin = none) .alreadyInitialized
  return { s with
    admin := some admin
    minBondAmount := some minBondAmount
    slashPenaltyBps := some slashPenaltyBps
    unstakeLockDays := some unstakeLockDays }

/-- A share of a bond in basis points. -/
def penaltyOf (amount bps : Int) : Outcome ε Int := do
  let product ← i128Mul amount bps
  i128Div product 10000

section
variable (env : Env own)

def requireAdmin (caller : Address) (s : State) : Outcome ContractError Unit := do
  let admin ← expect s.admin
  requireAdminPermission env admin caller .notAuthorized

def stakeBond (inspector : Address) (amount : Int) (s : State) : Outcome ContractError State := do
  requireNotPaused s
  env.requireAuth inspector
  require (0 < amount) .invalidAmount
  require (minBond s ≤ amount) .bondTooLow
  let lockSecs ← u64Mul (lockDays s) 86400
  let lockedUntil ← u64Add env.timestamp lockSecs
  let existing := getBond s inspector
  let staked ← i128Add ((existing.map (·.amount)).getD 0) amount
  let slashCount := (existing.map (·.slashCount)).getD 0
  return putBond inspector ⟨inspector, staked, lockedUntil, slashCount⟩ s

def unstakeBond (inspector : Address) (s : State) : Outcome ContractError (State × Int) := do
  env.requireAuth inspector
  let bond ← okOr (getBond s inspector) .noBond
  require (minBond s ≤ bond.amount) .bondBelowMinimum
  require (bond.lockedUntil ≤ env.timestamp) .lockNotExpired
  let s := { s with bond := s.bond.remove inspector }
  let s ← reentrancyScope s
  return (s, bond.amount)

/-- Take an amount off a bond, and count the slash. -/
def reduceBond (bond : BondRecord) (slashAmount : Int) : Outcome ε BondRecord := do
  let left ← i128Sub bond.amount slashAmount
  let slashCount ← u32Add bond.slashCount 1
  return { bond with amount := max left 0, slashCount }

def slashInspector (admin inspector : Address) (s : State) :
    Outcome ContractError (State × Int) := do
  requireAdmin env admin s
  let bond ← okOr (getBond s inspector) .noBond
  let penalty ← penaltyOf bond.amount (slashBps s)
  let slashAmount := if bond.amount < penalty then bond.amount else penalty
  let bond ← reduceBond bond slashAmount
  return (putBond inspector bond s, slashAmount)

def pause (admin : Address) (s : State) : Outcome ContractError State := do
  requireAdmin env admin s
  return { s with paused := some true }

def unpause (admin : Address) (s : State) : Outcome ContractError State := do
  requireAdmin env admin s
  return { s with paused := some false }

def setMinBond (admin : Address) (amount : Int) (s : State) : Outcome ContractError State := do
  requireAdmin env admin s
  return { s with minBondAmount := some amount }

def setInspectorChallengeWindow (admin : Address) (windowSecs : Nat) (s : State) :
    Outcome ContractError State := do
  requireAdmin env admin s
  return { s with challengeWindow := some windowSecs }

def proposeInspectorSlash (admin inspector : Address) (reportId : BytesN 32) (reason : Bytes)
    (severity : SlashSeverity) (s : State) : Outcome ContractError (State × Nat) := do
  requireAdmin env admin s
  let bond ← okOr (getBond s inspector) .noBond
  let effectiveBps ← tierPenaltyBps s severity
  let penalty ← penaltyOf bond.amount effectiveBps
  let penaltyAmount := min penalty bond.amount
  let (s, slashId) ← nextSlashId s
  let deadline ← u64Add env.timestamp (inspectorChallengeWindow s)
  return (putPendingInspectorSlash slashId
    ⟨slashId, inspector, severity, penaltyAmount, deadline, .pending, reportId, reason⟩ s, slashId)

def finalizeInspectorSlash (admin : Address) (slashId : Nat) (s : State) :
    Outcome ContractError (State × Int) := do
  requireAdmin env admin s
  let pending ← okOr (getPendingInspectorSlash s slashId) .slashNotFound
  require (pending.status = .pending) .slashAlreadyResolved
  require (pending.deadline ≤ env.timestamp) .challengeWindowNotElapsed
  let bond ← okOr (getBond s pending.inspector) .noBond
  let actualSlash := min pending.penaltyAmount bond.amount
  let bond ← reduceBond bond actualSlash
  let s := putBond pending.inspector bond s
  return (putPendingInspectorSlash slashId { pending with status := .finalized } s, actualSlash)

def cancelInspectorSlash (admin : Address) (slashId : Nat) (s : State) :
    Outcome ContractError State := do
  requireAdmin env admin s
  let pending ← okOr (getPendingInspectorSlash s slashId) .slashNotFound
  require (pending.status = .pending) .slashAlreadyResolved
  return putPendingInspectorSlash slashId { pending with status := .cancelled } s

end

inductive Call where
  | init (admin : Address) (minBondAmount slashPenaltyBps : Int) (unstakeLockDays : Nat)
  | stakeBond (inspector : Address) (amount : Int)
  | unstakeBond (inspector : Address)
  | slashInspector (admin inspector : Address)
  | pause (admin : Address)
  | unpause (admin : Address)
  | setMinBond (admin : Address) (amount : Int)
  | setInspectorChallengeWindow (admin : Address) (windowSecs : Nat)
  | proposeInspectorSlash (admin inspector : Address) (reportId : BytesN 32) (reason : Bytes)
      (severity : SlashSeverity)
  | finalizeInspectorSlash (admin : Address) (slashId : Nat)
  | cancelInspectorSlash (admin : Address) (slashId : Nat)
deriving DecidableEq

inductive Output where
  | unit
  | amount (n : Int)
  | slashId (n : Nat)
deriving DecidableEq

def done (s : State) : State × Output := (s, .unit)

def moved (r : State × Int) : State × Output := (r.1, .amount r.2)

def invoke (env : Env own) (s : State) : Call → Option (State × Output)
  | .init admin minBondAmount slashPenaltyBps unstakeLockDays =>
    commit (init admin minBondAmount slashPenaltyBps unstakeLockDays s) done
  | .stakeBond inspector amount => commit (stakeBond env inspector amount s) done
  | .unstakeBond inspector => commit (unstakeBond env inspector s) moved
  | .slashInspector admin inspector => commit (slashInspector env admin inspector s) moved
  | .pause admin => commit (pause env admin s) done
  | .unpause admin => commit (unpause env admin s) done
  | .setMinBond admin amount => commit (setMinBond env admin amount s) done
  | .setInspectorChallengeWindow admin windowSecs =>
    commit (setInspectorChallengeWindow env admin windowSecs s) done
  | .proposeInspectorSlash admin inspector reportId reason severity =>
    commit (proposeInspectorSlash env admin inspector reportId reason severity s)
      fun r => (r.1, .slashId r.2)
  | .finalizeInspectorSlash admin slashId =>
    commit (finalizeInspectorSlash env admin slashId s) moved
  | .cancelInspectorSlash admin slashId => commit (cancelInspectorSlash env admin slashId s) done

/-- The contract at the address `own`. -/
def machine (own : Address) : Machine State (Env own × Call) Output where
  step s i := invoke i.1 s i.2

end Shelterflex.InspectorBond
