import Shelterflex.Host.Guards
import Shelterflex.Lib.Machine
import Shelterflex.Lib.Store

namespace Shelterflex.SlashingModule
open Lib
set_option autoImplicit true

inductive ContractError where
  | alreadyInitialized
  | notAuthorized
  | paused
  | duplicateEvidence
  | zeroBalance
  | alreadyJailed
  | notJailed
  | unjailNotApproved
  | unknownOffence
  | arithmeticError
  | slashNotFound
  | challengeWindowNotElapsed
  | slashAlreadyResolved
  | invalidAmount
  | commitmentNotRevealed
  | invalidReveal
deriving DecidableEq, Repr

inductive Offence where
  | doubleSign
  | downtime
  | invalidBlock
  | none
deriving DecidableEq, Repr

inductive SlashStatus where
  | pending
  | finalized
  | cancelled
deriving DecidableEq, Repr

structure PendingSlash where
  id : Nat
  actor : Address
  amount : Int
  deadline : Nat
  status : SlashStatus
  isValidator : Bool
  evidenceHash : Option Bytes
  offence : Offence
  submitter : Option Address
  penaltyBps : Nat
  inspectionId : Option Bytes
  reason : Option Bytes
deriving DecidableEq, Repr

structure SlashEvidence where
  actor : Address
  offence : Offence
  submitter : Address
  submittedAt : Nat
  penaltyBps : Nat
  slashedAmount : Int
deriving DecidableEq, Repr

structure InspectorSlashRecord where
  inspectionId : Bytes
  amount : Int
  reason : Bytes
  slashedAt : Nat
deriving DecidableEq, Repr

structure State where
  admin : Option Address
  paused : Option Bool
  submitter : Store Address Bool
  slashRecord : Store Bytes SlashEvidence
  slashCount : Store Address Nat
  slashedAmount : Store Address Int
  jailed : Store Address Bool
  stakedBalance : Store Address Int
  unjailApproval : Store Address Bool
  bondContract : Option Address
  inspectorSlashHistory : Store Address (List InspectorSlashRecord)
  challengeWindow : Option Nat
  nextSlashId : Option Nat
  pendingSlash : Store Nat PendingSlash
  commitmentRevealed : Store Nat Bool
  tierDoubleSignBps : Option Nat
  tierDowntimeBps : Option Nat
  tierInvalidBlockBps : Option Nat
  maxSlashBps : Option Nat

def State.fresh : State :=
  ⟨none, none, .empty, .empty, .empty, .empty, .empty, .empty, .empty, none, .empty, none, none,
    .empty, .empty, none, none, none, none⟩

def defaultDoubleSignBps : Nat := 1000

def defaultDowntimeBps : Nat := 100

def defaultInvalidBlockBps : Nat := 500

def defaultMaxBps : Nat := 10000

def maxBps : Nat := defaultMaxBps

def getTierBps (s : State) : Offence → Nat
  | .doubleSign => s.tierDoubleSignBps.getD defaultDoubleSignBps
  | .downtime => s.tierDowntimeBps.getD defaultDowntimeBps
  | .invalidBlock => s.tierInvalidBlockBps.getD defaultInvalidBlockBps
  | .none => 0

def getMaxSlashBps (s : State) : Nat := s.maxSlashBps.getD defaultMaxBps

def getStakedBalance (s : State) (actor : Address) : Int := s.stakedBalance.getD actor 0

def getChallengeWindow (s : State) : Nat := s.challengeWindow.getD 604800

def getPendingSlash (s : State) (slashId : Nat) : Option PendingSlash := s.pendingSlash.get slashId

def isJailed (s : State) (actor : Address) : Bool := s.jailed.getD actor false

def getSlashCount (s : State) (actor : Address) : Nat := s.slashCount.getD actor 0

def totalSlashed (s : State) (actor : Address) : Int := s.slashedAmount.getD actor 0

def isSubmitter (s : State) (a : Address) : Bool := s.submitter.getD a false

def isRevealed (s : State) (slashId : Nat) : Bool := s.commitmentRevealed.getD slashId false

def getSlashHistory (s : State) (inspector : Address) : List InspectorSlashRecord :=
  s.inspectorSlashHistory.getD inspector []

def lastSlashId (s : State) : Nat := s.nextSlashId.getD 0

def nextSlashId (s : State) : Outcome ContractError (Nat × State) := do
  let next ← u64Add (lastSlashId s) 1
  return (next, { s with nextSlashId := some next })

def requireNotPaused (s : State) : Outcome ContractError Unit :=
  require (s.paused.getD false = false) .paused

def init (admin : Address) (s : State) : Outcome ContractError State := do
  require (s.admin = none) .alreadyInitialized
  return { s with admin := some admin }

/-- The state that `init` leaves behind. -/
def initialized (admin : Address) : State := { State.fresh with admin := some admin }

theorem init_fresh (admin : Address) : init admin .fresh = .ok (initialized admin) := rfl

/-- The part of a balance that a penalty takes, at most all of it. -/
def proportionalSlash (balance : Int) (penaltyBps : Nat) : Outcome ContractError Int := do
  let product ← i128Mul balance penaltyBps
  let amount ← i128Div product maxBps
  return min amount balance

/-- The reduction of the balance in both kinds of slash, with the amount that was there to take. -/
def reduceBalance (actor : Address) (slashAmount : Int) (s : State) :
    Outcome ContractError (State × Int) := do
  let balance := getStakedBalance s actor
  let actualSlash := min slashAmount balance
  let newBalance ← i128Sub balance actualSlash
  let total ← i128Add (totalSlashed s actor) actualSlash
  return ({ s with
    stakedBalance := s.stakedBalance.set actor newBalance
    slashedAmount := s.slashedAmount.set actor total }, actualSlash)

/-- A record is only kept for a slash that has a commitment. -/
def putSlashRecord (hash : Option Bytes) (record : SlashEvidence) (s : State) : State :=
  match hash with
  | some hash => { s with slashRecord := s.slashRecord.set hash record }
  | none => s

def removeSlashRecord (hash : Option Bytes) (s : State) : State :=
  match hash with
  | some hash => { s with slashRecord := s.slashRecord.remove hash }
  | none => s

def putPendingSlash (pending : PendingSlash) (slashId : Nat) (s : State) : State :=
  { s with pendingSlash := s.pendingSlash.set slashId pending }

section
variable (env : Env own)

def requireAdmin (caller : Address) (s : State) : Outcome ContractError Unit := do
  let admin ← okOr s.admin .notAuthorized
  env.requireAuth caller
  require (caller = admin) .notAuthorized

def requireSubmitter (caller : Address) (s : State) : Outcome ContractError Unit := do
  env.requireAuth caller
  require (isSubmitter s caller = true) .notAuthorized

/-- Who may propose and finalize: the admin, a submitter and the bond contract. -/
def requireSlasher (caller : Address) (s : State) : Outcome ContractError Unit := do
  let admin ← okOr s.admin .notAuthorized
  require (caller = admin ∨ isSubmitter s caller = true ∨ some caller = s.bondContract)
    .notAuthorized
  env.requireAuth caller

def configureTiers (admin : Address)
    (doubleSignBps downtimeBps invalidBlockBps maxSlashBps : Nat) (s : State) :
    Outcome ContractError State := do
  requireAdmin env admin s
  return { s with
    tierDoubleSignBps := some doubleSignBps
    tierDowntimeBps := some downtimeBps
    tierInvalidBlockBps := some invalidBlockBps
    maxSlashBps := some maxSlashBps }

def setSubmitter (admin submitter : Address) (enabled : Bool) (s : State) :
    Outcome ContractError State := do
  requireNotPaused s
  requireAdmin env admin s
  return { s with submitter := s.submitter.set submitter enabled }

def setStakedBalance (admin actor : Address) (balance : Int) (s : State) :
    Outcome ContractError State := do
  requireNotPaused s
  requireAdmin env admin s
  return { s with stakedBalance := s.stakedBalance.set actor balance }

def setChallengeWindow (admin : Address) (windowSeconds : Nat) (s : State) :
    Outcome ContractError State := do
  requireAdmin env admin s
  return { s with challengeWindow := some windowSeconds }

def submitEvidence (submitter : Address) (commitment : Bytes) (actor : Address)
    (offence : Offence) (s : State) : Outcome ContractError (State × Nat) := do
  requireSubmitter env submitter s
  require (s.slashRecord.has commitment = false) .duplicateEvidence
  require (isJailed s actor = false) .alreadyJailed
  let rawBps := getTierBps s offence
  require (rawBps ≠ 0) .unknownOffence
  let penaltyBps := min rawBps (getMaxSlashBps s)
  let balance := getStakedBalance s actor
  require (balance ≠ 0) .zeroBalance
  let slashAmount ← proportionalSlash balance penaltyBps
  let (slashId, s) ← nextSlashId s
  let deadline ← u64Add env.timestamp (getChallengeWindow s)
  let pending : PendingSlash :=
    { id := slashId, actor, amount := slashAmount, deadline, status := .pending,
      isValidator := true, evidenceHash := some commitment, offence,
      submitter := some submitter, penaltyBps, inspectionId := none, reason := none }
  let s := putPendingSlash pending slashId s
  return ({ s with
    slashRecord := s.slashRecord.set commitment
      ⟨actor, offence, submitter, env.timestamp, penaltyBps, 0⟩
    commitmentRevealed := s.commitmentRevealed.set slashId false }, slashId)

def hashCommitment (sha256 : Bytes → BytesN 32) (evidence salt : Bytes) : Bytes :=
  (sha256 (evidence ++ salt)).toList

/-- A slash that is already revealed is left alone, whatever the evidence. -/
def revealEvidence (sha256 : Bytes → BytesN 32) (submitter : Address) (slashId : Nat)
    (evidence salt : Bytes) (s : State) : Outcome ContractError State := do
  requireSubmitter env submitter s
  let pending ← okOr (getPendingSlash s slashId) .slashNotFound
  require (pending.status = .pending) .slashAlreadyResolved
  if isRevealed s slashId = true then
    return s
  else do
    require (hashCommitment sha256 evidence salt = pending.evidenceHash.getD []) .invalidReveal
    return { s with commitmentRevealed := s.commitmentRevealed.set slashId true }

def proposeSlash (submitter actor : Address) (penaltyBps : Nat) (s : State) :
    Outcome ContractError (State × Nat) := do
  requireSlasher env submitter s
  let effectiveBps := min penaltyBps (getMaxSlashBps s)
  let balance := getStakedBalance s actor
  require (balance ≠ 0) .zeroBalance
  let amount ← proportionalSlash balance effectiveBps
  require (0 < amount) .invalidAmount
  let (slashId, s) ← nextSlashId s
  let deadline ← u64Add env.timestamp (getChallengeWindow s)
  let pending : PendingSlash :=
    { id := slashId, actor, amount, deadline, status := .pending, isValidator := false,
      evidenceHash := none, offence := .none, submitter := some submitter,
      penaltyBps := effectiveBps, inspectionId := none, reason := none }
  return (putPendingSlash pending slashId s, slashId)

/-- What finalizing does for a slash that came with evidence. -/
def applyValidatorSlash (caller : Address) (pending : PendingSlash) (s : State) :
    Outcome ContractError State := do
  let (s, actualSlash) ← reduceBalance pending.actor pending.amount s
  let count ← u32Add (getSlashCount s pending.actor) 1
  let s := { s with slashCount := s.slashCount.set pending.actor count }
  let s := putSlashRecord pending.evidenceHash
    ⟨pending.actor, pending.offence, pending.submitter.getD caller, env.timestamp,
      pending.penaltyBps, actualSlash⟩ s
  return { s with jailed := s.jailed.set pending.actor true }

def applyProposedSlash (pending : PendingSlash) (s : State) : Outcome ContractError State :=
  if 0 < pending.amount then do
    let (s, _) ← reduceBalance pending.actor pending.amount s
    return s
  else
    return s

def finalizeSlash (caller : Address) (slashId : Nat) (s : State) :
    Outcome ContractError State := do
  requireSlasher env caller s
  let pending ← okOr (getPendingSlash s slashId) .slashNotFound
  require (pending.status = .pending) .slashAlreadyResolved
  require (pending.deadline ≤ env.timestamp) .challengeWindowNotElapsed
  require (pending.isValidator = false ∨ isRevealed s slashId = true) .commitmentNotRevealed
  let pending := { pending with status := .finalized }
  let s := putPendingSlash pending slashId s
  if pending.isValidator then applyValidatorSlash env caller pending s
  else applyProposedSlash pending s

def cancelSlash (admin : Address) (slashId : Nat) (s : State) : Outcome ContractError State := do
  requireAdmin env admin s
  let pending ← okOr (getPendingSlash s slashId) .slashNotFound
  require (pending.status = .pending) .slashAlreadyResolved
  let s := putPendingSlash { pending with status := .cancelled } slashId s
  let s := if pending.isValidator then removeSlashRecord pending.evidenceHash s else s
  return { s with commitmentRevealed := s.commitmentRevealed.remove slashId }

def approveUnjail (admin actor : Address) (s : State) : Outcome ContractError State := do
  requireNotPaused s
  requireAdmin env admin s
  require (isJailed s actor = true) .notJailed
  return { s with unjailApproval := s.unjailApproval.set actor true }

def unjail (actor : Address) (s : State) : Outcome ContractError State := do
  requireNotPaused s
  env.requireAuth actor
  require (isJailed s actor = true) .notJailed
  require (s.unjailApproval.getD actor false = true) .unjailNotApproved
  return { s with
    unjailApproval := s.unjailApproval.remove actor
    jailed := s.jailed.set actor false }

def setBondContract (admin bondContract : Address) (s : State) :
    Outcome ContractError State := do
  requireNotPaused s
  requireAdmin env admin s
  return { s with bondContract := some bondContract }

def slash (caller inspector : Address) (amount : Int) (inspectionId reason : Bytes)
    (s : State) : Outcome ContractError (State × Int) := do
  requireNotPaused s
  let registered ← okOr s.bondContract .notAuthorized
  require (caller = registered) .notAuthorized
  env.requireAuth caller
  require (0 < amount) .arithmeticError
  let record : InspectorSlashRecord := ⟨inspectionId, amount, reason, env.timestamp⟩
  return ({ s with
    inspectorSlashHistory := s.inspectorSlashHistory.set inspector
      (getSlashHistory s inspector ++ [record]) }, amount)

def pause (admin : Address) (s : State) : Outcome ContractError State := do
  requireAdmin env admin s
  return { s with paused := some true }

def unpause (admin : Address) (s : State) : Outcome ContractError State := do
  requireAdmin env admin s
  return { s with paused := some false }

end

/-- The calls after `init`, which does not run on a module that has an admin. -/
inductive Call where
  | configureTiers (admin : Address)
      (doubleSignBps downtimeBps invalidBlockBps maxSlashBps : Nat)
  | setSubmitter (admin submitter : Address) (enabled : Bool)
  | setStakedBalance (admin actor : Address) (balance : Int)
  | setChallengeWindow (admin : Address) (windowSeconds : Nat)
  | submitEvidence (submitter : Address) (commitment : Bytes) (actor : Address)
      (offence : Offence)
  | revealEvidence (submitter : Address) (slashId : Nat) (evidence salt : Bytes)
  | proposeSlash (submitter actor : Address) (penaltyBps : Nat)
  | finalizeSlash (caller : Address) (slashId : Nat)
  | cancelSlash (admin : Address) (slashId : Nat)
  | approveUnjail (admin actor : Address)
  | unjail (actor : Address)
  | setBondContract (admin bondContract : Address)
  | slash (caller inspector : Address) (amount : Int) (inspectionId reason : Bytes)
  | pause (admin : Address)
  | unpause (admin : Address)
deriving DecidableEq

inductive Output where
  | unit
  | slashId (id : Nat)
  | amount (n : Int)
deriving DecidableEq

def invoke (sha256 : Bytes → BytesN 32) (env : Env own) (s : State) :
    Call → Option (State × Output)
  | .configureTiers admin doubleSignBps downtimeBps invalidBlockBps maxSlashBps =>
    commit (configureTiers env admin doubleSignBps downtimeBps invalidBlockBps maxSlashBps s)
      (·, .unit)
  | .setSubmitter admin submitter enabled =>
    commit (setSubmitter env admin submitter enabled s) (·, .unit)
  | .setStakedBalance admin actor balance =>
    commit (setStakedBalance env admin actor balance s) (·, .unit)
  | .setChallengeWindow admin windowSeconds =>
    commit (setChallengeWindow env admin windowSeconds s) (·, .unit)
  | .submitEvidence submitter commitment actor offence =>
    commit (submitEvidence env submitter commitment actor offence s) fun r => (r.1, .slashId r.2)
  | .revealEvidence submitter slashId evidence salt =>
    commit (revealEvidence env sha256 submitter slashId evidence salt s) (·, .unit)
  | .proposeSlash submitter actor penaltyBps =>
    commit (proposeSlash env submitter actor penaltyBps s) fun r => (r.1, .slashId r.2)
  | .finalizeSlash caller slashId => commit (finalizeSlash env caller slashId s) (·, .unit)
  | .cancelSlash admin slashId => commit (cancelSlash env admin slashId s) (·, .unit)
  | .approveUnjail admin actor => commit (approveUnjail env admin actor s) (·, .unit)
  | .unjail actor => commit (unjail env actor s) (·, .unit)
  | .setBondContract admin bondContract =>
    commit (setBondContract env admin bondContract s) (·, .unit)
  | .slash caller inspector amount inspectionId reason =>
    commit (slash env caller inspector amount inspectionId reason s) fun r => (r.1, .amount r.2)
  | .pause admin => commit (pause env admin s) (·, .unit)
  | .unpause admin => commit (unpause env admin s) (·, .unit)

/-- The module at the address `own`, over the host's hash function. -/
def machine (sha256 : Bytes → BytesN 32) (own : Address) :
    Machine State (Env own × Call) Output where
  step s c := invoke sha256 c.1 s c.2

end Shelterflex.SlashingModule
