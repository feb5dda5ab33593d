import Shelterflex.Host.Basic
import Shelterflex.Lib.Machine
import Shelterflex.Lib.Store

namespace Shelterflex.MultisigAdmin
open Lib
set_option autoImplicit true

structure Config where
  signers : List Address
  threshold : Nat
deriving DecidableEq, Repr

inductive ProposalStatus where
  | pending
  | executed
  | cancelled
  | expired
deriving DecidableEq, Repr

inductive OperationType where
  | forceReleaseEscrow
  | executeSlash
  | upgradeContract
  | setOracleStaleness
  | freezeAccount
  | updateUpgradeDelay
deriving DecidableEq, Repr

structure Proposal where
  proposer : Address
  operation : OperationType
  params : Bytes
  expiry : Nat
  status : ProposalStatus
  approvalCount : Nat
deriving DecidableEq, Repr

structure State where
  config : Option Config
  nextProposalId : Option Nat
  proposal : Store Nat Proposal
  approvals : Store Nat (List Address)

def State.fresh : State := ⟨none, none, .empty, .empty⟩

/-- The contract declares no errors: it panics. -/
abbrev Result (α : Type) := Outcome Empty α

def nextId (s : State) : Nat := s.nextProposalId.getD 1

def getApprovals (s : State) (proposalId : Nat) : List Address := s.approvals.getD proposalId []

def init (signers : List Address) (threshold : Nat) (s : State) : Result State := do
  demand (s.config = none) "AlreadyInitialized"
  demand (¬ (threshold = 0 ∨ signers.length < threshold)) "InvalidThreshold"
  return { s with config := some ⟨signers, threshold⟩, nextProposalId := some 1 }

def getProposal (proposalId : Nat) (s : State) : Result Proposal :=
  expect (s.proposal.get proposalId)

/-- The ids of the proposals, or of those with a status. -/
def listProposals (statusFilter : Option ProposalStatus) (s : State) : List Nat :=
  (List.range' 1 (nextId s - 1)).filter fun i =>
    match statusFilter with
    | none => true
    | some filter => (s.proposal.get i).any (·.status = filter)

section
variable (env : Env own)

/-- The guard that every entry point opens with. -/
def requireSigner (caller : Address) (s : State) : Result Config := do
  env.requireAuth caller
  let cfg ← expect s.config
  demand (caller ∈ cfg.signers) "NotASigner"
  return cfg

def propose (proposer : Address) (operation : OperationType) (params : Bytes) (expiry : Nat)
    (s : State) : Result (State × Nat) := do
  let _ ← requireSigner env proposer s
  demand (¬ (expiry ≠ 0 ∧ expiry ≤ env.timestamp)) "ProposalExpired"
  let proposalId := nextId s
  let s := { s with
    proposal := s.proposal.set proposalId ⟨proposer, operation, params, expiry, .pending, 0⟩
    approvals := s.approvals.set proposalId [] }
  let next ← u64Add proposalId 1
  return ({ s with nextProposalId := some next }, proposalId)

def requirePending (proposalId : Nat) (s : State) : Result Proposal := do
  let prop ← getProposal proposalId s
  demand (prop.status = .pending) "NotPending"
  return prop

/-- A panic takes back the status `Expired` that `approve` and `execute` write before it. -/
def requireUnexpired (prop : Proposal) : Result Unit :=
  demand (¬ (prop.expiry ≠ 0 ∧ prop.expiry < env.timestamp)) "ProposalExpired"

def putApprovals (proposalId : Nat) (prop : Proposal) (approvals : List Address) (s : State) :
    State :=
  { s with
    approvals := s.approvals.set proposalId approvals
    proposal := s.proposal.set proposalId { prop with approvalCount := approvals.length } }

def putStatus (proposalId : Nat) (prop : Proposal) (status : ProposalStatus) (s : State) : State :=
  { s with proposal := s.proposal.set proposalId { prop with status } }

def approve (signer : Address) (proposalId : Nat) (s : State) : Result State := do
  let _ ← requireSigner env signer s
  let prop ← requirePending proposalId s
  requireUnexpired env prop
  let approvals := getApprovals s proposalId
  demand (signer ∉ approvals) "AlreadyApproved"
  return putApprovals proposalId prop (approvals ++ [signer]) s

def revokeApproval (signer : Address) (proposalId : Nat) (s : State) : Result State := do
  let _ ← requireSigner env signer s
  let prop ← requirePending proposalId s
  requireUnexpired env prop
  let approvals := getApprovals s proposalId
  demand (signer ∈ approvals) "NotApproved"
  return putApprovals proposalId prop (approvals.filter (· ≠ signer)) s

def execute (executor : Address) (proposalId : Nat) (s : State) : Result State := do
  let cfg ← requireSigner env executor s
  let prop ← requirePending proposalId s
  requireUnexpired env prop
  demand (cfg.threshold ≤ (getApprovals s proposalId).length) "NotEnoughApprovals"
  return putStatus proposalId prop .executed s

def cancel (caller : Address) (proposalId : Nat) (s : State) : Result State := do
  let _ ← requireSigner env caller s
  let prop ← requirePending proposalId s
  return putStatus proposalId prop .cancelled s

end

inductive Call where
  | init (signers : List Address) (threshold : Nat)
  | propose (proposer : Address) (operation : OperationType) (params : Bytes) (expiry : Nat)
  | approve (signer : Address) (proposalId : Nat)
  | revokeApproval (signer : Address) (proposalId : Nat)
  | execute (executor : Address) (proposalId : Nat)
  | cancel (caller : Address) (proposalId : Nat)
deriving DecidableEq

inductive Output where
  | unit
  | id (n : Nat)
deriving DecidableEq

def done (s : State) : State × Output := (s, .unit)

def invoke (env : Env own) (s : State) : Call → Option (State × Output)
  | .init signers threshold => commit (init signers threshold s) done
  | .propose proposer operation params expiry =>
    commit (propose env proposer operation params expiry s) fun r => (r.1, .id r.2)
  | .approve signer proposalId => commit (approve env signer proposalId s) done
  | .revokeApproval signer proposalId => commit (revokeApproval env signer proposalId s) done
  | .execute executor proposalId => commit (execute env executor proposalId s) done
  | .cancel caller proposalId => commit (cancel env caller proposalId s) done

/-- The contract at the address `own`. -/
def machine (own : Address) : Machine State (Env own × Call) Output where
  step s i := invoke i.1 s i.2

end Shelterflex.MultisigAdmin
