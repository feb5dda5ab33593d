import Shelterflex.Host.Guards
import Shelterflex.Lib.Machine
import Shelterflex.Lib.Store

namespace Shelterflex.Governance
open Lib
set_option autoImplicit true

inductive ContractError where
  | alreadyInitialized
  | notAuthorized
  | proposalNotFound
  | proposalNotActive
  | votingNotEnded
  | timelockNotElapsed
  | alreadyVoted
  | insufficientStake
  | proposalNotPassed
  | proposalAlreadyExecuted
  | quorumNotReached
deriving DecidableEq, Repr

inductive ProposalStatus where
  | active
  | passed
  | rejected
  | executed
  | cancelled
deriving DecidableEq, Repr

structure Proposal where
  id : Nat
  proposer : Address
  paramKey : String
  currentValue : Int
  proposedValue : Int
  votesFor : Int
  votesAgainst : Int
  status : ProposalStatus
  createdAt : Nat
  votingEndsAt : Nat
  snapshottedTotalStaked : Int
deriving DecidableEq, Repr

def votingPeriodSecs : Nat := 7 * 24 * 3600

def timelockSecs : Nat := 48 * 3600

def quorumBps : Int := 1000

def minStakeToPropose : Int := 1

/-- Instance storage comes first, then the persistent entries. -/
structure State where
  admin : Option Address
  stakingPool : Option Address
  totalStaked : Option Int
  proposalCount : Option Nat
  proposal : Store Nat Proposal
  voted : Store (Nat × Address) Bool
  stakeBalance : Store Address Int
  knownVoters : Option (List Address)
  voterSnapshot : Store (Nat × Address) Int

def State.fresh : State :=
  ⟨none, none, none, none, .empty, .empty, .empty, none, .empty⟩

/-- The staking pools that the contract can be linked to: what `staked_balance` answers for a
user, if the call does not fail. -/
structure Pools (P : Type) where
  stakedBalance : P → Address → Address → Option Int

/-- The contract beside the state of the pools. -/
structure World (P : Type) where
  gov : State
  pools : P

def getAdmin (s : State) : Outcome ε Address := expect s.admin

def getTotalStaked (s : State) : Int := s.totalStaked.getD 0

def getProposal (s : State) (proposalId : Nat) : Option Proposal := s.proposal.get proposalId

def proposalCount (s : State) : Nat := s.proposalCount.getD 0

def knownVoters (s : State) : List Address := s.knownVoters.getD []

def getStakeFor (net : Pools P) (p : P) (s : State) (voter : Address) :
    Outcome ContractError Int :=
  match s.stakingPool with
  | some stakingPool => expect (net.stakedBalance p stakingPool voter)
  | none => return s.stakeBalance.getD voter 0

def registerKnownVoter (voter : Address) (s : State) : State :=
  if voter ∈ knownVoters s then s
  else { s with knownVoters := some (knownVoters s ++ [voter]) }

def snapshotKnownVoterStakesForProposal (net : Pools P) (p : P) (proposalId : Nat) (s : State) :
    Outcome ContractError State :=
  (knownVoters s).foldlM (fun s voter => do
    let stake ← getStakeFor net p s voter
    return { s with voterSnapshot := s.voterSnapshot.set (proposalId, voter) stake }) s

def addVote (support : Bool) (weight : Int) (proposal : Proposal) :
    Outcome ContractError Proposal :=
  if support then do
    let votesFor ← i128Add proposal.votesFor weight
    return { proposal with votesFor }
  else do
    let votesAgainst ← i128Add proposal.votesAgainst weight
    return { proposal with votesAgainst }

def getSnapshotStakeFor (s : State) (proposalId : Nat) (voter : Address) : Int :=
  s.voterSnapshot.getD (proposalId, voter) 0

section
variable (env : Env own)

def requireAdmin (caller : Address) (s : State) : Outcome ContractError Unit := do
  let admin ← getAdmin s
  requireAdminPermission env admin caller .notAuthorized

def init (admin : Address) (totalStaked : Int) (s : State) : Outcome ContractError State := do
  require (s.admin = none) .alreadyInitialized
  return { s with
    admin := some admin
    totalStaked := some totalStaked
    proposalCount := some 0 }

def setTotalStaked (admin : Address) (total : Int) (s : State) :
    Outcome ContractError State := do
  requireAdmin env admin s
  return { s with totalStaked := some total }

def setStakingPool (admin stakingPool : Address) (s : State) : Outcome ContractError State := do
  requireAdmin env admin s
  return { s with stakingPool := some stakingPool }

def setVoterStake (admin voter : Address) (stake : Int) (s : State) :
    Outcome ContractError State := do
  requireAdmin env admin s
  return registerKnownVoter voter { s with stakeBalance := s.stakeBalance.set voter stake }

def createProposal (net : Pools P) (p : P) (proposer : Address) (paramKey : String)
    (currentValue proposedValue : Int) (s : State) : Outcome ContractError (State × Nat) := do
  env.requireAuth proposer
  let stake ← getStakeFor net p s proposer
  require (minStakeToPropose ≤ stake) .insufficientStake
  let id ← u64Add (proposalCount s) 1
  let snapshottedTotalStaked := getTotalStaked s
  let s := registerKnownVoter proposer s
  let s ← snapshotKnownVoterStakesForProposal net p id s
  let votingEndsAt ← u64Add env.timestamp votingPeriodSecs
  let proposal : Proposal :=
    { id, proposer, paramKey, currentValue, proposedValue, votesFor := 0, votesAgainst := 0,
      status := .active, createdAt := env.timestamp, votingEndsAt, snapshottedTotalStaked }
  return ({ s with
    proposal := s.proposal.set id proposal
    proposalCount := some id }, id)

def vote (voter : Address) (proposalId : Nat) (support : Bool) (s : State) :
    Outcome ContractError State := do
  env.requireAuth voter
  let proposal ← okOr (getProposal s proposalId) .proposalNotFound
  require (proposal.status = .active) .proposalNotActive
  -- the code answers with `VotingNotEnded` where voting has ended
  require (env.timestamp ≤ proposal.votingEndsAt) .votingNotEnded
  require (s.voted.has (proposalId, voter) = false) .alreadyVoted
  let weight := getSnapshotStakeFor s proposalId voter
  let proposal ← addVote support weight proposal
  return { s with
    proposal := s.proposal.set proposalId proposal
    voted := s.voted.set (proposalId, voter) true }

def finalizeProposal (proposalId : Nat) (s : State) :
    Outcome ContractError (State × ProposalStatus) := do
  let proposal ← okOr (getProposal s proposalId) .proposalNotFound
  require (proposal.status = .active) .proposalNotActive
  require (proposal.votingEndsAt < env.timestamp) .votingNotEnded
  let totalVotes ← i128Add proposal.votesFor proposal.votesAgainst
  let scaled ← i128Mul proposal.snapshottedTotalStaked quorumBps
  let quorumRequired ← i128Div scaled 10000
  let status : ProposalStatus :=
    if totalVotes < quorumRequired then .rejected
    else if proposal.votesAgainst < proposal.votesFor then .passed
    else .rejected
  return ({ s with proposal := s.proposal.set proposalId { proposal with status } }, status)

def executeProposal (proposalId : Nat) (s : State) : Outcome ContractError State := do
  let proposal ← okOr (getProposal s proposalId) .proposalNotFound
  require (proposal.status ≠ .executed) .proposalAlreadyExecuted
  require (proposal.status = .passed) .proposalNotPassed
  let executeAfter ← u64Add proposal.votingEndsAt timelockSecs
  require (executeAfter ≤ env.timestamp) .timelockNotElapsed
  return { s with
    proposal := s.proposal.set proposalId { proposal with status := .executed } }

def cancelProposal (proposer : Address) (proposalId : Nat) (s : State) :
    Outcome ContractError State := do
  env.requireAuth proposer
  let proposal ← okOr (getProposal s proposalId) .proposalNotFound
  require (proposal.status = .active) .proposalNotActive
  require (proposal.proposer = proposer) .notAuthorized
  return { s with
    proposal := s.proposal.set proposalId { proposal with status := .cancelled } }

end

inductive Call where
  | init (admin : Address) (totalStaked : Int)
  | setTotalStaked (admin : Address) (total : Int)
  | setStakingPool (admin stakingPool : Address)
  | setVoterStake (admin voter : Address) (stake : Int)
  | createProposal (proposer : Address) (paramKey : String) (currentValue proposedValue : Int)
  | vote (voter : Address) (proposalId : Nat) (support : Bool)
  | finalizeProposal (proposalId : Nat)
  | executeProposal (proposalId : Nat)
  | cancelProposal (proposer : Address) (proposalId : Nat)
deriving DecidableEq

inductive Output where
  | unit
  | id (n : Nat)
  | status (status : ProposalStatus)
deriving DecidableEq

def done (s : State) : State × Output := (s, .unit)

def invoke (net : Pools P) (p : P) (env : Env own) (s : State) : Call → Option (State × Output)
  | .init admin totalStaked => commit (init admin totalStaked s) done
  | .setTotalStaked admin total => commit (setTotalStaked env admin total s) done
  | .setStakingPool admin stakingPool => commit (setStakingPool env admin stakingPool s) done
  | .setVoterStake admin voter stake => commit (setVoterStake env admin voter stake s) done
  | .createProposal proposer paramKey currentValue proposedValue =>
    commit (createProposal env net p proposer paramKey currentValue proposedValue s)
      fun r => (r.1, .id r.2)
  | .vote voter proposalId support => commit (vote env voter proposalId support s) done
  | .finalizeProposal proposalId =>
    commit (finalizeProposal env proposalId s) fun r => (r.1, .status r.2)
  | .executeProposal proposalId => commit (executeProposal env proposalId s) done
  | .cancelProposal proposer proposalId =>
    commit (cancelProposal env proposer proposalId s) done

/-- What can happen next: a call of the contract, or anything that others do with the pools. -/
inductive Action (own : Address) (P : Type) where
  | call (env : Env own) (c : Call)
  | traffic (p : P)

def act (net : Pools P) (w : World P) : Action own P → Option (World P × Output)
  | .call env c => (invoke net w.pools env w.gov c).map fun r => (⟨r.1, w.pools⟩, r.2)
  | .traffic p => some (⟨w.gov, p⟩, .unit)

/-- The contract at the address `own`. -/
def machine (net : Pools P) (own : Address) : Machine (World P) (Action own P) Output where
  step := act net

end Shelterflex.Governance
