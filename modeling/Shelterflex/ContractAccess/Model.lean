import Shelterflex.Host.Basic
import Shelterflex.Lib.Machine
import Shelterflex.Lib.Table

namespace Shelterflex.ContractAccess
open Lib
set_option autoImplicit true

inductive Role where
  | admin
  | operator
  | user
  | auditor
deriving DecidableEq, Repr

/-- `init` is `Initialize` in the source. -/
inductive Permission where
  | init
  | pauseContract
  | upgradeContract
  | assignRole
  | revokeRole
  | transferAdmin
  | creditFunds
  | debitFunds
  | transferFunds
  | stake
  | unstake
  | setLockPeriod
  | readBalance
  | readAuditLog
  | delegatePermission
deriving DecidableEq, Repr

structure DelegationInfo where
  delegator : Address
  permission : Permission
deriving DecidableEq, Repr

inductive AccessError where
  | unauthorized
  | awaitingApproval
  | alreadyInitialized
  | cannotRevokeLastAdmin
  | noSecondApprover
  | noDelegationFound
deriving DecidableEq, Repr

abbrev Result (α : Type) := Outcome AccessError α

/-- The proposals hold the number of a role, or the sentinel of a revocation. -/
structure State where
  admin : Option Address
  secondApprover : Option Address
  roles : Table Address Role
  proposals : Table Address Nat
  delegations : Table Address DelegationInfo

def State.fresh : State := ⟨none, none, ∅, ∅, ∅⟩

def Role.toU32 : Role → Nat
  | .admin => 0
  | .operator => 1
  | .user => 2
  | .auditor => 3

/-- The role of a stored number; what is no other role's number is the auditor's. -/
def roleOf : Nat → Role
  | 0 => .admin
  | 1 => .operator
  | 2 => .user
  | _ => .auditor

/-- `u32::MAX`, the sentinel of a revocation. -/
def u32Max : Nat := 2 ^ 32 - 1

def permissionMatrix : Role → List Permission
  | .admin =>
    [.init, .pauseContract, .upgradeContract, .assignRole, .revokeRole, .transferAdmin,
      .creditFunds, .debitFunds, .transferFunds, .stake, .unstake, .setLockPeriod, .readBalance,
      .readAuditLog, .delegatePermission]
  | .operator =>
    [.creditFunds, .debitFunds, .transferFunds, .stake, .unstake, .readBalance, .readAuditLog]
  | .user => [.stake, .unstake, .readBalance]
  | .auditor => [.readBalance, .readAuditLog]

def roleHasPermission (role : Role) (perm : Permission) : Bool :=
  decide (perm ∈ permissionMatrix role)

/-- The permission comes with the role of the address. -/
def hasPermissionInternal (s : State) (addr : Address) (permission : Permission) : Bool :=
  (s.roles.get addr).any (roleHasPermission · permission)

/-- A delegation is valid as long as the role of its delegator has the permission. -/
def hasDelegation (s : State) (delegatee : Address) (perm : Permission) : Bool :=
  (s.delegations.get delegatee).any fun info =>
    decide (info.permission = perm) && hasPermissionInternal s info.delegator perm

def hasPermission (s : State) (addr : Address) (permission : Permission) : Bool :=
  hasPermissionInternal s addr permission || hasDelegation s addr permission

def getAdmin (s : State) : Result Address := expect s.admin

/-- The address is the only one with the role of an admin. -/
def isLastAdmin (s : State) (subject : Address) : Bool :=
  decide (s.roles.get subject = some .admin) &&
    decide (s.roles.count (fun r => decide (r = .admin)) ≤ 1)

section
variable (env : Env own)

def init (admin secondApprover : Address) (s : State) : Result State := do
  require (s.admin = none) .alreadyInitialized
  env.requireAuth admin
  return { s with
    admin := some admin
    secondApprover := some secondApprover
    roles := AList.insert admin .admin ∅ }

/-- The check that the proposals open with. -/
def requireAdmin (admin : Address) (s : State) : Result Unit := do
  env.requireAuth admin
  let currentAdmin ← getAdmin s
  require (admin = currentAdmin) .unauthorized

/-- The check that the confirmations open with. -/
def requireSecondApprover (approver : Address) (s : State) : Result Unit := do
  env.requireAuth approver
  let second ← okOr s.secondApprover .noSecondApprover
  require (approver = second) .unauthorized

def proposeAssignRole (admin subject : Address) (role : Role) (s : State) : Result State := do
  requireAdmin env admin s
  return { s with proposals := s.proposals.insert subject role.toU32 }

def confirmAssignRole (approver subject : Address) (s : State) : Result State := do
  requireSecondApprover env approver s
  let roleU32 ← okOr (s.proposals.get subject) .awaitingApproval
  return { s with
    proposals := s.proposals.erase subject
    roles := s.roles.insert subject (roleOf roleU32) }

def proposeRevokeRole (admin subject : Address) (s : State) : Result State := do
  requireAdmin env admin s
  require (isLastAdmin s subject = false) .cannotRevokeLastAdmin
  return { s with proposals := s.proposals.insert subject u32Max }

def confirmRevokeRole (approver subject : Address) (s : State) : Result State := do
  requireSecondApprover env approver s
  let sentinel ← okOr (s.proposals.get subject) .awaitingApproval
  require (sentinel = u32Max) .awaitingApproval
  return { s with
    proposals := s.proposals.erase subject
    roles := s.roles.erase subject }

def delegatePermission (delegator delegatee : Address) (permission : Permission) (s : State) :
    Result State := do
  env.requireAuth delegator
  require (hasPermission s delegator permission = true) .unauthorized
  return { s with delegations := s.delegations.insert delegatee ⟨delegator, permission⟩ }

def revokeDelegation (caller delegatee : Address) (s : State) : Result State := do
  env.requireAuth caller
  let info ← okOr (s.delegations.get delegatee) .noDelegationFound
  let currentAdmin ← getAdmin s
  require (¬ (caller ≠ currentAdmin ∧ caller ≠ info.delegator)) .unauthorized
  return { s with delegations := s.delegations.erase delegatee }

end

inductive Call where
  | init (admin secondApprover : Address)
  | proposeAssignRole (admin subject : Address) (role : Role)
  | confirmAssignRole (approver subject : Address)
  | proposeRevokeRole (admin subject : Address)
  | confirmRevokeRole (approver subject : Address)
  | delegatePermission (delegator delegatee : Address) (permission : Permission)
  | revokeDelegation (caller delegatee : Address)
deriving DecidableEq

def invoke (env : Env own) (s : State) (c : Call) : Option (State × Unit) :=
  commit (match c with
    | .init admin secondApprover => init env admin secondApprover s
    | .proposeAssignRole admin subject role => proposeAssignRole env admin subject role s
    | .confirmAssignRole approver subject => confirmAssignRole env approver subject s
    | .proposeRevokeRole admin subject => proposeRevokeRole env admin subject s
    | .confirmRevokeRole approver subject => confirmRevokeRole env approver subject s
    | .delegatePermission delegator delegatee permission =>
      delegatePermission env delegator delegatee permission s
    | .revokeDelegation caller delegatee => revokeDelegation env caller delegatee s) (·, ())

/-- The contract at the address `own`. -/
def machine (own : Address) : Machine State (Env own × Call) Unit where
  step s i := invoke i.1 s i.2

end Shelterflex.ContractAccess
