import Shelterflex.Host.TtlStorage
import Shelterflex.Lib.Machine

namespace Shelterflex.SchemaRegistry
open Lib
set_option autoImplicit true

structure SchemaVersion where
  major : Nat
  minor : Nat
  patch : Nat
deriving DecidableEq, Repr

structure CompatibilityMeta where
  source : SchemaVersion
  target : SchemaVersion
  requiresDryRun : Bool
  description : Bytes
deriving DecidableEq, Repr

structure MigrationReceipt where
  migrationId : Nat
  source : SchemaVersion
  target : SchemaVersion
  executedBy : Address
  ledger : Nat
  verificationHash : BytesN 32
deriving DecidableEq, Repr

inductive InvariantResult where
  | pass
  | fail (reason : String)
deriving DecidableEq, Repr

inductive RegistryError where
  | unauthorized
  | unsupportedTransition
  | invariantViolation
  | alreadyExecuted
  | dryRunRequired
  | invalidVersion
  | versionMismatch
deriving DecidableEq, Repr

abbrev Result (α : Type) := Outcome RegistryError α

abbrev Matrix := Store (Nat × Nat) CompatibilityMeta

structure State where
  registrySchemaVersion : Option SchemaVersion
  admin : Option Address
  compatibilityMatrix : Option Matrix
  migrationReceipt : Store (Nat × Nat) MigrationReceipt
  nextMigrationId : Option Nat
  migrationReceiptById : Store Nat MigrationReceipt

def State.fresh : State := ⟨none, none, none, .empty, none, .empty⟩

def initialVersion : SchemaVersion := ⟨1, 0, 0⟩

/-- A version as a single number, in which an overflow aborts the call. -/
def versionId (v : SchemaVersion) : Result Nat := do
  let major ← u32Mul v.major 1000000
  let minor ← u32Mul v.minor 1000
  let n ← u32Add major minor
  u32Add n v.patch

/-- The key of a transition. -/
def transitionKey (source target : SchemaVersion) : Result (Nat × Nat) := do
  let sourceId ← versionId source
  let targetId ← versionId target
  return (sourceId, targetId)

def getMatrix (s : State) : Matrix := s.compatibilityMatrix.getD .empty

def registryVersion (s : State) : SchemaVersion := s.registrySchemaVersion.getD initialVersion

def requireAdmin (caller : Address) (s : State) : Result Unit := do
  let admin ← okOr s.admin .unauthorized
  require (admin = caller) .unauthorized

def checkInvariants (source target : SchemaVersion) : Result InvariantResult := do
  let (sourceId, targetId) ← transitionKey source target
  if targetId ≤ sourceId then
    return .fail "target version must exceed source version"
  else if source.major < target.major ∧ target.minor ≠ 0 then
    return .fail "major bump must reset minor to 0"
  else
    return .pass

def requireInvariants (source target : SchemaVersion) : Result Unit := do
  let result ← checkInvariants source target
  require (result = .pass) .invariantViolation

/-- Some transitions are checked before their post-check too. -/
def requireDryRun (info : CompatibilityMeta) (source target : SchemaVersion) : Result Unit :=
  if info.requiresDryRun then requireInvariants source target else .ok ()

/-- `initialize` in the source. -/
def init (admin : Address) (s : State) : Result State := do
  demand (s.admin = none) "already initialized"
  return { s with
    registrySchemaVersion := some initialVersion
    admin := some admin
    compatibilityMatrix := some .empty }

section
variable (env : LedgerEnv own)

def registerTransition (caller : Address) (info : CompatibilityMeta) (s : State) :
    Result State := do
  env.requireAuth caller
  requireAdmin caller s
  require (info.source ≠ info.target) .invalidVersion
  let key ← transitionKey info.source info.target
  return { s with compatibilityMatrix := some ((getMatrix s).set key info) }

/-- The entry of a transition, under the key that the versions are packed into. -/
def lookupTransition (source target : SchemaVersion) (s : State) :
    Result (Option CompatibilityMeta) := do
  let key ← transitionKey source target
  return (getMatrix s).get key

def dryRun (source target : SchemaVersion) (s : State) : Result InvariantResult := do
  let entry ← lookupTransition source target s
  require (entry.isSome = true) .unsupportedTransition
  checkInvariants source target

def isTransitionSupported (source target : SchemaVersion) (s : State) : Result Bool := do
  let entry ← lookupTransition source target s
  return entry.isSome

def nextMigrationId (s : State) : Result (Nat × State) := do
  let next ← u32Add (s.nextMigrationId.getD 0) 1
  return (next, { s with nextMigrationId := some next })

/-- The version of the registry must be the declared source. The event of a rejection packs it. -/
def requireVersion (source : SchemaVersion) (s : State) : Result Unit :=
  if registryVersion s ≠ source then do
    let _ ← versionId (registryVersion s)
    .error (.err .versionMismatch)
  else .ok ()

def executeMigration (caller : Address) (source target : SchemaVersion)
    (verificationHash : BytesN 32) (s : State) : Result (MigrationReceipt × State) := do
  env.requireAuth caller
  let key ← transitionKey source target
  requireVersion source s
  let info ← okOr ((getMatrix s).get key) .unsupportedTransition
  require (s.migrationReceipt.has key = false) .alreadyExecuted
  requireDryRun info source target
  requireInvariants source target
  let (migrationId, s) ← nextMigrationId s
  let receipt : MigrationReceipt :=
    ⟨migrationId, source, target, caller, env.sequence, verificationHash⟩
  return (receipt, { s with
    registrySchemaVersion := some target
    migrationReceipt := s.migrationReceipt.set key receipt
    migrationReceiptById := s.migrationReceiptById.set migrationId receipt })

end

def getReceipt (source target : SchemaVersion) (s : State) : Result (Option MigrationReceipt) := do
  let key ← transitionKey source target
  return s.migrationReceipt.get key

def verifyMigration (migrationId : Nat) (expectedTo : SchemaVersion) (s : State) : Bool :=
  match s.migrationReceiptById.get migrationId with
  | some r => r.target = expectedTo
  | none => false

inductive Call where
  | init (admin : Address)
  | registerTransition (caller : Address) (info : CompatibilityMeta)
  | executeMigration (caller : Address) (source target : SchemaVersion)
      (verificationHash : BytesN 32)
deriving DecidableEq

/-- A call that executes a migration returns its receipt. -/
def invoke (env : LedgerEnv own) (s : State) : Call → Option (State × Option MigrationReceipt)
  | .init admin => commit (init admin s) (·, none)
  | .registerTransition caller info => commit (registerTransition env caller info s) (·, none)
  | .executeMigration caller source target verificationHash =>
    commit (executeMigration env caller source target verificationHash s) fun r => (r.2, some r.1)

/-- The contract at the address `own`. -/
def machine (own : Address) : Machine State (LedgerEnv own × Call) (Option MigrationReceipt) where
  step s i := invoke i.1 s i.2

end Shelterflex.SchemaRegistry
