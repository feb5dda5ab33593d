import Shelterflex.Host.Guards

namespace Shelterflex.UpgradeGovernance
set_option autoImplicit true

inductive UpgradeGovernanceError where
  | notAuthorized
  | upgradeAlreadyPending
  | noPendingUpgrade
  | upgradeDelayNotElapsed
  | guardianNotConfigured
  | invalidUpgradeVersion
  | incompatibleSchemaVersion
deriving DecidableEq, Repr

/-- The entries under `UpgradeGovernanceKey`. -/
structure Gov where
  admin : Option Address
  guardian : Option Address
  pendingUpgradeHash : Option (BytesN 32)
  pendingUpgradeAt : Option Nat
  pendingUpgradeVersion : Option Nat
  contractVersion : Option Nat
  upgradeDelay : Option Nat
  storageSchemaVersion : Option Nat
deriving DecidableEq, Repr

def Gov.fresh : Gov := ⟨none, none, none, none, none, none, none, none⟩

def getAdmin (g : Gov) : Outcome ε Address := expect g.admin

def getContractVersion (g : Gov) : Nat := g.contractVersion.getD 0

def getStorageSchemaVersion (g : Gov) : Nat := g.storageSchemaVersion.getD 1

def getUpgradeDelay (g : Gov) : Nat := g.upgradeDelay.getD 0

def validateUpgradeSafety (g : Gov) (newVersion : Nat) (newSchemaVersion : Option Nat) :
    Outcome UpgradeGovernanceError Unit := do
  let next ← u32Add (getContractVersion g) 1
  require (newVersion = next) .invalidUpgradeVersion
  match newSchemaVersion with
  | some newSchema => require (getStorageSchemaVersion g ≤ newSchema) .incompatibleSchemaVersion
  | none => .ok ()

def requireGovAdmin (env : Env own) (admin : Address) (g : Gov) :
    Outcome UpgradeGovernanceError Unit := do
  let currentAdmin ← getAdmin g
  require (admin = currentAdmin) .notAuthorized
  env.requireAuth admin

def proposeUpgrade (env : Env own) (admin : Address) (newWasmHash : BytesN 32)
    (newVersion : Nat) (newSchemaVersion : Option Nat) (g : Gov) :
    Outcome UpgradeGovernanceError Gov := do
  requireGovAdmin env admin g
  require (g.pendingUpgradeHash = none) .upgradeAlreadyPending
  validateUpgradeSafety g newVersion newSchemaVersion
  return { g with
    pendingUpgradeHash := some newWasmHash
    pendingUpgradeAt := some env.timestamp
    pendingUpgradeVersion := some newVersion }

/-- The result carries the hash of the code the host installs. -/
def executeUpgrade (env : Env own) (admin : Address) (newWasmHash : BytesN 32) (g : Gov) :
    Outcome UpgradeGovernanceError (Gov × BytesN 32) := do
  requireGovAdmin env admin g
  let pendingHash ← okOr g.pendingUpgradeHash .noPendingUpgrade
  let pendingAt ← okOr g.pendingUpgradeAt .noPendingUpgrade
  let pendingVersion ← okOr g.pendingUpgradeVersion .noPendingUpgrade
  require (pendingHash = newWasmHash) .noPendingUpgrade
  let executeAt ← u64Add pendingAt (getUpgradeDelay g)
  require (executeAt ≤ env.timestamp) .upgradeDelayNotElapsed
  return ({ g with
    pendingUpgradeHash := none
    pendingUpgradeAt := none
    pendingUpgradeVersion := none
    contractVersion := some pendingVersion }, newWasmHash)

def requireGuardianAuth (env : Env own) (requireGuardian : Bool) (g : Gov) :
    Outcome UpgradeGovernanceError Unit :=
  match g.guardian with
  | some guardian => env.requireAuth guardian
  | none => require (requireGuardian = false) .guardianNotConfigured

def emergencyUpgrade (env : Env own) (admin : Address) (newWasmHash : BytesN 32)
    (newVersion : Nat) (newSchemaVersion : Option Nat) (requireGuardian : Bool) (g : Gov) :
    Outcome UpgradeGovernanceError (Gov × BytesN 32) := do
  requireGovAdmin env admin g
  validateUpgradeSafety g newVersion newSchemaVersion
  requireGuardianAuth env requireGuardian g
  return ({ g with
    pendingUpgradeHash := none
    pendingUpgradeAt := none
    pendingUpgradeVersion := none
    contractVersion := some newVersion }, newWasmHash)

/-- Here a caller that is not the admin must authorize before it is turned away. -/
def requireSettingsAdmin (env : Env own) (admin : Address) (g : Gov) :
    Outcome UpgradeGovernanceError Unit := do
  let currentAdmin ← getAdmin g
  env.requireAuth admin
  require (admin = currentAdmin) .notAuthorized

def setUpgradeDelay (env : Env own) (admin : Address) (delaySeconds : Nat) (g : Gov) :
    Outcome UpgradeGovernanceError Gov := do
  requireSettingsAdmin env admin g
  return { g with upgradeDelay := some delaySeconds }

def setGuardian (env : Env own) (admin : Address) (guardian : Option Address) (g : Gov) :
    Outcome UpgradeGovernanceError Gov := do
  requireSettingsAdmin env admin g
  return { g with guardian := guardian }

/-- The `cancel_upgrade` of the contracts, over the shared keys. Those that pass a version to
`propose_upgrade` also drop the proposed one. -/
def cancelUpgrade (env : Env own) (dropVersion : Bool) (notAuthorized noUpgradePending : ε)
    (admin : Address) (g : Gov) : Outcome ε Gov := do
  let currentAdmin ← getAdmin g
  requireAdminPermission env currentAdmin admin notAuthorized
  require (g.pendingUpgradeHash ≠ none) noUpgradePending
  return { g with
    pendingUpgradeHash := none
    pendingUpgradeAt := none
    pendingUpgradeVersion := if dropVersion then none else g.pendingUpgradeVersion }

theorem validateUpgradeSafety_ok
    (h : validateUpgradeSafety g newVersion newSchemaVersion = .ok u) :
    newVersion = getContractVersion g + 1 := by
  simp only [validateUpgradeSafety, bind_ok, u32Add_ok, require_ok] at h
  obtain ⟨_, ⟨_, rfl⟩, _, hv, _⟩ := h
  exact hv

theorem proposeUpgrade_ok
    (h : proposeUpgrade env admin wasm newVersion newSchemaVersion g = .ok g') :
    g.pendingUpgradeHash = none ∧ newVersion = getContractVersion g + 1 ∧
      g' = { g with
        pendingUpgradeHash := some wasm
        pendingUpgradeAt := some env.timestamp
        pendingUpgradeVersion := some newVersion } := by
  simp only [proposeUpgrade, bind_ok, require_ok, pure_ok] at h
  obtain ⟨_, _, _, hp, _, hv, rfl⟩ := h
  exact ⟨hp, validateUpgradeSafety_ok hv, rfl⟩

theorem executeUpgrade_ok (h : executeUpgrade env admin wasm g = .ok (g', wasm')) :
    ∃ pendingAt pendingVersion, g.pendingUpgradeHash = some wasm ∧
      g.pendingUpgradeAt = some pendingAt ∧ g.pendingUpgradeVersion = some pendingVersion ∧
      pendingAt + getUpgradeDelay g ≤ env.timestamp ∧ wasm' = wasm ∧
      g' = { g with
        pendingUpgradeHash := none
        pendingUpgradeAt := none
        pendingUpgradeVersion := none
        contractVersion := some pendingVersion } := by
  simp only [executeUpgrade, bind_ok, require_ok, okOr_ok, u64Add_ok, pure_ok,
    Prod.mk.injEq] at h
  obtain ⟨_, _, _, hh, pendingAt, ha, pendingVersion, hv, _, rfl, _, ⟨_, rfl⟩, _, ht, rfl, rfl⟩ := h
  exact ⟨pendingAt, pendingVersion, hh, ha, hv, ht, rfl, rfl⟩

theorem emergencyUpgrade_ok
    (h : emergencyUpgrade env admin wasm newVersion newSchemaVersion requireGuardian g =
      .ok (g', wasm')) :
    newVersion = getContractVersion g + 1 ∧ wasm' = wasm ∧
      g' = { g with
        pendingUpgradeHash := none
        pendingUpgradeAt := none
        pendingUpgradeVersion := none
        contractVersion := some newVersion } := by
  simp only [emergencyUpgrade, bind_ok, pure_ok, Prod.mk.injEq] at h
  obtain ⟨_, _, _, hv, _, _, rfl, rfl⟩ := h
  exact ⟨validateUpgradeSafety_ok hv, rfl, rfl⟩

theorem setUpgradeDelay_ok (h : setUpgradeDelay env admin delay g = .ok g') :
    g' = { g with upgradeDelay := some delay } := by
  simp only [setUpgradeDelay, bind_ok, pure_ok] at h
  obtain ⟨_, _, rfl⟩ := h
  rfl

theorem setGuardian_ok (h : setGuardian env admin guardian g = .ok g') :
    g' = { g with guardian := guardian } := by
  simp only [setGuardian, bind_ok, pure_ok] at h
  obtain ⟨_, _, rfl⟩ := h
  rfl

theorem cancelUpgrade_ok {e e' : ε} (h : cancelUpgrade env dropVersion e e' admin g = .ok g') :
    g.pendingUpgradeHash ≠ none ∧
      g' = { g with
        pendingUpgradeHash := none
        pendingUpgradeAt := none
        pendingUpgradeVersion := if dropVersion then none else g.pendingUpgradeVersion } := by
  simp only [cancelUpgrade, bind_ok, require_ok, pure_ok] at h
  obtain ⟨_, _, _, _, _, hp, rfl⟩ := h
  exact ⟨hp, rfl⟩

end Shelterflex.UpgradeGovernance
