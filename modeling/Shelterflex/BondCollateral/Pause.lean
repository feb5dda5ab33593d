import Shelterflex.BondCollateral.Liquidation

namespace Shelterflex.BondCollateral
open Lib UpgradeGovernance
set_option autoImplicit true

/-- The upgrade entry points that leave everything to the shared library. -/
def Call.governs : Call → Bool
  | .setGuardian _ _ | .setUpgradeDelay _ _ | .proposeUpgrade _ _ _ | .executeUpgrade _ _
  | .emergencyUpgrade _ _ _ => true
  | _ => false

def AdminSigned (env : Env own) (admin : Address) (g : Gov) : Prop :=
  g.admin = some admin ∧ env.authorized admin = true

/-- The version that an upgrade brings is the next one, and the schema has kept up. -/
def NextVersion (newVersion : Nat) (s : State) : Prop :=
  getStorageSchemaVersion s = getContractVersion s ∧
    UpgradeGovernance.getContractVersion s.gov + 1 < 2 ^ 32 ∧
    newVersion = UpgradeGovernance.getContractVersion s.gov + 1

/-- What an upgrade entry point asks for. The pause is not part of it. -/
def UpgradeAllowed (env : Env own) (s : State) : Call → Prop
  | .setGuardian admin _ => AdminSigned env admin s.gov
  | .setUpgradeDelay admin _ => AdminSigned env admin s.gov
  | .proposeUpgrade admin _ newVersion =>
    AdminSigned env admin s.gov ∧ s.gov.pendingUpgradeHash = none ∧ NextVersion newVersion s
  | .executeUpgrade admin newWasmHash =>
    AdminSigned env admin s.gov ∧ s.gov.pendingUpgradeHash = some newWasmHash ∧
      s.gov.pendingUpgradeVersion ≠ none ∧
      ∃ pendingAt, s.gov.pendingUpgradeAt = some pendingAt ∧
        pendingAt + getUpgradeDelay s.gov < 2 ^ 64 ∧
        pendingAt + getUpgradeDelay s.gov ≤ env.timestamp
  | .emergencyUpgrade admin _ newVersion =>
    AdminSigned env admin s.gov ∧ NextVersion newVersion s ∧
      ∃ guardian, s.gov.guardian = some guardian ∧ env.authorized guardian = true
  | _ => False

/-- The call fails with `Paused`, and `init` with `AlreadyInitialized`. -/
def AnswersPaused (tok : Token T) (net : Peers P) (env : Env own) (w : World T P) : Call → Prop
  | .init admin token => init env admin token w.bond = .error (.err .alreadyInitialized)
  | .setAdmin admin newAdmin => setAdmin env admin newAdmin w.bond = .error (.err .paused)
  | .setThresholds admin warning liquidation =>
    setThresholds env admin warning liquidation w.bond = .error (.err .paused)
  | .setKeeperRewardCap admin capBps =>
    setKeeperRewardCap env admin capBps w.bond = .error (.err .paused)
  | .setOracleFeed admin feed staleness =>
    setOracleFeed env admin feed staleness w.bond = .error (.err .paused)
  | .setTargetHealthRatio admin ratio =>
    setTargetHealthRatio env admin ratio w.bond = .error (.err .paused)
  | .setGuardian admin guardian => setGuardian env admin guardian w.bond = .error (.err .paused)
  | .setUpgradeDelay admin delay => setUpgradeDelay env admin delay w.bond = .error (.err .paused)
  | .proposeUpgrade admin newWasmHash newVersion =>
    proposeUpgrade env admin newWasmHash newVersion w.bond = .error (.err .paused)
  | .executeUpgrade admin newWasmHash =>
    executeUpgrade env admin newWasmHash w.bond = .error (.err .paused)
  | .emergencyUpgrade admin newWasmHash newVersion =>
    emergencyUpgrade env admin newWasmHash newVersion w.bond = .error (.err .paused)
  | .cancelUpgrade admin => cancelUpgrade env admin w.bond = .error (.err .paused)
  | .depositCollateral owner positionId amount =>
    depositCollateral tok env owner positionId amount w = .error (.err .paused)
  | .issueBond owner positionId bondAmount =>
    issueBond env owner positionId bondAmount w.bond = .error (.err .paused)
  | .redeemBond owner positionId bondAmount =>
    redeemBond env owner positionId bondAmount w.bond = .error (.err .paused)
  | .withdrawCollateral owner positionId amount =>
    withdrawCollateral tok env owner positionId amount w = .error (.err .paused)
  | .liquidate keeper positionId =>
    liquidate tok env net keeper positionId w = .error (.err .paused)
  | .setSlashingModule admin slashingModule =>
    setSlashingModule env admin slashingModule w.bond = .error (.err .paused)
  | .setOperator admin operator => setOperator env admin operator w.bond = .error (.err .paused)
  | .depositBond inspector amount =>
    depositBond env inspector amount w.bond = .error (.err .paused)
  | .withdrawBond inspector amount =>
    withdrawBond env inspector amount w.bond = .error (.err .paused)
  | .lockBond operator inspector inspectionId =>
    lockBond env operator inspector inspectionId w.bond = .error (.err .paused)
  | .unlockBond operator inspector inspectionId =>
    unlockBond env operator inspector inspectionId w.bond = .error (.err .paused)
  | .executeSlash admin inspector slashAmount inspectionId reason =>
    executeSlash env net admin inspector slashAmount inspectionId reason w = .error (.err .paused)
  | .pause admin => pause env admin w.bond = .error (.err .paused)
  | .unpause admin => unpause env admin w.bond = .error (.err .paused)

theorem requireNotPaused_bind (hp : s.paused.getD false = true)
    (f : Unit → Outcome ContractError α) : (requireNotPaused s >>= f) = .error (.err .paused) := by
  apply require_bind_of_not
  rw [hp]
  nofun

section
variable {own : Address} {tok : Token T} {net : Peers P} {env : Env own} {w w' : World T P}

theorem answersPaused (hp : w.bond.paused.getD false = true) (ha : w.bond.gov.admin ≠ none)
    (hc : c.governs = false) (hs : c.switches = false) : AnswersPaused tok net env w c := by
  cases c with
  | init _ _ => exact require_bind_of_not ha _
  | setGuardian _ _ | setUpgradeDelay _ _ | proposeUpgrade _ _ _ | executeUpgrade _ _
  | emergencyUpgrade _ _ _ => cases hc
  | pause _ | unpause _ => cases hs
  | _ => exact requireNotPaused_bind hp _

theorem AnswersPaused.rejected (h : AnswersPaused tok net env w c) :
    invoke tok net env w c = none := by
  cases c with
  | _ =>
    simp only [AnswersPaused] at h
    simp only [invoke, h]
    rfl

theorem commit_none {x : Outcome ε α} {f : α → β} : commit x f = none ↔ ¬ ∃ a, x = .ok a := by
  cases x with
  | error e => exact iff_of_true rfl nofun
  | ok a => exact iff_of_false nofun fun h => h ⟨a, rfl⟩

theorem requireGovAdmin_iff {g : Gov} :
    (∃ u, requireGovAdmin env admin g = .ok u) ↔ AdminSigned env admin g := by
  simp only [requireGovAdmin, UpgradeGovernance.getAdmin, bind_ok, expect_ok, require_ok,
    requireAuth_ok, AdminSigned]
  constructor
  · rintro ⟨_, _, ha, _, rfl, hs⟩
    exact ⟨ha, hs⟩
  · rintro ⟨ha, hs⟩
    exact ⟨(), admin, ha, (), rfl, hs⟩

theorem requireSettingsAdmin_iff {g : Gov} :
    (∃ u, requireSettingsAdmin env admin g = .ok u) ↔ AdminSigned env admin g := by
  simp only [requireSettingsAdmin, UpgradeGovernance.getAdmin, bind_ok, expect_ok, require_ok,
    requireAuth_ok, AdminSigned]
  constructor
  · rintro ⟨_, _, ha, _, hs, rfl⟩
    exact ⟨ha, hs⟩
  · rintro ⟨ha, hs⟩
    exact ⟨(), admin, ha, (), hs, rfl⟩

theorem validateUpgradeSafety_iff {s : State} :
    (getStorageSchemaVersion s = getContractVersion s ∧ ∃ u,
      validateUpgradeSafety s.gov newVersion (some (getStorageSchemaVersion s)) = .ok u) ↔
      NextVersion newVersion s := by
  simp only [validateUpgradeSafety, bind_ok, u32Add_ok, require_ok, NextVersion]
  constructor
  · rintro ⟨hc, _, _, ⟨hf, rfl⟩, _, hv, _⟩
    exact ⟨hc, hf, hv⟩
  · rintro ⟨hc, hf, hv⟩
    exact ⟨hc, (), _, ⟨hf, rfl⟩, (), hv, le_rfl⟩

theorem setGuardian_iff {s : State} :
    (∃ s', setGuardian env admin guardian s = .ok s') ↔ AdminSigned env admin s.gov := by
  rw [← requireSettingsAdmin_iff]
  simp only [setGuardian, UpgradeGovernance.setGuardian, bind_ok, mapErr_ok, pure_ok]
  constructor
  · rintro ⟨_, _, ⟨u, h, _⟩, _⟩
    exact ⟨u, h⟩
  · rintro ⟨u, h⟩
    exact ⟨_, _, ⟨u, h, rfl⟩, rfl⟩

theorem setUpgradeDelay_iff {s : State} :
    (∃ s', setUpgradeDelay env admin delay s = .ok s') ↔ AdminSigned env admin s.gov := by
  rw [← requireSettingsAdmin_iff]
  simp only [setUpgradeDelay, UpgradeGovernance.setUpgradeDelay, bind_ok, mapErr_ok, pure_ok]
  constructor
  · rintro ⟨_, _, ⟨u, h, _⟩, _⟩
    exact ⟨u, h⟩
  · rintro ⟨u, h⟩
    exact ⟨_, _, ⟨u, h, rfl⟩, rfl⟩

theorem proposeUpgrade_iff {s : State} :
    (∃ s', proposeUpgrade env admin newWasmHash newVersion s = .ok s') ↔
      UpgradeAllowed env s (.proposeUpgrade admin newWasmHash newVersion) := by
  rw [UpgradeAllowed, ← requireGovAdmin_iff, ← validateUpgradeSafety_iff]
  simp only [proposeUpgrade, UpgradeGovernance.proposeUpgrade, bind_ok, mapErr_ok, require_ok,
    pure_ok]
  constructor
  · rintro ⟨_, _, hc, _, ⟨u, ha, _, hp, v, hv, _⟩, _⟩
    exact ⟨⟨u, ha⟩, hp, hc, v, hv⟩
  · rintro ⟨⟨u, ha⟩, hp, hc, v, hv⟩
    exact ⟨_, (), hc, _, ⟨u, ha, (), hp, v, hv, rfl⟩, rfl⟩

theorem executeUpgrade_iff {s : State} :
    (∃ r, executeUpgrade env admin newWasmHash s = .ok r) ↔
      UpgradeAllowed env s (.executeUpgrade admin newWasmHash) := by
  rw [UpgradeAllowed, ← requireGovAdmin_iff]
  simp only [executeUpgrade, UpgradeGovernance.executeUpgrade, bind_ok, mapErr_ok, require_ok,
    okOr_ok, u64Add_ok, pure_ok]
  constructor
  · rintro ⟨_, _, ⟨u, ha, _, hh, t, ht, v, hv, _, rfl, _, ⟨hf, rfl⟩, _, hle, _⟩, _⟩
    exact ⟨⟨u, ha⟩, hh, Option.ne_none_iff_exists'.mpr ⟨v, hv⟩, t, ht, hf, hle⟩
  · rintro ⟨⟨u, ha⟩, hh, hv, t, ht, hf, hle⟩
    obtain ⟨v, hv⟩ := Option.ne_none_iff_exists'.mp hv
    exact ⟨_, _, ⟨u, ha, _, hh, t, ht, v, hv, (), rfl, _, ⟨hf, rfl⟩, (), hle, rfl⟩, rfl⟩

theorem requireGuardianAuth_iff {g : Gov} :
    (∃ u, requireGuardianAuth env true g = .ok u) ↔
      ∃ guardian, g.guardian = some guardian ∧ env.authorized guardian = true := by
  unfold requireGuardianAuth
  cases g.guardian with
  | none => exact iff_of_false nofun nofun
  | some guardian =>
    simp only [requireAuth_ok]
    constructor
    · rintro ⟨_, hs⟩
      exact ⟨guardian, rfl, hs⟩
    · rintro ⟨_, he, hs⟩
      cases he
      exact ⟨(), hs⟩

theorem emergencyUpgrade_iff {s : State} :
    (∃ r, emergencyUpgrade env admin newWasmHash newVersion s = .ok r) ↔
      UpgradeAllowed env s (.emergencyUpgrade admin newWasmHash newVersion) := by
  rw [UpgradeAllowed, ← requireGovAdmin_iff, ← validateUpgradeSafety_iff,
    ← requireGuardianAuth_iff]
  simp only [emergencyUpgrade, UpgradeGovernance.emergencyUpgrade, bind_ok, mapErr_ok, require_ok,
    pure_ok]
  constructor
  · rintro ⟨_, _, hc, _, ⟨u, ha, v, hv, g, hg, _⟩, _⟩
    exact ⟨⟨u, ha⟩, ⟨hc, v, hv⟩, g, hg⟩
  · rintro ⟨⟨u, ha⟩, ⟨hc, v, hv⟩, g, hg⟩
    exact ⟨_, (), hc, _, ⟨u, ha, v, hv, g, hg, rfl⟩, rfl⟩

/-- The upgrade entry points ask for nothing but what the library asks for. -/
theorem governs_rejected_iff (hc : c.governs = true) :
    invoke tok net env w c = none ↔ ¬ UpgradeAllowed env w.bond c := by
  cases c with
  | setGuardian admin guardian => exact commit_none.trans (not_congr setGuardian_iff)
  | setUpgradeDelay admin delay => exact commit_none.trans (not_congr setUpgradeDelay_iff)
  | proposeUpgrade admin newWasmHash newVersion =>
    exact commit_none.trans (not_congr proposeUpgrade_iff)
  | executeUpgrade admin newWasmHash => exact commit_none.trans (not_congr executeUpgrade_iff)
  | emergencyUpgrade admin newWasmHash newVersion =>
    exact commit_none.trans (not_congr emergencyUpgrade_iff)
  | _ => cases hc

/-- While the contract is paused, a call other than `pause` and `unpause` is rejected exactly if it
is not an upgrade entry point whose own tests pass; all others say `Paused`, but for `init`, which
says that the contract has an admin. -/
theorem paused_rejected_iff (h : (machine tok net own).Reachable ⟨.fresh, t₀, p₀⟩ w)
    (hp : w.bond.paused.getD false = true) (env : Env own) (c : Call) (hs : c.switches = false) :
    (invoke tok net env w c = none ↔ ¬ UpgradeAllowed env w.bond c) ∧
      (c.governs = false → AnswersPaused tok net env w c) := by
  have ha : w.bond.gov.admin ≠ none := by
    intro hn
    cases hp.symm.trans ((reachable_unopened h).running hn)
  refine ⟨?_, fun hc => answersPaused hp ha hc hs⟩
  cases hc : c.governs with
  | true => exact governs_rejected_iff hc
  | false =>
    have hn : ¬ UpgradeAllowed env w.bond c := by
      cases c with
      | setGuardian _ _ | setUpgradeDelay _ _ | proposeUpgrade _ _ _ | executeUpgrade _ _
      | emergencyUpgrade _ _ _ => cases hc
      | _ => exact not_false
    exact iff_of_true (answersPaused hp ha hc hs).rejected hn

end

def pausedCalls : List (Action ⟨0⟩ (Address → Int) Unit) :=
  [.call (.signed ⟨0⟩ 0) (.pause ⟨1⟩)]

theorem paused_rejected_issue :
    (invoke plainToken feedless (.signed ⟨0⟩ 0) (after pausedCalls)
        (.issueBond ⟨2⟩ (.replicate 32 7) 1) = none ↔
      ¬ UpgradeAllowed (.signed ⟨0⟩ 0) (after pausedCalls).bond
        (.issueBond ⟨2⟩ (.replicate 32 7) 1)) ∧
      ((Call.issueBond ⟨2⟩ (.replicate 32 7) 1).governs = false →
        AnswersPaused plainToken feedless (.signed ⟨0⟩ 0) (after pausedCalls)
          (.issueBond ⟨2⟩ (.replicate 32 7) 1)) := by
  have hp : (after pausedCalls).bond.paused.getD false = true := by decide
  exact paused_rejected_iff (reachable_after pausedCalls) hp (.signed ⟨0⟩ 0) _ rfl

/-- The admin of a paused contract sets the upgrade delay to zero. -/
theorem paused_not_total :
    ¬ ∀ w, (machine plainToken feedless ⟨0⟩).Reachable deployed w →
      w.bond.paused.getD false = true → ∀ (env : Env ⟨0⟩) c, c.switches = false →
      invoke plainToken feedless env w c = none := by
  intro hall
  have hp : (after pausedCalls).bond.paused.getD false = true := by decide
  have hn := hall _ (reachable_after pausedCalls) hp (.signed ⟨0⟩ 0) (.setUpgradeDelay ⟨1⟩ 0) rfl
  have hsome : (invoke plainToken feedless (.signed ⟨0⟩ 0) (after pausedCalls)
    (.setUpgradeDelay ⟨1⟩ 0)).isSome = true := by decide
  rw [hn] at hsome
  cases hsome

end Shelterflex.BondCollateral
