import Shelterflex.UpgradeGovernance.Versions
import Shelterflex.StakingPool.Agreement
import Shelterflex.BondCollateral.Effects
import Shelterflex.RentWallet.Model

/-! The contracts that compare their versions, call by call. -/

set_option autoImplicit true

namespace Shelterflex.StakingPool
open Lib UpgradeGovernance

def Call.upgrades : Call → Bool
  | .executeUpgrade _ _ => true
  | .emergencyUpgrade _ _ _ => true
  | _ => false

def upgrades : Action own T → Bool
  | .call _ c => c.upgrades
  | .traffic _ => false

/-- Whoever asks for an upgrade is turned away by the comparison. -/
def LockedOut (s : State) : Prop :=
  ∀ (own : Address) (env : Env own) (admin : Address) (newWasmHash : BytesN 32) (newVersion : Nat),
    proposeUpgrade env admin newWasmHash newVersion s = .error (.err .incompatibleStateSchema) ∧
      emergencyUpgrade env admin newWasmHash newVersion s = .error (.err .incompatibleStateSchema)

theorem lockedOut_iff : LockedOut s ↔ ¬ s.gov.Compatible 0 := by
  have hp : s.gov.Compatible 0 ↔ getStateSchemaVersion s = contractVersion s := Iff.rfl
  have hf : proposeError .notAuthorized ≠ .incompatibleStateSchema := nofun
  rw [hp]
  exact guarded_upgrades_iff hf

theorem takeFrom_gov (h : takeFrom user i d n s = .ok r) : r.2.gov = s.gov := by
  unfold takeFrom at h
  split at h
  · obtain ⟨_, _, h⟩ := bind_ok.mp h
    cases h
    rfl
  · obtain ⟨_, _, h⟩ := bind_ok.mp h
    cases h
    rfl

theorem consumeDeposit_gov {r r' : Int × State}
    (h : consumeDeposit lockPeriod currentTime user r i = .ok r') : r'.2.gov = r.2.gov := by
  unfold consumeDeposit at h
  split at h
  · rw [pure_ok.mp h]
  · split at h
    · obtain ⟨b, _, h⟩ := bind_ok.mp h
      cases b with
      | true => exact takeFrom_gov h
      | false => rw [pure_ok.mp h]
    · rw [pure_ok.mp h]

theorem unstake_gov {tok : Token T} {env : Env own} {w w' : World T}
    (h : unstake tok env target amount w = .ok w') : w'.pool.gov = w.pool.gov := by
  obtain ⟨_, _, _, r, hr, hw⟩ := unstake_writes h
  rw [hw]
  exact foldlM_keeps (fun r => r.2.gov) consumeDeposit_gov hr

theorem done_moves {w w' : World T} {x : Outcome ε State}
    (h : commit x w.done = some (w', o)) (hm : ∀ s, x = .ok s → Moves 0 w.pool.gov s.gov b) :
    Moves 0 w.pool.gov w'.pool.gov b := by
  obtain ⟨s, hs, he⟩ := commit_some.mp h
  cases he
  exact hm s hs

theorem invoke_moves {tok : Token T} {env : Env own} {w w' : World T}
    (h : invoke tok env w c = some (w', o)) : Moves 0 w.pool.gov w'.pool.gov c.upgrades := by
  cases c with
  | stake source amount =>
    obtain ⟨_, hs, he⟩ := commit_some.mp h
    cases he
    obtain ⟨_, _, hw⟩ := stake_writes hs
    exact .of_eq (by rw [hw]; rfl)
  | unstake target amount =>
    obtain ⟨_, hs, he⟩ := commit_some.mp h
    cases he
    exact .of_eq (unstake_gov hs)
  | setOperator _ _ | setLockPeriod _ _ =>
    refine done_moves h fun s hs => ?_
    simp only [setOperator, setLockPeriod, bind_ok, pure_ok] at hs
    obtain ⟨_, _, _, _, _, _, rfl⟩ := hs
    exact .refl
  | setAdmin _ _ | pause _ | unpause _ =>
    refine done_moves h fun s hs => ?_
    simp only [setAdmin, pause, unpause, bind_ok, pure_ok] at hs
    obtain ⟨_, _, _, _, rfl⟩ := hs
    exact .keep rfl rfl rfl rfl
  | setGuardian admin guardian =>
    refine done_moves h fun s hs => ?_
    simp only [setGuardian, bind_ok, mapErr_ok, pure_ok] at hs
    obtain ⟨g, hg, rfl⟩ := hs
    exact setGuardian_moves hg
  | setUpgradeDelay admin delay =>
    refine done_moves h fun s hs => ?_
    simp only [setUpgradeDelay, bind_ok, mapErr_ok, pure_ok] at hs
    obtain ⟨g, hg, rfl⟩ := hs
    exact setUpgradeDelay_moves hg
  | proposeUpgrade admin newWasmHash newVersion =>
    refine done_moves h fun s hs => ?_
    simp only [proposeUpgrade, bind_ok, require_ok, mapErr_ok, pure_ok] at hs
    obtain ⟨_, hc, g, hg, rfl⟩ := hs
    exact proposeUpgrade_moves hc hg
  | executeUpgrade admin newWasmHash =>
    obtain ⟨_, hs, he⟩ := commit_some.mp h
    cases he
    simp only [executeUpgrade, bind_ok, mapErr_ok, pure_ok] at hs
    obtain ⟨⟨g, _⟩, hg, rfl⟩ := hs
    exact executeUpgrade_moves hg
  | emergencyUpgrade admin newWasmHash newVersion =>
    obtain ⟨_, hs, he⟩ := commit_some.mp h
    cases he
    simp only [emergencyUpgrade, bind_ok, require_ok, mapErr_ok, pure_ok] at hs
    obtain ⟨_, hc, ⟨g, _⟩, hg, rfl⟩ := hs
    exact emergencyUpgrade_moves hc hg
  | cancelUpgrade admin =>
    refine done_moves h fun s hs => ?_
    simp only [cancelUpgrade, bind_ok, pure_ok] at hs
    obtain ⟨g, hg, rfl⟩ := hs
    exact cancelUpgrade_moves hg

end Shelterflex.StakingPool

namespace Shelterflex.BondCollateral
open Lib UpgradeGovernance

def Call.upgrades : Call → Bool
  | .executeUpgrade _ _ => true
  | .emergencyUpgrade _ _ _ => true
  | _ => false

def upgrades : Action own T P → Bool
  | .call _ c => c.upgrades
  | .traffic _ _ => false

/-- Whoever asks for an upgrade is turned away by the comparison. -/
def LockedOut (s : State) : Prop :=
  ∀ (own : Address) (env : Env own) (admin : Address) (newWasmHash : BytesN 32) (newVersion : Nat),
    proposeUpgrade env admin newWasmHash newVersion s = .error (.err .incompatibleStateSchema) ∧
      emergencyUpgrade env admin newWasmHash newVersion s = .error (.err .incompatibleStateSchema)

theorem lockedOut_iff : LockedOut s ↔ ¬ s.gov.Compatible 1 := by
  have hp : s.gov.Compatible 1 ↔ getStorageSchemaVersion s = getContractVersion s := Iff.rfl
  have hf : proposeError .notAuthorized ≠ .incompatibleStateSchema := nofun
  rw [hp]
  exact guarded_upgrades_iff hf

theorem done_moves {w w' : World T P} {x : Outcome ε State}
    (h : commit x w.done = some (w', o)) (hm : ∀ s, x = .ok s → Moves 1 w.bond.gov s.gov b) :
    Moves 1 w.bond.gov w'.bond.gov b := by
  obtain ⟨s, hs, he⟩ := commit_some.mp h
  cases he
  exact hm s hs

section
variable {own : Address} {tok : Token T} {net : Peers P} {env : Env own} {w w' : World T P}

theorem Writes.gov (h : Writes w w' c) (hc : c.collateralizes = true ∨ c.inspects = true) :
    w'.bond.gov = w.bond.gov := by
  cases h with
  | start hi _ _ _ _ =>
    subst hi
    exact hc.elim nofun nofun
  | settings hn hi _ _ _ =>
    rcases hc with hc | hc
    · cases hn.symm.trans hc
    · cases hi.symm.trans hc
  | positions _ hw _ => rw [hw]
  | inspectors _ hw _ => rw [hw]

theorem settings_opened (h : invoke tok net env w c = some (w', o))
    (hc : c.collateralizes = false) (hi : c.inspects = false) :
    (∃ admin token, c = .init admin token) ∨ w.bond.gov.admin ≠ none := by
  rw [or_iff_not_imp_right, not_not]
  intro hn
  cases c with
  | init admin token => exact ⟨admin, token, rfl⟩
  | setAdmin _ _ | setThresholds _ _ _ | setKeeperRewardCap _ _ | setOracleFeed _ _ _
  | setTargetHealthRatio _ _ | setSlashingModule _ _ | setOperator _ _ | pause _ | unpause _ =>
    obtain ⟨_, hs, _⟩ := commit_some.mp h
    simp only [setAdmin, setThresholds, setKeeperRewardCap, setOracleFeed, setTargetHealthRatio,
      setSlashingModule, setOperator, pause, unpause, requireAdmin, getAdmin, bind_ok, mapErr_ok,
      expect_ok, hn, reduceCtorEq, false_and, and_false, exists_false] at hs
  | setGuardian _ _ | setUpgradeDelay _ _ | proposeUpgrade _ _ _ | executeUpgrade _ _
  | emergencyUpgrade _ _ _ | cancelUpgrade _ =>
    obtain ⟨_, hs, _⟩ := commit_some.mp h
    simp only [setGuardian, setUpgradeDelay, proposeUpgrade, executeUpgrade, emergencyUpgrade,
      cancelUpgrade, UpgradeGovernance.setGuardian, UpgradeGovernance.setUpgradeDelay,
      UpgradeGovernance.proposeUpgrade, UpgradeGovernance.executeUpgrade,
      UpgradeGovernance.emergencyUpgrade, UpgradeGovernance.cancelUpgrade, requireGovAdmin,
      requireSettingsAdmin, UpgradeGovernance.getAdmin, bind_ok, mapErr_ok, expect_ok, hn,
      reduceCtorEq, false_and, and_false, exists_false] at hs
  | depositCollateral _ _ _ | issueBond _ _ _ | redeemBond _ _ _ | withdrawCollateral _ _ _
  | liquidate _ _ =>
    cases hc
  | depositBond _ _ | withdrawBond _ _ | lockBond _ _ _ | unlockBond _ _ _
  | executeSlash _ _ _ _ _ => cases hi

theorem invoke_opens (hn : w.bond.gov.admin = none) (h : invoke tok net env w c = some (w', o)) :
    c.upgrades = false ∧ (w'.bond.gov = w.bond.gov ∨
      ∃ admin token, w'.bond = started admin token w.bond) := by
  have hw := invoke_writes h
  by_cases hc : c.collateralizes = true ∨ c.inspects = true
  · refine ⟨?_, .inl (hw.gov hc)⟩
    cases c with
    | executeUpgrade _ _ | emergencyUpgrade _ _ _ => exact hc.elim nofun nofun
    | _ => rfl
  · rw [not_or, Bool.not_eq_true, Bool.not_eq_true] at hc
    obtain ⟨_, _, rfl⟩ := (settings_opened h hc.1 hc.2).resolve_right (not_not_intro hn)
    obtain ⟨_, hs, he⟩ := commit_some.mp h
    cases he
    exact ⟨rfl, .inr ⟨_, _, (init_ok hs).2⟩⟩

theorem invoke_admin (ha : w.bond.gov.admin ≠ none) (h : invoke tok net env w c = some (w', o)) :
    w'.bond.gov.admin ≠ none := by
  cases invoke_writes h with
  | start _ hn _ _ _ => exact absurd hn ha
  | settings _ _ hs _ _ => exact hs.admin ha
  | positions _ hw _ | inspectors _ hw _ =>
    rw [hw]
    exact ha

theorem invoke_moves (ha : w.bond.gov.admin ≠ none) (h : invoke tok net env w c = some (w', o)) :
    Moves 1 w.bond.gov w'.bond.gov c.upgrades := by
  cases c with
  | init _ _ =>
    obtain ⟨_, hs, _⟩ := commit_some.mp h
    exact absurd (init_ok hs).1 ha
  | setAdmin admin newAdmin =>
    refine done_moves h fun s hs => ?_
    rw [setAdmin_ok hs]
    exact .keep rfl rfl rfl rfl
  | setThresholds admin warning liquidation =>
    exact done_moves h fun s hs => .of_eq (by rw [setThresholds_ok hs])
  | setKeeperRewardCap admin capBps =>
    exact done_moves h fun s hs => .of_eq (by rw [setKeeperRewardCap_ok hs])
  | setOracleFeed admin feed staleness =>
    exact done_moves h fun s hs => .of_eq (by rw [setOracleFeed_ok hs])
  | setTargetHealthRatio admin ratio =>
    exact done_moves h fun s hs => .of_eq (by rw [setTargetHealthRatio_ok hs])
  | setSlashingModule admin slashingModule =>
    exact done_moves h fun s hs => .of_eq (by rw [setSlashingModule_ok hs])
  | setOperator admin operator =>
    exact done_moves h fun s hs => .of_eq (by rw [setOperator_ok hs])
  | pause admin => exact done_moves h fun s hs => .of_eq (by rw [(pause_ok hs).2])
  | unpause admin => exact done_moves h fun s hs => .of_eq (by rw [(unpause_ok hs).2])
  | setGuardian admin guardian =>
    refine done_moves h fun s hs => ?_
    simp only [setGuardian, bind_ok, mapErr_ok, pure_ok] at hs
    obtain ⟨g, hg, rfl⟩ := hs
    exact setGuardian_moves hg
  | setUpgradeDelay admin delay =>
    refine done_moves h fun s hs => ?_
    simp only [setUpgradeDelay, bind_ok, mapErr_ok, pure_ok] at hs
    obtain ⟨g, hg, rfl⟩ := hs
    exact setUpgradeDelay_moves hg
  | proposeUpgrade admin newWasmHash newVersion =>
    refine done_moves h fun s hs => ?_
    simp only [proposeUpgrade, bind_ok, require_ok, mapErr_ok, pure_ok] at hs
    obtain ⟨_, hc, g, hg, rfl⟩ := hs
    exact proposeUpgrade_moves hc hg
  | executeUpgrade admin newWasmHash =>
    obtain ⟨_, hs, he⟩ := commit_some.mp h
    cases he
    simp only [executeUpgrade, bind_ok, mapErr_ok, pure_ok] at hs
    obtain ⟨⟨g, _⟩, hg, rfl⟩ := hs
    exact executeUpgrade_moves hg
  | emergencyUpgrade admin newWasmHash newVersion =>
    obtain ⟨_, hs, he⟩ := commit_some.mp h
    cases he
    simp only [emergencyUpgrade, bind_ok, require_ok, mapErr_ok, pure_ok] at hs
    obtain ⟨_, hc, ⟨g, _⟩, hg, rfl⟩ := hs
    exact emergencyUpgrade_moves hc hg
  | cancelUpgrade admin =>
    refine done_moves h fun s hs => ?_
    simp only [cancelUpgrade, bind_ok, pure_ok] at hs
    obtain ⟨_, _, g, hg, rfl⟩ := hs
    exact cancelUpgrade_moves hg
  | depositCollateral _ _ _ | issueBond _ _ _ | redeemBond _ _ _ | withdrawCollateral _ _ _
  | liquidate _ _ =>
    exact .of_eq ((invoke_writes h).gov (.inl rfl))
  | depositBond _ _ | withdrawBond _ _ | lockBond _ _ _ | unlockBond _ _ _
  | executeSlash _ _ _ _ _ =>
    exact .of_eq ((invoke_writes h).gov (.inr rfl))

end

end Shelterflex.BondCollateral

namespace Shelterflex.RentWallet
open Lib UpgradeGovernance

def Call.upgrades : Call → Bool
  | .executeUpgrade _ _ => true
  | .emergencyUpgrade _ _ _ => true
  | _ => false

def upgrades (i : Env own × Call) : Bool := i.2.upgrades

/-- Whoever asks for an upgrade is turned away by the comparison. -/
def LockedOut (s : State) : Prop :=
  ∀ (own : Address) (env : Env own) (admin : Address) (newWasmHash : BytesN 32) (newVersion : Nat),
    proposeUpgrade env admin newWasmHash newVersion s = .error (.err .incompatibleStateSchema) ∧
      emergencyUpgrade env admin newWasmHash newVersion s = .error (.err .incompatibleStateSchema)

theorem lockedOut_iff : LockedOut s ↔ ¬ s.gov.Compatible 0 := by
  have hp : s.gov.Compatible 0 ↔ schemaVersion s = contractVersion s := Iff.rfl
  have hf : proposeError .notAuthorized ≠ .incompatibleStateSchema := nofun
  rw [hp]
  exact guarded_upgrades_iff hf

theorem checkAndRecordDebit_gov (h : checkAndRecordDebit timestamp user amount s = .ok s') :
    s'.gov = s.gov := by
  unfold checkAndRecordDebit at h
  split at h
  · rw [pure_ok.mp h]
  · simp only [recordMonthlySpent, bind_ok, pure_ok] at h
    obtain ⟨_, _, _, _, _, _, rfl⟩ := h
    rfl

theorem done_moves {s s' : State} {x : Outcome ε State}
    (h : commit x (fun s => (s, Output.unit)) = some (s', o))
    (hm : ∀ s₁, x = .ok s₁ → Moves 0 s.gov s₁.gov b) : Moves 0 s.gov s'.gov b := by
  obtain ⟨s₁, hs, he⟩ := commit_some.mp h
  cases he
  exact hm _ hs

theorem invoke_moves {env : Env own} {s s' : State} (h : invoke env s c = some (s', o)) :
    Moves 0 s.gov s'.gov c.upgrades := by
  cases c with
  | credit admin user amount =>
    refine done_moves h fun s' hs => ?_
    simp only [credit, bind_ok, pure_ok] at hs
    obtain ⟨_, _, _, _, _, _, _, _, rfl⟩ := hs
    exact .refl
  | debit admin user amount =>
    refine done_moves h fun s' hs => ?_
    simp only [debit, bind_ok, pure_ok] at hs
    obtain ⟨_, _, _, _, _, _, _, _, s₁, hr, _, _, rfl⟩ := hs
    have hg := checkAndRecordDebit_gov hr
    exact .of_eq hg
  | setAdmin _ _ | pause _ | unpause _ =>
    refine done_moves h fun s' hs => ?_
    simp only [setAdmin, pause, unpause, bind_ok, pure_ok] at hs
    obtain ⟨_, _, rfl⟩ := hs
    exact .keep rfl rfl rfl rfl
  | setGuardian admin guardian =>
    refine done_moves h fun s' hs => ?_
    simp only [setGuardian, bind_ok, mapErr_ok, pure_ok] at hs
    obtain ⟨g, hg, rfl⟩ := hs
    exact setGuardian_moves hg
  | setUpgradeDelay admin delay =>
    refine done_moves h fun s' hs => ?_
    simp only [setUpgradeDelay, bind_ok, mapErr_ok, pure_ok] at hs
    obtain ⟨g, hg, rfl⟩ := hs
    exact setUpgradeDelay_moves hg
  | proposeUpgrade admin newWasmHash newVersion =>
    refine done_moves h fun s' hs => ?_
    simp only [proposeUpgrade, bind_ok, require_ok, mapErr_ok, pure_ok] at hs
    obtain ⟨_, hc, g, hg, rfl⟩ := hs
    exact proposeUpgrade_moves hc hg
  | executeUpgrade admin newWasmHash =>
    obtain ⟨_, hs, he⟩ := commit_some.mp h
    cases he
    simp only [executeUpgrade, bind_ok, mapErr_ok, pure_ok] at hs
    obtain ⟨⟨g, _⟩, hg, rfl⟩ := hs
    exact executeUpgrade_moves hg
  | emergencyUpgrade admin newWasmHash newVersion =>
    obtain ⟨_, hs, he⟩ := commit_some.mp h
    cases he
    simp only [emergencyUpgrade, bind_ok, require_ok, mapErr_ok, pure_ok] at hs
    obtain ⟨_, hc, ⟨g, _⟩, hg, rfl⟩ := hs
    exact emergencyUpgrade_moves hc hg
  | cancelUpgrade admin =>
    refine done_moves h fun s' hs => ?_
    simp only [cancelUpgrade, bind_ok, pure_ok] at hs
    obtain ⟨g, hg, rfl⟩ := hs
    exact cancelUpgrade_moves hg
  | setDefaultMonthlyCap _ _ | setUserMonthlyCap _ _ _ =>
    refine done_moves h fun s' hs => ?_
    simp only [setDefaultMonthlyCap, setUserMonthlyCap, bind_ok, pure_ok] at hs
    obtain ⟨_, _, _, _, rfl⟩ := hs
    exact .refl

end Shelterflex.RentWallet

namespace Shelterflex.UpgradeGovernance
open Lib

theorem Standing.agree_iff_forall {t : List (Event σ ι ο)} {upgrades : ι → Bool}
    (h : Standing g (t.any fun e => upgrades e.input)) :
    g.VersionsAgree ↔ ∀ e ∈ t, upgrades e.input = false := by
  rw [h.agree_iff, List.any_eq_false]
  simp only [Bool.not_eq_true]

theorem Standing.incompatible_iff_exists {t : List (Event σ ι ο)} {upgrades : ι → Bool}
    (h : Standing g (t.any fun e => upgrades e.input)) (d : Nat) :
    ¬ g.Compatible d ↔ ∃ e ∈ t, upgrades e.input = true := by
  rw [h.compatible_iff, Bool.not_eq_false, List.any_eq_true]

section
variable {own : Address} {tok : Token T} {net : BondCollateral.Peers P}

theorem stakingPool_standing {w : StakingPool.World T}
    (h : (StakingPool.machine tok own).Run ⟨StakingPool.initialized admin token, t₀⟩ t w) :
    Standing w.pool.gov (t.any fun e => StakingPool.upgrades e.input) := by
  refine standing_of_moves (d := 0) (v := fun w => w.pool.gov) h (.current rfl rfl nofun) ?_
  intro w a w' o hs
  cases a with
  | call env c => exact StakingPool.invoke_moves hs
  | traffic t =>
    simp only [StakingPool.machine, StakingPool.act, Option.ite_none_right_eq_some,
      Option.some.injEq, Prod.mk.injEq] at hs
    obtain ⟨_, rfl, _⟩ := hs
    exact .refl

/-- Before `init` nothing is upgraded; from then on there is an admin, and the versions stand. -/
theorem bondCollateral_standing {w : BondCollateral.World T P}
    (h : (BondCollateral.machine tok net own).Run ⟨.fresh, t₀, p₀⟩ t w) :
    (w.bond.gov = .fresh ∧ t.any (fun e => BondCollateral.upgrades e.input) = false) ∨
      w.bond.gov.admin ≠ none ∧
        Standing w.bond.gov (t.any fun e => BondCollateral.upgrades e.input) := by
  refine h.invariant (P := fun t w =>
    (w.bond.gov = .fresh ∧ t.any (fun e => BondCollateral.upgrades e.input) = false) ∨
      w.bond.gov.admin ≠ none ∧
        Standing w.bond.gov (t.any fun e => BondCollateral.upgrades e.input)) (.inl ⟨rfl, rfl⟩) ?_
  intro t w a w' o hinv hs
  cases a with
  | call env c =>
    rcases hinv with ⟨hg, hu⟩ | ⟨ha, hstand⟩
    · rw [List.any_cons, hu, Bool.or_false]
      have hn : w.bond.gov.admin = none := congrArg Gov.admin hg
      obtain ⟨hc, hkept | ⟨admin, token, hw⟩⟩ := BondCollateral.invoke_opens hn hs
      · exact .inl ⟨hkept.trans hg, hc⟩
      · refine .inr ?_
        rw [hw]
        refine ⟨nofun, ?_⟩
        change Standing _ c.upgrades
        rw [hc]
        exact .current rfl rfl fun hp => absurd (congrArg Gov.pendingUpgradeHash hg) hp
    · exact .inr ⟨BondCollateral.invoke_admin ha hs,
        hstand.move (BondCollateral.invoke_moves ha hs)⟩
  | traffic t p =>
    simp only [BondCollateral.machine, BondCollateral.act, Option.ite_none_right_eq_some,
      Option.some.injEq, Prod.mk.injEq] at hs
    obtain ⟨_, rfl, _⟩ := hs
    exact hinv

theorem rentWallet_standing {s : RentWallet.State}
    (h : (RentWallet.machine own).Run (RentWallet.initialized admin) t s) :
    Standing s.gov (t.any fun e => RentWallet.upgrades e.input) := by
  refine standing_of_moves (d := 0) (v := fun s => s.gov) h (.current rfl rfl nofun) ?_
  intro s i s' o hs
  exact RentWallet.invoke_moves hs

end

/-- The versions of these contracts agree until the first upgrade, which locks out every other:
whoever asks for one, in whatever state follows, is turned away by the comparison. -/
theorem versions_agree_iff (tok : Token T) (net : BondCollateral.Peers P)
    (own admin token : Address) (t₀ : T) (p₀ : P) :
    (∀ t w, (StakingPool.machine tok own).Run ⟨StakingPool.initialized admin token, t₀⟩ t w →
      (w.pool.gov.VersionsAgree ↔ ∀ e ∈ t, StakingPool.upgrades e.input = false) ∧
        (StakingPool.LockedOut w.pool ↔ ∃ e ∈ t, StakingPool.upgrades e.input = true)) ∧
    (∀ t w, (BondCollateral.machine tok net own).Run ⟨.fresh, t₀, p₀⟩ t w →
      (w.bond.gov.VersionsAgree ↔ ∀ e ∈ t, BondCollateral.upgrades e.input = false) ∧
        (BondCollateral.LockedOut w.bond ↔ ∃ e ∈ t, BondCollateral.upgrades e.input = true)) ∧
    ∀ t s, (RentWallet.machine own).Run (RentWallet.initialized admin) t s →
      (s.gov.VersionsAgree ↔ ∀ e ∈ t, RentWallet.upgrades e.input = false) ∧
        (RentWallet.LockedOut s ↔ ∃ e ∈ t, RentWallet.upgrades e.input = true) := by
  refine ⟨fun t w h => ?_, fun t w h => ?_, fun t s h => ?_⟩
  · have hs := stakingPool_standing h
    exact ⟨hs.agree_iff_forall, StakingPool.lockedOut_iff.trans (hs.incompatible_iff_exists 0)⟩
  · rcases bondCollateral_standing h with ⟨hg, hu⟩ | ⟨_, hs⟩
    · have hnone : ∀ e ∈ t, BondCollateral.upgrades e.input = false := by simpa using hu
      rw [BondCollateral.lockedOut_iff, hg]
      refine ⟨iff_of_true rfl hnone, iff_of_false (not_not_intro rfl) ?_⟩
      rintro ⟨e, he, hup⟩
      cases (hnone e he).symm.trans hup
    · exact ⟨hs.agree_iff_forall,
        BondCollateral.lockedOut_iff.trans (hs.incompatible_iff_exists 1)⟩
  · have hs := rentWallet_standing h
    exact ⟨hs.agree_iff_forall, RentWallet.lockedOut_iff.trans (hs.incompatible_iff_exists 0)⟩

def silentPeers : BondCollateral.Peers Unit := ⟨fun _ _ => none, fun _ _ _ _ _ _ _ _ _ => none⟩

def newPool : StakingPool.World (Address → Int) := ⟨StakingPool.initialized ⟨1⟩ ⟨9⟩, fun _ => 0⟩

def newBond : BondCollateral.World (Address → Int) Unit := ⟨.fresh, fun _ => 0, ()⟩

/-- An upgrade of the pool is proposed and cancelled. -/
def cancelledUpgrade : List (StakingPool.Action ⟨0⟩ (Address → Int)) :=
  [.call (.signed ⟨0⟩ 0) (.proposeUpgrade ⟨1⟩ (.replicate 32 7) 2),
    .call (.signed ⟨0⟩ 0) (.cancelUpgrade ⟨1⟩)]

/-- The wallet is upgraded in an emergency. -/
def emergencyUpgraded : List (Env ⟨0⟩ × RentWallet.Call) :=
  [(.signed ⟨0⟩ 0, .setGuardian ⟨1⟩ ⟨2⟩),
    (.signed ⟨0⟩ 0, .emergencyUpgrade ⟨1⟩ (.replicate 32 7) 2)]

theorem versions_agree_iff_sample :
    ((StakingPool.machine plainToken ⟨0⟩).replay newPool
      cancelledUpgrade).2.pool.gov.VersionsAgree ∧
    RentWallet.LockedOut
      ((RentWallet.machine ⟨0⟩).replay (RentWallet.initialized ⟨1⟩) emergencyUpgraded).2 := by
  obtain ⟨hp, _, hw⟩ := versions_agree_iff plainToken silentPeers ⟨0⟩ ⟨1⟩ ⟨9⟩ (fun _ => 0) ()
  have hpool := hp _ _ ((StakingPool.machine plainToken ⟨0⟩).run_replay newPool cancelledUpgrade)
  have hwallet := hw _ _
    ((RentWallet.machine ⟨0⟩).run_replay (RentWallet.initialized ⟨1⟩) emergencyUpgraded)
  exact ⟨hpool.1.mpr (by decide), hwallet.2.mpr (by decide)⟩

/-- An upgrade of the pool is proposed and executed. -/
def upgradedPool : List (StakingPool.Action ⟨0⟩ (Address → Int)) :=
  [.call (.signed ⟨0⟩ 0) (.proposeUpgrade ⟨1⟩ (.replicate 32 7) 2),
    .call (.signed ⟨0⟩ 0) (.executeUpgrade ⟨1⟩ (.replicate 32 7))]

def upgradedBond : List (BondCollateral.Action ⟨0⟩ (Address → Int) Unit) :=
  [.call (.signed ⟨0⟩ 0) (.init ⟨1⟩ ⟨9⟩),
    .call (.signed ⟨0⟩ 0) (.proposeUpgrade ⟨1⟩ (.replicate 32 7) 2),
    .call (.signed ⟨0⟩ 0) (.executeUpgrade ⟨1⟩ (.replicate 32 7))]

def upgradedWallet : List (Env ⟨0⟩ × RentWallet.Call) :=
  [(.signed ⟨0⟩ 0, .proposeUpgrade ⟨1⟩ (.replicate 32 7) 2),
    (.signed ⟨0⟩ 0, .executeUpgrade ⟨1⟩ (.replicate 32 7))]

theorem versions_apart_upgraded :
    (¬ ∀ t w, (StakingPool.machine plainToken ⟨0⟩).Run newPool t w →
      w.pool.gov.VersionsAgree) ∧
    (¬ ∀ t w, (BondCollateral.machine plainToken silentPeers ⟨0⟩).Run newBond t w →
      w.bond.gov.VersionsAgree) ∧
    ¬ ∀ t s, (RentWallet.machine ⟨0⟩).Run (RentWallet.initialized ⟨1⟩) t s →
      s.gov.VersionsAgree := by
  refine ⟨fun hall => ?_, fun hall => ?_, fun hall => ?_⟩
  · have hr := (StakingPool.machine plainToken ⟨0⟩).run_replay newPool upgradedPool
    exact absurd (hall _ _ hr) (by decide)
  · have hr := (BondCollateral.machine plainToken silentPeers ⟨0⟩).run_replay newBond upgradedBond
    exact absurd (hall _ _ hr) (by decide)
  · have hr := (RentWallet.machine ⟨0⟩).run_replay (RentWallet.initialized ⟨1⟩) upgradedWallet
    exact absurd (hall _ _ hr) (by decide)

end Shelterflex.UpgradeGovernance
