import Shelterflex.BondCollateral.Model

/-! What a successful call writes. -/

namespace Shelterflex.BondCollateral
open Lib UpgradeGovernance
set_option autoImplicit true

section
variable {own : Address} {env : Env own} {s s' : State}

/-- What `init` makes of a state. -/
def started (admin token : Address) (s : State) : State :=
  { s with
    gov := { s.gov with
      admin := some admin
      contractVersion := some 1
      storageSchemaVersion := some 1 }
    token := some token
    totalCollateral := some 0
    warningThreshold := some 150
    liquidationThreshold := some 120
    keeperRewardCap := some 500 }

theorem init_ok (h : init env admin token s = .ok s') :
    s.gov.admin = none ∧ s' = started admin token s := by
  simp only [init, bind_ok, require_ok, pure_ok] at h
  obtain ⟨_, hn, _, _, rfl⟩ := h
  exact ⟨hn, rfl⟩

theorem setAdmin_ok (h : setAdmin env admin newAdmin s = .ok s') :
    s' = { s with gov := { s.gov with admin := some newAdmin } } := by
  simp only [setAdmin, bind_ok, pure_ok] at h
  obtain ⟨_, _, _, _, rfl⟩ := h
  rfl

theorem setThresholds_ok (h : setThresholds env admin warning liquidation s = .ok s') :
    s' = { s with warningThreshold := some warning, liquidationThreshold := some liquidation } := by
  simp only [setThresholds, bind_ok, pure_ok] at h
  obtain ⟨_, _, _, _, _, _, rfl⟩ := h
  rfl

theorem setThresholds_floor (h : setThresholds env admin warning liquidation s = .ok s') :
    100 ≤ liquidation := by
  simp only [setThresholds, bind_ok, require_ok] at h
  obtain ⟨_, _, _, _, _, ⟨_, hl⟩, _⟩ := h
  exact hl

theorem setKeeperRewardCap_ok (h : setKeeperRewardCap env admin capBps s = .ok s') :
    s' = { s with keeperRewardCap := some capBps } := by
  simp only [setKeeperRewardCap, bind_ok, pure_ok] at h
  obtain ⟨_, _, _, _, _, _, rfl⟩ := h
  rfl

theorem setOracleFeed_ok (h : setOracleFeed env admin feed staleness s = .ok s') :
    s' = { s with oracleFeed := some feed, oracleStaleness := some staleness } := by
  simp only [setOracleFeed, bind_ok, pure_ok] at h
  obtain ⟨_, _, _, _, rfl⟩ := h
  rfl

theorem setTargetHealthRatio_ok (h : setTargetHealthRatio env admin ratio s = .ok s') :
    s' = { s with targetHealthRatio := some ratio } := by
  simp only [setTargetHealthRatio, bind_ok, pure_ok] at h
  obtain ⟨_, _, _, _, _, _, rfl⟩ := h
  rfl

theorem setSlashingModule_ok (h : setSlashingModule env admin slashingModule s = .ok s') :
    s' = { s with slashingModule := some slashingModule } := by
  simp only [setSlashingModule, bind_ok, pure_ok] at h
  obtain ⟨_, _, _, _, rfl⟩ := h
  rfl

theorem setOperator_ok (h : setOperator env admin operator s = .ok s') :
    s' = { s with operator := some operator } := by
  simp only [setOperator, bind_ok, pure_ok] at h
  obtain ⟨_, _, _, _, rfl⟩ := h
  rfl

theorem pause_ok (h : pause env admin s = .ok s') :
    s.gov.admin ≠ none ∧ s' = { s with paused := some true } := by
  simp only [pause, requireAdmin, getAdmin, bind_ok, mapErr_ok, expect_ok, pure_ok] at h
  obtain ⟨_, ⟨_, ha, _⟩, rfl⟩ := h
  exact ⟨ha ▸ Option.some_ne_none _, rfl⟩

theorem unpause_ok (h : unpause env admin s = .ok s') :
    s.gov.admin ≠ none ∧ s' = { s with paused := some false } := by
  simp only [unpause, requireAdmin, getAdmin, bind_ok, mapErr_ok, expect_ok, pure_ok] at h
  obtain ⟨_, ⟨_, ha, _⟩, rfl⟩ := h
  exact ⟨ha ▸ Option.some_ne_none _, rfl⟩

/-! Positions -/

theorem issueBond_ok (h : issueBond env owner positionId amount s = .ok s') :
    ∃ p : CollateralPosition, p = positionOr env owner positionId s ∧ p.owner = owner ∧
      0 < amount ∧
      s' = putPosition positionId { p with bondAmount := p.bondAmount + amount } s := by
  simp only [issueBond, bind_ok, require_ok, i128Add_ok, pure_ok] at h
  obtain ⟨_, _, _, _, _, ha, _, ho, _, ⟨_, rfl⟩, _, _, rfl⟩ := h
  exact ⟨_, rfl, ho, ha, rfl⟩

theorem redeemBond_ok (h : redeemBond env owner positionId amount s = .ok s') :
    ∃ p, getPosition s positionId = some p ∧ p.owner = owner ∧ 0 < amount ∧
      amount ≤ p.bondAmount ∧
      s' = putPosition positionId { p with bondAmount := p.bondAmount - amount } s := by
  simp only [redeemBond, bind_ok, require_ok, okOr_ok, i128Sub_ok, pure_ok] at h
  obtain ⟨_, _, _, _, _, ha, p, hp, _, ho, _, hle, _, ⟨_, rfl⟩, rfl⟩ := h
  exact ⟨p, hp, ho, ha, hle, rfl⟩

end

section
variable {own : Address} {tok : Token T} {net : Peers P} {env : Env own} {w w' : World T P}

theorem depositCollateral_ok (h : depositCollateral tok env owner positionId amount w = .ok w') :
    0 < amount ∧ InI128 (getTotalCollateral w.bond + amount) ∧ w'.peers = w.peers ∧
      env.authorized owner = true ∧
      (∃ auth, tok.transfer w.token auth owner own amount = some w'.token) ∧
      ∃ p : CollateralPosition, p = positionOr env owner positionId w.bond ∧ p.owner = owner ∧
        w'.bond = putTotalCollateral (getTotalCollateral w.bond + amount)
          (putPosition positionId { p with
            collateralAmount := p.collateralAmount + amount
            createdAt := env.timestamp } w.bond) := by
  simp only [depositCollateral, transfer, bind_ok, require_ok, requireAuth_ok, Token.call_ok,
    i128Add_ok, pure_ok] at h
  obtain ⟨_, _, _, hs, _, ha, t, ⟨_, _, ht⟩, _, ho, _, ⟨_, rfl⟩, _, ⟨hf, rfl⟩, rfl⟩ := h
  exact ⟨ha, hf, rfl, hs, ⟨_, ht⟩, _, rfl, ho, rfl⟩

theorem depositCollateral_token
    (h : depositCollateral tok env owner positionId amount w = .ok w') : w.bond.token ≠ none := by
  simp only [depositCollateral, transfer, getToken, bind_ok, expect_ok] at h
  obtain ⟨_, _, _, _, _, _, _, ⟨_, ht, _⟩, _⟩ := h
  exact ht ▸ Option.some_ne_none _

theorem withdrawCollateral_ok (h : withdrawCollateral tok env owner positionId amount w = .ok w') :
    0 < amount ∧ w'.peers = w.peers ∧
      (∃ auth, tok.transfer w.token auth own owner amount = some w'.token) ∧
      ∃ p, getPosition w.bond positionId = some p ∧ p.owner = owner ∧
        amount ≤ p.collateralAmount ∧
        w'.bond = putTotalCollateral (getTotalCollateral w.bond - amount)
          (putPosition positionId { p with
            collateralAmount := p.collateralAmount - amount } w.bond) := by
  simp only [withdrawCollateral, transfer, bind_ok, require_ok, requireAuth_ok, okOr_ok,
    Token.call_ok, i128Sub_ok, pure_ok] at h
  obtain ⟨_, _, _, hs, _, ha, p, hp, _, ho, _, hle, _, ⟨_, rfl⟩, _, _, t, ⟨_, _, ht⟩, _,
    ⟨_, rfl⟩, rfl⟩ := h
  exact ⟨ha, rfl, ⟨_, ht⟩, p, hp, ho, hle, rfl⟩

theorem withdrawCollateral_token
    (h : withdrawCollateral tok env owner positionId amount w = .ok w') :
    w.bond.token ≠ none := by
  simp only [withdrawCollateral, transfer, getToken, bind_ok, expect_ok] at h
  obtain ⟨_, _, _, _, _, _, _, _, _, _, _, _, _, _, _, _, _, ⟨_, ht, _⟩, _⟩ := h
  exact ht ▸ Option.some_ne_none _

theorem liquidate_ok (h : liquidate tok env net keeper positionId w = .ok w') :
    w'.peers = w.peers ∧ ∃ p price taken, getPosition w.bond positionId = some p ∧
      p.collateralAmount ≠ 0 ∧
      (∃ oracle ratio,
        tryFetchOraclePrice net w.peers w.bond = (.ok oracle : Outcome ContractError _) ∧
        effectivePrice env oracle w.bond = .ok price ∧
        calculateCollateralRatioOracle p.collateralAmount p.bondAmount price =
          (.ok ratio : Outcome ContractError Nat) ∧
        ratio < getLiquidationThreshold w.bond) ∧
      seizure p.collateralAmount p.bondAmount price w.bond = .ok taken ∧
      w'.bond = settlePosition positionId p taken.seizeAmount
        (p.collateralAmount - taken.seizeAmount) (p.bondAmount - taken.bondReduction) w.bond ∧
      if 0 < taken.keeperReward then
        ∃ auth, tok.transfer w.token auth own keeper taken.keeperReward = some w'.token
      else w'.token = w.token := by
  simp only [liquidate, bind_ok, require_ok, okOr_ok, i128Sub_ok] at h
  obtain ⟨_, _, _, _, p, hp, _, hne, oracle, ho, price, hprice, ratio, hr, _, hlt, taken, hz, _,
    ⟨_, rfl⟩, _, ⟨_, rfl⟩, _, _, h⟩ := h
  by_cases hk : 0 < taken.keeperReward
  · simp only [if_pos hk, transfer, bind_ok, Token.call_ok, pure_ok] at h
    obtain ⟨t, ⟨_, _, ht⟩, rfl⟩ := h
    exact ⟨rfl, p, price, taken, hp, hne.2, ⟨oracle, ratio, ho, hprice, hr, hlt⟩, hz, rfl,
      by rw [if_pos hk]; exact ⟨_, ht⟩⟩
  · simp only [if_neg hk, pure_ok] at h
    subst w'
    exact ⟨rfl, p, price, taken, hp, hne.2, ⟨oracle, ratio, ho, hprice, hr, hlt⟩, hz, rfl,
      by rw [if_neg hk]⟩

end

/-! Inspector bonds -/

section
variable {own : Address} {net : Peers P} {env : Env own} {s s' : State} {w w' : World T P}

theorem depositBond_ok (h : depositBond env inspector amount s = .ok s') :
    s' = { s with
      inspectorBond := s.inspectorBond.set inspector (getInspectorBond s inspector + amount) } := by
  simp only [depositBond, bind_ok, i128Add_ok, pure_ok] at h
  obtain ⟨_, _, _, _, _, _, _, ⟨_, rfl⟩, rfl⟩ := h
  rfl

theorem withdrawBond_ok (h : withdrawBond env inspector amount s = .ok s') :
    s' = { s with
      inspectorBond := s.inspectorBond.set inspector (getInspectorBond s inspector - amount) } := by
  simp only [withdrawBond, bind_ok, i128Sub_ok, pure_ok] at h
  obtain ⟨_, _, _, _, _, _, _, _, _, _, _, ⟨_, rfl⟩, rfl⟩ := h
  rfl

theorem depositBond_pos (h : depositBond env inspector amount s = .ok s') : 0 < amount := by
  simp only [depositBond, bind_ok, require_ok] at h
  obtain ⟨_, _, _, _, _, ha, _⟩ := h
  exact ha

theorem withdrawBond_checks (h : withdrawBond env inspector amount s = .ok s') :
    getInspectorLocks s inspector = [] ∧ amount ≤ getInspectorBond s inspector := by
  simp only [withdrawBond, bind_ok, require_ok] at h
  obtain ⟨_, _, _, _, _, _, _, hl, _, ha, _⟩ := h
  exact ⟨hl, ha⟩

theorem lockBond_ok (h : lockBond env operator inspector inspectionId s = .ok s') :
    s' = { s with
      inspectorLocks :=
        s.inspectorLocks.set inspector (getInspectorLocks s inspector ++ [inspectionId]) } := by
  simp only [lockBond, bind_ok, pure_ok] at h
  obtain ⟨_, _, _, _, _, _, rfl⟩ := h
  rfl

theorem unlockBond_ok (h : unlockBond env operator inspector inspectionId s = .ok s') :
    s' = { s with
      inspectorLocks := s.inspectorLocks.set inspector
        ((getInspectorLocks s inspector).filter fun existing => existing ≠ inspectionId) } := by
  simp only [unlockBond, bind_ok, pure_ok] at h
  obtain ⟨_, _, _, _, _, _, rfl⟩ := h
  rfl

theorem executeSlash_ok
    (h : executeSlash env net admin inspector amount inspectionId reason w = .ok w') :
    w'.token = w.token ∧ w'.bond = { w.bond with
      inspectorBond :=
        w.bond.inspectorBond.set inspector (getInspectorBond w.bond inspector - amount) } := by
  simp only [executeSlash, bind_ok, i128Sub_ok, pure_ok] at h
  obtain ⟨_, _, _, _, _, _, _, _, _, _, _, _, _, ⟨_, rfl⟩, rfl⟩ := h
  exact ⟨rfl, rfl⟩

theorem executeSlash_slashed
    (h : executeSlash env net admin inspector amount inspectionId reason w = .ok w') :
    amount ≤ getInspectorBond w.bond inspector ∧ ∃ auth slashingModule,
      net.slash w.peers env.timestamp auth slashingModule own inspector amount inspectionId
        reason = some w'.peers := by
  simp only [executeSlash, bind_ok, require_ok, expect_ok, pure_ok] at h
  obtain ⟨_, _, _, _, _, _, _, hle, m, _, p, hp, _, _, rfl⟩ := h
  exact ⟨hle, _, m, hp⟩

end

/-! Which part of the state a call writes -/

def Call.switches : Call → Bool
  | .pause _ | .unpause _ => true
  | _ => false

/-- The calls that concern positions. -/
def Call.collateralizes : Call → Bool
  | .depositCollateral .. | .issueBond .. | .redeemBond .. | .withdrawCollateral ..
  | .liquidate .. => true
  | _ => false

/-- The calls that concern inspectors. -/
def Call.inspects : Call → Bool
  | .depositBond .. | .withdrawBond .. | .lockBond .. | .unlockBond .. | .executeSlash .. => true
  | _ => false

/-- Settings changed, by an admin who is still there. -/
structure Configured (s s' : State) : Prop where
  token : s'.token = s.token
  positions : s'.bondCollateral = s.bondCollateral
  total : s'.totalCollateral = s.totalCollateral
  bonds : s'.inspectorBond = s.inspectorBond
  locks : s'.inspectorLocks = s.inspectorLocks
  threshold : 100 ≤ getLiquidationThreshold s → 100 ≤ getLiquidationThreshold s'
  admin : s.gov.admin ≠ none → s'.gov.admin ≠ none
  paused : s'.paused = s.paused ∨ s.gov.admin ≠ none

theorem Configured.gov {g : Gov} {s : State} (h : g.admin = s.gov.admin) :
    Configured s { s with gov := g } :=
  ⟨rfl, rfl, rfl, rfl, rfl, id, fun ha => h ▸ ha, .inl rfl⟩

/-- What a call writes: settings, positions with their total, or the books on inspectors. -/
inductive Writes (w w' : World T P) (c : Call) : Prop where
  | start : c = .init admin token → w.bond.gov.admin = none →
      w'.bond = started admin token w.bond → w'.token = w.token → w'.peers = w.peers →
      Writes w w' c
  | settings : c.collateralizes = false → c.inspects = false → Configured w.bond w'.bond →
      w'.token = w.token → w'.peers = w.peers → Writes w w' c
  | positions : c.collateralizes = true →
      w'.bond = { w.bond with bondCollateral := C, totalCollateral := n } →
      w'.peers = w.peers → Writes w w' c
  | inspectors : c.inspects = true →
      w'.bond = { w.bond with inspectorBond := B, inspectorLocks := L } →
      w'.token = w.token → Writes w w' c

section
variable {own : Address} {tok : Token T} {net : Peers P} {env : Env own} {w w' : World T P}

theorem done_writes {x : Outcome ε State} (h : commit x w.done = some (w', o))
    (hm : ∀ s, x = .ok s → Writes w { w with bond := s } c) : Writes w w' c := by
  obtain ⟨s, hs, he⟩ := commit_some.mp h
  cases he
  exact hm s hs

theorem done_settings {x : Outcome ε State} (h : commit x w.done = some (w', o))
    (hc : c.collateralizes = false) (hi : c.inspects = false)
    (hm : ∀ s, x = .ok s → Configured w.bond s) : Writes w w' c :=
  done_writes h fun s hs => .settings hc hi (hm s hs) rfl rfl

theorem settlePosition_writes (positionId : BytesN 32) (p : CollateralPosition)
    (seized c b : Int) (s : State) : ∃ C n, settlePosition positionId p seized c b s =
      { s with bondCollateral := C, totalCollateral := n } := by
  unfold settlePosition
  split
  · exact ⟨_, _, rfl⟩
  · exact ⟨_, _, rfl⟩

theorem invoke_writes (h : invoke tok net env w c = some (w', o)) : Writes w w' c := by
  cases c with
  | init _ _ =>
    refine done_writes h fun s hs => ?_
    obtain ⟨hn, rfl⟩ := init_ok hs
    exact .start rfl hn rfl rfl rfl
  | setAdmin _ _ =>
    refine done_settings h rfl rfl fun s hs => ?_
    rw [setAdmin_ok hs]
    exact ⟨rfl, rfl, rfl, rfl, rfl, id, fun _ => nofun, .inl rfl⟩
  | setThresholds _ _ liquidation =>
    refine done_settings h rfl rfl fun s hs => ?_
    have hf := setThresholds_floor hs
    rw [setThresholds_ok hs]
    exact ⟨rfl, rfl, rfl, rfl, rfl, fun _ => hf, id, .inl rfl⟩
  | setKeeperRewardCap _ _ =>
    refine done_settings h rfl rfl fun s hs => ?_
    rw [setKeeperRewardCap_ok hs]
    exact ⟨rfl, rfl, rfl, rfl, rfl, id, id, .inl rfl⟩
  | setOracleFeed _ _ _ =>
    refine done_settings h rfl rfl fun s hs => ?_
    rw [setOracleFeed_ok hs]
    exact ⟨rfl, rfl, rfl, rfl, rfl, id, id, .inl rfl⟩
  | setTargetHealthRatio _ _ =>
    refine done_settings h rfl rfl fun s hs => ?_
    rw [setTargetHealthRatio_ok hs]
    exact ⟨rfl, rfl, rfl, rfl, rfl, id, id, .inl rfl⟩
  | setSlashingModule _ _ =>
    refine done_settings h rfl rfl fun s hs => ?_
    rw [setSlashingModule_ok hs]
    exact ⟨rfl, rfl, rfl, rfl, rfl, id, id, .inl rfl⟩
  | setOperator _ _ =>
    refine done_settings h rfl rfl fun s hs => ?_
    rw [setOperator_ok hs]
    exact ⟨rfl, rfl, rfl, rfl, rfl, id, id, .inl rfl⟩
  | pause _ =>
    refine done_settings h rfl rfl fun s hs => ?_
    obtain ⟨ha, rfl⟩ := pause_ok hs
    exact ⟨rfl, rfl, rfl, rfl, rfl, id, id, .inr ha⟩
  | unpause _ =>
    refine done_settings h rfl rfl fun s hs => ?_
    obtain ⟨ha, rfl⟩ := unpause_ok hs
    exact ⟨rfl, rfl, rfl, rfl, rfl, id, id, .inr ha⟩
  | setGuardian _ _ =>
    refine done_settings h rfl rfl fun s hs => ?_
    simp only [setGuardian, bind_ok, mapErr_ok, pure_ok] at hs
    obtain ⟨_, hg, rfl⟩ := hs
    cases setGuardian_ok hg
    exact .gov rfl
  | setUpgradeDelay _ _ =>
    refine done_settings h rfl rfl fun s hs => ?_
    simp only [setUpgradeDelay, bind_ok, mapErr_ok, pure_ok] at hs
    obtain ⟨_, hg, rfl⟩ := hs
    cases setUpgradeDelay_ok hg
    exact .gov rfl
  | proposeUpgrade _ _ _ =>
    refine done_settings h rfl rfl fun s hs => ?_
    simp only [proposeUpgrade, bind_ok, mapErr_ok, pure_ok] at hs
    obtain ⟨_, _, _, hg, rfl⟩ := hs
    obtain ⟨_, _, rfl⟩ := proposeUpgrade_ok hg
    exact .gov rfl
  | executeUpgrade _ _ =>
    obtain ⟨_, hs, he⟩ := commit_some.mp h
    cases he
    simp only [executeUpgrade, bind_ok, mapErr_ok, pure_ok] at hs
    obtain ⟨⟨_, _⟩, hg, rfl⟩ := hs
    obtain ⟨_, _, _, _, _, _, _, rfl⟩ := executeUpgrade_ok hg
    exact .settings rfl rfl (.gov rfl) rfl rfl
  | emergencyUpgrade _ _ _ =>
    obtain ⟨_, hs, he⟩ := commit_some.mp h
    cases he
    simp only [emergencyUpgrade, bind_ok, mapErr_ok, pure_ok] at hs
    obtain ⟨_, _, ⟨_, _⟩, hg, rfl⟩ := hs
    obtain ⟨_, _, rfl⟩ := emergencyUpgrade_ok hg
    exact .settings rfl rfl (.gov rfl) rfl rfl
  | cancelUpgrade _ =>
    refine done_settings h rfl rfl fun s hs => ?_
    simp only [cancelUpgrade, bind_ok, pure_ok] at hs
    obtain ⟨_, _, _, hg, rfl⟩ := hs
    obtain ⟨_, rfl⟩ := cancelUpgrade_ok hg
    exact .gov rfl
  | issueBond _ _ _ =>
    refine done_writes h fun s hs => ?_
    obtain ⟨_, _, _, _, rfl⟩ := issueBond_ok hs
    exact .positions rfl rfl rfl
  | redeemBond _ _ _ =>
    refine done_writes h fun s hs => ?_
    obtain ⟨_, _, _, _, _, rfl⟩ := redeemBond_ok hs
    exact .positions rfl rfl rfl
  | depositCollateral _ _ _ =>
    obtain ⟨_, hs, he⟩ := commit_some.mp h
    cases he
    obtain ⟨_, _, hp, _, _, _, _, _, hw⟩ := depositCollateral_ok hs
    exact .positions rfl hw hp
  | withdrawCollateral _ _ _ =>
    obtain ⟨_, hs, he⟩ := commit_some.mp h
    cases he
    obtain ⟨_, hp, _, _, _, _, _, hw⟩ := withdrawCollateral_ok hs
    exact .positions rfl hw hp
  | liquidate _ _ =>
    obtain ⟨_, hs, he⟩ := commit_some.mp h
    cases he
    obtain ⟨hp, p, _, taken, _, _, _, _, hw, _⟩ := liquidate_ok hs
    obtain ⟨_, _, hz⟩ := settlePosition_writes _ p _ _ _ w.bond
    exact .positions rfl (hw.trans hz) hp
  | depositBond _ _ =>
    refine done_writes h fun s hs => ?_
    rw [depositBond_ok hs]
    exact .inspectors rfl rfl rfl
  | withdrawBond _ _ =>
    refine done_writes h fun s hs => ?_
    rw [withdrawBond_ok hs]
    exact .inspectors rfl rfl rfl
  | lockBond _ _ _ =>
    refine done_writes h fun s hs => ?_
    rw [lockBond_ok hs]
    exact .inspectors rfl rfl rfl
  | unlockBond _ _ _ =>
    refine done_writes h fun s hs => ?_
    rw [unlockBond_ok hs]
    exact .inspectors rfl rfl rfl
  | executeSlash _ _ _ _ _ =>
    obtain ⟨_, hs, he⟩ := commit_some.mp h
    cases he
    obtain ⟨ht, hw⟩ := executeSlash_ok hs
    exact .inspectors rfl hw ht

end

/-! The frame of a call -/

theorem Writes.uninspected {w w' : World T P} (h : Writes w w' c) (hc : c.inspects = false) :
    w'.bond.inspectorBond = w.bond.inspectorBond ∧
      w'.bond.inspectorLocks = w.bond.inspectorLocks ∧ w'.peers = w.peers := by
  cases h with
  | start _ _ hw _ hp =>
    rw [hw]
    exact ⟨rfl, rfl, hp⟩
  | settings _ _ hs _ hp => exact ⟨hs.bonds, hs.locks, hp⟩
  | positions _ hw hp =>
    rw [hw]
    exact ⟨rfl, rfl, hp⟩
  | inspectors hi _ _ => cases hi.symm.trans hc

/-- Before `init` names an admin the contract has no token and is not paused. -/
structure Unopened (s : State) : Prop where
  token : s.gov.admin = none → s.token = none
  running : s.gov.admin = none → s.paused.getD false = false

theorem Writes.unopened {w w' : World T P} (h : Writes w w' c) (hu : Unopened w.bond) :
    Unopened w'.bond := by
  cases h with
  | start _ _ hw _ _ =>
    rw [hw]
    exact ⟨nofun, nofun⟩
  | settings _ _ hs _ _ =>
    have hadmin : w'.bond.gov.admin = none → w.bond.gov.admin = none := not_imp_not.mp hs.admin
    refine ⟨fun hn => hs.token ▸ hu.token (hadmin hn), fun hn => ?_⟩
    rw [hs.paused.resolve_right (not_not_intro (hadmin hn))]
    exact hu.running (hadmin hn)
  | positions _ hw _ =>
    rw [hw]
    exact ⟨hu.token, hu.running⟩
  | inspectors _ hw _ =>
    rw [hw]
    exact ⟨hu.token, hu.running⟩

section
variable {own : Address} {tok : Token T} {net : Peers P} {w w' : World T P}

theorem act_unopened {a : Action own T P} (hu : Unopened w.bond)
    (h : act tok net w a = some (w', o)) : Unopened w'.bond := by
  cases a with
  | call env c => exact (invoke_writes h).unopened hu
  | traffic t p =>
    simp only [act, Option.ite_none_right_eq_some, Option.some.injEq, Prod.mk.injEq] at h
    obtain ⟨_, rfl, _⟩ := h
    exact hu

theorem Unopened.fresh : Unopened .fresh := ⟨fun _ => rfl, fun _ => rfl⟩

theorem reachable_unopened (h : (machine tok net own).Reachable ⟨.fresh, t₀, p₀⟩ w) :
    Unopened w.bond :=
  h.invariant Unopened.fresh act_unopened

end

end Shelterflex.BondCollateral
