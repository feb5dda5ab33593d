import Shelterflex.UpgradeableProxy.Consent

/-! What the storage holds, whatever upgrades came in between. -/

namespace Shelterflex.UpgradeableProxy
open Lib
set_option autoImplicit true

def Call.isUpgrade : Call → Bool
  | .confirmUpgrade _ _ => true
  | _ => false

def upgrades (t : History own) : Nat := t.countP fun e => e.input.2.isUpgrade

theorem upgrades_cons (e : Step own) (t : History own) (h : e.input.2.isUpgrade = true) :
    upgrades (e :: t) = upgrades t + 1 :=
  List.countP_cons_of_pos h

/-- The code that the last upgrade installed, or that the contract was deployed with. -/
def installed (code : BytesN 32) : History own → BytesN 32
  | [] => code
  | e :: t =>
    match e.input.2 with
    | .confirmUpgrade _ newWasmHash => newWasmHash
    | _ => installed code t

/-- The value that was set last since `init`, which starts with an empty store. -/
def valueSet (key : Bytes) : History own → Option Bytes
  | [] => none
  | e :: t =>
    match e.input.2 with
    | .setValue key' value => if key = key' then some value else valueSet key t
    | .init _ _ => none
    | _ => valueSet key t

/-- The code that the admin proposed last, unless the proposal is settled. -/
def proposal : History own → Option (BytesN 32)
  | [] => none
  | e :: t =>
    match e.input.2 with
    | .proposeUpgrade _ newWasmHash => some newWasmHash
    | .confirmUpgrade _ _ => none
    | .cancelUpgrade _ => none
    | _ => proposal t

/-- The contract is what its history makes of it. -/
structure Recorded (code : BytesN 32) (t : History own) (w : Instance) : Prop where
  version : getVersion w.storage = upgrades t + 1
  fits : upgrades t + 1 < 2 ^ 32
  code : w.code = installed code t
  values : ∀ key, getValue key w.storage = valueSet key t
  pending : w.storage.pendingUpgrade = proposal t

/-- No approver is there before `init`, and no upgrade. -/
def Started (t : History own) (w : Instance) : Prop :=
  w.storage.admin = none → w.storage.secondApprover = none ∧ upgrades t = 0

section
variable {env : DeployerEnv own} {t : History own}

theorem Changes.started (h : Changes env w w' c) (hst : Started t w) :
    Started (⟨w, (env, c), (), w'⟩ :: t) w' := by
  intro hn
  have hbefore : w.storage.admin = none := by
    by_contra hne
    exact h.admin_stays hne hn
  obtain ⟨happ, hup⟩ := hst hbefore
  cases h with
  | init _ _ hs =>
    subst hs
    cases hn
  | confirmUpgrade ha _ => cases ha.role.symm.trans happ
  | proposeUpgrade _ hs | cancelUpgrade _ hs =>
    subst hs
    exact ⟨happ, hup⟩
  | transferAdmin _ hs =>
    subst hs
    cases hn
  | setValue hs =>
    subst hs
    exact ⟨happ, hup⟩

theorem Changes.recorded (h : Changes env w w' c) (hst : Started t w) (hr : Recorded code t w) :
    Recorded code (⟨w, (env, c), (), w'⟩ :: t) w' := by
  obtain ⟨hversion, hfits, hcode, hvalues, hpending⟩ := hr
  cases h with
  | init hn _ hs =>
    subst hs
    obtain ⟨_, hup⟩ := hst hn
    refine ⟨?_, hfits, hcode, fun _ => rfl, hpending⟩
    change 1 = upgrades t + 1
    rw [hup]
  | proposeUpgrade _ hs =>
    subst hs
    exact ⟨hversion, hfits, hcode, hvalues, rfl⟩
  | confirmUpgrade ha hs =>
    subst hs
    have hlt := ha.fits
    rw [hversion] at hlt
    refine ⟨?_, ?_, rfl, hvalues, rfl⟩
    · rw [upgrades_cons _ _ rfl, ← hversion]
      rfl
    · rw [upgrades_cons _ _ rfl]
      exact hlt
  | cancelUpgrade _ hs =>
    subst hs
    exact ⟨hversion, hfits, hcode, hvalues, rfl⟩
  | transferAdmin _ hs =>
    subst hs
    exact ⟨hversion, hfits, hcode, hvalues, hpending⟩
  | @setValue key' value hs =>
    subst hs
    refine ⟨hversion, hfits, hcode, fun key => ?_, hpending⟩
    change ((storeMap w.storage).set key' value).get key = _
    rw [Store.get_set]
    exact ite_congr rfl (fun _ => rfl) fun _ => hvalues key

end

/-- Through any upgrades and transfers the version counts the upgrades, the code is what was
confirmed last, and the store holds what was set. -/
theorem storage_recorded {builds : BytesN 32 → Bool} {code : BytesN 32}
    (h : (machine builds own).Run (deployed code) t w) : Recorded code t w := by
  have hboth : Started t w ∧ Recorded code t w := by
    refine h.invariant (P := fun t w => Started t w ∧ Recorded code t w) ?_ ?_
    · exact ⟨fun _ => ⟨rfl, rfl⟩, rfl, (by decide : 0 + 1 < 2 ^ 32), rfl, fun _ => rfl, rfl⟩
    · rintro t w ⟨env, c⟩ w' ⟨⟩ ⟨hst, hr⟩ hs
      exact ⟨(step_changes hs).started hst, (step_changes hs).recorded hst hr⟩
  exact hboth.2

theorem storage_recorded_transferred :
    Recorded (hash 7) (perform upgradeCalls).1 (perform upgradeCalls).2 ∧
      valueSet [1] (perform upgradeCalls).1 = some [2] :=
  ⟨storage_recorded ((machine sampleBuilds ⟨0⟩).run_replay (deployed (hash 7)) upgradeCalls),
    by decide +kernel⟩

end Shelterflex.UpgradeableProxy
