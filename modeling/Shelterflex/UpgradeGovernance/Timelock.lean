import Shelterflex.UpgradeGovernance.Core
import Shelterflex.Lib.Machine

namespace Shelterflex.UpgradeGovernance
open Lib
set_option autoImplicit true

inductive Call where
  | proposeUpgrade (admin : Address) (newWasmHash : BytesN 32) (newVersion : Nat)
      (newSchemaVersion : Option Nat)
  | executeUpgrade (admin : Address) (newWasmHash : BytesN 32)
  | emergencyUpgrade (admin : Address) (newWasmHash : BytesN 32) (newVersion : Nat)
      (newSchemaVersion : Option Nat) (requireGuardian : Bool)
  | setUpgradeDelay (admin : Address) (delaySeconds : Nat)
  | setGuardian (admin : Address) (guardian : Option Address)
  | cancelUpgrade (admin : Address)
deriving DecidableEq

abbrev Step (own : Address) := Event Gov (Env own × Call) (Option (BytesN 32))

/-- The error of the calling contract is the shared one here. -/
def invoke (dropVersion : Bool) (env : Env own) (g : Gov) :
    Call → Option (Gov × Option (BytesN 32))
  | .proposeUpgrade admin newWasmHash newVersion newSchemaVersion =>
    commit (proposeUpgrade env admin newWasmHash newVersion newSchemaVersion g) (·, none)
  | .executeUpgrade admin newWasmHash =>
    commit (executeUpgrade env admin newWasmHash g) fun r => (r.1, some r.2)
  | .emergencyUpgrade admin newWasmHash newVersion newSchemaVersion requireGuardian =>
    commit (emergencyUpgrade env admin newWasmHash newVersion newSchemaVersion requireGuardian g)
      fun r => (r.1, some r.2)
  | .setUpgradeDelay admin delaySeconds =>
    commit (setUpgradeDelay env admin delaySeconds g) (·, none)
  | .setGuardian admin guardian => commit (setGuardian env admin guardian g) (·, none)
  | .cancelUpgrade admin =>
    commit (cancelUpgrade env dropVersion UpgradeGovernanceError.notAuthorized .noPendingUpgrade
      admin g) (·, none)

/-- The governance part of a contract, whose `cancel_upgrade` may keep the proposed version. -/
def machine (own : Address) (dropVersion : Bool) :
    Machine Gov (Env own × Call) (Option (BytesN 32)) where
  step g i := invoke dropVersion i.1 g i.2

/-- The calls that leave no upgrade pending. -/
def Call.clears : Call → Bool
  | .executeUpgrade _ _ => true
  | .emergencyUpgrade _ _ _ _ _ => true
  | .cancelUpgrade _ => true
  | _ => false

def Call.proposes (wasm : BytesN 32) : Call → Bool
  | .proposeUpgrade _ newWasmHash _ _ => newWasmHash = wasm
  | _ => false

def Call.executes : Call → Option (BytesN 32)
  | .executeUpgrade _ newWasmHash => some newWasmHash
  | _ => none

/-- The proposals of `wasm` that were neither executed nor cancelled since. -/
def outstanding (wasm : BytesN 32) : List (Step own) → List (Step own)
  | [] => []
  | e :: t =>
    if e.input.2.clears then []
    else if e.input.2.proposes wasm then e :: outstanding wasm t
    else outstanding wasm t

/-- What was executed had been proposed, and the delay in force at the proposal had elapsed. -/
def Timelocked : List (Step own) → Prop
  | [] => True
  | e :: t => Timelocked t ∧ ∀ wasm ∈ e.input.2.executes, ∃ p ∈ outstanding wasm t,
      p.input.1.timestamp + getUpgradeDelay p.pre ≤ e.input.1.timestamp

instance Timelocked.decidable : ∀ t : List (Step own), Decidable (Timelocked t)
  | [] => isTrue trivial
  | _ :: t =>
    have := Timelocked.decidable t
    inferInstanceAs (Decidable (_ ∧ _))

def Chronological : List (Step own) → Prop
  | [] => True
  | e :: t => Chronological t ∧ ∀ p ∈ t, p.input.1.timestamp ≤ e.input.1.timestamp

instance Chronological.decidable : ∀ t : List (Step own), Decidable (Chronological t)
  | [] => isTrue trivial
  | _ :: t =>
    have := Chronological.decidable t
    inferInstanceAs (Decidable (_ ∧ _))

/-- Lowering the delay while an upgrade is pending. -/
def Call.shortens (g : Gov) : Call → Bool
  | .setUpgradeDelay _ delaySeconds =>
    g.pendingUpgradeHash.isSome && decide (delaySeconds < getUpgradeDelay g)
  | _ => false

/-- What is pending was proposed at the recorded time, under a delay no longer than today's. -/
def Recorded (t : List (Step own)) (g : Gov) : Prop :=
  ∀ wasm, g.pendingUpgradeHash = some wasm → ∃ p ∈ outstanding wasm t,
    g.pendingUpgradeAt = some p.input.1.timestamp ∧ getUpgradeDelay p.pre ≤ getUpgradeDelay g

theorem mem_outstanding_cons {t : List (Step own)} (hc : e.input.2.clears = false)
    (hp : p ∈ outstanding wasm t) : p ∈ outstanding wasm (e :: t) := by
  simp only [outstanding, hc, Bool.false_eq_true, if_false]
  split
  · exact List.mem_cons_of_mem _ hp
  · exact hp

theorem mem_outstanding_self {t : List (Step own)} (hc : e.input.2.clears = false)
    (hp : e.input.2.proposes wasm = true) : e ∈ outstanding wasm (e :: t) := by
  simp [outstanding, hc, hp]

theorem Recorded.keep {t : List (Step own)} {e : Step own} (h : Recorded t g)
    (hc : e.input.2.clears = false) (hh : g'.pendingUpgradeHash = g.pendingUpgradeHash)
    (ha : g'.pendingUpgradeAt = g.pendingUpgradeAt)
    (hd : g.pendingUpgradeHash ≠ none → getUpgradeDelay g ≤ getUpgradeDelay g') :
    Recorded (e :: t) g' := by
  intro wasm hw
  rw [hh] at hw
  obtain ⟨p, hp, hat, hle⟩ := h wasm hw
  have hn : g.pendingUpgradeHash ≠ none := by simp [hw]
  exact ⟨p, mem_outstanding_cons hc hp, ha.trans hat, hle.trans (hd hn)⟩

theorem Recorded.clear {t : List (Step own)} (h : g.pendingUpgradeHash = none) :
    Recorded t g := by
  intro wasm hw
  rw [h] at hw
  cases hw

theorem invoke_recorded {t : List (Step own)} (h : Recorded t g)
    (hs : invoke dropVersion env g c = some (g', o)) (hc : c.shortens g = false) :
    Recorded (⟨g, (env, c), o, g'⟩ :: t) g' := by
  cases c with
  | proposeUpgrade admin wasm newVersion newSchemaVersion =>
    obtain ⟨_, hx, he⟩ := commit_some.mp hs
    cases he
    obtain ⟨_, _, rfl⟩ := proposeUpgrade_ok hx
    intro _ hw
    cases hw
    exact ⟨_, mem_outstanding_self rfl (by simp [Call.proposes]), rfl, le_refl (getUpgradeDelay g)⟩
  | executeUpgrade admin wasm =>
    obtain ⟨_, hx, he⟩ := commit_some.mp hs
    cases he
    obtain ⟨_, _, _, _, _, _, _, hg⟩ := executeUpgrade_ok hx
    exact .clear (by rw [hg])
  | emergencyUpgrade admin wasm newVersion newSchemaVersion requireGuardian =>
    obtain ⟨_, hx, he⟩ := commit_some.mp hs
    cases he
    obtain ⟨_, _, hg⟩ := emergencyUpgrade_ok hx
    exact .clear (by rw [hg])
  | setUpgradeDelay admin delaySeconds =>
    obtain ⟨_, hx, he⟩ := commit_some.mp hs
    cases he
    have hg := setUpgradeDelay_ok hx
    refine h.keep rfl (by rw [hg]) (by rw [hg]) fun hn => ?_
    simp only [Call.shortens, Bool.and_eq_false_iff, decide_eq_false_iff_not, not_lt] at hc
    rcases hc with hc | hc
    · exact absurd (Option.isSome_iff_ne_none.mpr hn) (by simp [hc])
    · rw [hg]
      exact hc
  | setGuardian admin guardian =>
    obtain ⟨_, hx, he⟩ := commit_some.mp hs
    cases he
    have hg := setGuardian_ok hx
    exact h.keep rfl (by rw [hg]) (by rw [hg]) fun _ => by rw [hg]; rfl
  | cancelUpgrade admin =>
    obtain ⟨_, hx, he⟩ := commit_some.mp hs
    cases he
    obtain ⟨_, hg⟩ := cancelUpgrade_ok hx
    exact .clear (by rw [hg])

/-- An upgrade waits for the delay in force when it was proposed, as long as the delay is never
lowered while an upgrade is pending. -/
theorem timelocked_of_keeps (h : (machine own dropVersion).Run g₀ t g)
    (h₀ : g₀.pendingUpgradeHash = none) (hC : ∀ e ∈ t, e.input.2.shortens e.pre = false) :
    Timelocked t := by
  have hr : Recorded t g ∧ Timelocked t := by
    refine h.invariant_of (P := fun t g => Recorded t g ∧ Timelocked t) hC
      ⟨.clear h₀, trivial⟩ ?_
    rintro t g ⟨env, c⟩ g' o ⟨hr, ht⟩ hs hc
    refine ⟨invoke_recorded hr hs hc, ht, ?_⟩
    intro wasm hw
    cases c with
    | executeUpgrade admin newWasmHash =>
      cases hw
      obtain ⟨_, hx, he⟩ := commit_some.mp hs
      cases he
      obtain ⟨pendingAt, _, hh, ha, _, hle, _⟩ := executeUpgrade_ok hx
      obtain ⟨p, hp, hat, hd⟩ := hr _ hh
      rw [ha] at hat
      cases hat
      exact ⟨p, hp, (Nat.add_le_add_left hd _).trans hle⟩
    | _ => cases hw
  exact hr.2

def started : Gov :=
  { Gov.fresh with admin := some ⟨1⟩, contractVersion := some 1, upgradeDelay := some 100 }

def wasm : BytesN 32 := Vector.replicate 32 7

/-- The delay is raised while the upgrade is pending. -/
def patientCalls : List (Env ⟨0⟩ × Call) :=
  [(.signed ⟨0⟩ 10, .proposeUpgrade ⟨1⟩ wasm 2 none), (.signed ⟨0⟩ 20, .setUpgradeDelay ⟨1⟩ 200),
    (.signed ⟨0⟩ 210, .executeUpgrade ⟨1⟩ wasm)]

theorem timelocked_of_keeps_patient :
    Timelocked ((machine ⟨0⟩ false).replay started patientCalls).1 :=
  timelocked_of_keeps ((machine ⟨0⟩ false).run_replay started patientCalls) rfl (by decide)

/-- The delay is dropped while the upgrade is pending, and the upgrade executed at once. -/
def hastyCalls : List (Env ⟨0⟩ × Call) :=
  [(.signed ⟨0⟩ 10, .proposeUpgrade ⟨1⟩ wasm 2 none), (.signed ⟨0⟩ 20, .setUpgradeDelay ⟨1⟩ 0),
    (.signed ⟨0⟩ 20, .executeUpgrade ⟨1⟩ wasm)]

theorem not_timelocked_hasty :
    ¬ ∀ t g, (machine ⟨0⟩ false).Run started t g → Chronological t → Timelocked t := by
  intro hall
  have hr := (machine ⟨0⟩ false).run_replay started hastyCalls
  have ht := hall _ _ hr (by decide)
  exact absurd ht (by decide)

end Shelterflex.UpgradeGovernance
