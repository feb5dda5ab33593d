import Shelterflex.DealEscrow.Model
import Shelterflex.MvpStakingPool.Model
import Shelterflex.WhistleblowerRewards.Model

/-! The contracts that pass version `0` to every upgrade. -/

namespace Shelterflex.UpgradeGovernance
open Lib
set_option autoImplicit true

theorem proposeUpgrade_zero : proposeUpgrade env admin newWasmHash 0 schema g ≠ .ok g' := by
  intro h
  obtain ⟨_, hv, _⟩ := proposeUpgrade_ok h
  cases hv

theorem emergencyUpgrade_zero :
    emergencyUpgrade env admin newWasmHash 0 schema requireGuardian g ≠ .ok r := by
  intro h
  obtain ⟨hv, _⟩ := emergencyUpgrade_ok h
  cases hv

/-- A wrapper that keeps what the shared library returns fails where the library does. -/
theorem wrapper_fails {x : Outcome UpgradeGovernanceError α} {f : UpgradeGovernanceError → ε}
    {k : α → Outcome ε β} (hx : ∀ a, x ≠ .ok a) (b : β) : (mapErr f x >>= k) ≠ .ok b := by
  intro h
  obtain ⟨a, ha, _⟩ := bind_ok.mp h
  exact hx a (mapErr_ok.mp ha)

/-- In no state does one of these contracts take a proposal or an emergency upgrade. -/
theorem upgrades_never_succeed (env : Env own) (admin : Address) (newWasmHash : BytesN 32) :
    (∀ s, (∀ s', DealEscrow.proposeUpgrade env admin newWasmHash s ≠ .ok s') ∧
      ∀ r, DealEscrow.emergencyUpgrade env admin newWasmHash s ≠ .ok r) ∧
    (∀ s, (∀ s', MvpStakingPool.proposeUpgrade env admin newWasmHash s ≠ .ok s') ∧
      ∀ r, MvpStakingPool.emergencyUpgrade env admin newWasmHash s ≠ .ok r) ∧
    ∀ s, (∀ s', WhistleblowerRewards.proposeUpgrade env admin newWasmHash s ≠ .ok s') ∧
      ∀ r, WhistleblowerRewards.emergencyUpgrade env admin newWasmHash s ≠ .ok r := by
  have hp (g g') : proposeUpgrade env admin newWasmHash 0 none g ≠ .ok g' := proposeUpgrade_zero
  have he (g r) : emergencyUpgrade env admin newWasmHash 0 none true g ≠ .ok r :=
    emergencyUpgrade_zero
  refine ⟨fun s => ⟨?_, ?_⟩, fun s => ⟨?_, ?_⟩, fun s => ⟨?_, ?_⟩⟩
  · exact wrapper_fails (hp s.gov)
  · exact wrapper_fails (he s.gov)
  · exact wrapper_fails (hp s.gov)
  · exact wrapper_fails (he s.gov)
  · exact wrapper_fails (hp s.gov)
  · exact wrapper_fails (he s.gov)

def newEscrow : DealEscrow.World (Address → Int) :=
  ⟨DealEscrow.initialized ⟨1⟩ ⟨2⟩ ⟨8⟩ ⟨9⟩, fun _ => 0⟩

/-- The admin of a new escrow names a guardian. -/
def guarded : List (DealEscrow.Action ⟨0⟩ (Address → Int)) :=
  [.call (.signed ⟨0⟩ 0) (.setGuardian ⟨1⟩ ⟨7⟩)]

theorem upgrades_blocked :
    ¬ ∀ w, (DealEscrow.machine plainToken ⟨0⟩).Reachable newEscrow w →
      ∀ (env : Env ⟨0⟩) (admin guardian : Address) (newWasmHash : BytesN 32),
        w.escrow.gov.admin = some admin → env.authorized admin = true →
        (w.escrow.gov.pendingUpgradeHash = none →
          ∃ s', DealEscrow.proposeUpgrade env admin newWasmHash w.escrow = .ok s') ∧
        (w.escrow.gov.guardian = some guardian → env.authorized guardian = true →
          ∃ r, DealEscrow.emergencyUpgrade env admin newWasmHash w.escrow = .ok r) := by
  intro hall
  have hr := (DealEscrow.machine plainToken ⟨0⟩).run_replay newEscrow guarded
  obtain ⟨hp, _⟩ := hall _ ⟨_, hr⟩ (.signed ⟨0⟩ 0) ⟨1⟩ ⟨7⟩ (.replicate 32 0) (by decide) (by decide)
  obtain ⟨s', hs⟩ := hp (by decide)
  have hf : (DealEscrow.proposeUpgrade (.signed ⟨0⟩ 0) ⟨1⟩ (.replicate 32 0)
      ((DealEscrow.machine plainToken ⟨0⟩).replay newEscrow guarded).2.escrow).isOk =
        false := by decide
  rw [hs] at hf
  cases hf

end Shelterflex.UpgradeGovernance
