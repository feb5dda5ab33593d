import Shelterflex.UpgradeGovernance.Core
import Shelterflex.Lib.Machine

/-! The contracts that compare the two stored versions before they take an upgrade. -/

namespace Shelterflex.UpgradeGovernance
open Lib
set_option autoImplicit true

def Gov.VersionsAgree (g : Gov) : Prop := g.contractVersion = g.storageSchemaVersion

instance : Decidable (Gov.VersionsAgree g) := inferInstanceAs (Decidable (_ = _))

/-- The comparison at the head of `propose_upgrade` and `emergency_upgrade`, where `d` is what a
missing version counts as. -/
def Gov.Compatible (d : Nat) (g : Gov) : Prop :=
  g.storageSchemaVersion.getD d = g.contractVersion.getD d

/-- What a call does to the upgrade that is pending and to the versions, and whether it installs
an upgrade. -/
inductive Moves (d : Nat) (g g' : Gov) : Bool → Prop where
  | keep (hh : g'.pendingUpgradeHash = g.pendingUpgradeHash)
      (hp : g'.pendingUpgradeVersion = g.pendingUpgradeVersion)
      (hv : g'.contractVersion = g.contractVersion)
      (hs : g'.storageSchemaVersion = g.storageSchemaVersion) : Moves d g g' false
  | propose (hc : g.Compatible d) (hp : g'.pendingUpgradeVersion = some (getContractVersion g + 1))
      (hv : g'.contractVersion = g.contractVersion)
      (hs : g'.storageSchemaVersion = g.storageSchemaVersion) : Moves d g g' false
  | drop (hh : g'.pendingUpgradeHash = none) (hv : g'.contractVersion = g.contractVersion)
      (hs : g'.storageSchemaVersion = g.storageSchemaVersion) : Moves d g g' false
  | execute (hn : g.pendingUpgradeHash ≠ none) (hh : g'.pendingUpgradeHash = none)
      (hv : g'.contractVersion = g.pendingUpgradeVersion)
      (hs : g'.storageSchemaVersion = g.storageSchemaVersion) : Moves d g g' true
  | emergency (hc : g.Compatible d) (hh : g'.pendingUpgradeHash = none)
      (hv : g'.contractVersion = some (getContractVersion g + 1))
      (hs : g'.storageSchemaVersion = g.storageSchemaVersion) : Moves d g g' true

theorem Moves.refl : Moves d g g false := .keep rfl rfl rfl rfl

theorem Moves.of_eq (h : g' = g) : Moves d g g' false := h ▸ .refl

/-- The versions before and after the one upgrade a contract can take. -/
inductive Standing (g : Gov) : Bool → Prop where
  | current (hv : g.contractVersion = some 1) (hs : g.storageSchemaVersion = some 1)
      (hp : g.pendingUpgradeHash ≠ none → g.pendingUpgradeVersion = some 2) : Standing g false
  | behind (hv : g.contractVersion = some 2) (hs : g.storageSchemaVersion = some 1)
      (hp : g.pendingUpgradeHash = none) : Standing g true

theorem Standing.agree_iff (h : Standing g upgraded) : g.VersionsAgree ↔ upgraded = false := by
  cases h with
  | current hv hs hp => simp [Gov.VersionsAgree, hv, hs]
  | behind hv hs hp => simp [Gov.VersionsAgree, hv, hs]

theorem Standing.compatible_iff (h : Standing g upgraded) :
    g.Compatible d ↔ upgraded = false := by
  cases h with
  | current hv hs hp => simp [Gov.Compatible, hv, hs]
  | behind hv hs hp => simp [Gov.Compatible, hv, hs]

theorem Standing.next (h : Standing g true) : ¬ g.Compatible d :=
  fun hc => Bool.noConfusion (h.compatible_iff.mp hc)

/-- After the one upgrade the comparison fails, so that there is no other. -/
theorem Standing.move (h : Standing g upgraded) (hm : Moves d g g' upgrades) :
    Standing g' (upgrades || upgraded) := by
  cases hm with
  | keep hh hp hv hs =>
    cases h with
    | current hv' hs' hp' => exact .current (hv.trans hv') (hs.trans hs') (by rwa [hh, hp])
    | behind hv' hs' hp' => exact .behind (hv.trans hv') (hs.trans hs') (hh.trans hp')
  | propose hc hp hv hs =>
    cases h with
    | current hv' hs' hp' =>
      have hn : getContractVersion g = 1 := by rw [getContractVersion, hv', Option.getD_some]
      rw [hn] at hp
      exact .current (hv.trans hv') (hs.trans hs') fun _ => hp
    | behind hv' hs' hp' => exact absurd hc (Standing.behind hv' hs' hp').next
  | drop hh hv hs =>
    cases h with
    | current hv' hs' hp' =>
      exact .current (hv.trans hv') (hs.trans hs') fun hn => absurd hh hn
    | behind hv' hs' hp' => exact .behind (hv.trans hv') (hs.trans hs') hh
  | execute hn hh hv hs =>
    cases h with
    | current hv' hs' hp' => exact .behind (hv.trans (hp' hn)) (hs.trans hs') hh
    | behind hv' hs' hp' => exact absurd hp' hn
  | emergency hc hh hv hs =>
    cases h with
    | current hv' hs' hp' =>
      have hn : getContractVersion g = 1 := by rw [getContractVersion, hv', Option.getD_some]
      rw [hn] at hv
      exact .behind hv (hs.trans hs') hh
    | behind hv' hs' hp' => exact absurd hc (Standing.behind hv' hs' hp').next

theorem standing_of_moves {M : Machine σ ι ο} {v : σ → Gov} {upgrades : ι → Bool}
    (h : M.Run s₀ t s) (h₀ : Standing (v s₀) false)
    (hm : ∀ {s i s' o}, M.step s i = some (s', o) → Moves d (v s) (v s') (upgrades i)) :
    Standing (v s) (t.any fun e => upgrades e.input) := by
  refine h.invariant (P := fun t s => Standing (v s) (t.any fun e => upgrades e.input)) h₀ ?_
  intro t s i s' o hp hs
  exact hp.move (hm hs)

/-! The shared functions, as the contracts call them -/

theorem setGuardian_moves (h : setGuardian env admin guardian g = .ok g') :
    Moves d g g' false := by
  rw [setGuardian_ok h]
  exact .keep rfl rfl rfl rfl

theorem setUpgradeDelay_moves (h : setUpgradeDelay env admin delay g = .ok g') :
    Moves d g g' false := by
  rw [setUpgradeDelay_ok h]
  exact .keep rfl rfl rfl rfl

theorem proposeUpgrade_moves (hc : g.Compatible d)
    (h : proposeUpgrade env admin newWasmHash newVersion schema g = .ok g') :
    Moves d g g' false := by
  obtain ⟨_, hv, rfl⟩ := proposeUpgrade_ok h
  exact .propose hc (congrArg some hv) rfl rfl

theorem executeUpgrade_moves (h : executeUpgrade env admin newWasmHash g = .ok (g', deployed)) :
    Moves d g g' true := by
  obtain ⟨_, _, hh, _, hv, _, _, rfl⟩ := executeUpgrade_ok h
  exact .execute (by rw [hh]; exact Option.some_ne_none _) rfl hv.symm rfl

theorem emergencyUpgrade_moves (hc : g.Compatible d)
    (h : emergencyUpgrade env admin newWasmHash newVersion schema guarded g = .ok (g', deployed)) :
    Moves d g g' true := by
  obtain ⟨hv, _, rfl⟩ := emergencyUpgrade_ok h
  exact .emergency hc rfl (congrArg some hv) rfl

theorem cancelUpgrade_moves {e e' : ε} (h : cancelUpgrade env dropVersion e e' admin g = .ok g') :
    Moves d g g' false := by
  obtain ⟨_, rfl⟩ := cancelUpgrade_ok h
  exact .drop rfl rfl rfl

theorem exists_stranger (g : Gov) : ∃ a, g.admin ≠ some a := by
  cases ha : g.admin with
  | none => exact ⟨⟨0⟩, nofun⟩
  | some a => exact ⟨⟨a.id + 1⟩, fun h => by simpa using congrArg Address.id (Option.some.inj h)⟩

theorem requireGovAdmin_stranger (h : g.admin ≠ some a) (env : Env own) :
    requireGovAdmin env a g = .error (.trap .missingValue) ∨
      requireGovAdmin env a g = .error (.err .notAuthorized) := by
  unfold requireGovAdmin getAdmin
  cases ha : g.admin with
  | none => exact .inl rfl
  | some b =>
    have hne : a ≠ b := fun he => h (by rw [ha, he])
    have hr : require (a = b) UpgradeGovernanceError.notAuthorized = .error (.err .notAuthorized) :=
      if_neg hne
    right
    simp only [expect]
    change (require (a = b) UpgradeGovernanceError.notAuthorized >>= _) = _
    rw [hr]
    rfl

theorem proposeUpgrade_stranger (h : g.admin ≠ some a) (env : Env own) (newWasmHash : BytesN 32)
    (newVersion : Nat) (schema : Option Nat) :
    proposeUpgrade env a newWasmHash newVersion schema g = .error (.trap .missingValue) ∨
      proposeUpgrade env a newWasmHash newVersion schema g = .error (.err .notAuthorized) := by
  unfold proposeUpgrade
  rcases requireGovAdmin_stranger h env with hr | hr
  · left
    rw [hr]
    rfl
  · right
    rw [hr]
    rfl

theorem guarded_proposal_iff {p : Prop} [Decidable p] {e : ε} {f : UpgradeGovernanceError → ε}
    {k : Gov → σ} (hf : f .notAuthorized ≠ e) :
    (∀ (own : Address) (env : Env own) (admin : Address) (newWasmHash : BytesN 32)
      (newVersion : Nat), (do
        require p e
        let g' ← mapErr f (proposeUpgrade env admin newWasmHash newVersion schema g)
        return k g') = (.error (.err e) : Outcome ε σ)) ↔ ¬ p := by
  constructor
  · intro h hp
    obtain ⟨a, ha⟩ := exists_stranger g
    have hx := h ⟨0⟩ (.signed ⟨0⟩ 0) a (.replicate 32 0) 0
    rw [require_bind_of hp] at hx
    rcases proposeUpgrade_stranger ha (.signed ⟨0⟩ 0) (.replicate 32 0) 0 schema with he | he
    · rw [he] at hx
      cases hx
    · rw [he] at hx
      exact hf (Fault.err.inj (Except.error.inj hx))
  · intro hp own env admin newWasmHash newVersion
    exact require_bind_of_not hp _

/-- The same comparison in front of a proposal and of another call. -/
theorem guarded_upgrades_iff {p : Prop} [Decidable p] {e : ε} {f : UpgradeGovernanceError → ε}
    {k : Gov → σ} {m : (own : Address) → Env own → Address → BytesN 32 → Nat → Outcome ε τ}
    (hf : f .notAuthorized ≠ e) :
    (∀ (own : Address) (env : Env own) (admin : Address) (newWasmHash : BytesN 32)
      (newVersion : Nat), (do
        require p e
        let g' ← mapErr f (proposeUpgrade env admin newWasmHash newVersion schema g)
        return k g') = (.error (.err e) : Outcome ε σ) ∧
      (require p e >>= fun _ => m own env admin newWasmHash newVersion) = .error (.err e)) ↔
      ¬ p := by
  constructor
  · intro h
    apply (guarded_proposal_iff hf).mp
    intro own env admin newWasmHash newVersion
    exact (h own env admin newWasmHash newVersion).1
  · intro hp own env admin newWasmHash newVersion
    exact ⟨require_bind_of_not hp _, require_bind_of_not hp _⟩

end Shelterflex.UpgradeGovernance
