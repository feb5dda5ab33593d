import Shelterflex.StakingPool.Agreement

/-! An operator that is set can be read back. One that is cleared cannot. -/

namespace Shelterflex.StakingPool
open Lib
set_option autoImplicit true

theorem setOperator_ok {env : Env own} : setOperator env admin newOperator s = .ok s' ↔
    (s.gov.admin = some admin ∧ env.authorized admin = true) ∧
      (∃ x, (getOperator s : Outcome ContractError (Option Address)) = .ok x) ∧
        { s with operator := some newOperator } = s' := by
  simp only [setOperator, requireAdminPermission, bind_ok, expect_ok, requireAuth_ok, require_ok,
    pure_ok]
  constructor
  · rintro ⟨_, ha, _, ⟨_, hauth, rfl⟩, x, hx, rfl⟩
    exact ⟨⟨ha, hauth⟩, ⟨x, hx⟩, rfl⟩
  · rintro ⟨⟨ha, hauth⟩, ⟨x, hx⟩, rfl⟩
    exact ⟨admin, ha, (), ⟨(), hauth, rfl⟩, x, hx, rfl⟩

/-- The stored operator reads as `x`, and the calls that read it find `x`. -/
structure ReadsBack (own : Address) (x : Option Address) (s : State) : Prop where
  getOperator : (getOperator s : Outcome ContractError (Option Address)) = .ok x
  isOperator : ∀ addr, (isOperator s addr : Outcome ContractError Bool) = .ok (x = some addr)
  stakes : ∀ (env : Env own) user, env.authorized (x.getD user) = true →
    requireUserOrOperator env user user s = .ok (x.getD user)
  settable : ∀ (env : Env own) admin newOperator, s.gov.admin = some admin →
    env.authorized admin = true → ∃ s', setOperator env admin newOperator s = .ok s'

theorem readsBack_of_getOperator
    (h : (getOperator s : Outcome ContractError (Option Address)) = .ok x) :
    ReadsBack own x s := by
  refine ⟨h, fun addr => bind_of_ok h _, fun env user ha => ?_, fun env admin y hadm ha => ?_⟩
  · rw [requireUserOrOperator, bind_of_ok h]
    cases x with
    | none =>
      simp only [bind_ok, requireAuth_ok, require_ok]
      exact ⟨(), ha, (), trivial, rfl⟩
    | some op =>
      simp only [bind_ok, requireAuth_ok, pure_ok]
      exact ⟨(), ha, rfl⟩
  · exact ⟨_, setOperator_ok.mpr ⟨⟨hadm, ha⟩, ⟨x, h⟩, rfl⟩⟩

/-- What `set_operator` stores reads back exactly if it is an address. -/
theorem operator_round_trip_iff {env : Env own}
    (h : setOperator env admin newOperator s = .ok s') :
    ReadsBack own newOperator s' ↔ newOperator ≠ none := by
  obtain ⟨_, _, rfl⟩ := setOperator_ok.mp h
  cases newOperator with
  | none =>
    refine iff_of_false (fun hr => ?_) (fun hne => hne rfl)
    cases hr.getOperator
  | some op => exact iff_of_true (readsBack_of_getOperator rfl) (Option.some_ne_none op)

theorem operator_round_trip_iff_set :
    ReadsBack ⟨0⟩ (some ⟨5⟩) { sampleStart.pool with operator := some (some ⟨5⟩) } ↔
      (some ⟨5⟩ : Option Address) ≠ none :=
  have h : setOperator (.signed ⟨0⟩ 0 : Env ⟨0⟩) ⟨1⟩ (some ⟨5⟩) sampleStart.pool =
      .ok { sampleStart.pool with operator := some (some ⟨5⟩) } := rfl
  operator_round_trip_iff h

/-- The admin clears an operator that was never set. -/
theorem cleared_operator_unread :
    ¬ ∀ w, (machine plainToken ⟨0⟩).Reachable sampleStart w →
      ∀ (env : Env ⟨0⟩) admin newOperator s',
        setOperator env admin newOperator w.pool = .ok s' → ReadsBack ⟨0⟩ newOperator s' := by
  intro hall
  have h := hall sampleStart ⟨[], .start⟩ (.signed ⟨0⟩ 0) ⟨1⟩ none _ rfl
  cases h.getOperator

/-! A cleared operator stays cleared. -/

/-- The calls that read the operator. -/
def Action.readsOperator : Action own T → Bool
  | .call _ (.setOperator _ _) => true
  | .call _ (.stake _ _) => true
  | .call _ (.unstake _ _) => true
  | _ => false

section
variable {own : Address} {tok : Token T} {w w' : World T}

theorem requireUserOrOperator_cleared {env : Env own} (hc : s.operator = some none) :
    requireUserOrOperator env user caller s ≠ .ok spender := by
  intro h
  simp only [requireUserOrOperator, getOperator, hc] at h
  cases h

theorem act_cleared {a : Action own T} (hc : w.pool.operator = some none)
    (h : act tok w a = some (w', o)) :
    w'.pool.operator = some none ∧ a.readsOperator = false := by
  cases a with
  | traffic t =>
    simp only [act, Option.ite_none_right_eq_some, Option.some.injEq, Prod.mk.injEq] at h
    obtain ⟨_, rfl, _⟩ := h
    exact ⟨hc, rfl⟩
  | call env c =>
    change invoke tok env w c = some (w', o) at h
    cases c with
    | stake source amount =>
      obtain ⟨_, hs, _⟩ := commit_some.mp h
      simp only [stake, bind_ok] at hs
      obtain ⟨_, _, _, hu, _⟩ := hs
      exact absurd hu (requireUserOrOperator_cleared hc)
    | unstake target amount =>
      obtain ⟨_, hs, _⟩ := commit_some.mp h
      simp only [unstake, bind_ok] at hs
      obtain ⟨_, _, _, hu, _⟩ := hs
      exact absurd hu (requireUserOrOperator_cleared hc)
    | setOperator admin newOperator =>
      obtain ⟨_, hs, _⟩ := commit_some.mp h
      obtain ⟨_, ⟨x, hx⟩, _⟩ := setOperator_ok.mp hs
      rw [getOperator, hc] at hx
      cases hx
    | _ =>
      obtain ⟨_, _, _, _, rfl, hkeep⟩ := invoke_frame h rfl
      exact ⟨(hkeep (by simp)).trans hc, rfl⟩

/-- After the operator was cleared nobody stakes or unstakes again, and none can be set. -/
theorem cleared_forever (h : (machine tok own).Run w t w') (hc : w.pool.operator = some none) :
    w'.pool.operator = some none ∧ ∀ e ∈ t, e.input.readsOperator = false := by
  refine h.invariant (P := fun t w => w.pool.operator = some none ∧
    ∀ e ∈ t, e.input.readsOperator = false) ⟨hc, List.forall_mem_nil _⟩ ?_
  rintro t w a w' o ⟨hc, hall⟩ hs
  obtain ⟨hc', ha⟩ := act_cleared hc hs
  exact ⟨hc', List.forall_mem_cons.mpr ⟨ha, hall⟩⟩

end

end Shelterflex.StakingPool
