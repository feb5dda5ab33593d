import Shelterflex.Lib.Since
import Shelterflex.ContractAccess.Powers

/-! How long a delegation lasts. -/

namespace Shelterflex.ContractAccess
open Lib
set_option autoImplicit true

/-- The delegator, whose role has the permission, delegates it. -/
def Delegates (delegator delegatee : Address) (permission : Permission) (e : Step own) : Prop :=
  e.input.2 = .delegatePermission delegator delegatee permission ∧
    hasPermissionInternal e.pre delegator permission = true

/-- The delegator or the admin revokes the delegation, or the role of the delegator no longer has
the permission. -/
def Ends (delegator delegatee : Address) (permission : Permission) (e : Step own) : Prop :=
  (∃ caller, e.input.2 = .revokeDelegation caller delegatee ∧
    (caller = delegator ∨ e.pre.admin = some caller)) ∨
    hasPermissionInternal e.post delegator permission = false

/-- A delegation that the call replaces is not valid any more, or the same one. -/
def Spares (e : Step own) : Prop :=
  ∀ delegator delegatee permission, e.input.2 = .delegatePermission delegator delegatee permission →
    ∀ info, e.pre.delegations.get delegatee = some info →
      hasPermissionInternal e.pre info.delegator info.permission = true →
      info = ⟨delegator, permission⟩

/-- A delegation lasts until it is revoked or its delegator loses the permission, and no delegation
takes a permission from anyone. -/
structure Lasting (t : History own) (s : State) : Prop where
  lasts : ∀ delegator delegatee permission,
    Since (Delegates delegator delegatee permission) (Ends delegator delegatee permission) t →
    hasPermission s delegatee permission = true
  spares : ∀ e ∈ t, ∀ delegator delegatee permission,
    e.input.2 = .delegatePermission delegator delegatee permission →
    ∀ addr perm, hasPermission e.pre addr perm = true → hasPermission e.post addr perm = true

/-- The delegation is stored, and valid. -/
structure Valid (s : State) (delegator delegatee : Address) (permission : Permission) : Prop where
  stored : s.delegations.get delegatee = some ⟨delegator, permission⟩
  backed : hasPermissionInternal s delegator permission = true

theorem hasDelegation_iff :
    hasDelegation s delegatee permission = true ↔ ∃ d, Valid s d delegatee permission := by
  simp only [hasDelegation, Option.any_eq_true, Bool.and_eq_true, decide_eq_true_eq]
  constructor
  · rintro ⟨⟨delegator, _⟩, hs, rfl, hb⟩
    exact ⟨delegator, hs, hb⟩
  · rintro ⟨delegator, hs, hb⟩
    exact ⟨_, hs, rfl, hb⟩

theorem hasPermission_iff :
    hasPermission s addr permission = true ↔
      hasPermissionInternal s addr permission = true ∨ ∃ d, Valid s d addr permission := by
  rw [hasPermission, Bool.or_eq_true, hasDelegation_iff]

theorem hasPermissionInternal_congr (h : s'.roles = s.roles) :
    hasPermissionInternal s' addr permission = hasPermissionInternal s addr permission := by
  rw [hasPermissionInternal, hasPermissionInternal, h]

theorem delegate_roles (h : Changes env s s' (.delegatePermission delegator delegatee permission)) :
    s'.roles = s.roles ∧
      s'.delegations.get = Function.update s.delegations.get delegatee
        (some ⟨delegator, permission⟩) := by
  cases h with
  | delegatePermission _ _ hs =>
    subst hs
    exact ⟨rfl, Table.get_insert _ _ _⟩

section
variable {env : Env own}

theorem Changes.delegates (h : Changes env s s' c)
    (hd : Delegates delegator delegatee permission (⟨s, (env, c), (), s'⟩ : Step own)) :
    Valid s' delegator delegatee permission := by
  obtain ⟨hc, hb⟩ := hd
  obtain rfl : c = .delegatePermission delegator delegatee permission := hc
  obtain ⟨hr, hs⟩ := delegate_roles h
  constructor
  · rw [hs, Function.update_self]
  · rw [hasPermissionInternal_congr hr]
    exact hb

/-- A valid delegation outlasts every call that neither ends nor replaces it. -/
theorem Changes.valid (h : Changes env s s' c) (hv : Valid s delegator delegatee permission)
    (he : ¬ Ends delegator delegatee permission (⟨s, (env, c), (), s'⟩ : Step own))
    (hs : Spares (⟨s, (env, c), (), s'⟩ : Step own)) : Valid s' delegator delegatee permission := by
  obtain ⟨hrevoke, hrole⟩ := not_or.mp he
  refine ⟨?_, Bool.not_eq_false _ ▸ hrole⟩
  cases h with
  | init _ hs' | proposeAssignRole _ hs' =>
    rw [hs']
    exact hv.stored
  | confirmAssignRole _ _ hs' | confirmRevokeRole _ _ hs' | proposeRevokeRole _ _ hs' =>
    rw [hs']
    exact hv.stored
  | @delegatePermission delegator' permission' delegatee' _ _ hs' =>
    rw [hs', Table.get_insert]
    by_cases hx : delegatee = delegatee'
    · subst hx
      rw [Function.update_self, hs _ _ _ rfl _ hv.stored hv.backed]
    · rw [Function.update_of_ne hx, hv.stored]
  | @revokeDelegation delegatee' info admin caller hi ha hc hs' =>
    rw [hs', Table.get_erase]
    by_cases hx : delegatee = delegatee'
    · subst hx
      cases hi.symm.trans hv.stored
      refine absurd ⟨caller, rfl, ?_⟩ hrevoke
      rcases hc with rfl | rfl
      · exact .inr ha
      · exact .inl rfl
    · rw [Function.update_of_ne hx, hv.stored]

theorem Changes.spares (h : Changes env s s' (.delegatePermission delegator delegatee permission))
    (hs : Spares
      (⟨s, (env, .delegatePermission delegator delegatee permission), (), s'⟩ : Step own))
    (hp : hasPermission s addr perm = true) : hasPermission s' addr perm = true := by
  obtain ⟨hr, hd⟩ := delegate_roles h
  rw [hasPermission_iff] at hp ⊢
  rw [hasPermissionInternal_congr hr]
  apply hp.imp_right
  rintro ⟨d, hv⟩
  refine ⟨d, ?_, (hasPermissionInternal_congr hr).trans hv.backed⟩
  rw [hd]
  by_cases hx : addr = delegatee
  · subst hx
    rw [Function.update_self, hs _ _ _ rfl _ hv.stored hv.backed]
  · rw [Function.update_of_ne hx, hv.stored]

end

theorem run_valid (h : (machine own).Run .fresh t s) (hs : ∀ e ∈ t, Spares e)
    (hd : Since (Delegates delegator delegatee permission)
      (Ends delegator delegatee permission) t) :
    Valid s delegator delegatee permission := by
  induction h with
  | start => cases hd
  | commit _ hstep ih =>
    obtain ⟨hspares, hs⟩ := List.forall_mem_cons.mp hs
    have h := invoke_changes hstep
    cases hd with
    | now hd => exact h.delegates hd
    | earlier he hd => exact h.valid (ih hs hd) he hspares
  | rollback _ _ ih => exact ih hs hd

/-- Delegations last when no call replaces a valid one of somebody else. -/
theorem delegations_lasting (h : (machine own).Run .fresh t s) (hs : ∀ e ∈ t, Spares e) :
    Lasting t s := by
  constructor
  · intro delegator delegatee permission hd
    exact hasPermission_iff.mpr (.inr ⟨delegator, run_valid h hs hd⟩)
  · intro e he delegator delegatee permission hc addr perm
    have hstep := invoke_changes (h.committed he).2
    have hspares := hs e he
    obtain ⟨s₁, ⟨env, c⟩, _, s₂⟩ := e
    obtain rfl : c = .delegatePermission delegator delegatee permission := hc
    exact hstep.spares hspares

/-- The admin delegates to the address `3`, and then to `4`. -/
def twoDelegations : List Call :=
  [.init ⟨1⟩ ⟨2⟩, .delegatePermission ⟨1⟩ ⟨3⟩ .stake, .delegatePermission ⟨1⟩ ⟨4⟩ .readBalance]

theorem twoDelegations_spare : ∀ e ∈ (perform twoDelegations).1, Spares e := by
  intro e he delegator delegatee permission hc info hi _
  rcases List.mem_cons.mp he with rfl | he
  · cases hc
    cases hi
  rcases List.mem_cons.mp he with rfl | he
  · cases hc
    cases hi
  cases List.mem_singleton.mp he
  cases hc

theorem delegations_lasting_two :
    Lasting (perform twoDelegations).1 (perform twoDelegations).2 :=
  delegations_lasting ((machine ⟨0⟩).run_replay .fresh (twoDelegations.map signedCall))
    twoDelegations_spare

/-- The address `4` delegates what it was delegated to `3`, which loses its own delegation. -/
def replacedDelegation : List Call :=
  twoDelegations ++ [.delegatePermission ⟨4⟩ ⟨3⟩ .readBalance]

theorem replacedDelegation_ends :
    ¬ ∀ (t : History ⟨0⟩) s, (machine ⟨0⟩).Run .fresh t s → Lasting t s := by
  intro hall
  have hl := hall _ _ ((machine ⟨0⟩).run_replay .fresh (replacedDelegation.map signedCall))
  have hs := hl.spares _ List.mem_cons_self ⟨4⟩ ⟨3⟩ .readBalance rfl ⟨3⟩ .stake rfl
  cases hs

end Shelterflex.ContractAccess
