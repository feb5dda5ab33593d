import Shelterflex.Lib.Since
import Shelterflex.ContractAccess.Roles

/-! The powers of the stored admin against the role. -/

namespace Shelterflex.ContractAccess
open Lib
set_option autoImplicit true

/-- The call uses the power of an admin: it proposes a change, or ends the delegation of another. -/
inductive Wields (s : State) (caller : Address) : Call → Prop where
  | proposeAssignRole : Wields s caller (.proposeAssignRole caller subject role)
  | proposeRevokeRole : Wields s caller (.proposeRevokeRole caller subject)
  | revokeDelegation (hi : s.delegations.get delegatee = some info)
      (hne : info.delegator ≠ caller) :
      Wields s caller (.revokeDelegation caller delegatee)

/-- The call gives the address the role of an admin. -/
def GivesAdmin (addr : Address) (e : Step own) : Prop :=
  (∃ secondApprover, e.input.2 = .init addr secondApprover) ∨
    Settles e.pre addr e.input.2 (some .admin)

/-- The call leaves the address with another role, or with none. -/
def TakesAdmin (addr : Address) (e : Step own) : Prop :=
  ∃ role, Settles e.pre addr e.input.2 role ∧ role ≠ some .admin

section
variable {env : Env own}

theorem Changes.role_eq (h : Changes env s s' c) (hi : s.admin ≠ none)
    (hn : ∀ role, ¬ Settles s addr c role) : s'.roles.get addr = s.roles.get addr := by
  by_cases hc : ∃ subject role, Settles s subject c role
  · obtain ⟨subject, role, hc⟩ := hc
    have hne : addr ≠ subject := by
      rintro rfl
      exact hn role hc
    rw [h.settled hc, Function.update_of_ne hne]
  · push Not at hc
    rw [h.roles_eq hi hc]

theorem Changes.gives (h : Changes env s s' c) (hf : s.admin = none → s = .fresh)
    (hr : s'.roles.get addr = some .admin) :
    GivesAdmin addr (⟨s, (env, c), (), s'⟩ : Step own) ∨
      ¬ TakesAdmin addr (⟨s, (env, c), (), s'⟩ : Step own) ∧ s.roles.get addr = some .admin := by
  by_cases hn : s.admin = none
  · rw [hf hn] at h
    obtain ⟨admin, secondApprover, rfl, _, hs⟩ := h.starts
    rw [hs, Table.get_insert] at hr
    by_cases he : addr = admin
    · subst he
      exact .inl (.inl ⟨secondApprover, rfl⟩)
    · rw [Function.update_of_ne he] at hr
      cases hr
  · by_cases hc : ∃ role, Settles s addr c role
    · obtain ⟨role, hc⟩ := hc
      rw [h.settled hc, Function.update_self] at hr
      exact .inl (.inr (hr ▸ hc))
    · refine .inr ⟨fun ⟨role, ht, _⟩ => hc ⟨role, ht⟩, ?_⟩
      rwa [← h.role_eq hn fun role ht => hc ⟨role, ht⟩]

theorem Changes.given (h : Changes env s s' c)
    (hg : GivesAdmin addr (⟨s, (env, c), (), s'⟩ : Step own)) :
    s'.roles.get addr = some .admin := by
  rcases hg with ⟨secondApprover, hi⟩ | hc
  · obtain rfl : c = .init addr secondApprover := hi
    cases h with
    | init _ hs => rw [hs, Table.get_insert, Function.update_self]
  · rw [h.settled hc, Function.update_self]

theorem Changes.keeps (h : Changes env s s' c) (hf : s.admin = none → s = .fresh)
    (ht : ¬ TakesAdmin addr (⟨s, (env, c), (), s'⟩ : Step own))
    (hr : s.roles.get addr = some .admin) : s'.roles.get addr = some .admin := by
  have hi : s.admin ≠ none := by
    intro hn
    rw [hf hn] at hr
    cases hr
  by_cases hc : ∃ role, Settles s addr c role
  · obtain ⟨role, hc⟩ := hc
    rw [h.settled hc, Function.update_self]
    by_contra hne
    exact ht ⟨role, hc, hne⟩
  · rw [h.role_eq hi fun role hs => hc ⟨role, hs⟩, hr]

theorem Changes.wielder (h : Changes env s s' c) (hw : Wields s caller c) :
    s.admin = some caller := by
  cases hw with
  | proposeAssignRole =>
    cases h with
    | proposeAssignRole ha _ => exact ha.stored
  | proposeRevokeRole =>
    cases h with
    | proposeRevokeRole ha _ _ => exact ha.stored
  | revokeDelegation hi hne =>
    cases h with
    | revokeDelegation hi' ha hc _ =>
      cases hi.symm.trans hi'
      rcases hc with rfl | rfl
      · exact ha
      · exact absurd rfl hne

end

/-- An address has the role of an admin when it was given to it, and not taken since. -/
theorem admin_since (h : (machine own).Run .fresh t s) :
    s.roles.get addr = some .admin ↔ Since (GivesAdmin addr) (TakesAdmin addr) t := by
  induction h with
  | start => exact ⟨nofun, nofun⟩
  | commit hr hs ih =>
    have h := invoke_changes hs
    have hf := reachable_fresh ⟨_, hr⟩
    rw [since_cons, ← ih]
    constructor
    · exact h.gives hf
    · rintro (hg | ⟨ht, hr⟩)
      · exact h.given hg
      · exact h.keeps hf ht hr
  | rollback _ _ ih => exact ih

/-- The powers follow the role as long as nobody takes it from the stored admin, and only then. -/
theorem powers_iff (h : (machine own).Run .fresh t s) :
    (∀ e ∈ t, ∀ caller, Wields e.pre caller e.input.2 → e.pre.roles.get caller = some .admin) ↔
      ∀ later e earlier admin, t = later ++ e :: earlier → e.pre.admin = some admin →
        Wields e.pre admin e.input.2 → Since (GivesAdmin admin) (TakesAdmin admin) earlier := by
  constructor
  · rintro hp later e earlier admin rfl _ hw
    exact (admin_since h.upTo.1).mp (hp e (List.mem_append_right _ List.mem_cons_self) admin hw)
  · intro hs e he caller hw
    obtain ⟨later, earlier, rfl⟩ := List.append_of_mem he
    obtain ⟨hrun, hstep⟩ := h.upTo
    apply (admin_since hrun).mpr
    exact hs later e earlier caller rfl ((invoke_changes hstep).wielder hw) hw

theorem powers_iff_two :
    (∀ e ∈ (perform twoAdmins).1, ∀ caller, Wields e.pre caller e.input.2 →
      e.pre.roles.get caller = some .admin) ↔
      ∀ later e earlier admin, (perform twoAdmins).1 = later ++ e :: earlier →
        e.pre.admin = some admin → Wields e.pre admin e.input.2 →
        Since (GivesAdmin admin) (TakesAdmin admin) earlier :=
  powers_iff ((machine ⟨0⟩).run_replay .fresh (twoAdmins.map signedCall))

/-- The first admin loses the role, and makes a proposal. -/
def formerAdmin : List Call :=
  twoAdmins ++ [.proposeRevokeRole ⟨1⟩ ⟨1⟩, .confirmRevokeRole ⟨2⟩ ⟨1⟩,
    .proposeAssignRole ⟨1⟩ ⟨4⟩ .operator]

theorem formerAdmin_proposes :
    ¬ ∀ (t : History ⟨0⟩) s, (machine ⟨0⟩).Run .fresh t s → ∀ e ∈ t, ∀ caller,
      Wields e.pre caller e.input.2 → e.pre.roles.get caller = some .admin := by
  intro hall
  have h := hall _ _ ((machine ⟨0⟩).run_replay .fresh (formerAdmin.map signedCall))
  cases h _ List.mem_cons_self ⟨1⟩ .proposeAssignRole

end Shelterflex.ContractAccess
