import Shelterflex.ContractAccess.Model

/-! Who holds which role, and when the last admin goes. -/

namespace Shelterflex.ContractAccess
open Lib
set_option autoImplicit true

abbrev Step (own : Address) := Event State (Env own × Call) Unit

abbrev History (own : Address) := List (Step own)

/-- A call that the stored admin authorized. -/
structure ByAdmin (env : Env own) (admin : Address) (s : State) : Prop where
  stored : s.admin = some admin
  authorized : env.authorized admin = true

/-- A call that the second approver authorized. -/
structure BySecondApprover (env : Env own) (approver : Address) (s : State) : Prop where
  stored : s.secondApprover = some approver
  authorized : env.authorized approver = true

inductive Changes (env : Env own) (s s' : State) : Call → Prop where
  | init (hn : s.admin = none)
      (hs : s' = { s with
        admin := some admin
        secondApprover := some secondApprover
        roles := AList.insert admin .admin ∅ }) :
      Changes env s s' (.init admin secondApprover)
  | proposeAssignRole (ha : ByAdmin env admin s)
      (hs : s' = { s with proposals := s.proposals.insert subject role.toU32 }) :
      Changes env s s' (.proposeAssignRole admin subject role)
  | confirmAssignRole (ha : BySecondApprover env approver s) (hp : s.proposals.get subject = some n)
      (hs : s' = { s with
        proposals := s.proposals.erase subject
        roles := s.roles.insert subject (roleOf n) }) :
      Changes env s s' (.confirmAssignRole approver subject)
  | proposeRevokeRole (ha : ByAdmin env admin s) (hl : isLastAdmin s subject = false)
      (hs : s' = { s with proposals := s.proposals.insert subject u32Max }) :
      Changes env s s' (.proposeRevokeRole admin subject)
  | confirmRevokeRole (ha : BySecondApprover env approver s)
      (hp : s.proposals.get subject = some u32Max)
      (hs : s' = { s with
        proposals := s.proposals.erase subject
        roles := s.roles.erase subject }) :
      Changes env s s' (.confirmRevokeRole approver subject)
  | delegatePermission (ha : env.authorized delegator = true)
      (hp : hasPermission s delegator permission = true)
      (hs : s' = { s with
        delegations := s.delegations.insert delegatee ⟨delegator, permission⟩ }) :
      Changes env s s' (.delegatePermission delegator delegatee permission)
  | revokeDelegation (hi : s.delegations.get delegatee = some info) (ha : s.admin = some admin)
      (hc : caller = admin ∨ caller = info.delegator)
      (hs : s' = { s with delegations := s.delegations.erase delegatee }) :
      Changes env s s' (.revokeDelegation caller delegatee)

section
variable {env : Env own}

theorem requireAdmin_ok : requireAdmin env admin s = .ok u ↔ ByAdmin env admin s := by
  simp only [requireAdmin, getAdmin, bind_ok, requireAuth_ok, expect_ok, require_ok, exists_const]
  constructor
  · rintro ⟨ha, _, hr, rfl⟩
    exact ⟨hr, ha⟩
  · rintro ⟨hr, ha⟩
    exact ⟨ha, _, hr, rfl⟩

theorem requireSecondApprover_ok :
    requireSecondApprover env approver s = .ok u ↔ BySecondApprover env approver s := by
  simp only [requireSecondApprover, bind_ok, requireAuth_ok, okOr_ok, require_ok, exists_const]
  constructor
  · rintro ⟨ha, _, hr, rfl⟩
    exact ⟨hr, ha⟩
  · rintro ⟨hr, ha⟩
    exact ⟨ha, _, hr, rfl⟩

theorem invoke_changes (h : invoke env s c = some (s', o)) : Changes env s s' c := by
  obtain ⟨_, hs, he⟩ := commit_some.mp h
  cases he
  cases c with
  | init admin secondApprover =>
    simp only [init, bind_ok, require_ok, pure_ok] at hs
    obtain ⟨_, hn, _, _, rfl⟩ := hs
    exact .init hn rfl
  | proposeAssignRole admin subject role =>
    simp only [proposeAssignRole, bind_ok, requireAdmin_ok, pure_ok] at hs
    obtain ⟨_, ha, rfl⟩ := hs
    exact .proposeAssignRole ha rfl
  | confirmAssignRole approver subject =>
    simp only [confirmAssignRole, bind_ok, requireSecondApprover_ok, okOr_ok, pure_ok] at hs
    obtain ⟨_, ha, _, hp, rfl⟩ := hs
    exact .confirmAssignRole ha hp rfl
  | proposeRevokeRole admin subject =>
    simp only [proposeRevokeRole, bind_ok, requireAdmin_ok, require_ok, pure_ok] at hs
    obtain ⟨_, ha, _, hl, rfl⟩ := hs
    exact .proposeRevokeRole ha hl rfl
  | confirmRevokeRole approver subject =>
    simp only [confirmRevokeRole, bind_ok, requireSecondApprover_ok, okOr_ok, require_ok,
      pure_ok] at hs
    obtain ⟨_, ha, _, hp, _, rfl, rfl⟩ := hs
    exact .confirmRevokeRole ha hp rfl
  | delegatePermission delegator delegatee permission =>
    simp only [delegatePermission, bind_ok, requireAuth_ok, require_ok, pure_ok] at hs
    obtain ⟨_, ha, _, hp, rfl⟩ := hs
    exact .delegatePermission ha hp rfl
  | revokeDelegation caller delegatee =>
    simp only [revokeDelegation, getAdmin, bind_ok, okOr_ok, expect_ok, require_ok, pure_ok] at hs
    obtain ⟨_, _, info, hi, admin, ha, _, hc, rfl⟩ := hs
    refine .revokeDelegation hi ha ?_ rfl
    by_contra hn
    exact hc (not_or.mp hn)

theorem Changes.starts (h : Changes env .fresh s' c) :
    ∃ admin secondApprover, c = .init admin secondApprover ∧ s'.admin = some admin ∧
      s'.roles = AList.insert admin .admin ∅ := by
  cases h with
  | @init admin secondApprover _ hs =>
    subst hs
    exact ⟨admin, secondApprover, rfl, rfl, rfl⟩
  | proposeAssignRole ha _ | proposeRevokeRole ha _ _ => cases ha.stored
  | confirmAssignRole ha _ _ | confirmRevokeRole ha _ _ => cases ha.stored
  | delegatePermission _ hp _ => cases hp
  | revokeDelegation hi _ _ _ => cases hi

theorem Changes.admin_eq (h : Changes env s s' c) (hi : s.admin ≠ none) : s'.admin = s.admin := by
  cases h with
  | init hn _ => exact absurd hn hi
  | proposeAssignRole _ hs | revokeDelegation _ _ _ hs => rw [hs]
  | confirmAssignRole _ _ hs | confirmRevokeRole _ _ hs => rw [hs]
  | proposeRevokeRole _ _ hs | delegatePermission _ _ hs => rw [hs]

theorem Changes.initialized (h : Changes env s s' c) (hf : s.admin = none → s = .fresh) :
    s'.admin ≠ none := by
  by_cases hn : s.admin = none
  · rw [hf hn] at h
    obtain ⟨admin, _, _, ha, _⟩ := h.starts
    rw [ha]
    nofun
  · rwa [h.admin_eq hn]

end

theorem reachable_fresh (h : (machine own).Reachable .fresh s) (hn : s.admin = none) :
    s = .fresh := by
  suffices hf : s.admin = none → s = .fresh from hf hn
  apply h.invariant (P := fun s => s.admin = none → s = .fresh)
  · exact fun _ => rfl
  · intro s i s' o hf hs hn
    exact absurd hn ((invoke_changes hs).initialized hf)

theorem roleOf_toU32 (role : Role) : roleOf role.toU32 = role := by
  cases role <;> rfl

/-- The call confirms the pending change of the subject: to a role, or to none. -/
inductive Settles (s : State) (subject : Address) : Call → Option Role → Prop where
  | assign (h : s.proposals.get subject = some n) :
      Settles s subject (.confirmAssignRole approver subject) (some (roleOf n))
  | revoke : Settles s subject (.confirmRevokeRole approver subject) none

/-- Somebody has the role of an admin. -/
def Administered (s : State) : Prop := ∃ addr, s.roles.get addr = some .admin

/-- The confirmation takes the role of an admin from the only one who has it. The guard of the
proposal would not let it through any more. -/
def Unseats (e : Step own) : Prop :=
  ∃ subject role, Settles e.pre subject e.input.2 role ∧ role ≠ some .admin ∧
    isLastAdmin e.pre subject = true

theorem isLastAdmin_iff :
    isLastAdmin s subject = true ↔ s.roles.get subject = some .admin ∧
      ∀ addr, s.roles.get addr = some .admin → addr = subject := by
  simp only [isLastAdmin, Bool.and_eq_true, decide_eq_true_eq]
  apply and_congr_right
  intro hs
  rw [Table.count_le_one hs (decide_eq_true rfl)]
  constructor
  · intro h addr ha
    exact h addr .admin ha (decide_eq_true rfl)
  · intro h addr role ha hr
    rw [decide_eq_true_eq.mp hr] at ha
    exact h addr ha

/-- Where the guard lets an address go, somebody else is an admin. -/
theorem Administered.other (h : Administered s) (hl : isLastAdmin s subject = false) :
    ∃ addr, addr ≠ subject ∧ s.roles.get addr = some .admin := by
  obtain ⟨addr, ha⟩ := h
  by_cases he : addr = subject
  · subst he
    by_contra hn
    push Not at hn
    have hlast : isLastAdmin s addr = true := by
      refine isLastAdmin_iff.mpr ⟨ha, ?_⟩
      intro other ho
      by_contra hne
      exact hn other hne ho
    rw [hlast] at hl
    cases hl
  · exact ⟨addr, he, ha⟩

section
variable {env : Env own}

/-- A confirmation changes the role of its subject only. -/
theorem Changes.settled (h : Changes env s s' c) (hs : Settles s subject c role) :
    s'.roles.get = Function.update s.roles.get subject role := by
  cases hs with
  | assign hn =>
    cases h with
    | confirmAssignRole _ hp hs =>
      cases hn.symm.trans hp
      rw [hs]
      exact Table.get_insert _ _ _
  | revoke =>
    cases h with
    | confirmRevokeRole _ _ hs =>
      rw [hs]
      exact Table.get_erase _ _

theorem Changes.roles_eq (h : Changes env s s' c) (hi : s.admin ≠ none)
    (hn : ∀ subject role, ¬ Settles s subject c role) : s'.roles = s.roles := by
  cases h with
  | init ha _ => exact absurd ha hi
  | confirmAssignRole _ hp _ => exact absurd (.assign hp) (hn _ _)
  | confirmRevokeRole _ _ _ => exact absurd .revoke (hn _ _)
  | proposeAssignRole _ hs | revokeDelegation _ _ _ hs => rw [hs]
  | proposeRevokeRole _ _ hs | delegatePermission _ _ hs => rw [hs]

theorem Changes.administered (h : Changes env s s' c) (ha : s.admin ≠ none → Administered s)
    (hf : s.admin = none → s = .fresh) (hu : ¬ Unseats (⟨s, (env, c), (), s'⟩ : Step own)) :
    Administered s' := by
  by_cases hn : s.admin = none
  · rw [hf hn] at h
    obtain ⟨admin, _, _, _, hr⟩ := h.starts
    exact ⟨admin, by rw [hr, Table.get_insert, Function.update_self]⟩
  · by_cases hc : ∃ subject role, Settles s subject c role
    · obtain ⟨subject, role, hc⟩ := hc
      rw [Administered, h.settled hc]
      by_cases hr : role = some .admin
      · exact ⟨subject, by rw [Function.update_self, hr]⟩
      · have hl : isLastAdmin s subject = false := by
          by_contra hl
          exact hu ⟨subject, role, hc, hr, Bool.not_eq_false _ ▸ hl⟩
        obtain ⟨addr, hne, haddr⟩ := (ha hn).other hl
        exact ⟨addr, by rw [Function.update_of_ne hne, haddr]⟩
    · push Not at hc
      rw [Administered, h.roles_eq hn hc]
      exact ha hn

theorem Changes.unseated (h : Changes env s s' c)
    (hu : Unseats (⟨s, (env, c), (), s'⟩ : Step own)) : ¬ Administered s' := by
  obtain ⟨subject, role, hc, hr, hl⟩ := hu
  rintro ⟨addr, ha⟩
  rw [h.settled hc] at ha
  by_cases he : addr = subject
  · subst he
    rw [Function.update_self] at ha
    exact hr ha
  · rw [Function.update_of_ne he] at ha
    exact he ((isLastAdmin_iff.mp hl).2 addr ha)

end

theorem run_administered (h : (machine own).Run .fresh t s) (hu : ∀ e ∈ t, ¬ Unseats e) :
    s.admin ≠ none → Administered s := by
  apply h.invariant_on (P := fun _ s => s.admin ≠ none → Administered s) hu
  · exact fun hn => absurd rfl hn
  · rintro _ s ⟨env, c⟩ s' o hr ha hs hu _
    exact (invoke_changes hs).administered ha (reachable_fresh ⟨_, hr⟩) hu

/-- There is always an admin as long as every confirmation that takes the role away still passes
the guard against revoking the last one, and only then. -/
theorem administered_iff (h : (machine own).Run .fresh t s) :
    (∀ e ∈ t, Administered e.post) ↔ ∀ e ∈ t, ¬ Unseats e := by
  constructor
  · intro ha e he hu
    exact (invoke_changes (h.committed he).2).unseated hu (ha e he)
  · intro hu e he
    obtain ⟨hr, hs⟩ := h.committed he
    obtain ⟨later, earlier, rfl⟩ := List.append_of_mem he
    obtain ⟨hrun, _⟩ := h.upTo
    apply run_administered (.commit hrun hs)
    · intro e' he'
      exact hu e' (List.mem_append_right _ he')
    · exact (invoke_changes hs).initialized (reachable_fresh hr)

/-- The address `1` is the admin and `2` the second approver. -/
def signedCall (c : Call) : Env ⟨0⟩ × Call := (.signed ⟨0⟩ 0, c)

def perform (cs : List Call) : History ⟨0⟩ × State :=
  (machine ⟨0⟩).replay .fresh (cs.map signedCall)

def twoAdmins : List Call :=
  [.init ⟨1⟩ ⟨2⟩, .proposeAssignRole ⟨1⟩ ⟨3⟩ .admin, .confirmAssignRole ⟨2⟩ ⟨3⟩]

/-- Both revocations are proposed while there are two admins. -/
def bothRevoked : List Call :=
  twoAdmins ++ [.proposeRevokeRole ⟨1⟩ ⟨3⟩, .proposeRevokeRole ⟨1⟩ ⟨1⟩,
    .confirmRevokeRole ⟨2⟩ ⟨3⟩, .confirmRevokeRole ⟨2⟩ ⟨1⟩]

theorem administered_iff_two :
    (∀ e ∈ (perform twoAdmins).1, Administered e.post) ↔
      ∀ e ∈ (perform twoAdmins).1, ¬ Unseats e :=
  administered_iff ((machine ⟨0⟩).run_replay .fresh (twoAdmins.map signedCall))

theorem bothRevoked_unadministered :
    ¬ ∀ (t : History ⟨0⟩) s, (machine ⟨0⟩).Run .fresh t s → ∀ e ∈ t, Administered e.post := by
  intro hall
  have h := hall _ _ ((machine ⟨0⟩).run_replay .fresh (bothRevoked.map signedCall))
  obtain ⟨addr, ha⟩ := h _ List.mem_cons_self
  cases ha

end Shelterflex.ContractAccess
