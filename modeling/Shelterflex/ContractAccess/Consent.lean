import Shelterflex.Lib.Since
import Shelterflex.ContractAccess.Roles

/-! What is confirmed is what was proposed last. -/

namespace Shelterflex.ContractAccess
open Lib
set_option autoImplicit true

/-- The admin proposes to assign the role to the subject. -/
def ProposesAssign (subject : Address) (role : Role) (e : Step own) : Prop :=
  ∃ admin, e.input.2 = .proposeAssignRole admin subject role ∧ ByAdmin e.input.1 admin e.pre

/-- The admin proposes to revoke the role of the subject. -/
def ProposesRevoke (subject : Address) (e : Step own) : Prop :=
  ∃ admin, e.input.2 = .proposeRevokeRole admin subject ∧ ByAdmin e.input.1 admin e.pre

/-- The call proposes a change for the subject, or confirms one. -/
def Call.concerns (subject : Address) : Call → Prop
  | .proposeAssignRole _ subject' _ => subject' = subject
  | .confirmAssignRole _ subject' => subject' = subject
  | .proposeRevokeRole _ subject' => subject' = subject
  | .confirmRevokeRole _ subject' => subject' = subject
  | _ => False

/-- The second approver gives the subject the role, and no other address changes its role. -/
structure Grants (e : Step own) (approver subject : Address) (role : Option Role) : Prop where
  approved : BySecondApprover e.input.1 approver e.pre
  roles : e.post.roles.get = Function.update e.pre.roles.get subject role

/-- Every change of the roles is what the admin proposed last for the subject, and the proposal has
not been confirmed before. -/
structure Consented (t : History own) : Prop where
  assigned : ∀ later e earlier approver subject, t = later ++ e :: earlier →
    e.input.2 = .confirmAssignRole approver subject →
    ∃ role, Grants e approver subject (some role) ∧
      Since (ProposesAssign subject role) (fun q => q.input.2.concerns subject) earlier
  revoked : ∀ later e earlier approver subject, t = later ++ e :: earlier →
    e.input.2 = .confirmRevokeRole approver subject →
    Grants e approver subject none ∧
      Since (ProposesRevoke subject) (fun q => q.input.2.concerns subject) earlier
  kept : ∀ e ∈ t, (∀ approver subject, e.input.2 ≠ .confirmAssignRole approver subject) →
    (∀ approver subject, e.input.2 ≠ .confirmRevokeRole approver subject) →
    (∀ admin secondApprover, e.input.2 ≠ .init admin secondApprover) →
    e.post.roles = e.pre.roles

theorem Settles.call (h : Settles s subject c role) :
    (∃ approver, c = .confirmAssignRole approver subject) ∨
      ∃ approver, c = .confirmRevokeRole approver subject := by
  cases h with
  | assign _ => exact .inl ⟨_, rfl⟩
  | revoke => exact .inr ⟨_, rfl⟩

/-- The proposal leaves the number with the subject. -/
def Proposes (subject : Address) (n : Nat) (e : Step own) : Prop :=
  (∃ role, ProposesAssign subject role e ∧ n = role.toU32) ∨ ProposesRevoke subject e ∧ n = u32Max

theorem toU32_ne_max (role : Role) : role.toU32 ≠ u32Max := by
  cases role <;> decide

section
variable {env : Env own}

theorem Changes.proposed (h : Changes env s s' c)
    (hp : Proposes subject n (⟨s, (env, c), (), s'⟩ : Step own)) :
    s'.proposals.get subject = some n := by
  rcases hp with ⟨role, ⟨admin, hc, _⟩, rfl⟩ | ⟨⟨admin, hc, _⟩, rfl⟩
  · obtain rfl : c = _ := hc
    cases h with
    | proposeAssignRole _ hs => rw [hs, Table.get_insert, Function.update_self]
  · obtain rfl : c = _ := hc
    cases h with
    | proposeRevokeRole _ _ hs => rw [hs, Table.get_insert, Function.update_self]

/-- A pending number was proposed by the call, or was there before a call about other subjects. -/
theorem Changes.pending (h : Changes env s s' c) (hp : s'.proposals.get subject = some n) :
    Proposes subject n (⟨s, (env, c), (), s'⟩ : Step own) ∨
      ¬ c.concerns subject ∧ s.proposals.get subject = some n := by
  cases h with
  | init _ hs | delegatePermission _ _ hs =>
    rw [hs] at hp
    exact .inr ⟨id, hp⟩
  | revokeDelegation _ _ _ hs =>
    rw [hs] at hp
    exact .inr ⟨id, hp⟩
  | @proposeAssignRole admin subject' role ha hs =>
    rw [hs, Table.get_insert] at hp
    by_cases he : subject = subject'
    · subst he
      rw [Function.update_self] at hp
      exact .inl (.inl ⟨role, ⟨admin, rfl, ha⟩, (Option.some.inj hp).symm⟩)
    · rw [Function.update_of_ne he] at hp
      exact .inr ⟨fun h => he h.symm, hp⟩
  | @proposeRevokeRole admin subject' ha _ hs =>
    rw [hs, Table.get_insert] at hp
    by_cases he : subject = subject'
    · subst he
      rw [Function.update_self] at hp
      exact .inl (.inr ⟨⟨admin, rfl, ha⟩, (Option.some.inj hp).symm⟩)
    · rw [Function.update_of_ne he] at hp
      exact .inr ⟨fun h => he h.symm, hp⟩
  | @confirmAssignRole _ subject' _ _ _ hs | @confirmRevokeRole _ subject' _ _ hs =>
    rw [hs, Table.get_erase] at hp
    by_cases he : subject = subject'
    · subst he
      rw [Function.update_self] at hp
      cases hp
    · rw [Function.update_of_ne he] at hp
      exact .inr ⟨fun h => he h.symm, hp⟩

theorem Changes.assigning (h : Changes env s s' (.confirmAssignRole approver subject)) :
    BySecondApprover env approver s ∧ ∃ n, s.proposals.get subject = some n := by
  cases h with
  | confirmAssignRole ha hp _ => exact ⟨ha, _, hp⟩

theorem Changes.revoking (h : Changes env s s' (.confirmRevokeRole approver subject)) :
    BySecondApprover env approver s ∧ s.proposals.get subject = some u32Max := by
  cases h with
  | confirmRevokeRole ha hp _ => exact ⟨ha, hp⟩

theorem Changes.undisturbed (h : Changes env s s' c) (hc : ¬ c.concerns subject) :
    s'.proposals.get subject = s.proposals.get subject := by
  cases h with
  | init _ hs | delegatePermission _ _ hs => rw [hs]
  | revokeDelegation _ _ _ hs => rw [hs]
  | proposeAssignRole _ hs | proposeRevokeRole _ _ hs =>
    rw [hs, Table.get_insert, Function.update_of_ne fun he => hc he.symm]
  | confirmAssignRole _ _ hs | confirmRevokeRole _ _ hs =>
    rw [hs, Table.get_erase, Function.update_of_ne fun he => hc he.symm]

end

theorem pending_since (h : (machine own).Run .fresh t s)
    (hp : s.proposals.get subject = some n) :
    Since (Proposes subject n) (fun e => e.input.2.concerns subject) t := by
  apply h.since_of (C := fun _ => True) (f := fun s => s.proposals.get subject = some n)
    (fun _ _ => True.intro)
  · nofun
  · rintro s ⟨env, c⟩ s' o _ hs _ hp
    exact (invoke_changes hs).pending hp
  · exact hp

theorem since_pending (h : (machine own).Run .fresh t s)
    (hs : Since (Proposes subject n) (fun e => e.input.2.concerns subject) t) :
    s.proposals.get subject = some n := by
  apply h.stands (f := fun s => s.proposals.get subject = some n) _ _ hs
  · rintro s ⟨env, c⟩ s' o hs hp
    exact (invoke_changes hs).proposed hp
  · rintro s ⟨env, c⟩ s' o hs hp hc
    exact ((invoke_changes hs).undisturbed hc).trans hp

theorem assign_since {t : History own} (hn : n ≠ u32Max)
    (h : Since (Proposes subject n) (fun e => e.input.2.concerns subject) t) :
    Since (ProposesAssign subject (roleOf n)) (fun e => e.input.2.concerns subject) t := by
  apply h.imp
  · rintro e _ (⟨role, hp, rfl⟩ | ⟨_, he⟩)
    · rwa [roleOf_toU32]
    · exact absurd he hn
  · exact fun _ _ => id

theorem revoke_since {t : History own}
    (h : Since (Proposes subject u32Max) (fun e => e.input.2.concerns subject) t) :
    Since (ProposesRevoke subject) (fun e => e.input.2.concerns subject) t := by
  apply h.imp
  · rintro e _ (⟨role, _, he⟩ | ⟨hp, _⟩)
    · exact absurd he.symm (toU32_ne_max role)
    · exact hp
  · exact fun _ _ => id

/-- Every change of the roles has the consent of both parties when no assignment is confirmed while
a revocation is pending, and only then. -/
theorem consented_iff (h : (machine own).Run .fresh t s) :
    Consented t ↔ ∀ e ∈ t, ∀ approver subject,
      e.input.2 = .confirmAssignRole approver subject →
      e.pre.proposals.get subject ≠ some u32Max := by
  constructor
  · intro hc e he approver subject hi hp
    obtain ⟨later, earlier, rfl⟩ := List.append_of_mem he
    obtain ⟨role, _, hs⟩ := hc.assigned later e earlier approver subject rfl hi
    have hrole : e.pre.proposals.get subject = some role.toU32 := by
      apply since_pending h.upTo.1
      apply hs.imp _ fun _ _ => id
      exact fun q _ hq => .inl ⟨role, hq, rfl⟩
    exact toU32_ne_max role (Option.some.inj (hrole.symm.trans hp))
  · intro hmax
    constructor
    · rintro later e earlier approver subject rfl hi
      obtain ⟨hrun, hs⟩ := h.upTo
      have hne := hmax e (List.mem_append_right _ List.mem_cons_self) approver subject hi
      have hch := invoke_changes hs
      rw [hi] at hch
      obtain ⟨ha, n, hp⟩ := hch.assigning
      refine ⟨roleOf n, ⟨ha, hch.settled (.assign hp)⟩, ?_⟩
      apply assign_since _ (pending_since hrun hp)
      rintro rfl
      exact hne hp
    · rintro later e earlier approver subject rfl hi
      obtain ⟨hrun, hs⟩ := h.upTo
      have hch := invoke_changes hs
      rw [hi] at hch
      obtain ⟨ha, hp⟩ := hch.revoking
      exact ⟨⟨ha, hch.settled .revoke⟩, revoke_since (pending_since hrun hp)⟩
    · intro e he hassign hrevoke hinit
      obtain ⟨hr, hs⟩ := h.committed he
      have hch := invoke_changes hs
      apply hch.roles_eq
      · intro hn
        rw [reachable_fresh hr hn] at hch
        obtain ⟨admin, second, hc, _⟩ := hch.starts
        exact hinit admin second hc
      · intro subject role hc
        rcases hc.call with ⟨approver, hc⟩ | ⟨approver, hc⟩
        · exact hassign approver subject hc
        · exact hrevoke approver subject hc

theorem consented_iff_two :
    Consented (perform twoAdmins).1 ↔ ∀ e ∈ (perform twoAdmins).1, ∀ approver subject,
      e.input.2 = .confirmAssignRole approver subject →
      e.pre.proposals.get subject ≠ some u32Max :=
  consented_iff ((machine ⟨0⟩).run_replay .fresh (twoAdmins.map signedCall))

/-- A revocation is proposed, and confirmed as an assignment. -/
def revocationAssigned : List Call :=
  [.init ⟨1⟩ ⟨2⟩, .proposeRevokeRole ⟨1⟩ ⟨3⟩, .confirmAssignRole ⟨2⟩ ⟨3⟩]

example : (perform revocationAssigned).2.roles.get ⟨3⟩ = some .auditor := rfl

theorem revocationAssigned_unconsented :
    ¬ ∀ (t : History ⟨0⟩) s, (machine ⟨0⟩).Run .fresh t s → Consented t := by
  intro hall
  have hc := hall _ _ ((machine ⟨0⟩).run_replay .fresh (revocationAssigned.map signedCall))
  obtain ⟨role, _, hs⟩ := hc.assigned [] _ _ ⟨2⟩ ⟨3⟩ rfl rfl
  obtain ⟨e, he, admin, hi, _⟩ := hs.happened
  rcases List.mem_cons.mp he with rfl | he
  · cases hi
  · cases List.mem_singleton.mp he
    cases hi

end Shelterflex.ContractAccess
