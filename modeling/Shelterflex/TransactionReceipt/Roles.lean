import Shelterflex.TransactionReceipt.Idempotence

/-! Who pauses the contract, changes the operator and records receipts. -/

namespace Shelterflex.TransactionReceipt
open Lib
set_option autoImplicit true

/-- The address that a call claims a role for. -/
def Call.caller : Call → Option Address
  | .init _ _ => none
  | .setOperator admin _ => some admin
  | .recordReceipt operator _ => some operator
  | .pause admin => some admin
  | .unpause admin => some admin

def Call.isInit : Call → Bool
  | .init _ _ => true
  | _ => false

/-- The call was authorized by the stored admin, or it set the first admin. -/
def ByAdmin (e : Event State (Env own × Call) (Option (BytesN 32))) : Prop :=
  (∃ a, e.pre.admin = some a ∧ e.input.1.authorized a = true) ∨
    e.pre.admin = none ∧ e.input.2.isInit = true

/-- A call that needs a role has the authorization of the role's holder. -/
structure Authorised (e : Event State (Env own × Call) (Option (BytesN 32))) : Prop where
  paused : e.post.paused ≠ e.pre.paused → ByAdmin e
  operator : e.post.operator ≠ e.pre.operator → ByAdmin e
  recorded : ∀ operator input, e.input.2 = .recordReceipt operator input →
    ∃ a, e.pre.operator = some a ∧ e.input.1.authorized a = true
  unsigned : ∀ a, e.pre.admin = some a → e.input.2.caller = some a →
    e.input.1.authorized a = false → e.post = e.pre

/-- Whether a call turns the pause on or off. -/
def toggles (s : State) : Call → Bool
  | .pause _ => s.paused ≠ some true
  | .unpause _ => s.paused ≠ some false
  | _ => false

/-- A call that turns the pause on or off has the authorization of the address it names. -/
def ToggleSigned (e : Event State (Env own × Call) (Option (BytesN 32))) : Prop :=
  toggles e.pre e.input.2 = true → ∀ a, e.input.2.caller = some a → e.input.1.authorized a = true

section
variable {sha256 : Bytes → BytesN 32} {strkey : Address → HostString}

/-- What the law asks of a call that writes the flag. -/
theorem flag_authorised {env : Env own} {s s' : State} {c : Call} {o : Option (BytesN 32)}
    (hc : c.caller = some admin) (hr : s.admin = some admin)
    (hp : c.payment = none)
    (hs : s' = { s with paused := some flag })
    (hsigned : s.paused ≠ some flag → env.authorized admin = true) :
    Authorised ⟨s, (env, c), o, s'⟩ where
  paused hne := by
    refine .inl ⟨admin, hr, hsigned fun he => hne ?_⟩
    rw [hs]
    exact he.symm
  operator hne := absurd (by rw [hs]) hne
  recorded operator input hin := by
    change c = _ at hin
    rw [hin] at hp
    cases hp
  unsigned a _ hca hna := by
    cases hc.symm.trans hca
    have hf : s.paused = some flag := by
      by_contra hne
      cases (hsigned hne).symm.trans hna
    change s' = s
    rw [hs, ← hf]

theorem Changes.role_authorised {env : Env own} (h : Changes sha256 strkey env s s' c o)
    (hsigned : ToggleSigned (⟨s, (env, c), o, s'⟩ : Event State (Env own × Call) _)) :
    Authorised (⟨s, (env, c), o, s'⟩ : Event State (Env own × Call) _) := by
  cases h with
  | init hn _ =>
    refine ⟨fun _ => .inr ⟨hn, rfl⟩, fun _ => .inr ⟨hn, rfl⟩, fun _ _ hin => ?_, fun _ _ hc => ?_⟩
    · cases hin
    · cases hc
  | setOperator hr ha hs =>
    refine ⟨fun _ => .inl ⟨_, hr, ha⟩, fun _ => .inl ⟨_, hr, ha⟩, fun _ _ hin => ?_,
      fun a _ hc hna => ?_⟩
    · cases hin
    · cases hc
      cases ha.symm.trans hna
  | record h =>
    refine ⟨fun hne => absurd h.books.paused hne, fun hne => absurd h.books.operator hne,
      fun _ _ hin => ?_, fun a _ hc hna => ?_⟩
    · exact ⟨_, h.role, h.authorized⟩
    · cases hc
      cases h.authorized.symm.trans hna
  | pause hr hs =>
    exact flag_authorised rfl hr rfl hs fun hne => hsigned (decide_eq_true hne) _ rfl
  | unpause hr hs =>
    exact flag_authorised rfl hr rfl hs fun hne => hsigned (decide_eq_true hne) _ rfl

theorem Changes.toggle_signed {env : Env own} (h : Changes sha256 strkey env s s' c o)
    (ha : Authorised (⟨s, (env, c), o, s'⟩ : Event State (Env own × Call) _)) :
    ToggleSigned (⟨s, (env, c), o, s'⟩ : Event State (Env own × Call) _) := by
  intro ht a hc
  have signed (hr : s.admin = some a) (hne : s'.paused ≠ s.paused) : env.authorized a = true := by
    rcases ha.paused hne with ⟨b, hb, hauth⟩ | ⟨hn, _⟩
    · cases hr.symm.trans hb
      exact hauth
    · cases hr.symm.trans hn
  cases h with
  | init => cases ht
  | setOperator => cases ht
  | record => cases ht
  | pause hr hs =>
    cases hc
    exact signed hr (by rw [hs]; exact (of_decide_eq_true ht).symm)
  | unpause hr hs =>
    cases hc
    exact signed hr (by rw [hs]; exact (of_decide_eq_true ht).symm)

/-- The calls of a run all have the authorization their roles need exactly when every call that
turned the pause on or off had that of the admin it named. -/
theorem roles_authorised_iff (h : (machine sha256 strkey own).Run .fresh t s) :
    (∀ e ∈ t, Authorised e) ↔ ∀ e ∈ t, ToggleSigned e := by
  constructor
  · intro ha e he
    have hch := invoke_changes (h.committed he).2
    exact hch.toggle_signed (ha e he)
  · intro hsigned e he
    have hch := invoke_changes (h.committed he).2
    exact hch.role_authorised (hsigned e he)

end

/-- Nobody authorizes the call. -/
def unsignedEnv (timestamp : Nat) : Env ⟨0⟩ := ⟨timestamp, fun _ => false, rfl⟩

def pausedCalls (env : Env ⟨0⟩) : List (Env ⟨0⟩ × Call) :=
  [(.signed ⟨0⟩ 0, .init ⟨1⟩ ⟨2⟩), (.signed ⟨0⟩ 1, .setOperator ⟨1⟩ ⟨3⟩), (env, .pause ⟨1⟩)]

def perform (cs : List (Env ⟨0⟩ × Call)) : History ⟨0⟩ × State :=
  (machine refDigest addressText ⟨0⟩).replay .fresh cs

theorem roles_authorised_iff_paused :
    (∀ e ∈ (perform (pausedCalls (.signed ⟨0⟩ 2))).1, Authorised e) ↔
      ∀ e ∈ (perform (pausedCalls (.signed ⟨0⟩ 2))).1, ToggleSigned e :=
  roles_authorised_iff ((machine refDigest addressText ⟨0⟩).run_replay .fresh
    (pausedCalls (.signed ⟨0⟩ 2)))

/-- Anybody pauses the contract by naming its admin. -/
theorem stranger_pauses :
    ¬ ∀ (t : History ⟨0⟩) s, (machine refDigest addressText ⟨0⟩).Run .fresh t s →
      ∀ e ∈ t, Authorised e := by
  intro hall
  have hrun := (machine refDigest addressText ⟨0⟩).run_replay .fresh (pausedCalls (unsignedEnv 2))
  have ha := hall _ _ hrun _ List.mem_cons_self
  rcases ha.paused (by decide) with ⟨a, _, hauth⟩ | ⟨hn, _⟩
  · cases hauth
  · cases hn

end Shelterflex.TransactionReceipt
