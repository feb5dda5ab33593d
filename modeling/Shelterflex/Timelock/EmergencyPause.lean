import Shelterflex.Timelock.Queue

/-! Who has to agree to an emergency pause. -/

namespace Shelterflex.Timelock
open Lib
set_option autoImplicit true

/-- Two configured members authorized the call. -/
def TwoAgree (env : CallEnv own) (configured : List Address) : Prop :=
  ∃ a ∈ configured, ∃ b ∈ configured, a ≠ b ∧ env.authorized a = true ∧ env.authorized b = true

/-- The list names one member only, at least twice, and no other member authorized the call. -/
structure OneRepeated (env : CallEnv own) (configured members : List Address) (a : Address) :
    Prop where
  twice : 2 ≤ members.length
  same : ∀ m ∈ members, m = a
  sole : ∀ m ∈ configured, env.authorized m = true ↔ m = a
  member : a ∈ configured

/-- The list of an initialized contract. -/
def MembersSet (configured : List Address) (s : State) : Prop :=
  s.admin ≠ none ∧ s.multisigMembers = some configured

section
variable {sha256Xdr : List Val → BytesN 32} {env : CallEnv own}

theorem emergencyPause_ok : emergencyPause env members s = .ok s' ↔
    2 ≤ members.length ∧ ∃ allowed, s.multisigMembers = some allowed ∧
      (∀ m ∈ members, env.authorized m = true ∧ m ∈ allowed) ∧
        { s with paused := some true } = s' := by
  simp only [emergencyPause, bind_ok, require_ok, expect_ok, forM_ok, requireAuth_ok, pure_ok,
    exists_const, not_lt]

theorem Changes.membersSet (h : Changes sha256Xdr env s s' c) (hs : MembersSet allowed s) :
    MembersSet allowed s' := by
  obtain ⟨hne, hm⟩ := hs
  cases h with
  | init hn _ _ _ => exact absurd hn hne
  | queue _ h => exact h.entry ▸ ⟨hne, hm⟩
  | execute h => exact h.entry ▸ ⟨hne, hm⟩
  | cancel _ h | expire _ h => exact h.entry ▸ ⟨hne, hm⟩
  | pause hs | unpause _ hs => exact hs ▸ ⟨hne, hm⟩
  | setMinDelay _ _ _ _ hs => exact hs ▸ ⟨hne, hm⟩

theorem run_membersSet (h : (machine sha256Xdr own).Run .fresh t s) {e : Step own} (he : e ∈ t)
    (hi : e.input.2 = .init admin minDelay maxDelay configured) : MembersSet configured s := by
  induction h with
  | start => cases he
  | rollback _ _ ih => exact ih he
  | commit _ hs ih =>
    have hch := invoke_changes hs
    rcases List.mem_cons.mp he with rfl | he
    · dsimp only at hi
      rw [hi] at hch
      cases hch with
      | init _ _ _ hs => exact hs ▸ ⟨nofun, rfl⟩
    · exact hch.membersSet (ih he)

theorem OneRepeated.pauses (h : OneRepeated env configured members a)
    (hs : s.multisigMembers = some configured) :
    emergencyPause env members s = .ok { s with paused := some true } := by
  refine emergencyPause_ok.mpr ⟨h.twice, configured, hs, fun m hm => ?_, rfl⟩
  rw [h.same m hm]
  exact ⟨(h.sole a h.member).mpr rfl, h.member⟩

theorem OneRepeated.not_twoAgree (h : OneRepeated env configured members a) :
    ¬ TwoAgree env configured := by
  rintro ⟨b, hb, c, hc, hne, hab, hac⟩
  have hbc := ((h.sole b hb).mp hab).trans ((h.sole c hc).mp hac).symm
  exact hne hbc

/-- A pause that two members did not agree to. -/
theorem oneRepeated_of_pause (h : emergencyPause env members s = .ok s')
    (hs : s.multisigMembers = some configured) (hn : ¬ TwoAgree env configured) :
    ∃ a, OneRepeated env configured members a := by
  obtain ⟨hlen, allowed, ha, hall, _⟩ := emergencyPause_ok.mp h
  cases hs.symm.trans ha
  obtain ⟨a, hmem⟩ := List.exists_mem_of_length_pos (Nat.zero_lt_of_lt hlen)
  obtain ⟨hauth, hconf⟩ := hall a hmem
  have hsole : ∀ m ∈ configured, env.authorized m = true → m = a := by
    intro m hm hma
    by_contra hne
    exact hn ⟨m, hm, a, hconf, hne, hma, hauth⟩
  refine ⟨a, hlen, fun m hm => ?_, fun m hm => ⟨hsole m hm, ?_⟩, hconf⟩
  · obtain ⟨hma, hm⟩ := hall m hm
    exact hsole m hm hma
  · rintro rfl
    exact hauth

/-- An emergency pause takes two members unless its list repeats the only one that authorized
it. -/
theorem pause_by_two_iff (h : (machine sha256Xdr own).Run .fresh t s) {e : Step own} (he : e ∈ t)
    (hi : e.input.2 = .init admin minDelay maxDelay configured) (env : CallEnv own)
    (members : List Address) :
    (∀ s' o, (machine sha256Xdr own).step s (env, .emergencyPause members) = some (s', o) →
      TwoAgree env configured) ↔ ¬ ∃ a, OneRepeated env configured members a := by
  obtain ⟨_, hs⟩ := run_membersSet h he hi
  constructor
  · rintro hall ⟨a, hone⟩
    have hstep : (machine sha256Xdr own).step s (env, .emergencyPause members) =
        some ({ s with paused := some true }, .unit) :=
      commit_some.mpr ⟨_, hone.pauses hs, rfl⟩
    exact hone.not_twoAgree (hall _ _ hstep)
  · intro hn s' o hstep
    obtain ⟨_, hok, _⟩ := commit_some.mp hstep
    by_contra htwo
    exact hn (oneRepeated_of_pause hok hs htwo)

end

/-- Only one address authorizes the call. -/
def soleEnv (a : Address) (ha : a ≠ ⟨0⟩) : CallEnv ⟨0⟩ where
  timestamp := 10
  sequence := 2
  authorized := fun b => decide (b = a)
  own_unauthorized := decide_eq_false ha.symm
  callee := fun _ _ _ => none

def initStep : Step ⟨0⟩ :=
  ⟨.fresh, (signedEnv 0 0, .init ⟨1⟩ 100 1000 [⟨2⟩, ⟨3⟩]), .unit,
    (perform [(signedEnv 0 0, .init ⟨1⟩ 100 1000 [⟨2⟩, ⟨3⟩])]).2⟩

theorem pause_by_two_iff_signed :
    (∀ s' o, (machine opDigest ⟨0⟩).step initStep.post
        (signedEnv 10 2, .emergencyPause [⟨2⟩, ⟨3⟩]) = some (s', o) →
      TwoAgree (signedEnv 10 2) [⟨2⟩, ⟨3⟩]) ↔
        ¬ ∃ a, OneRepeated (signedEnv 10 2) [⟨2⟩, ⟨3⟩] [⟨2⟩, ⟨3⟩] a :=
  pause_by_two_iff ((machine opDigest ⟨0⟩).run_replay .fresh [initStep.input])
    (e := initStep) List.mem_cons_self rfl (signedEnv 10 2) [⟨2⟩, ⟨3⟩]

/-- One member named twice pauses the contract alone. -/
theorem paused_by_one :
    ¬ ∀ (t : History ⟨0⟩) s, (machine opDigest ⟨0⟩).Run .fresh t s →
      ∀ e ∈ t, ∀ admin minDelay maxDelay configured,
        e.input.2 = .init admin minDelay maxDelay configured →
          ∀ (env : CallEnv ⟨0⟩) members s' o,
            (machine opDigest ⟨0⟩).step s (env, .emergencyPause members) = some (s', o) →
              TwoAgree env configured := by
  intro hall
  have hrun := (machine opDigest ⟨0⟩).run_replay .fresh [initStep.input]
  have htwo := hall _ _ hrun initStep List.mem_cons_self _ _ _ _ rfl (soleEnv ⟨2⟩ (by decide))
    [⟨2⟩, ⟨2⟩] _ _ rfl
  obtain ⟨a, _, b, _, hne, ha, hb⟩ := htwo
  exact hne ((of_decide_eq_true ha).trans (of_decide_eq_true hb).symm)

end Shelterflex.Timelock
