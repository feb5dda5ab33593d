import Shelterflex.MultisigAdmin.Execution

/-! Which configurations can execute what all their signers approve. -/

namespace Shelterflex.MultisigAdmin
open Lib
set_option autoImplicit true

/-- The signers of a configuration, each counted once. -/
def Config.distinctSigners (cfg : Config) : Nat := cfg.signers.dedup.length

theorem approve_iff (h : (machine own).Run .fresh t s) (hc : s.config = some cfg)
    (ho : Open s n q) {env : Env own} (hx : q.Unexpired env.timestamp) (hs : a ∈ cfg.signers)
    (ha : env.authorized a = true) :
    (∃ s', approve env a n s = .ok s') ↔ ¬ Approved a n t := by
  rw [← (run_tracked n h).standing]
  constructor
  · rintro ⟨s', hok⟩
    obtain ⟨_, _, _, _, _, hf, _⟩ := approve_ok.mp hok
    exact hf
  · exact fun hf => ⟨_, approve_ok.mpr ⟨cfg, q, ⟨hc, hs, ha⟩, ho, hx, hf, rfl⟩⟩

theorem execute_iff (hc : s.config = some cfg) (ho : Open s n q) {env : Env own}
    (hx : q.Unexpired env.timestamp) (hs : a ∈ cfg.signers) (ha : env.authorized a = true) :
    (∃ s', execute env a n s = .ok s') ↔ cfg.threshold ≤ (getApprovals s n).length := by
  constructor
  · rintro ⟨s', hok⟩
    obtain ⟨_, _, hsign, _, _, hle, _⟩ := execute_ok.mp hok
    cases hc.symm.trans hsign.config
    exact hle
  · exact fun hle => ⟨_, execute_ok.mpr ⟨cfg, q, ⟨hc, hs, ha⟩, ho, hx, hle, rfl⟩⟩

/-- What all the signers have approved has as many approvals as there are distinct signers. -/
theorem Tracked.length_eq (h : Tracked n t s) (hc : s.config = some cfg)
    (hall : ∀ a ∈ cfg.signers, Approved a n t) :
    (getApprovals s n).length = cfg.distinctSigners := by
  apply List.Perm.length_eq
  rw [List.perm_ext_iff_of_nodup h.nodup (List.nodup_dedup _)]
  intro a
  rw [List.mem_dedup]
  constructor
  · intro ha
    obtain ⟨cfg', hc', hs⟩ := h.signers a ha
    cases hc'.symm.trans hc
    exact hs
  · exact fun ha => (h.standing a).mpr (hall a ha)

/-- Every signer can approve once, and what all of them have approved can be executed. -/
structure Live (own : Address) (cfg : Config) : Prop where
  approve : ∀ (t : History own) s n q, (machine own).Run .fresh t s → s.config = some cfg →
    Open s n q → ∀ (env : Env own) a, q.Unexpired env.timestamp → a ∈ cfg.signers →
      env.authorized a = true → ((∃ s', approve env a n s = .ok s') ↔ ¬ Approved a n t)
  execute : ∀ (t : History own) s n q, (machine own).Run .fresh t s → s.config = some cfg →
    Open s n q → (∀ a ∈ cfg.signers, Approved a n t) →
      ∀ (env : Env own) a, q.Unexpired env.timestamp → a ∈ cfg.signers →
        env.authorized a = true → ∃ s', execute env a n s = .ok s'

theorem not_approved_own (h : (machine own).Run .fresh t s) : ¬ Approved own n t := by
  intro ha
  obtain ⟨⟨pre, ⟨env, c⟩, o, post⟩, he, hi⟩ := ha.happened
  have hi : c = .approve own n := hi
  have hc : Changes env pre post c o := invoke_changes (h.committed he).2
  subst hi
  cases hc with
  | approve hs _ _ _ _ => exact Env.ne_own hs.authorized rfl

theorem run_call (h : (machine own).Run .fresh t s) (hi : invoke env s c = some (s', o)) :
    (machine own).Run .fresh (⟨s, (env, c), o, s'⟩ :: t) s' :=
  .commit h hi

/-- A run to a proposal that is open and never expires. -/
structure Stands (cfg : Config) (n : Nat) (t : History own) (s : State) : Prop where
  run : (machine own).Run .fresh t s
  config : s.config = some cfg
  proposal : ∃ q, Open s n q ∧ q.expiry = 0

theorem Open.putApprovals (h : Open s n q) (l : List Address) :
    Open (putApprovals n q l s) n { q with approvalCount := l.length } :=
  ⟨Store.get_set_self _ _ _, h.pending⟩

theorem Stands.approve {t : History own} (h : Stands cfg n t s) (hs : a ∈ cfg.signers)
    (ha : a ≠ own) :
    ∃ (t' : History own) (s' : State), Stands cfg n t' s' ∧ Approved a n t' ∧
      ∀ b, Approved b n t → Approved b n t' := by
  by_cases hdone : Approved a n t
  · exact ⟨t, s, h, hdone, fun _ => id⟩
  · obtain ⟨q, ho, hz⟩ := h.proposal
    have hsigned : (Env.signed own 0).authorized a = true := by simpa [Env.signed] using ha
    obtain ⟨s', hok⟩ := (approve_iff h.run h.config ho (.inl hz) hs hsigned).mpr hdone
    have hstep : invoke (.signed own 0) s (.approve a n) = some (s', .unit) :=
      commit_some.mpr ⟨s', hok, rfl⟩
    obtain ⟨_, q', _, ho', _, _, hw⟩ := approve_ok.mp hok
    have hiff (b : Address) := approved_approve (e := ⟨s, (.signed own 0, .approve a n), .unit, s'⟩)
      rfl b t
    refine ⟨_, s', ⟨run_call h.run hstep, (invoke_changes hstep).config h.config, ?_⟩,
      (hiff a).mpr (.inl rfl), fun b hb => (hiff b).mpr (.inr hb)⟩
    cases ho.stored.symm.trans ho'.stored
    have hopen := ho.putApprovals (getApprovals s n ++ [a])
    rw [← hw] at hopen
    exact ⟨_, hopen, hz⟩

/-- All of some signers approve, one after the other. -/
theorem Stands.approve_all {t : History own} (h : Stands cfg n t s) {l : List Address}
    (hl : ∀ a ∈ l, a ∈ cfg.signers ∧ a ≠ own) :
    ∃ (t' : History own) (s' : State), Stands cfg n t' s' ∧ ∀ a ∈ l, Approved a n t' := by
  induction l with
  | nil => exact ⟨t, s, h, fun _ ha => absurd ha List.not_mem_nil⟩
  | cons a l ih =>
    obtain ⟨ha, hl⟩ := List.forall_mem_cons.mp hl
    obtain ⟨t₁, s₁, h₁, hl₁⟩ := ih hl
    obtain ⟨t₂, s₂, h₂, ha₂, hkeep⟩ := h₁.approve ha.1 ha.2
    exact ⟨t₂, s₂, h₂, List.forall_mem_cons.mpr ⟨ha₂, fun b hb => hkeep b (hl₁ b hb)⟩⟩

theorem signers_nonempty (hv : init signers threshold .fresh = .ok s₀) : ∃ a, a ∈ signers := by
  simp only [init, bind_ok, demand_ok] at hv
  obtain ⟨_, _, _, ht, _⟩ := hv
  apply List.exists_mem_of_length_pos
  omega

theorem stands_proposed (hv : init signers threshold .fresh = .ok s₀) (hs : a ∈ signers)
    (ha : a ≠ own) :
    ∃ (t : History own) (s : State), Stands ⟨signers, threshold⟩ 1 t s := by
  have hinit : invoke (.signed own 0) .fresh (.init signers threshold) = some (s₀, .unit) :=
    commit_some.mpr ⟨s₀, hv, rfl⟩
  have hrun := run_call .start hinit
  simp only [init, bind_ok, demand_ok, pure_ok] at hv
  obtain ⟨_, _, _, _, hs₀⟩ := hv
  have hsign : Signs (.signed own 0) s₀ ⟨signers, threshold⟩ a :=
    ⟨hs₀ ▸ rfl, hs, by simpa [Env.signed] using ha⟩
  have hpropose : propose (.signed own 0) a .freezeAccount [] 0 s₀ = .ok ({ s₀ with
      proposal := s₀.proposal.set 1 ⟨a, .freezeAccount, [], 0, .pending, 0⟩
      approvals := s₀.approvals.set 1 []
      nextProposalId := some 2 }, 1) := by
    rw [propose, bind_of_ok (requireSigner_ok.mpr hsign), ← hs₀]
    rfl
  have hstep : invoke (.signed own 0) s₀ (.propose a .freezeAccount [] 0) = some (_, .id 1) :=
    commit_some.mpr ⟨_, hpropose, rfl⟩
  exact ⟨_, _, run_call hrun hstep, hsign.config, _, ⟨Store.get_set_self _ _ _, rfl⟩, rfl⟩

/-- A configuration is live exactly when the threshold is within the number of its distinct
signers, or the contract itself is one of them. -/
theorem live_iff (own : Address) (hv : init signers threshold .fresh = .ok s₀) :
    Live own ⟨signers, threshold⟩ ↔
      threshold ≤ Config.distinctSigners ⟨signers, threshold⟩ ∨ own ∈ signers := by
  constructor
  · intro hlive
    by_cases hown : own ∈ signers
    · exact .inr hown
    left
    obtain ⟨a, hs⟩ := signers_nonempty hv
    have hne (b : Address) (hb : b ∈ signers) : b ≠ own := fun he => hown (he ▸ hb)
    obtain ⟨_, _, h₁⟩ := stands_proposed hv hs (hne a hs)
    obtain ⟨t, s, h, hall⟩ := h₁.approve_all fun b hb => ⟨hb, hne b hb⟩
    obtain ⟨q, ho, hz⟩ := h.proposal
    have hsigned : (Env.signed own 0).authorized a = true := by
      simpa [Env.signed] using hne a hs
    have hok := hlive.execute t s 1 q h.run h.config ho hall (.signed own 0) a (.inl hz) hs hsigned
    rw [execute_iff h.config ho (.inl hz) hs hsigned,
      (run_tracked 1 h.run).length_eq h.config hall] at hok
    exact hok
  · intro hcond
    constructor
    · exact fun t s n q h hc ho env a hx hs ha => approve_iff h hc ho hx hs ha
    · intro t s n q h hc ho hall env a hx hs ha
      rw [execute_iff hc ho hx hs ha, (run_tracked n h).length_eq hc hall]
      rcases hcond with hle | hmem
      · exact hle
      · exact absurd (hall own hmem) (not_approved_own h)

theorem live_iff_two_of_three :
    Live ⟨0⟩ ⟨[⟨1⟩, ⟨2⟩, ⟨3⟩], 2⟩ ↔
      2 ≤ Config.distinctSigners ⟨[⟨1⟩, ⟨2⟩, ⟨3⟩], 2⟩ ∨ (⟨0⟩ : Address) ∈ [⟨1⟩, ⟨2⟩, ⟨3⟩] := by
  have hv : init [⟨1⟩, ⟨2⟩, ⟨3⟩] 2 .fresh = .ok { State.fresh with
      config := some ⟨[⟨1⟩, ⟨2⟩, ⟨3⟩], 2⟩
      nextProposalId := some 1 } := rfl
  exact live_iff ⟨0⟩ hv

def stuckCalls : List (Env ⟨0⟩ × Call) :=
  proposedCalls [⟨1⟩, ⟨1⟩] 2 ++ [(.signed ⟨0⟩ 2, .approve ⟨1⟩ 1)]

/-- A signer listed twice approves once, and the threshold of two is out of reach. -/
theorem listed_twice_not_live :
    ¬ ∀ (signers : List Address) threshold s₀, init signers threshold .fresh = .ok s₀ →
      Live ⟨0⟩ ⟨signers, threshold⟩ := by
  intro hall
  have hlive := hall [⟨1⟩, ⟨1⟩] 2 { State.fresh with
    config := some ⟨[⟨1⟩, ⟨1⟩], 2⟩, nextProposalId := some 1 } rfl
  have happroved : ∀ a ∈ [(⟨1⟩ : Address), ⟨1⟩],
      Approved a 1 ((machine ⟨0⟩).replay .fresh stuckCalls).1 := by decide
  obtain ⟨s', hs⟩ := hlive.execute _ _ 1 ⟨⟨1⟩, .freezeAccount, [], 9, .pending, 1⟩
    ((machine ⟨0⟩).run_replay .fresh stuckCalls) rfl ⟨rfl, rfl⟩ happroved (.signed ⟨0⟩ 3) ⟨1⟩
    (by decide) (by decide) (by decide)
  cases hs

end Shelterflex.MultisigAdmin
