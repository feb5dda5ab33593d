import Shelterflex.Governance.Operations

/-! One proposal in a run. -/

namespace Shelterflex.Governance
open Lib
set_option autoImplicit true

/-- Nothing is stored for the proposals that are not numbered yet. -/
structure Numbered (s : State) : Prop where
  proposal : ∀ n, proposalCount s < n → getProposal s n = none
  voted : ∀ n u, proposalCount s < n → s.voted.has (n, u) = false
  snapshot : ∀ n u, proposalCount s < n → s.voterSnapshot.get (n, u) = none

theorem Numbered.le_count (h : Numbered s) (hq : getProposal s n = some q) :
    n ≤ proposalCount s := by
  by_contra hn
  cases hq.symm.trans (h.proposal n (not_le.mp hn))

theorem Numbered.resolve (h : Numbered s) (hq : getProposal s m = some q)
    (status : ProposalStatus) : Numbered (resolve m q status s) where
  proposal n hn := by
    have hne : n ≠ m := fun he => absurd (h.le_count hq) (not_le.mpr (he ▸ hn))
    exact (Store.get_set_of_ne _ _ hne).trans (h.proposal n hn)
  voted := h.voted
  snapshot := h.snapshot

theorem Changes.numbered (hn : Numbered s) (h : Changes net p env s s' c o) : Numbered s' := by
  cases h with
  | manage _ _ hk =>
    constructor
    · intro n hlt
      rw [getProposal, hk.proposal]
      exact hn.proposal n (hk.count ▸ hlt)
    · intro n u hlt
      rw [hk.voted]
      exact hn.voted n u (hk.count ▸ hlt)
    · intro n u hlt
      rw [hk.snapshot]
      exact hn.snapshot n u (hk.count ▸ hlt)
  | create hc =>
    obtain ⟨q, hq, _⟩ := hc.proposal
    constructor
    · intro n hlt
      rw [hc.count] at hlt
      rw [getProposal, hq, Store.get_set_of_ne _ _ hlt.ne']
      exact hn.proposal n ((Nat.lt_succ_self _).trans hlt)
    · intro n u hlt
      rw [hc.count] at hlt
      rw [hc.voted]
      exact hn.voted n u ((Nat.lt_succ_self _).trans hlt)
    · intro n u hlt
      rw [hc.count] at hlt
      rw [hc.rest (n, u) (.inl hlt.ne')]
      exact hn.snapshot n u ((Nat.lt_succ_self _).trans hlt)
  | @vote voter m _ _ hv =>
    have hle := hn.le_count hv.stored
    rw [hv.written]
    constructor
    · intro n hlt
      exact (Store.get_set_of_ne _ _ (hle.trans_lt hlt).ne').trans (hn.proposal n hlt)
    · intro n u hlt
      have hne : (n, u) ≠ (m, voter) := fun he => (hle.trans_lt hlt).ne' (Prod.mk.inj he).1
      exact (Store.has_set_of_ne _ _ hne).trans (hn.voted n u hlt)
    · exact hn.snapshot
  | finalize hq _ _ hs | execute hq _ _ hs | cancel hq _ _ hs => exact hs ▸ hn.resolve hq _

theorem fresh_numbered : Numbered .fresh :=
  ⟨fun _ _ => rfl, fun _ _ _ => rfl, fun _ _ _ => rfl⟩

/-- What one action does, in terms of the contract's call if there is one. -/
inductive Moves (net : Pools P) (w w' : World P) : Action own P → Output → Prop where
  | call (hc : Changes net w.pools env w.gov w'.gov c o) : Moves net w w' (.call env c) o
  | traffic (hg : w'.gov = w.gov) : Moves net w w' (.traffic p) .unit

theorem act_moves (hf : Founded w.gov) (h : act net w i = some (w', o)) : Moves net w w' i o := by
  cases i with
  | call env c =>
    obtain ⟨⟨s', o'⟩, hs, he⟩ := Option.map_eq_some_iff.mp h
    cases he
    exact .call (invoke_changes hf hs)
  | traffic p =>
    cases h
    exact .traffic rfl

/-- What holds of the contract in every run. -/
structure Sound (s : State) : Prop where
  founded : Founded s
  numbered : Numbered s

theorem Moves.sound (hs : Sound w.gov) (h : Moves net w w' i o) : Sound w'.gov := by
  cases h with
  | call hc =>
    have ha := hc.admin hs.founded
    exact ⟨fun hn => absurd hn ha, hc.numbered hs.numbered⟩
  | traffic hg => exact hg ▸ hs

theorem run_sound (h : (machine net own).Run ⟨.fresh, p⟩ t w) : Sound w.gov :=
  h.invariant (P := fun _ w => Sound w.gov) ⟨fun _ => rfl, fresh_numbered⟩ fun hw hs =>
    (act_moves hw.founded hs).sound hw

/-- Does an action concern a proposal? -/
def Action.concerns (n : Nat) : Action own P → Bool
  | .call _ (.vote _ m _) | .call _ (.finalizeProposal m) | .call _ (.executeProposal m)
  | .call _ (.cancelProposal _ m) => m = n
  | _ => false

/-- What one action does to one proposal. -/
inductive At (n : Nat) (s s' : State) : Action own P → Output → Prop where
  | other (hp : getProposal s' n = getProposal s n)
      (hv : ∀ u, s'.voted.has (n, u) = s.voted.has (n, u))
      (hs : ∀ u, getSnapshotStakeFor s' n u = getSnapshotStakeFor s n u)
      (hi : i.concerns n = false) : At n s s' i o
  | vote (hv : Casts env.timestamp voter n support q s s') :
      At n s s' (.call env (.vote voter n support)) .unit
  | finalize (hq : getProposal s n = some q) (ha : q.status = .active)
      (ht : q.votingEndsAt < env.timestamp) (hs : s' = resolve n q (verdict q) s) :
      At n s s' (.call env (.finalizeProposal n)) (.status (verdict q))
  | execute (hq : getProposal s n = some q) (hp : q.status = .passed)
      (ht : q.votingEndsAt + timelockSecs ≤ env.timestamp) (hs : s' = resolve n q .executed s) :
      At n s s' (.call env (.executeProposal n)) .unit
  | cancel (hq : getProposal s n = some q) (ha : q.status = .active) (ho : q.proposer = proposer)
      (hs : s' = resolve n q .cancelled s) :
      At n s s' (.call env (.cancelProposal proposer n)) .unit

theorem Action.not_concerns {env : Env own} (h : Call.manages c = true) (n : Nat) :
    (Action.call env c : Action own P).concerns n = false := by
  cases c with
  | init _ _ | setTotalStaked _ _ | setStakingPool _ _ | setVoterStake _ _ _ => rfl
  | _ => cases h

theorem resolve_other {i : Action own P} (hne : m ≠ n) (hi : i.concerns n = false) :
    At n s (resolve m q status s) i o :=
  .other (Store.get_set_of_ne _ _ hne.symm) (fun _ => rfl) (fun _ => rfl) hi

theorem Moves.at (hn : n ≤ proposalCount w.gov) (h : Moves net w w' i o) :
    At n w.gov w'.gov i o := by
  cases h with
  | traffic hg => exact .other (by rw [hg]) (fun _ => by rw [hg]) (fun _ => by rw [hg]) rfl
  | call hc =>
    cases hc with
    | manage hc _ hk =>
      refine .other ?_ ?_ ?_ (Action.not_concerns hc n)
      · rw [getProposal, hk.proposal]
        rfl
      · intro u
        rw [hk.voted]
      · intro u
        rw [getSnapshotStakeFor, hk.snapshot]
        rfl
    | create hc =>
      obtain ⟨q, hq, _⟩ := hc.proposal
      have hne : n ≠ proposalCount w.gov + 1 := (Nat.lt_succ_of_le hn).ne
      refine .other ?_ ?_ ?_ rfl
      · rw [getProposal, hq]
        exact Store.get_set_of_ne _ _ hne
      · intro u
        rw [hc.voted]
      · intro u
        rw [getSnapshotStakeFor, Store.getD, hc.rest (n, u) (.inl hne)]
        rfl
    | @vote voter m support q hv =>
      by_cases he : m = n
      · exact he ▸ .vote hv
      · rw [hv.written]
        have hk (u : Address) : (n, u) ≠ (m, voter) := fun hk => he (Prod.mk.inj hk).1.symm
        exact .other (Store.get_set_of_ne _ _ (Ne.symm he))
          (fun u => Store.has_set_of_ne _ _ (hk u)) (fun _ => rfl) (decide_eq_false he)
    | @finalize m q hq ha ht hs =>
      by_cases he : m = n
      · exact he ▸ .finalize hq ha ht hs
      · exact hs ▸ resolve_other he (decide_eq_false he)
    | @execute m q hq hp ht hs =>
      by_cases he : m = n
      · exact he ▸ .execute hq hp ht hs
      · exact hs ▸ resolve_other he (decide_eq_false he)
    | @cancel m q proposer hq ha ho hs =>
      by_cases he : m = n
      · exact he ▸ .cancel hq ha ho hs
      · exact hs ▸ resolve_other he (decide_eq_false he)

end Shelterflex.Governance
