import Shelterflex.Governance.Proposals

/-! The weight of the votes on a proposal. -/

namespace Shelterflex.Governance
open Lib
set_option autoImplicit true

abbrev History (own : Address) (P : Type) := List (Event (World P) (Action own P) Output)

/-- An accepted vote, with what it added to the tallies. -/
structure Ballot where
  voter : Address
  support : Bool
  weight : Int
deriving DecidableEq

/-- All that was counted for a proposal or against it. -/
def counted (s : State) (n : Nat) : Int :=
  match getProposal s n with
  | some q => q.votesFor + q.votesAgainst
  | none => 0

def ballot (n : Nat) (e : Event (World P) (Action own P) Output) : Option Ballot :=
  match e.input with
  | .call _ (.vote voter m support) =>
    if m = n then some ⟨voter, support, counted e.post.gov n - counted e.pre.gov n⟩ else none
  | _ => none

def ballots (n : Nat) (t : History own P) : List Ballot := t.filterMap (ballot n)

def voters (n : Nat) (t : History own P) : List Address := (ballots n t).map (·.voter)

def choices (n : Nat) (t : History own P) : List (Address × Bool) :=
  (ballots n t).map fun b => (b.voter, b.support)

/-- The weights on one side. -/
def side (support : Bool) (n : Nat) (t : History own P) : Int :=
  (((ballots n t).filter (·.support = support)).map (·.weight)).sum

def Action.finalizes (n : Nat) : Action own P → Bool
  | .call _ (.finalizeProposal m) => m = n
  | _ => false

theorem ballots_cons_none {e : Event (World P) (Action own P) Output} (h : ballot n e = none)
    (t : History own P) : ballots n (e :: t) = ballots n t := by
  rw [ballots, List.filterMap_cons_none h]
  rfl

theorem ballot_other {e : Event (World P) (Action own P) Output}
    (h : e.input.concerns n = false) : ballot n e = none ∧ e.input.finalizes n = false := by
  obtain ⟨pre, i, o, post⟩ := e
  cases i with
  | traffic p => exact ⟨rfl, rfl⟩
  | call env c =>
    cases c with
    | vote voter m support => exact ⟨if_neg (of_decide_eq_false h), rfl⟩
    | finalizeProposal m => exact ⟨rfl, h⟩
    | _ => exact ⟨rfl, rfl⟩

theorem counted_cast (h : getProposal s n = some q)
    (h' : getProposal s' n = some (q.cast support x)) : counted s' n - counted s n = x := by
  rw [counted, counted, h, h']
  cases support with
  | true =>
    simp only [Proposal.cast, if_true]
    omega
  | false =>
    simp only [Proposal.cast, Bool.false_eq_true, if_false]
    omega

/-- The proposal against the votes since it was created, which left the state `S`. -/
structure Tallied (S : State) (n : Nat) (t : History own P) (s : State) : Prop where
  stored : ∃ q, getProposal s n = some q ∧ q.votesFor = side true n t ∧
    q.votesAgainst = side false n t ∧
    (∀ q₀, getProposal S n = some q₀ → q.snapshottedTotalStaked = q₀.snapshottedTotalStaked) ∧
    ∀ f ∈ t, f.input.finalizes n = true → q.status ≠ .active ∧ f.output = .status (verdict q)
  snapshot : ∀ u, getSnapshotStakeFor s n u = getSnapshotStakeFor S n u
  voted : ∀ u, s.voted.has (n, u) = true ↔ u ∈ voters n t
  once : (voters n t).Nodup
  weight : ∀ b ∈ ballots n t, b.weight = getSnapshotStakeFor S n b.voter

theorem verdict_ne_active (q : Proposal) : verdict q ≠ .active := by
  unfold verdict
  split
  · decide
  · split
    · decide
    · decide

theorem Tallied.carry {e : Event (World P) (Action own P) Output} (h : Tallied S n t s)
    (hb : ballot n e = none) (hq : getProposal s n = some q)
    (hq' : getProposal s' n = some { q with status })
    (hsnap : ∀ u, getSnapshotStakeFor s' n u = getSnapshotStakeFor s n u)
    (hvoted : ∀ u, s'.voted.has (n, u) = s.voted.has (n, u))
    (hf : e.input.finalizes n = true → status = verdict q ∧ e.output = .status (verdict q))
    (hs : q.status = .active ∨ status ≠ .active) : Tallied S n (e :: t) s' := by
  obtain ⟨q', hget, hfor, hagainst, htotal, hfin⟩ := h.stored
  cases hq.symm.trans hget
  have hballots := ballots_cons_none hb t
  constructor
  · refine ⟨{ q with status }, hq', ?_, ?_, htotal, ?_⟩
    · rw [side, hballots]
      exact hfor
    · rw [side, hballots]
      exact hagainst
    · intro f hmem hf'
      rcases List.mem_cons.mp hmem with rfl | hmem
      · obtain ⟨hstatus, hout⟩ := hf hf'
        exact ⟨fun he => verdict_ne_active q (hstatus ▸ he), hout⟩
      · obtain ⟨hn, hout⟩ := hfin f hmem hf'
        exact ⟨hs.resolve_left hn, hout⟩
  · exact fun u => (hsnap u).trans (h.snapshot u)
  · intro u
    rw [hvoted u, voters, hballots]
    exact h.voted u
  · rw [voters, hballots]
    exact h.once
  · rw [hballots]
    exact h.weight

theorem Tallied.resolved {e : Event (World P) (Action own P) Output} (h : Tallied S n t s)
    (hq : getProposal s n = some q) (hb : ballot n e = none)
    (hf : e.input.finalizes n = true → status = verdict q ∧ e.output = .status (verdict q))
    (hs : q.status = .active ∨ status ≠ .active) :
    Tallied S n (e :: t) (resolve n q status s) :=
  h.carry hb hq (Store.get_set_self _ _ _) (fun _ => rfl) (fun _ => rfl) hf hs

theorem side_cons {e : Event (World P) (Action own P) Output} (h : ballot n e = some b)
    (support : Bool) (t : History own P) :
    side support n (e :: t) = (if b.support = support then b.weight else 0) + side support n t := by
  rw [side, ballots, List.filterMap_cons_some h, List.filter_cons]
  split
  · rename_i hs
    rw [if_pos (of_decide_eq_true hs)]
    exact List.sum_cons
  · rename_i hs
    rw [if_neg fun he => hs (decide_eq_true he), zero_add]
    rfl

theorem Casts.proposal (h : Casts now voter n support q s s') :
    getProposal s' n = some (q.cast support (getSnapshotStakeFor s n voter)) := by
  rw [h.written]
  exact Store.get_set_self _ _ _

theorem Casts.ballot_eq {e : Event (World P) (Action own P) Output}
    (h : Casts now voter n support q e.pre.gov e.post.gov)
    (hi : e.input = .call env (.vote voter n support)) :
    ballot n e = some ⟨voter, support, getSnapshotStakeFor e.pre.gov n voter⟩ := by
  rw [ballot, hi, ← counted_cast h.stored h.proposal]
  exact if_pos rfl

theorem Casts.voted_iff (h : Casts now voter n support q s s') (u : Address) :
    s'.voted.has (n, u) = true ↔ u = voter ∨ s.voted.has (n, u) = true := by
  rw [h.written]
  by_cases hu : u = voter
  · subst hu
    rw [Store.has, Store.get_set_self]
    exact ⟨fun _ => .inl rfl, fun _ => rfl⟩
  · rw [Store.has_set_of_ne _ _ fun he => hu (Prod.mk.inj he).2]
    exact ⟨.inr, fun hx => hx.resolve_left hu⟩

/-- A vote is counted on its side, and the voter cannot vote again. -/
theorem Tallied.vote {e : Event (World P) (Action own P) Output} (h : Tallied S n t e.pre.gov)
    (hv : Casts now voter n support q e.pre.gov e.post.gov)
    (hi : e.input = .call env (.vote voter n support)) : Tallied S n (e :: t) e.post.gov := by
  obtain ⟨q', hq', hfor, hagainst, htotal, hfin⟩ := h.stored
  cases hv.stored.symm.trans hq'
  have hb := hv.ballot_eq hi
  have hballots : ballots n (e :: t) =
      ⟨voter, support, getSnapshotStakeFor e.pre.gov n voter⟩ :: ballots n t :=
    List.filterMap_cons_some hb
  constructor
  · refine ⟨_, hv.proposal, ?_, ?_, ?_, ?_⟩
    · rw [side_cons hb, ← hfor]
      cases support with
      | true => exact add_comm _ _
      | false => exact (zero_add _).symm
    · rw [side_cons hb, ← hagainst]
      cases support with
      | true => exact (zero_add _).symm
      | false => exact add_comm _ _
    · intro q₀ hq₀
      rw [← htotal q₀ hq₀]
      cases support with
      | true => rfl
      | false => rfl
    · intro f hmem hf
      rcases List.mem_cons.mp hmem with rfl | hmem
      · rw [hi] at hf
        cases hf
      · exact absurd hv.active (hfin f hmem hf).1
  · intro u
    rw [hv.written]
    exact h.snapshot u
  · intro u
    rw [hv.voted_iff, voters, hballots, List.map_cons, List.mem_cons, ← voters, h.voted u]
  · rw [voters, hballots]
    refine List.nodup_cons.mpr ⟨?_, h.once⟩
    intro hmem
    exact Bool.false_ne_true (hv.first.symm.trans ((h.voted voter).mpr hmem))
  · rw [hballots]
    intro b hb'
    rcases List.mem_cons.mp hb' with rfl | hb'
    · exact h.snapshot voter
    · exact h.weight b hb'

theorem Tallied.step {e : Event (World P) (Action own P) Output} (h : Tallied S n t e.pre.gov)
    (ha : At n e.pre.gov e.post.gov e.input e.output) : Tallied S n (e :: t) e.post.gov := by
  obtain ⟨pre, i, o, post⟩ := e
  cases ha with
  | other hp hvoted hsnap hi =>
    obtain ⟨hb, hf⟩ := ballot_other (e := ⟨pre, i, o, post⟩) hi
    obtain ⟨q, hq, _⟩ := h.stored
    exact h.carry hb hq (hp.trans hq) hsnap hvoted
      (fun hx => absurd (hf.symm.trans hx) Bool.false_ne_true) (em _)
  | vote hv => exact h.vote hv rfl
  | finalize hq hact ht hs =>
    have hw : post.gov = _ := hs
    rw [hw]
    exact h.resolved hq rfl (fun _ => ⟨rfl, rfl⟩) (.inl hact)
  | execute hq hp ht hs =>
    have hw : post.gov = _ := hs
    rw [hw]
    exact h.resolved hq rfl (fun hf => absurd hf Bool.false_ne_true) (.inr (by decide))
  | cancel hq hact ho hs =>
    have hw : post.gov = _ := hs
    rw [hw]
    exact h.resolved hq rfl (fun hf => absurd hf Bool.false_ne_true) (.inl hact)

theorem Creates.tallied (hn : Numbered s) (h : Creates net p proposer n s s')
    (hc : proposalCount s < n) : Tallied s' n ([] : History own P) s' := by
  obtain ⟨q, hq, hfor, hagainst, hact⟩ := h.proposal
  have hget : getProposal s' n = some q := by
    rw [getProposal, hq]
    exact Store.get_set_self _ _ _
  constructor
  · refine ⟨q, hget, hfor, hagainst, ?_, ?_⟩
    · intro q₀ hq₀
      cases hget.symm.trans hq₀
      rfl
    · intro f hf
      cases hf
  · exact fun u => rfl
  · intro u
    rw [h.voted, hn.voted n u hc]
    exact ⟨fun hf => absurd hf Bool.false_ne_true, fun hm => absurd hm List.not_mem_nil⟩
  · exact List.nodup_nil
  · intro b hb
    cases hb

end Shelterflex.Governance
