import Shelterflex.Governance.Model

/-! What a successful call does to the proposals. -/

namespace Shelterflex.Governance
open Lib
set_option autoImplicit true

/-- The voter is in the list that gets a snapshot, or joins it as the proposer. -/
def Known (proposer : Address) (s : State) (voter : Address) : Prop :=
  voter = proposer ∨ voter ∈ knownVoters s

instance : Decidable (Known proposer s voter) := inferInstanceAs (Decidable (_ ∨ _))

/-- Add a vote to the tallies. -/
def Proposal.cast (support : Bool) (weight : Int) (proposal : Proposal) : Proposal :=
  if support then { proposal with votesFor := proposal.votesFor + weight }
  else { proposal with votesAgainst := proposal.votesAgainst + weight }

theorem Proposal.cast_status (support : Bool) (weight : Int) (proposal : Proposal) :
    (proposal.cast support weight).status = proposal.status := by
  cases support with
  | true => rfl
  | false => rfl

/-- What the finalization makes of the tallies. -/
def verdict (proposal : Proposal) : ProposalStatus :=
  if proposal.votesFor + proposal.votesAgainst <
      (proposal.snapshottedTotalStaked * quorumBps).tdiv 10000 then .rejected
  else if proposal.votesAgainst < proposal.votesFor then .passed
  else .rejected

def resolve (proposalId : Nat) (proposal : Proposal) (status : ProposalStatus) (s : State) :
    State :=
  { s with proposal := s.proposal.set proposalId { proposal with status } }

/-- The proposals and the votes are left as they are. -/
structure SameProposals (s s' : State) : Prop where
  proposal : s'.proposal = s.proposal
  voted : s'.voted = s.voted
  snapshot : s'.voterSnapshot = s.voterSnapshot
  count : proposalCount s' = proposalCount s

/-- A proposal was opened, and the stake of every known voter recorded for it. -/
structure Creates (net : Pools P) (p : P) (proposer : Address) (n : Nat) (s s' : State) :
    Prop where
  admin : s'.admin = s.admin
  stake : ∃ stake, getStakeFor net p s proposer = .ok stake ∧ 0 < stake
  proposal : ∃ q : Proposal, s'.proposal = s.proposal.set n q ∧ q.votesFor = 0 ∧
    q.votesAgainst = 0 ∧ q.status = .active
  voted : s'.voted = s.voted
  count : proposalCount s' = n
  known : ∀ voter, Known proposer s voter →
    getStakeFor net p s voter = .ok (getSnapshotStakeFor s' n voter)
  rest : ∀ k : Nat × Address, k.1 ≠ n ∨ ¬ Known proposer s k.2 →
    s'.voterSnapshot.get k = s.voterSnapshot.get k

/-- A vote was counted with the weight that the snapshot gives the voter. -/
structure Casts (now : Nat) (voter : Address) (n : Nat) (support : Bool) (q : Proposal)
    (s s' : State) : Prop where
  stored : getProposal s n = some q
  active : q.status = .active
  inTime : now ≤ q.votingEndsAt
  first : s.voted.has (n, voter) = false
  written : s' = { s with
    proposal := s.proposal.set n (q.cast support (getSnapshotStakeFor s n voter))
    voted := s.voted.set (n, voter) true }

/-- The calls that have nothing to do with a proposal. -/
def Call.manages : Call → Bool
  | .init _ _ | .setTotalStaked _ _ | .setStakingPool _ _ | .setVoterStake _ _ _ => true
  | _ => false

inductive Changes (net : Pools P) (p : P) (env : Env own) (s s' : State) :
    Call → Output → Prop where
  | manage (hc : c.manages = true) (ha : s'.admin ≠ none) (hk : SameProposals s s') :
      Changes net p env s s' c .unit
  | create (hc : Creates net p proposer (proposalCount s + 1) s s') :
      Changes net p env s s' (.createProposal proposer paramKey currentValue proposedValue)
        (.id (proposalCount s + 1))
  | vote (hv : Casts env.timestamp voter n support q s s') :
      Changes net p env s s' (.vote voter n support) .unit
  | finalize (hq : getProposal s n = some q) (ha : q.status = .active)
      (ht : q.votingEndsAt < env.timestamp) (hs : s' = resolve n q (verdict q) s) :
      Changes net p env s s' (.finalizeProposal n) (.status (verdict q))
  | execute (hq : getProposal s n = some q) (hp : q.status = .passed)
      (ht : q.votingEndsAt + timelockSecs ≤ env.timestamp) (hs : s' = resolve n q .executed s) :
      Changes net p env s s' (.executeProposal n) .unit
  | cancel (hq : getProposal s n = some q) (ha : q.status = .active) (ho : q.proposer = proposer)
      (hs : s' = resolve n q .cancelled s) :
      Changes net p env s s' (.cancelProposal proposer n) .unit

theorem registerKnownVoter_writes (voter : Address) (s : State) :
    ∃ l, registerKnownVoter voter s = { s with knownVoters := l } ∧
      ∀ u, u ∈ l.getD [] ↔ u = voter ∨ u ∈ knownVoters s := by
  unfold registerKnownVoter
  split
  · rename_i h
    refine ⟨s.knownVoters, rfl, fun u => ⟨.inr, ?_⟩⟩
    intro hu
    rcases hu with rfl | hu
    · exact h
    · exact hu
  · refine ⟨_, rfl, fun u => ?_⟩
    rw [Option.getD_some, List.mem_append, List.mem_singleton, or_comm]

/-- The loop records the stake of every voter that it meets, and nothing else. -/
theorem snapshot_loop {net : Pools P} {p : P} {l : List Address}
    (h : l.foldlM (fun s voter => do
      let stake ← getStakeFor net p s voter
      return { s with voterSnapshot := s.voterSnapshot.set (n, voter) stake }) s =
        (.ok s' : Outcome ContractError State)) :
    ∃ m, s' = { s with voterSnapshot := m } ∧
      (∀ voter ∈ l, getStakeFor net p s voter = .ok (m.getD (n, voter) 0)) ∧
      ∀ k, (∀ voter ∈ l, k ≠ (n, voter)) → m.get k = s.voterSnapshot.get k := by
  induction l generalizing s with
  | nil =>
    cases pure_ok.mp h
    exact ⟨_, rfl, fun voter hv => absurd hv List.not_mem_nil, fun _ _ => rfl⟩
  | cons u l ih =>
    simp only [List.foldlM_cons, bind_ok, pure_ok] at h
    obtain ⟨_, ⟨stake, hstake, rfl⟩, h⟩ := h
    obtain ⟨m, rfl, hin, hout⟩ := ih h
    refine ⟨m, rfl, ?_, ?_⟩
    · intro voter hv
      by_cases hl : voter ∈ l
      · exact hin voter hl
      · have hu : voter = u := (List.mem_cons.mp hv).resolve_right hl
        subst hu
        have hm : m.get (n, voter) = some stake := by
          have hne : ∀ v ∈ l, (n, voter) ≠ (n, v) := fun v hv he =>
            hl ((Prod.mk.inj he).2 ▸ hv)
          exact (hout _ hne).trans (Store.get_set_self _ _ _)
        rw [hstake, Store.getD, hm]
        rfl
    · intro k hk
      obtain ⟨hu, hl⟩ := List.forall_mem_cons.mp hk
      exact (hout k hl).trans (Store.get_set_of_ne _ _ hu)

theorem createProposal_ok
    (h : createProposal env net p proposer paramKey currentValue proposedValue s = .ok (s', n)) :
    n = proposalCount s + 1 ∧ Creates net p proposer (proposalCount s + 1) s s' := by
  simp only [createProposal, bind_ok, require_ok, u64Add_ok, pure_ok, Prod.mk.injEq] at h
  obtain ⟨_, _, stake, hstake, _, hmin, n, ⟨_, rfl⟩, s₁, hloop, ends, _, rfl, rfl⟩ := h
  obtain ⟨l, hr, hl⟩ := registerKnownVoter_writes proposer s
  rw [hr, snapshotKnownVoterStakesForProposal] at hloop
  obtain ⟨m, rfl, hin, hout⟩ := snapshot_loop hloop
  refine ⟨rfl, rfl, ⟨stake, hstake, hmin⟩, ⟨_, rfl, rfl, rfl, rfl⟩, rfl, rfl, ?_, ?_⟩
  · intro voter hv
    exact hin voter ((hl voter).mpr hv)
  · intro k hk
    apply hout
    rintro voter hv rfl
    rcases hk with hk | hk
    · exact hk rfl
    · exact hk ((hl voter).mp hv)

theorem addVote_ok (h : addVote support weight q = .ok q') : q' = q.cast support weight := by
  unfold addVote at h
  split at h
  all_goals
    rename_i hs
    simp only [bind_ok, i128Add_ok, pure_ok] at h
    obtain ⟨_, ⟨_, rfl⟩, rfl⟩ := h
  · exact (if_pos hs).symm
  · exact (if_neg hs).symm

theorem vote_ok (h : vote env voter n support s = .ok s') :
    ∃ q, Casts env.timestamp voter n support q s s' := by
  simp only [vote, bind_ok, require_ok, okOr_ok, pure_ok] at h
  obtain ⟨_, _, q, hq, _, ha, _, ht, _, hf, q', hcast, rfl⟩ := h
  cases addVote_ok hcast
  exact ⟨q, hq, ha, ht, hf, rfl⟩

theorem finalizeProposal_ok (h : finalizeProposal env n s = .ok (s', status)) :
    ∃ q, getProposal s n = some q ∧ q.status = .active ∧ q.votingEndsAt < env.timestamp ∧
      status = verdict q ∧ s' = resolve n q (verdict q) s := by
  simp only [finalizeProposal, bind_ok, require_ok, okOr_ok, i128Add_ok, i128Mul_ok, i128Div_ok,
    pure_ok, Prod.mk.injEq] at h
  obtain ⟨q, hq, _, ha, _, ht, _, ⟨_, rfl⟩, _, ⟨_, rfl⟩, _, ⟨_, _, rfl⟩, rfl, rfl⟩ := h
  exact ⟨q, hq, ha, ht, rfl, rfl⟩

theorem executeProposal_ok (h : executeProposal env n s = .ok s') :
    ∃ q, getProposal s n = some q ∧ q.status = .passed ∧
      q.votingEndsAt + timelockSecs ≤ env.timestamp ∧ s' = resolve n q .executed s := by
  simp only [executeProposal, bind_ok, require_ok, okOr_ok, u64Add_ok, pure_ok] at h
  obtain ⟨q, hq, _, _, _, hp, _, ⟨_, rfl⟩, _, ht, rfl⟩ := h
  exact ⟨q, hq, hp, ht, rfl⟩

theorem cancelProposal_ok (h : cancelProposal env proposer n s = .ok s') :
    ∃ q, getProposal s n = some q ∧ q.status = .active ∧ q.proposer = proposer ∧
      s' = resolve n q .cancelled s := by
  simp only [cancelProposal, bind_ok, require_ok, okOr_ok, pure_ok] at h
  obtain ⟨_, _, q, hq, _, ha, _, ho, rfl⟩ := h
  exact ⟨q, hq, ha, ho, rfl⟩

theorem requireAdmin_ok (h : requireAdmin env caller s = .ok u) : s.admin ≠ none := by
  simp only [requireAdmin, getAdmin, bind_ok, expect_ok] at h
  obtain ⟨admin, ha, _⟩ := h
  rw [ha]
  exact Option.some_ne_none _

/-- Until there is an admin, nothing is written. -/
def Founded (s : State) : Prop := s.admin = none → s = .fresh

theorem invoke_changes (hf : Founded s) (h : invoke net p env s c = some (s', o)) :
    Changes net p env s s' c o := by
  cases c with
  | init admin totalStaked =>
    obtain ⟨_, hs, he⟩ := commit_some.mp h
    cases he
    simp only [init, bind_ok, require_ok, pure_ok] at hs
    obtain ⟨_, hn, rfl⟩ := hs
    have hc : proposalCount s = 0 := by
      rw [hf hn]
      rfl
    exact .manage rfl (Option.some_ne_none _) ⟨rfl, rfl, rfl, hc.symm⟩
  | setTotalStaked admin total =>
    obtain ⟨_, hs, he⟩ := commit_some.mp h
    cases he
    simp only [setTotalStaked, bind_ok, pure_ok] at hs
    obtain ⟨_, ha, rfl⟩ := hs
    exact .manage rfl (requireAdmin_ok ha) ⟨rfl, rfl, rfl, rfl⟩
  | setStakingPool admin stakingPool =>
    obtain ⟨_, hs, he⟩ := commit_some.mp h
    cases he
    simp only [setStakingPool, bind_ok, pure_ok] at hs
    obtain ⟨_, ha, rfl⟩ := hs
    exact .manage rfl (requireAdmin_ok ha) ⟨rfl, rfl, rfl, rfl⟩
  | setVoterStake admin voter stake =>
    obtain ⟨_, hs, he⟩ := commit_some.mp h
    cases he
    simp only [setVoterStake, bind_ok, pure_ok] at hs
    obtain ⟨_, ha, rfl⟩ := hs
    obtain ⟨l, hr, _⟩ := registerKnownVoter_writes voter
      { s with stakeBalance := s.stakeBalance.set voter stake }
    rw [hr]
    exact .manage rfl (requireAdmin_ok ha) ⟨rfl, rfl, rfl, rfl⟩
  | createProposal proposer paramKey currentValue proposedValue =>
    obtain ⟨⟨_, n⟩, hs, he⟩ := commit_some.mp h
    cases he
    obtain ⟨hn, hc⟩ := createProposal_ok hs
    rw [hn]
    exact .create hc
  | vote voter proposalId support =>
    obtain ⟨_, hs, he⟩ := commit_some.mp h
    cases he
    obtain ⟨q, hv⟩ := vote_ok hs
    exact .vote hv
  | finalizeProposal proposalId =>
    obtain ⟨⟨_, _⟩, hs, he⟩ := commit_some.mp h
    cases he
    obtain ⟨q, hq, ha, ht, hv, hw⟩ := finalizeProposal_ok hs
    rw [hv]
    exact .finalize hq ha ht hw
  | executeProposal proposalId =>
    obtain ⟨_, hs, he⟩ := commit_some.mp h
    cases he
    obtain ⟨q, hq, hp, ht, hw⟩ := executeProposal_ok hs
    exact .execute hq hp ht hw
  | cancelProposal proposer proposalId =>
    obtain ⟨_, hs, he⟩ := commit_some.mp h
    cases he
    obtain ⟨q, hq, ha, ho, hw⟩ := cancelProposal_ok hs
    exact .cancel hq ha ho hw

theorem getProposal_founded (hf : Founded s) (h : getProposal s n = some q) : s.admin ≠ none := by
  intro hn
  rw [hf hn] at h
  cases h

theorem Changes.admin (hf : Founded s) (h : Changes net p env s s' c o) : s'.admin ≠ none := by
  cases h with
  | manage _ ha _ => exact ha
  | create hc =>
    obtain ⟨stake, hstake, hpos⟩ := hc.stake
    rw [hc.admin]
    intro hn
    -- without an admin nobody has a stake
    rw [hf hn] at hstake
    cases hstake
    exact absurd hpos (lt_irrefl 0)
  | vote hv =>
    have ha := getProposal_founded hf hv.stored
    rw [hv.written]
    exact ha
  | finalize hq _ _ hs | execute hq _ _ hs | cancel hq _ _ hs =>
    have ha := getProposal_founded hf hq
    rw [hs]
    exact ha

end Shelterflex.Governance
