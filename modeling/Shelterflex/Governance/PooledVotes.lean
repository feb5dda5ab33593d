import Shelterflex.Governance.VoteWeight
import Shelterflex.Lib.View
import Shelterflex.StakingPool.Unstaking

/-! The contract beside a staking pool that it is linked to. -/

namespace Shelterflex.Governance
open Lib
set_option autoImplicit true

/-- The pool at an address, and what any other contract answers. -/
def pooled (T : Type) (net : Pools Q) (poolAddress : Address) :
    Pools (StakingPool.World T × Q) where
  stakedBalance p stakingPool user :=
    if stakingPool = poolAddress then some (StakingPool.getStakedBalance p.1.pool user)
    else net.stakedBalance p.2 stakingPool user

/-- What can happen next in one of the two contracts, or elsewhere. -/
inductive Joint (own poolAddress : Address) (T Q : Type) where
  | governance (env : Env own) (c : Call)
  | pool (a : StakingPool.Action poolAddress T)
  | elsewhere (q : Q)

def joint (tok : Token T) (net : Pools Q) (own poolAddress : Address) :
    Machine (World (StakingPool.World T × Q)) (Joint own poolAddress T Q) Output where
  step w
    | .governance env c => act (pooled T net poolAddress) w (.call env c)
    | .pool a => (StakingPool.act tok w.pools.1 a).map fun r => (⟨w.gov, (r.1, w.pools.2)⟩, .unit)
    | .elsewhere q => some (⟨w.gov, (w.pools.1, q)⟩, .unit)

abbrev JointStep (own poolAddress : Address) (T Q : Type) :=
  Event (World (StakingPool.World T × Q)) (Joint own poolAddress T Q) Output

/-- An action as the contract sees it: what is not its own is traffic. -/
def Joint.seen (p : StakingPool.World T × Q) :
    Joint own poolAddress T Q → Action own (StakingPool.World T × Q)
  | .governance env c => .call env c
  | .pool _ | .elsewhere _ => .traffic p

def seen (e : JointStep own poolAddress T Q) :
    Event (World (StakingPool.World T × Q)) (Action own (StakingPool.World T × Q)) Output :=
  ⟨e.pre, e.input.seen e.post.pools, e.output, e.post⟩

/-- What is on record for the votes since a proposal was created, against the pool at that time. -/
structure Backed (pool : StakingPool.State) (n : Nat) (later : History own P) (s : State) :
    Prop where
  weight : ∀ b ∈ ballots n later, 0 ≤ b.weight ∧
    b.weight ≤ StakingPool.getStakedBalance pool b.voter
  once : (voters n later).Nodup
  tallies : ∃ q, getProposal s n = some q ∧ 0 ≤ q.votesFor ∧ 0 ≤ q.votesAgainst ∧
    q.votesFor + q.votesAgainst ≤ StakingPool.getTotalStaked pool

theorem sum_sides (n : Nat) (t : History own P) :
    side true n t + side false n t = ((ballots n t).map (·.weight)).sum := by
  unfold side
  induction ballots n t with
  | nil => rfl
  | cons b l ih =>
    obtain ⟨voter, support, weight⟩ := b
    cases support with
    | true =>
      simp only [List.filter_cons, decide_true, if_true, Bool.true_eq_false, decide_false,
        Bool.false_eq_true, if_false, List.map_cons, List.sum_cons]
      omega
    | false =>
      simp only [List.filter_cons, decide_true, if_true, Bool.false_eq_true, decide_false,
        if_false, List.map_cons, List.sum_cons]
      omega

theorem side_nonneg {t : History own P} (h : ∀ b ∈ ballots n t, 0 ≤ b.weight) (support : Bool) :
    0 ≤ side support n t := by
  apply List.sum_nonneg
  intro x hx
  obtain ⟨b, hb, rfl⟩ := List.mem_map.mp hx
  exact h b (List.mem_filter.mp hb).1

section
variable {tok : Token T} {net : Pools Q} {own poolAddress : Address}

theorem joint_seen (h : (joint tok net own poolAddress).step w i = some (w', o)) :
    (machine (pooled T net poolAddress) own).step w (i.seen w'.pools) = some (w', o) := by
  cases i with
  | governance env c => exact h
  | pool a =>
    obtain ⟨r, _, hr⟩ := Option.map_eq_some_iff.mp h
    obtain ⟨rfl, rfl⟩ := Prod.mk.inj hr
    rfl
  | elsewhere q =>
    obtain ⟨rfl, rfl⟩ := Prod.mk.inj (Option.some.inj h)
    rfl

/-- The contract takes part in what happens to the two. -/
def govView (tok : Token T) (net : Pools Q) (own poolAddress : Address) :
    (joint tok net own poolAddress).View (machine (pooled T net poolAddress) own) where
  state w := w
  event e := some (seen e)
  taken := by
    intro e e' hstep he
    cases he
    exact ⟨rfl, rfl, joint_seen hstep⟩
  idle := by
    intro e _ he
    cases he

theorem govView_history (t : List (JointStep own poolAddress T Q)) :
    (govView tok net own poolAddress).history t = t.map seen :=
  List.filterMap_eq_map.symm ▸ rfl

/-- The books of the pool are in order whatever the contract does. -/
theorem joint_books {q₀ : Q} (h : (joint tok net own poolAddress).Run
      ⟨.fresh, (⟨StakingPool.initialized admin token, t₀⟩, q₀)⟩ t w) :
    StakingPool.Books w.pools.1.pool := by
  refine h.invariant (P := fun _ w => StakingPool.Books w.pools.1.pool)
    (StakingPool.initialized_books admin token) ?_
  intro t w a w' o hb he
  cases a with
  | governance env c =>
    obtain ⟨r, _, hr⟩ := Option.map_eq_some_iff.mp he
    cases hr
    exact hb
  | pool a =>
    obtain ⟨⟨p, o'⟩, hp, hr⟩ := Option.map_eq_some_iff.mp he
    cases hr
    obtain ⟨user, x, hs, _⟩ := StakingPool.act_shifts hb hp
    exact hs.books hb
  | elsewhere q =>
    cases he
    exact hb

theorem sum_weights_le {pool : StakingPool.State} (hb : StakingPool.Books pool) {l : List Ballot}
    (hl : (l.map (·.voter)).Nodup)
    (hw : ∀ b ∈ l, b.weight ≤ StakingPool.getStakedBalance pool b.voter) :
    (l.map (·.weight)).sum ≤ StakingPool.getTotalStaked pool := by
  have hf : (StakingPool.getStakedBalance pool).support.Finite :=
    pool.stakedBalance.support_finite fun u hu => by
      rw [StakingPool.getStakedBalance, Store.getD, hu]; rfl
  have hn (u : Address) : 0 ≤ StakingPool.getStakedBalance pool u := (hb.staked_bounds u).1
  calc (l.map (·.weight)).sum
      ≤ (l.map fun b => StakingPool.getStakedBalance pool b.voter).sum := List.sum_le_sum hw
    _ = ((l.map (·.voter)).map (StakingPool.getStakedBalance pool)).sum := by
      rw [List.map_map]
      rfl
    _ ≤ ∑ᶠ u, StakingPool.getStakedBalance pool u := list_sum_le_finsum hf hn hl
    _ = StakingPool.getTotalStaked pool := hb.total.symm

/-- While the contract is linked to the pool, a snapshot is what the voter has staked there, or
nothing. -/
theorem Creates.snapshot_le {p : StakingPool.World T × Q} (hn : Numbered s)
    (h : Creates (pooled T net poolAddress) p proposer n s s') (hc : proposalCount s < n)
    (hb : StakingPool.Books p.1.pool) (hlink : s.stakingPool = some poolAddress) (u : Address) :
    0 ≤ getSnapshotStakeFor s' n u ∧
      getSnapshotStakeFor s' n u ≤ StakingPool.getStakedBalance p.1.pool u := by
  have hstaked := (hb.staked_bounds u).1
  by_cases hk : Known proposer s u
  · have hs : getStakeFor (pooled T net poolAddress) p s u =
        .ok (StakingPool.getStakedBalance p.1.pool u) := by
      rw [getStakeFor, hlink]
      simp only [pooled, if_true]
      rfl
    have he := Except.ok.inj (hs.symm.trans (h.known u hk))
    exact ⟨hstaked.trans he.le, he.ge⟩
  · have hz : getSnapshotStakeFor s' n u = 0 := by
      rw [getSnapshotStakeFor, Store.getD, h.rest (n, u) (.inr hk), hn.snapshot n u hc]
      rfl
    rw [hz]
    exact ⟨le_rfl, hstaked⟩

/-- No stake is counted twice: whatever is staked, unstaked and restaked while the voting goes on,
the votes on a proposal come to at most what the pool held when the proposal was created. -/
theorem votes_backed {q₀ : Q} {c : JointStep own poolAddress T Q}
    (h : (joint tok net own poolAddress).Run
      ⟨.fresh, (⟨StakingPool.initialized admin token, t₀⟩, q₀)⟩ (later ++ c :: earlier) w)
    (hi : c.input = .governance env (.createProposal proposer paramKey currentValue proposedValue))
    (ho : c.output = .id n) (hlink : c.pre.gov.stakingPool = some poolAddress) :
    Backed c.pre.pools.1.pool n (later.map seen) w.gov := by
  have hb := joint_books h.upTo.1
  have hv := h.view (govView tok net own poolAddress)
  rw [govView_history, List.map_append, List.map_cons] at hv
  have hcreate : (seen c).input =
      .call env (.createProposal proposer paramKey currentValue proposedValue) := by
    rw [seen, hi]
    rfl
  have hc := run_creation hv hcreate ho
  obtain ⟨_, ht⟩ := run_tallied hc.after (hc.creates.tallied hc.before.numbered hc.fresh) hv.after
  have hweight : ∀ b ∈ ballots n (later.map seen), 0 ≤ b.weight ∧
      b.weight ≤ StakingPool.getStakedBalance c.pre.pools.1.pool b.voter := by
    intro b hm
    rw [ht.weight b hm]
    exact hc.creates.snapshot_le hc.before.numbered hc.fresh hb hlink b.voter
  refine ⟨hweight, ht.once, ?_⟩
  obtain ⟨q, hq, hfor, hagainst, _⟩ := ht.stored
  have hnonneg := side_nonneg fun b hm => (hweight b hm).1
  refine ⟨q, hq, hfor ▸ hnonneg true, hagainst ▸ hnonneg false, ?_⟩
  rw [hfor, hagainst, sum_sides]
  exact sum_weights_le hb ht.once fun b hm => (hweight b hm).2

end

/-- No other contract answers for anyone's stake. -/
def elsewhere : Pools Unit := ⟨fun _ _ _ => none⟩

def linkedStart : World (StakingPool.World (Address → Int) × Unit) :=
  ⟨.fresh, (StakingPool.sampleStart, ())⟩

/-- Two users stake, and the contract learns of one of them. -/
def linkedCalls : List (Joint ⟨8⟩ ⟨0⟩ (Address → Int) Unit) :=
  [.governance (.signed ⟨8⟩ 0) (.init ⟨1⟩ 100), .pool (.call (.signed ⟨0⟩ 0) (.stake ⟨2⟩ 60)),
    .pool (.call (.signed ⟨0⟩ 0) (.stake ⟨3⟩ 40)),
    .governance (.signed ⟨8⟩ 0) (.setStakingPool ⟨1⟩ ⟨0⟩),
    .governance (.signed ⟨8⟩ 0) (.setVoterStake ⟨1⟩ ⟨2⟩ 0)]

def proposeCall : Joint ⟨8⟩ ⟨0⟩ (Address → Int) Unit :=
  .governance (.signed ⟨8⟩ 0) (.createProposal ⟨3⟩ "fee" 1 2)

def linked : Machine (World (StakingPool.World (Address → Int) × Unit))
    (Joint ⟨8⟩ ⟨0⟩ (Address → Int) Unit) Output := joint plainToken elsewhere ⟨8⟩ ⟨0⟩

def proposed : JointStep ⟨8⟩ ⟨0⟩ (Address → Int) Unit where
  pre := (linked.replay linkedStart linkedCalls).2
  input := proposeCall
  output := .id 1
  post := (linked.replay linkedStart (linkedCalls ++ [proposeCall])).2

/-- A user votes, and what was staked is staked again in the name of a user who votes too. -/
def restakedVotes : List (Joint ⟨8⟩ ⟨0⟩ (Address → Int) Unit) :=
  [.governance (.signed ⟨8⟩ 1) (.vote ⟨2⟩ 1 true),
    .pool (.call (.signed ⟨0⟩ 2) (.unstake ⟨2⟩ 60)),
    .pool (.call (.signed ⟨0⟩ 2) (.stake ⟨4⟩ 60)),
    .governance (.signed ⟨8⟩ 3) (.vote ⟨4⟩ 1 true), .governance (.signed ⟨8⟩ 3) (.vote ⟨3⟩ 1 true)]

theorem run_restaked : linked.Run linkedStart ((linked.replay proposed.post restakedVotes).1 ++
    proposed :: (linked.replay linkedStart linkedCalls).1)
    (linked.replay proposed.post restakedVotes).2 := by
  have hopen : linked.Run linkedStart (proposed :: (linked.replay linkedStart linkedCalls).1)
      proposed.post := .commit (linked.run_replay linkedStart linkedCalls) rfl
  exact hopen.append (linked.run_replay proposed.post restakedVotes)

theorem votes_backed_restaked : Backed proposed.pre.pools.1.pool 1
    ((linked.replay proposed.post restakedVotes).1.map seen)
    (linked.replay proposed.post restakedVotes).2.gov :=
  votes_backed run_restaked rfl rfl rfl

end Shelterflex.Governance
