import Shelterflex.Governance.Tally

/-! The weight of a vote against the stake when the proposal was created. -/

namespace Shelterflex.Governance
open Lib
set_option autoImplicit true

theorem Creates.weight_iff (hn : Numbered s) (h : Creates net p proposer n s s')
    (hc : proposalCount s < n) (u : Address) :
    getStakeFor net p s u = .ok (getSnapshotStakeFor s' n u) ↔
      Known proposer s u ∨ getStakeFor net p s u = .ok 0 := by
  by_cases hk : Known proposer s u
  · exact ⟨fun _ => .inl hk, fun _ => h.known u hk⟩
  · have hz : getSnapshotStakeFor s' n u = 0 := by
      rw [getSnapshotStakeFor, Store.getD, h.rest (n, u) (.inr hk), hn.snapshot n u hc]
      rfl
    rw [hz]
    exact ⟨.inr, fun hx => hx.resolve_left hk⟩

/-- The weights come from the choices alone. -/
theorem Tallied.side_eq (h : Tallied S n t s) (support : Bool) :
    side support n t = (((choices n t).filter (·.2 = support)).map
      fun c => getSnapshotStakeFor S n c.1).sum := by
  rw [side, choices, List.filter_map, List.map_map]
  congr 1
  apply List.map_congr_left
  intro b hb
  exact h.weight b (List.mem_filter.mp hb).1

theorem Tallied.side_perm (h : Tallied S n t s) (h' : Tallied S n t' s')
    (hp : (choices n t').Perm (choices n t)) (support : Bool) :
    side support n t' = side support n t := by
  rw [h.side_eq, h'.side_eq]
  exact ((hp.filter _).map _).sum_eq

section
variable {net : Pools P} {own : Address}

theorem run_tallied (hs : Sound v.gov) (h₀ : Tallied v.gov n ([] : History own P) v.gov)
    (h : (machine net own).Run v t w) : Sound w.gov ∧ Tallied v.gov n t w.gov := by
  apply h.invariant (P := fun t w => Sound w.gov ∧ Tallied v.gov n t w.gov) ⟨hs, h₀⟩
  intro t w i w' o ⟨hw, ht⟩ he
  have hm := act_moves hw.founded he
  obtain ⟨q, hq, _⟩ := ht.stored
  exact ⟨hm.sound hw, ht.step (e := ⟨w, i, o, w'⟩) (hm.at (hw.numbered.le_count hq))⟩

/-- What is known of a call that created a proposal. -/
structure Creation (net : Pools P) (proposer : Address) (n : Nat)
    (c : Event (World P) (Action own P) Output) : Prop where
  before : Sound c.pre.gov
  after : Sound c.post.gov
  fresh : proposalCount c.pre.gov < n
  creates : Creates net c.pre.pools proposer n c.pre.gov c.post.gov

theorem run_creation {c : Event (World P) (Action own P) Output}
    (h : (machine net own).Run ⟨.fresh, p⟩ (later ++ c :: earlier) w)
    (hi : c.input = .call env (.createProposal proposer paramKey currentValue proposedValue))
    (ho : c.output = .id n) : Creation net proposer n c := by
  obtain ⟨hr, hs⟩ := h.upTo
  have hsound := run_sound hr
  have hm := act_moves hsound.founded hs
  have hpost := hm.sound hsound
  rw [hi, ho] at hm
  cases hm with
  | call hc =>
    cases hc with
    | create hc => exact ⟨hsound, hpost, Nat.lt_succ_self _, hc⟩

/-- What the votes since the creation of a proposal should come to. -/
structure Weighed (net : Pools P) (c : Event (World P) (Action own P) Output) (n : Nat)
    (later : History own P) (w : World P) : Prop where
  weight : ∀ b ∈ ballots n later,
    getStakeFor net c.pre.pools c.pre.gov b.voter = .ok b.weight
  once : (voters n later).Nodup
  sums : ∃ q, getProposal w.gov n = some q ∧ q.votesFor = side true n later ∧
    q.votesAgainst = side false n later
  orderless : ∀ later' w', (machine net own).Run c.post later' w' →
    (choices n later').Perm (choices n later) →
    side true n later' = side true n later ∧ side false n later' = side false n later ∧
      ∀ f ∈ later, ∀ f' ∈ later', f.input.finalizes n = true → f'.input.finalizes n = true →
        f'.output = f.output

theorem Tallied.verdict_eq {later later' : History own P} (h : Tallied S n later s)
    (h' : Tallied S n later' s') (hS : getProposal S n = some q₀)
    (hp : (choices n later').Perm (choices n later)) (hf : f ∈ later) (hf' : f' ∈ later')
    (hx : f.input.finalizes n = true) (hx' : f'.input.finalizes n = true) :
    f'.output = f.output := by
  obtain ⟨q, _, hfor, hagainst, htotal, hfin⟩ := h.stored
  obtain ⟨q', _, hfor', hagainst', htotal', hfin'⟩ := h'.stored
  have he : verdict q' = verdict q := by
    rw [verdict, verdict, hfor, hfor', hagainst, hagainst', h.side_perm h' hp, h.side_perm h' hp,
      htotal q₀ hS, htotal' q₀ hS]
  rw [(hfin f hf hx).2, (hfin' f' hf' hx').2, he]

/-- The votes on a proposal are weighed by the stakes at its creation exactly when every voter was
known then, or had no stake. -/
theorem votes_weighed_iff {c : Event (World P) (Action own P) Output}
    (h : (machine net own).Run ⟨.fresh, p⟩ (later ++ c :: earlier) w)
    (hi : c.input = .call env (.createProposal proposer paramKey currentValue proposedValue))
    (ho : c.output = .id n) :
    Weighed net c n later w ↔ ∀ b ∈ ballots n later, Known proposer c.pre.gov b.voter ∨
      getStakeFor net c.pre.pools c.pre.gov b.voter = .ok 0 := by
  have hc := run_creation h hi ho
  have h₀ : Tallied c.post.gov n ([] : History own P) c.post.gov :=
    hc.creates.tallied hc.before.numbered hc.fresh
  obtain ⟨_, ht⟩ := run_tallied hc.after h₀ h.after
  have hiff (b) (hb : b ∈ ballots n later) :=
    ht.weight b hb ▸ hc.creates.weight_iff hc.before.numbered hc.fresh b.voter
  constructor
  · intro hw b hb
    exact (hiff b hb).mp (hw.weight b hb)
  · intro hall
    constructor
    · intro b hb
      exact (hiff b hb).mpr (hall b hb)
    · exact ht.once
    · obtain ⟨q, hq, hfor, hagainst, _⟩ := ht.stored
      exact ⟨q, hq, hfor, hagainst⟩
    · intro later' w' hr hp
      obtain ⟨_, ht'⟩ := run_tallied hc.after h₀ hr
      obtain ⟨q₀, hq₀, _⟩ := h₀.stored
      refine ⟨ht.side_perm ht' hp true, ht.side_perm ht' hp false, ?_⟩
      intro f hf f' hf' hx hx'
      exact ht.verdict_eq ht' hq₀ hp hf hf' hx hx'

end

/-- Pools that answer with a table of stakes. -/
def tablePools : Pools (Address → Int) := ⟨fun p _ u => some (p u)⟩

/-- A user stakes in the pool without being registered with the contract. -/
def pooledCalls : List (Action ⟨0⟩ (Address → Int)) :=
  [.call (.signed ⟨0⟩ 0) (.init ⟨1⟩ 1000), .call (.signed ⟨0⟩ 0) (.setVoterStake ⟨1⟩ ⟨2⟩ 0),
    .call (.signed ⟨0⟩ 0) (.setStakingPool ⟨1⟩ ⟨7⟩),
    .traffic fun u => if u = ⟨2⟩ then 60 else if u = ⟨3⟩ then 40 else if u = ⟨4⟩ then 90 else 0]

def openCall : Action ⟨0⟩ (Address → Int) :=
  .call (.signed ⟨0⟩ 0) (.createProposal ⟨3⟩ "fee" 1 2)

def openedProposal : Event (World (Address → Int)) (Action ⟨0⟩ (Address → Int)) Output where
  pre := ((machine tablePools ⟨0⟩).replay ⟨.fresh, fun _ => 0⟩ pooledCalls).2
  input := openCall
  output := .id 1
  post := ((machine tablePools ⟨0⟩).replay ⟨.fresh, fun _ => 0⟩ (pooledCalls ++ [openCall])).2

/-- What follows after the proposal is open. -/
def votingOf (calls : List (Action ⟨0⟩ (Address → Int))) :
    History ⟨0⟩ (Address → Int) × World (Address → Int) :=
  (machine tablePools ⟨0⟩).replay openedProposal.post calls

theorem run_votingOf (calls : List (Action ⟨0⟩ (Address → Int))) :
    (machine tablePools ⟨0⟩).Run ⟨.fresh, fun _ => 0⟩
      ((votingOf calls).1 ++ openedProposal ::
        ((machine tablePools ⟨0⟩).replay ⟨.fresh, fun _ => 0⟩ pooledCalls).1)
      (votingOf calls).2 := by
  have hopen : (machine tablePools ⟨0⟩).Run ⟨.fresh, fun _ => 0⟩
      (openedProposal :: ((machine tablePools ⟨0⟩).replay ⟨.fresh, fun _ => 0⟩ pooledCalls).1)
      openedProposal.post :=
    .commit ((machine tablePools ⟨0⟩).run_replay ⟨.fresh, fun _ => 0⟩ pooledCalls) rfl
  exact hopen.append ((machine tablePools ⟨0⟩).run_replay openedProposal.post calls)

/-- The proposer and the registered voter vote after the stakes have moved. -/
def knownVotes : List (Action ⟨0⟩ (Address → Int)) :=
  [.traffic fun _ => 1000, .call (.signed ⟨0⟩ 5) (.vote ⟨2⟩ 1 true),
    .call (.signed ⟨0⟩ 6) (.vote ⟨3⟩ 1 false)]

theorem votes_weighed_known :
    Weighed tablePools openedProposal 1 (votingOf knownVotes).1 (votingOf knownVotes).2 := by
  apply (votes_weighed_iff (run_votingOf knownVotes) rfl rfl).mpr
  have hknown : ∀ b ∈ ballots 1 (votingOf knownVotes).1,
      Known ⟨3⟩ openedProposal.pre.gov b.voter := by decide
  exact fun b hb => .inl (hknown b hb)

/-- The user with the largest stake is not registered. -/
def strangerVotes : List (Action ⟨0⟩ (Address → Int)) :=
  [.call (.signed ⟨0⟩ 5) (.vote ⟨4⟩ 1 true)]

theorem stranger_weightless :
    ¬ ∀ (later earlier : History ⟨0⟩ (Address → Int)) c w (env : Env ⟨0⟩) proposer paramKey x y n,
      (machine tablePools ⟨0⟩).Run ⟨.fresh, fun _ => 0⟩ (later ++ c :: earlier) w →
      c.input = .call env (.createProposal proposer paramKey x y) → c.output = .id n →
      Weighed tablePools c n later w := by
  intro hall
  have hw := hall _ _ _ _ _ _ _ _ _ _ (run_votingOf strangerVotes) rfl rfl
  have hb : (⟨⟨4⟩, true, 0⟩ : Ballot) ∈ ballots 1 (votingOf strangerVotes).1 := by decide
  cases hw.weight _ hb

end Shelterflex.Governance
