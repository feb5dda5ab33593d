import Shelterflex.Governance.Tally
import Shelterflex.Lib.Since

/-! The status of a proposal after its voting has ended. -/

namespace Shelterflex.Governance
open Lib
set_option autoImplicit true

/-- More votes for than against, and a tenth of all the stake cast. -/
def Wins (q : Proposal) : Prop :=
  q.votesAgainst < q.votesFor ∧
    q.snapshottedTotalStaked * quorumBps ≤ (q.votesFor + q.votesAgainst) * 10000

instance : Decidable (Wins q) := inferInstanceAs (Decidable (_ ∧ _))

/-- What the tallies of a proposal make of it. -/
def rightful (q : Proposal) : ProposalStatus := if Wins q then .passed else .rejected

/-- The votes cast are a tenth of the stake rounded down, and not a tenth. -/
def AtRoundedQuorum (q : Proposal) : Prop :=
  q.votesAgainst < q.votesFor ∧ 0 < q.snapshottedTotalStaked ∧
    q.snapshottedTotalStaked % 10 ≠ 0 ∧
    q.votesFor + q.votesAgainst = q.snapshottedTotalStaked / 10

instance : Decidable (AtRoundedQuorum q) := inferInstanceAs (Decidable (_ ∧ _))

/-- The division of the code rounds toward zero, which lets one count of votes more pass. -/
theorem quorum_le_iff (total votes : Int) :
    (total * quorumBps).tdiv 10000 ≤ votes ↔ total * quorumBps ≤ votes * 10000 ∨
      (0 < total ∧ total % 10 ≠ 0 ∧ votes = total / 10) := by
  have hq : total * quorumBps = total * 1000 := rfl
  rw [hq]
  rcases le_total 0 total with hpos | hneg
  · rw [Int.tdiv_eq_ediv_of_nonneg (by omega)]
    omega
  · have hn : (total * 1000).tdiv 10000 = -((-total * 1000).tdiv 10000) := by
      rw [← Int.neg_tdiv, neg_mul, neg_neg]
    rw [hn, Int.tdiv_eq_ediv_of_nonneg (by omega)]
    omega

theorem verdict_cases (q : Proposal) : verdict q = .passed ∨ verdict q = .rejected := by
  unfold verdict
  split
  · exact .inr rfl
  · split
    · exact .inl rfl
    · exact .inr rfl

theorem verdict_ne_executed (q : Proposal) : verdict q ≠ .executed := by
  intro h
  rcases verdict_cases q with hc | hc
  · cases hc.symm.trans h
  · cases hc.symm.trans h

theorem verdict_passed_iff (q : Proposal) :
    verdict q = .passed ↔ Wins q ∨ AtRoundedQuorum q := by
  have hquorum := quorum_le_iff q.snapshottedTotalStaked (q.votesFor + q.votesAgainst)
  have hpassed : verdict q = .passed ↔ q.votesAgainst < q.votesFor ∧
      (q.snapshottedTotalStaked * quorumBps).tdiv 10000 ≤ q.votesFor + q.votesAgainst := by
    unfold verdict
    split
    · rename_i hlt
      constructor
      · intro h
        cases h
      · exact fun h => absurd h.2 (not_le.mpr hlt)
    · rename_i hge
      split
      · rename_i hmore
        exact ⟨fun _ => ⟨hmore, not_lt.mp hge⟩, fun _ => rfl⟩
      · rename_i hless
        constructor
        · intro h
          cases h
        · exact fun h => absurd h.1 hless
  rw [hpassed, hquorum, and_or_left]
  exact Iff.rfl

theorem AtRoundedQuorum.not_wins (h : AtRoundedQuorum q) : ¬ Wins q := by
  obtain ⟨_, hpos, hrem, hvotes⟩ := h
  rintro ⟨_, hmet⟩
  have hq : q.snapshottedTotalStaked * quorumBps = q.snapshottedTotalStaked * 1000 := rfl
  omega

/-- The code finds the rightful status except at the rounded quorum. -/
theorem verdict_eq_iff (q : Proposal) : verdict q = rightful q ↔ ¬ AtRoundedQuorum q := by
  by_cases hw : Wins q
  · have hv := (verdict_passed_iff q).mpr (.inl hw)
    rw [rightful, if_pos hw, hv]
    exact ⟨fun _ hr => hr.not_wins hw, fun _ => rfl⟩
  · rw [rightful, if_neg hw]
    constructor
    · intro hv hr
      have hp := (verdict_passed_iff q).mpr (.inr hr)
      cases hv.symm.trans hp
    · intro hr
      apply (verdict_cases q).resolve_left
      intro hp
      exact ((verdict_passed_iff q).mp hp).elim hw hr

/-- The status is one that the tallies allow. -/
def Decided (q : Proposal) : Prop :=
  (q.status = .passed ∨ q.status = .executed → Wins q) ∧ (q.status = .rejected → ¬ Wins q)

/-- What a call may make of a proposal when its voting has ended. -/
inductive Settles (env : Env own) (n : Nat) (q q' : Proposal) : Call → Prop where
  | kept (hs : q' = q) : Settles env n q q' c
  | finalized (ha : q.status = .active) (hs : q' = { q with status := rightful q }) :
      Settles env n q q' (.finalizeProposal n)
  | executed (hp : q.status = .passed) (ht : q.votingEndsAt + timelockSecs ≤ env.timestamp)
      (hs : q' = { q with status := .executed }) : Settles env n q q' (.executeProposal n)

def Action.executes (n : Nat) : Action own P → Bool
  | .call _ (.executeProposal m) => m = n
  | _ => false

/-- The outcome of every proposal is fixed when its voting has ended. -/
structure Fixed (t : History own P) (w : World P) : Prop where
  settles : ∀ e ∈ t, ∀ env c, e.input = .call env c →
    ∀ n q, getProposal e.pre.gov n = some q → q.votingEndsAt < env.timestamp →
      ∃ q', getProposal e.post.gov n = some q' ∧ Settles env n q q' c
  decided : ∀ n q, getProposal w.gov n = some q → Decided q
  executed : ∀ e ∈ t, ∀ n q q', getProposal e.pre.gov n = some q →
    getProposal e.post.gov n = some q' → q.status ≠ .executed → q'.status = .executed →
      q.status = .passed ∧ ∃ env, e.input = .call env (.executeProposal n) ∧
        q.votingEndsAt + timelockSecs ≤ env.timestamp
  once : ∀ n, (t.filter (·.input.executes n)).length ≤ 1

/-- No cancellation when the voting has ended, and no finalization at the rounded quorum. -/
def Regular (e : Event (World P) (Action own P) Output) : Prop :=
  match e.input with
  | .call env (.cancelProposal _ n) =>
    ∀ q, getProposal e.pre.gov n = some q → env.timestamp ≤ q.votingEndsAt
  | .call _ (.finalizeProposal n) =>
    ∀ q, getProposal e.pre.gov n = some q → ¬ AtRoundedQuorum q
  | _ => True

theorem At.settles {e : Event (World P) (Action own P) Output} (hr : Regular e)
    (h : At n e.pre.gov e.post.gov e.input e.output) (hi : e.input = .call env c)
    (hq : getProposal e.pre.gov n = some q) (ht : q.votingEndsAt < env.timestamp) :
    ∃ q', getProposal e.post.gov n = some q' ∧ Settles env n q q' c := by
  obtain ⟨pre, i, o, post⟩ := e
  cases hi
  cases h with
  | other hp _ _ _ => exact ⟨q, hp.trans hq, .kept rfl⟩
  | vote hv =>
    cases hq.symm.trans hv.stored
    exact absurd hv.inTime (not_le.mpr ht)
  | finalize hq' ha _ hs =>
    cases hq.symm.trans hq'
    have hw : post.gov = _ := hs
    have hv := (verdict_eq_iff q).mpr (hr q hq)
    refine ⟨_, ?_, .finalized ha rfl⟩
    rw [hw, hv]
    exact Store.get_set_self _ _ _
  | execute hq' hp ht' hs =>
    cases hq.symm.trans hq'
    have hw : post.gov = _ := hs
    refine ⟨_, ?_, .executed hp ht' rfl⟩
    rw [hw]
    exact Store.get_set_self _ _ _
  | cancel hq' ha ho hs => exact absurd (hr q hq) (not_le.mpr ht)

theorem Moves.starts (hn : Numbered w.gov) (hlt : proposalCount w.gov < n)
    (h : Moves net w w' i o) (hq : getProposal w'.gov n = some q) : q.status = .active := by
  have hnone := hn.proposal n hlt
  have hstored {m q'} (hq' : getProposal w.gov m = some q') : n ≠ m := fun he =>
    absurd (hn.le_count hq') (not_le.mpr (he ▸ hlt))
  cases h with
  | traffic hg =>
    rw [hg, hnone] at hq
    cases hq
  | call hc =>
    cases hc with
    | manage _ _ hk =>
      rw [getProposal, hk.proposal] at hq
      cases hq.symm.trans hnone
    | create hc =>
      obtain ⟨new, hset, _, _, hact⟩ := hc.proposal
      rw [getProposal, hset, Store.get_set] at hq
      split at hq
      · cases hq
        exact hact
      · cases hq.symm.trans hnone
    | vote hv =>
      rw [hv.written] at hq
      cases (Store.get_set_of_ne _ _ (hstored hv.stored)).symm.trans hq |>.symm.trans hnone
    | finalize hq' _ _ hs | execute hq' _ _ hs | cancel hq' _ _ hs =>
      rw [hs] at hq
      cases (Store.get_set_of_ne _ _ (hstored hq')).symm.trans hq |>.symm.trans hnone

theorem decided_of_active (h : q.status = .active ∨ q.status = .cancelled) : Decided q := by
  rcases h with h | h
  all_goals
    rw [Decided, h]
    exact ⟨fun h => (by rcases h with h | h <;> cases h), fun h => (by cases h)⟩

theorem rightful_decided (q : Proposal) : Decided { q with status := rightful q } := by
  by_cases hw : Wins q
  · have hr : rightful q = .passed := if_pos hw
    exact ⟨fun _ => hw, fun h => by cases hr.symm.trans h⟩
  · have hr : rightful q = .rejected := if_neg hw
    exact ⟨fun h => (by rcases h with h | h <;> cases hr.symm.trans h), fun _ => hw⟩

theorem At.decided {e : Event (World P) (Action own P) Output} (hr : Regular e)
    (h : At n e.pre.gov e.post.gov e.input e.output)
    (hd : ∀ q, getProposal e.pre.gov n = some q → Decided q)
    (hq : getProposal e.post.gov n = some q) : Decided q := by
  obtain ⟨pre, i, o, post⟩ := e
  have hresolve {q' status} (hw : post.gov = resolve n q' status pre.gov) :
      q = { q' with status } := by
    rw [hw] at hq
    exact (Option.some.inj ((Store.get_set_self _ _ _).symm.trans hq)).symm
  cases h with
  | other hp _ _ _ => exact hd q (hp.symm.trans hq)
  | vote hv =>
    rw [hv.written] at hq
    have he := Option.some.inj ((Store.get_set_self _ _ _).symm.trans hq)
    apply decided_of_active
    rw [← he, Proposal.cast_status]
    exact .inl hv.active
  | finalize hq' _ _ hs =>
    rw [hresolve hs, (verdict_eq_iff _).mpr (hr _ hq')]
    exact rightful_decided _
  | execute hq' hp _ hs =>
    rw [hresolve hs]
    exact ⟨fun _ => (hd _ hq').1 (.inl hp), fun h => by cases h⟩
  | cancel _ _ _ hs =>
    rw [hresolve hs]
    exact decided_of_active (.inr rfl)

theorem At.executed {e : Event (World P) (Action own P) Output}
    (h : At n e.pre.gov e.post.gov e.input e.output) (hq : getProposal e.pre.gov n = some q)
    (hq' : getProposal e.post.gov n = some q') (hne : q.status ≠ .executed)
    (hx : q'.status = .executed) :
    q.status = .passed ∧ ∃ env, e.input = .call env (.executeProposal n) ∧
      q.votingEndsAt + timelockSecs ≤ env.timestamp := by
  obtain ⟨pre, i, o, post⟩ := e
  have hresolve {q₀ status} (hw : post.gov = resolve n q₀ status pre.gov) :
      q'.status = status := by
    rw [hw] at hq'
    exact congrArg Proposal.status
      (Option.some.inj ((Store.get_set_self _ _ _).symm.trans hq')).symm
  cases h with
  | other hp _ _ _ =>
    cases hq.symm.trans (hp.symm.trans hq')
    exact absurd hx hne
  | vote hv =>
    cases hq.symm.trans hv.stored
    rw [hv.written] at hq'
    have he := Option.some.inj ((Store.get_set_self _ _ _).symm.trans hq')
    rw [← he, Proposal.cast_status] at hx
    exact absurd hx hne
  | finalize _ _ _ hs => exact absurd ((hresolve hs).symm.trans hx) (verdict_ne_executed _)
  | execute hq₀ hp ht _ =>
    cases hq.symm.trans hq₀
    exact ⟨hp, _, rfl, ht⟩
  | cancel _ _ _ hs => cases (hresolve hs).symm.trans hx

theorem At.stays {e : Event (World P) (Action own P) Output}
    (h : At n e.pre.gov e.post.gov e.input e.output) (hq : getProposal e.pre.gov n = some q)
    (hx : q.status = .executed) :
    getProposal e.post.gov n = some q ∧ e.input.executes n = false := by
  obtain ⟨pre, i, o, post⟩ := e
  cases h with
  | other hp _ _ hi =>
    refine ⟨hp.trans hq, ?_⟩
    cases i with
    | traffic p => rfl
    | call env c =>
      cases c with
      | executeProposal m => exact hi
      | _ => rfl
  | vote hv =>
    cases hq.symm.trans hv.stored
    cases hx.symm.trans hv.active
  | finalize hq' ha _ _ | cancel hq' ha _ _ =>
    cases hq.symm.trans hq'
    cases hx.symm.trans ha
  | execute hq' hp _ _ =>
    cases hq.symm.trans hq'
    cases hx.symm.trans hp

theorem Action.executes_eq {i : Action own P} (h : i.executes n = true) :
    ∃ env, i = .call env (.executeProposal n) := by
  cases i with
  | traffic p => cases h
  | call env c =>
    cases c with
    | executeProposal m => exact ⟨env, by rw [of_decide_eq_true h]⟩
    | _ => cases h

theorem Moves.execution (h : Moves net w w' i o) (hi : i.executes n = true) :
    ∃ q, getProposal w'.gov n = some q ∧ q.status = .executed := by
  obtain ⟨env, rfl⟩ := Action.executes_eq hi
  cases h with
  | call hc =>
    cases hc with
    | manage hc _ _ => cases hc
    | execute hq _ _ hs =>
      rw [hs]
      exact ⟨_, Store.get_set_self _ _ _, rfl⟩

/-- A proposal is executed at most once, and keeps the status. -/
structure Once (n : Nat) (t : History own P) (s : State) : Prop where
  le : (t.filter (·.input.executes n)).length ≤ 1
  stays : 0 < (t.filter (·.input.executes n)).length →
    ∃ q, getProposal s n = some q ∧ q.status = .executed

section
variable {net : Pools P} {own : Address}

/-- An execution needs a proposal that is not executed, and leaves it executed for good. -/
theorem execution_closes (net : Pools P) (own : Address) (p : P) (n : Nat) :
    (machine net own).Closes ⟨.fresh, p⟩ (·.input.executes n)
      fun w => ∃ q, getProposal w.gov n = some q ∧ q.status = .executed where
  stays := by
    rintro w i w' o ⟨_, hr⟩ hs ⟨q, hq, hx⟩
    have hsound := run_sound hr
    have hm := act_moves hsound.founded hs
    have hat := hm.at (hsound.numbered.le_count hq)
    exact ⟨q, (hat.stays (e := ⟨w, i, o, w'⟩) hq hx).1, hx⟩
  needs := by
    rintro w i w' o ⟨_, hr⟩ hs hi ⟨q, hq, hx⟩
    have hsound := run_sound hr
    have hm := act_moves hsound.founded hs
    have hat := hm.at (hsound.numbered.le_count hq)
    cases hi.symm.trans (hat.stays (e := ⟨w, i, o, w'⟩) hq hx).2
  sets := by
    rintro w i w' o ⟨_, hr⟩ hs hi
    exact (act_moves (run_sound hr).founded hs).execution hi

theorem run_once (h : (machine net own).Run ⟨.fresh, p⟩ t w) (n : Nat) : Once n t w.gov := by
  obtain ⟨hle, hx⟩ := h.once (execution_closes net own p n)
  rw [List.countP_eq_length_filter] at hle hx
  exact ⟨hle, fun hpos => hx hpos.ne'⟩

theorem run_decided (h : (machine net own).Run ⟨.fresh, p⟩ t w) (hreg : ∀ e ∈ t, Regular e) :
    ∀ n q, getProposal w.gov n = some q → Decided q := by
  induction h with
  | start =>
    intro n q hq
    cases hq
  | @commit t w i w' o hr hs ih =>
    intro n q hq
    obtain ⟨he, ht⟩ := List.forall_mem_cons.mp hreg
    have hsound := run_sound hr
    have hm := act_moves hsound.founded hs
    by_cases hn : n ≤ proposalCount w.gov
    · exact (hm.at hn).decided (e := ⟨w, i, o, w'⟩) he (ih ht n) hq
    · exact decided_of_active (.inl (hm.starts hsound.numbered (not_le.mp hn) hq))
  | rollback _ _ ih => exact ih hreg

theorem run_at (h : (machine net own).Run ⟨.fresh, p⟩ t w) (he : e ∈ t)
    (hq : getProposal e.pre.gov n = some q) :
    At n e.pre.gov e.post.gov e.input e.output := by
  obtain ⟨⟨_, hr⟩, hs⟩ := h.committed he
  have hsound := run_sound hr
  exact (act_moves hsound.founded hs).at (hsound.numbered.le_count hq)

theorem Fixed.regular (h : (machine net own).Run ⟨.fresh, p⟩ t w) (hf : Fixed t w) (he : e ∈ t) :
    Regular e := by
  obtain ⟨⟨pre, i, o, post⟩, rfl⟩ : ∃ e', e' = e := ⟨e, rfl⟩
  cases i with
  | traffic p => trivial
  | call env c =>
    cases c with
    | cancelProposal proposer n =>
      intro q hq
      by_contra ht
      obtain ⟨q', hq', hset⟩ := hf.settles _ he env _ rfl n q hq (not_le.mp ht)
      cases hset with
      | kept hs =>
        have ha := run_at h he hq
        cases ha with
        | other _ _ _ hi => cases (decide_eq_true rfl).symm.trans hi
        | cancel hq₀ hact _ hw =>
          cases hq.symm.trans hq₀
          have hw : post.gov = _ := hw
          rw [hw] at hq'
          cases (Store.get_set_self _ _ _).symm.trans hq'
          cases hact.symm.trans (congrArg Proposal.status hs).symm
    | finalizeProposal n =>
      intro q hq
      have ha := run_at h he hq
      cases ha with
      | other _ _ _ hi => cases (decide_eq_true rfl).symm.trans hi
      | finalize hq₀ hact ht hw =>
        cases hq.symm.trans hq₀
        obtain ⟨q', hq', hset⟩ := hf.settles _ he env _ rfl n q hq ht
        have hw : post.gov = _ := hw
        rw [hw] at hq'
        cases (Store.get_set_self _ _ _).symm.trans hq'
        cases hset with
        | kept hs =>
          have hv := (congrArg Proposal.status hs).trans hact
          exact absurd hv (verdict_ne_active q)
        | finalized _ hs => exact (verdict_eq_iff q).mp (congrArg Proposal.status hs)
    | _ => trivial

/-- The outcome of a run's proposals is fixed when their voting ends exactly when no call cancels
one after that, or finalizes one at the rounded quorum. -/
theorem outcome_fixed_iff (h : (machine net own).Run ⟨.fresh, p⟩ t w) :
    Fixed t w ↔ ∀ e ∈ t, Regular e := by
  constructor
  · intro hf e he
    exact hf.regular h he
  · intro hreg
    constructor
    · intro e he env c hi n q hq ht
      exact (run_at h he hq).settles (hreg e he) hi hq ht
    · exact run_decided h hreg
    · intro e he n q q' hq hq' hne hx
      exact (run_at h he hq).executed hq hq' hne hx
    · exact fun n => (run_once h n).le

end

def noPools : Pools Unit := ⟨fun _ _ _ => none⟩

/-- A contract without a pool. -/
def ledgerOf (calls : List (Action ⟨0⟩ Unit)) : History ⟨0⟩ Unit × World Unit :=
  (machine noPools ⟨0⟩).replay ⟨.fresh, ()⟩ calls

/-- A proposal that its proposer alone votes for, with a given total stake. -/
def soleVote (total stake : Int) : List (Action ⟨0⟩ Unit) :=
  [.call (.signed ⟨0⟩ 0) (.init ⟨1⟩ total), .call (.signed ⟨0⟩ 0) (.setVoterStake ⟨1⟩ ⟨2⟩ stake),
    .call (.signed ⟨0⟩ 0) (.createProposal ⟨2⟩ "fee" 1 2),
    .call (.signed ⟨0⟩ 604800) (.vote ⟨2⟩ 1 true)]

def soleProposal (total stake : Int) : Proposal :=
  { id := 1, proposer := ⟨2⟩, paramKey := "fee", currentValue := 1, proposedValue := 2,
    votesFor := stake, votesAgainst := 0, status := .active, createdAt := 0,
    votingEndsAt := 604800, snapshottedTotalStaked := total }

/-- The proposal is finalized and executed in time. -/
def executedCalls : List (Action ⟨0⟩ Unit) :=
  soleVote 1000 100 ++ [.call (.signed ⟨0⟩ 604801) (.finalizeProposal 1),
    .call (.signed ⟨0⟩ 777600) (.executeProposal 1)]

theorem executedCalls_regular : ∀ e ∈ (ledgerOf executedCalls).1, Regular e := by
  have hq : getProposal (ledgerOf (soleVote 1000 100)).2.gov 1 = some (soleProposal 1000 100) := by
    decide
  have hvote : ∀ e ∈ (ledgerOf (soleVote 1000 100)).1, Regular e :=
    List.forall_mem_cons.mpr ⟨trivial, List.forall_mem_cons.mpr ⟨trivial,
      List.forall_mem_cons.mpr ⟨trivial, List.forall_mem_cons.mpr ⟨trivial,
        fun _ h => absurd h List.not_mem_nil⟩⟩⟩⟩
  refine List.forall_mem_cons.mpr ⟨trivial, List.forall_mem_cons.mpr ⟨?_, hvote⟩⟩
  intro q hq'
  cases hq.symm.trans hq'
  decide

theorem outcome_fixed_iff_executed :
    Fixed (ledgerOf executedCalls).1 (ledgerOf executedCalls).2 :=
  (outcome_fixed_iff ((machine noPools ⟨0⟩).run_replay ⟨.fresh, ()⟩ executedCalls)).mpr
    executedCalls_regular

/-- The proposer cancels when the voting has ended, with the votes to pass. -/
def cancelledLate : List (Action ⟨0⟩ Unit) :=
  soleVote 1000 100 ++ [.call (.signed ⟨0⟩ 604801) (.cancelProposal ⟨2⟩ 1)]

/-- One vote of a stake of nineteen is less than a tenth of it. -/
def roundedDown : List (Action ⟨0⟩ Unit) :=
  soleVote 19 1 ++ [.call (.signed ⟨0⟩ 604801) (.finalizeProposal 1)]

theorem outcome_not_fixed :
    ¬ Fixed (ledgerOf cancelledLate).1 (ledgerOf cancelledLate).2 ∧
      ¬ Fixed (ledgerOf roundedDown).1 (ledgerOf roundedDown).2 := by
  constructor
  · intro hf
    have hr := hf.regular ((machine noPools ⟨0⟩).run_replay ⟨.fresh, ()⟩ cancelledLate)
      List.mem_cons_self
    have hq : getProposal (ledgerOf (soleVote 1000 100)).2.gov 1 =
        some (soleProposal 1000 100) := by decide
    exact absurd (hr _ hq) (by decide)
  · intro hf
    have hr := hf.regular ((machine noPools ⟨0⟩).run_replay ⟨.fresh, ()⟩ roundedDown)
      List.mem_cons_self
    have hq : getProposal (ledgerOf (soleVote 19 1)).2.gov 1 = some (soleProposal 19 1) := by
      decide
    exact absurd (by decide) (hr _ hq)

end Shelterflex.Governance
