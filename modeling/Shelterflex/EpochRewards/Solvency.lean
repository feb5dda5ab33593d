import Shelterflex.EpochRewards.Epochs

/-! What was claimed and can be claimed against what was funded. -/

namespace Shelterflex.EpochRewards
open Lib
set_option autoImplicit true

/-- What `get_claimable` returns; a view that overflows returns nothing. -/
def claimableView (s : State) (u : Address) : Int := (getClaimable s u).toOption.getD 0

theorem claimableView_cases (hw : (ledger s).WellFormed) (u : Address) :
    claimableView s u = 0 ∨ claimableView s u = (ledger s).claimable scale u := by
  cases h : getClaimable s u with
  | error e =>
    left
    rw [claimableView, h]
    rfl
  | ok n =>
    right
    rw [claimableView, h]
    simp only [getClaimable, bind_ok, i128Add_ok] at h
    obtain ⟨live, hl, _, rfl⟩ := h
    rw [calcPending_claimable hw hl]
    exact add_comm _ _

theorem getClaimable_of_ledger (hs : (ledger s').share u = (ledger s).share u)
    (hi : (ledger s').snapshot u = (ledger s).snapshot u)
    (hb : (ledger s').banked u = (ledger s).banked u)
    (hx : (ledger s').index = (ledger s).index) : getClaimable s' u = getClaimable s u := by
  have hu : getUserStake s' u = getUserStake s u := by
    cases h : getUserStake s u
    cases h' : getUserStake s' u
    simp only [ledger, h, h'] at hs hi
    rw [hs, hi]
  have hx' : getRewardIndex s' = getRewardIndex s := hx
  have hb' : getUnclaimed s' u = getUnclaimed s u := hb
  rw [getClaimable, getClaimable, hu, hx', hb']

theorem Writes.getClaimable_of_ne (h : Writes user staked x s s') (hu : u ≠ user) :
    getClaimable s' u = getClaimable s u := by
  apply getClaimable_of_ledger
  all_goals rw [h.books]
  all_goals simp only [RewardIndex.write, RewardIndex.settle, RewardIndex.setShare,
    RewardIndex.withdraw, Function.update_of_ne hu]

theorem calcPending_current (staked i : Int) : calcPending ⟨staked, i⟩ i = .ok 0 := by
  unfold calcPending
  split
  · rfl
  · simp only [bind_ok, i128Sub_ok, i128Mul_ok, i128Div_ok, sub_self]
    refine ⟨0, ⟨inI128_zero, rfl⟩, 0, ⟨?_, mul_zero _⟩, scale_pos.ne', inI128_zero, rfl⟩
    rw [mul_zero]
    exact inI128_zero

theorem getClaimable_settled
    (hp : calcPending (getUserStake s u) (getRewardIndex s) = .ok pending) (hn : 0 ≤ pending)
    (hf : 0 < pending → InI128 (getUnclaimed s u + pending))
    (hs : getUserStake s' u = ⟨staked, getRewardIndex s⟩)
    (hi : getRewardIndex s' = getRewardIndex s)
    (hb : getUnclaimed s' u = getUnclaimed s u + pending) :
    getClaimable s' u = getClaimable s u := by
  have hafter : getClaimable s' u = i128Add 0 (getUnclaimed s u + pending) := by
    rw [getClaimable, hs, hi, hb, bind_of_ok (calcPending_current _ _)]
  have hbefore : getClaimable s u = i128Add pending (getUnclaimed s u) := by
    rw [getClaimable, bind_of_ok hp]
  rw [hafter, hbefore]
  rcases hn.lt_or_eq with hpos | rfl
  · have hin := hf hpos
    have hc := add_comm pending (getUnclaimed s u)
    have hz := zero_add (getUnclaimed s u + pending)
    exact (i128Add_ok.mpr ⟨hz.symm ▸ hin, hz⟩).trans (i128Add_ok.mpr ⟨hc.symm ▸ hin, hc⟩).symm
  · rw [add_zero]

theorem stake_getClaimable (hb : Books s) (h : stake env user amount s = .ok s') :
    getClaimable s' user = getClaimable s user := by
  obtain ⟨_, pending, m, hp, hf, hm, hs⟩ := stake_ok h
  have hn := calcPending_nonneg hb.wellFormed hp
  have hbank := hm hn user
  rw [if_pos rfl] at hbank
  subst hs
  exact getClaimable_settled hp hn hf (Store.getD_set_self _ _ _ _) rfl hbank

theorem unstake_getClaimable (hb : Books s) (h : unstake env user amount s = .ok s') :
    getClaimable s' user = getClaimable s user := by
  obtain ⟨_, _, pending, m, hp, hf, hm, hs⟩ := unstake_ok h
  have hn := calcPending_nonneg hb.wellFormed hp
  have hbank := hm hn user
  rw [if_pos rfl] at hbank
  subst hs
  exact getClaimable_settled hp hn hf (Store.getD_set_self _ _ _ _) rfl hbank

/-- The calls that move stakes or epochs, and no rewards. -/
def Call.movesStake : Call → Bool
  | .stake _ _ | .unstake _ _ | .sealEpoch _ _ _ => true
  | _ => false

theorem invoke_getClaimable (hb : Books s) (h : invoke env s c = some (s', o))
    (hc : c.movesStake = true) (u : Address) : getClaimable s' u = getClaimable s u := by
  have hch := invoke_changes hb h
  cases hch with
  | @stake _ user ha hw =>
    by_cases hu : u = user
    · subst hu
      obtain ⟨_, hs, he⟩ := commit_some.mp h
      cases he
      exact stake_getClaimable hb hs
    · exact hw.getClaimable_of_ne hu
  | @unstake _ user ha hle hw =>
    by_cases hu : u = user
    · subst hu
      obtain ⟨_, hs, he⟩ := commit_some.mp h
      cases he
      exact unstake_getClaimable hb hs
    · exact hw.getClaimable_of_ne hu
  | close hs =>
    apply getClaimable_of_ledger
    all_goals rw [hs.ledger]
  | start _ | claim _ | fund _ _ | setOperator _ _ _ | pause _ _ _ | unpause _ _ _ => cases hc

/-- A call adds to what is owed no more than it funds, less what it pays. -/
theorem Changes.potential_le (hb : Books s) (ht : Balanced s) (h : Changes s s' c o) :
    (ledger s').potential scale + scale * o.paid ≤
      (ledger s).potential scale + scale * c.funds := by
  have hn := hb.wellFormed.share_nonneg
  have hquiet {l : RewardIndex Address} (hl : l = ledger s) :
      l.potential scale + scale * 0 ≤ (ledger s).potential scale + scale * 0 := by
    rw [hl]
  have hwrite {user staked paid} (hs : 0 ≤ staked) (hw : Writes user staked paid s s') :
      (ledger s').potential scale + scale * paid ≤
        (ledger s).potential scale + scale * 0 := by
    have hp := RewardIndex.potential_write hb.wellFormed scale_pos user hs paid
    rw [hw.books]
    omega
  cases h with
  | start hs => exact hquiet (start_ledger hb hs)
  | stake ha hw => exact hwrite (add_nonneg (hn _) ha.le) hw
  | unstake ha hle hw => exact hwrite (sub_nonneg.mpr hle) hw
  | claim hw => exact hwrite (hn _) hw
  | fund ha hf =>
    have hle := increment_weight_le s ha.le
    rw [ht] at hle
    have hp := RewardIndex.potential_raise_le hb.wellFormed hle
    rw [hf.books]
    exact (add_zero _).le.trans hp
  | close hs => exact hquiet hs.ledger
  | setOperator hl _ _ | pause hl _ _ | unpause hl _ _ => exact hquiet hl

theorem run_potential (h : (machine own).Run .fresh t s) (ht : StartsEmpty t) :
    (ledger s).potential scale + scale * paid t ≤ scale * funded t := by
  induction h with
  | start => exact (add_zero _).trans_le finsum_zero.le
  | @commit t s i s' o hr hs ih =>
    obtain ⟨_, ht⟩ := List.forall_mem_cons.mp ht
    have hb := run_books hr
    have hp := (invoke_changes hb hs).potential_le hb ((run_balanced_iff hr).mpr ht)
    have hle := ih ht
    have hpaid : paid (⟨s, i, o, s'⟩ :: t) = o.paid + paid t := List.sum_cons
    have hfund : funded (⟨s, i, o, s'⟩ :: t) = i.2.funds + funded t := List.sum_cons
    rw [hpaid, hfund]
    linarith
  | rollback _ _ ih => exact ih ht

/-- What was claimed and can be claimed is covered by what was funded, and moving stakes or
sealing epochs moves no rewards. -/
structure Solvent (t : History own) (s : State) : Prop where
  covered : paid t + ∑ᶠ u, claimableView s u ≤ funded t
  total : getTotalStaked s = ∑ᶠ u, (getUserStake s u).amount
  kept : ∀ e ∈ t, e.input.2.movesStake = true →
    ∀ u, getClaimable e.post u = getClaimable e.pre u

/-- A run is solvent exactly when its `init` finds nothing staked. -/
theorem epochs_solvent_iff (h : (machine own).Run .fresh t s) : Solvent t s ↔ StartsEmpty t := by
  have hb := run_books h
  constructor
  · exact fun hs => (run_balanced_iff h).mp hs.total
  intro ht
  constructor
  · have hp := run_potential h ht
    have hv := hb.wellFormed.sum_view_mul_le scale_pos (claimableView_cases hb.wellFormed)
    exact le_of_mul_le_mul_left (by linarith) scale_pos
  · exact (run_balanced_iff h).mpr ht
  · intro e he hc u
    obtain ⟨⟨_, hr⟩, hs⟩ := h.committed he
    exact invoke_getClaimable (run_books hr) hs hc u

/-- A second user stakes after the funding, and the first one claims and leaves in part. -/
def claimedCalls : List (Env ⟨0⟩ × Call) :=
  [(.signed ⟨0⟩ 0, .init ⟨1⟩ 60), (.signed ⟨0⟩ 0, .stake ⟨2⟩ 4),
    (.signed ⟨0⟩ 0, .fundEpochRewards ⟨1⟩ 100), (.signed ⟨0⟩ 0, .stake ⟨3⟩ 6),
    (.signed ⟨0⟩ 60, .sealEpoch ⟨1⟩ 1 60), (.signed ⟨0⟩ 60, .fundEpochRewards ⟨1⟩ 10),
    (.signed ⟨0⟩ 60, .claim ⟨2⟩), (.signed ⟨0⟩ 60, .unstake ⟨2⟩ 1)]

def claimed : History ⟨0⟩ × State := (machine ⟨0⟩).replay .fresh claimedCalls

theorem epochs_solvent_claimed :
    paid claimed.1 = 104 ∧ (Solvent claimed.1 claimed.2 ↔ StartsEmpty claimed.1) ∧
      StartsEmpty claimed.1 :=
  ⟨by decide, epochs_solvent_iff ((machine ⟨0⟩).run_replay .fresh claimedCalls), by decide⟩

/-- The stake that comes before `init` earns, and is not in the total that the fundings are divided
by. -/
def stakedEarly : List (Env ⟨0⟩ × Call) :=
  [(.signed ⟨0⟩ 0, .stake ⟨2⟩ 10), (.signed ⟨0⟩ 0, .init ⟨1⟩ 60), (.signed ⟨0⟩ 0, .stake ⟨3⟩ 1),
    (.signed ⟨0⟩ 0, .fundEpochRewards ⟨1⟩ 100), (.signed ⟨0⟩ 60, .sealEpoch ⟨1⟩ 1 60),
    (.signed ⟨0⟩ 60, .claim ⟨2⟩), (.signed ⟨0⟩ 60, .claim ⟨3⟩)]

theorem early_stake_overpaid :
    paid ((machine ⟨0⟩).replay .fresh stakedEarly).1 = 1100 ∧
      ¬ ∀ t s, (machine ⟨0⟩).Run .fresh t s → paid t + ∑ᶠ u, claimableView s u ≤ funded t := by
  have hpaid : paid ((machine ⟨0⟩).replay .fresh stakedEarly).1 = 1100 := by decide
  refine ⟨hpaid, fun hall => ?_⟩
  have hle := hall _ _ ((machine ⟨0⟩).run_replay .fresh stakedEarly)
  have hb := run_books ((machine ⟨0⟩).run_replay .fresh stakedEarly)
  have hview : 0 ≤ ∑ᶠ u, claimableView ((machine ⟨0⟩).replay .fresh stakedEarly).2 u := by
    apply finsum_nonneg
    intro u
    rcases claimableView_cases hb.wellFormed u with hz | he
    · exact hz.ge
    · exact he ▸ hb.wellFormed.claimable_nonneg scale_pos u
  have hfunded : funded ((machine ⟨0⟩).replay .fresh stakedEarly).1 = 100 := by decide
  omega

end Shelterflex.EpochRewards
