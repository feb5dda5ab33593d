import Shelterflex.EpochRewards.Epochs
import Shelterflex.Lib.Rounding

/-! What a seal records against what the epoch funded and its stakers earned. -/

namespace Shelterflex.EpochRewards
open Lib
set_option autoImplicit true

/-- What a call hands out to all the stake there is, in units of one part in `scale`. -/
def weight (e : Event State (Env own × Call) Output) : Int := getTotalStaked e.pre * growth e

/-- What a call hands out to one user. -/
def gain (u : Address) (e : Event State (Env own × Call) Output) : Int :=
  (ledger e.pre).share u * growth e

/-- What a user earned from the fundings of an epoch, in units of one part in `scale`. -/
def earned (n : Nat) (t : History own) (u : Address) : Int := within n (gain u) t

theorem within_nonneg {f : Event State (Env own × Call) Output → Int} {t : History own}
    (h : ∀ e ∈ t, 0 ≤ f e) (n : Nat) : 0 ≤ within n f t := by
  induction t with
  | nil => exact le_rfl
  | cons e t ih =>
    obtain ⟨he, ht⟩ := List.forall_mem_cons.mp h
    rw [within_cons]
    split
    · exact add_nonneg he (ih ht)
    · exact add_nonneg le_rfl (ih ht)

theorem within_le {f g : Event State (Env own × Call) Output → Int} {t : History own}
    (h : ∀ e ∈ t, f e ≤ c * g e) (n : Nat) : within n f t ≤ c * within n g t := by
  induction t with
  | nil => exact (mul_zero c).ge
  | cons e t ih =>
    obtain ⟨he, ht⟩ := List.forall_mem_cons.mp h
    rw [within_cons, within_cons, mul_add]
    apply add_le_add _ (ih ht)
    split
    · exact he
    · exact (mul_zero c).ge

section
variable {t : History own} (h : ∀ e ∈ t, Books e.pre ∧ Balanced e.pre ∧ 0 ≤ funds e)
include h

theorem weighted_nonneg (n : Nat) : 0 ≤ within n weight t := by
  apply within_nonneg
  intro e he
  obtain ⟨hb, ht, hf⟩ := h e he
  exact mul_nonneg (ht.total_nonneg hb) (increment_nonneg e.pre hf)

theorem weighted_le (n : Nat) : within n weight t ≤ scale * within n funds t := by
  apply within_le
  intro e he
  exact increment_weight_le e.pre (h e he).2.2

/-- What the stakers of an epoch earn together is what its fundings hand out. -/
theorem sum_earned (n : Nat) :
    (earned n t).support.Finite ∧ ∑ᶠ u, earned n t u = within n weight t := by
  induction t with
  | nil =>
    constructor
    · exact Set.finite_empty.subset fun u hu => hu rfl
    · exact finsum_zero
  | cons e t ih =>
    obtain ⟨⟨hb, htotal, _⟩, ht⟩ := List.forall_mem_cons.mp h
    obtain ⟨hfin, hsum⟩ := ih ht
    by_cases hn : getCurrentEpoch e.pre = n
    · have he : earned n (e :: t) = fun u => gain u e + earned n t u := by
        funext u
        rw [earned, within_cons, if_pos hn]
        rfl
      have hg : (fun u => gain u e).support.Finite :=
        hb.wellFormed.share_finite.subset (Function.support_mul_subset_left _ _)
      have hw : ∑ᶠ u, gain u e = weight e := by
        rw [weight, htotal, finsum_mul]
        rfl
      rw [he, within_cons, if_pos hn, finsum_add_distrib hg hfin, hw, hsum]
      exact ⟨(hg.union hfin).subset (Function.support_add _ _), rfl⟩
    · have he : earned n (e :: t) = earned n t := by
        funext u
        exact within_cons_ne hn _ _
      rw [he, within_cons_ne hn]
      exact ⟨hfin, hsum⟩

end

/-- Every seal of a run finds the stake that the fundings of its epoch found, on the average by
the growth of the index. -/
def Steady : History own → Prop
  | [] => True
  | e :: t =>
    (e.input.2.seals = true → getTotalStaked e.pre * within (getCurrentEpoch e.pre) growth t =
      within (getCurrentEpoch e.pre) weight t) ∧ Steady t

theorem totalClaimable_ok (h : totalClaimable staked index start = .ok n) :
    n = if 0 < staked then (staked * (index - start)).tdiv scale else 0 := by
  unfold totalClaimable at h
  split at h
  · rename_i hs
    simp only [bind_ok, i128Sub_ok, i128Mul_ok, i128Div_ok] at h
    obtain ⟨_, ⟨_, rfl⟩, _, ⟨_, rfl⟩, _, _, rfl⟩ := h
    rw [if_pos hs]
  · rename_i hs
    rw [if_neg hs]
    exact (pure_ok.mp h).symm

/-- What is recorded for a sealed epoch. -/
structure Sealed (n : Nat) (info : EpochInfo) (t : History own) : Prop where
  total : info.totalRewards = within n funds t
  claimable : info.totalClaimableAtSeal = within n weight t / scale
  dust : info.dust = max (info.totalRewards - info.totalClaimableAtSeal) 0

/-- The sealed epochs are over, and their records are right. -/
def Recorded (t : History own) (s : State) : Prop :=
  ∀ n info, getEpoch s n = some info → info.sealed = true →
    n < getCurrentEpoch s ∧ Sealed n info t

theorem Sealed.step {e : Event State (Env own × Call) Output} (h : Sealed n info t)
    (hf : getCurrentEpoch e.pre = n → funds e = 0) : Sealed n info (e :: t) := by
  have hw : within n weight (e :: t) = within n weight t := by
    by_cases he : getCurrentEpoch e.pre = n
    · exact within_cons_zero ((congrArg _ (growth_zero (hf he))).trans (mul_zero _)) n t
    · exact within_cons_ne he weight t
  have hs : within n funds (e :: t) = within n funds t := by
    by_cases he : getCurrentEpoch e.pre = n
    · exact within_cons_zero (hf he) n t
    · exact within_cons_ne he funds t
  exact ⟨h.total.trans hs.symm, by rw [hw, h.claimable], h.dust⟩

/-- A steady seal records the weight of the epoch's fundings. -/
theorem seal_claimable (htotal : 0 ≤ getTotalStaked s) (ha : Accounts t s)
    (ht : ∀ e ∈ t, Books e.pre ∧ Balanced e.pre ∧ 0 ≤ funds e)
    (hsteady : getTotalStaked s * within (getCurrentEpoch s) growth t =
      within (getCurrentEpoch s) weight t)
    (h : totalClaimable (getTotalStaked s) (getRewardIndex s)
      (s.epochStartIndex.getD (getCurrentEpoch s) 0) = .ok n) :
    n = within (getCurrentEpoch s) weight t / scale := by
  have hg : getRewardIndex s - s.epochStartIndex.getD (getCurrentEpoch s) 0 =
      within (getCurrentEpoch s) growth t := by
    rw [← ha.start, add_sub_cancel_left]
  have hn := weighted_nonneg ht (getCurrentEpoch s)
  rw [totalClaimable_ok h, hg, hsteady]
  split
  · exact Int.tdiv_eq_ediv_of_nonneg hn
  · rename_i hz
    have hz' : getTotalStaked s = 0 := le_antisymm (not_lt.mp hz) htotal
    rw [← hsteady, hz', zero_mul, Int.zero_ediv]

theorem Recorded.step {e : Event State (Env own × Call) Output} (h : Recorded t e.pre)
    (htotal : 0 ≤ getTotalStaked e.pre) (ha : Accounts t e.pre)
    (ht : ∀ e ∈ t, Books e.pre ∧ Balanced e.pre ∧ 0 ≤ funds e) (hsteady : Steady (e :: t))
    (hs : Spans e.pre e.post e.input.2) : Recorded (e :: t) e.post := by
  obtain ⟨cur, hcur, hopen, htot, _⟩ := ha.current
  intro n info hi hsealed
  cases hs with
  | start hs _ _ => exact absurd hs.unset ha.ready
  | quiet he _ hf _ =>
    rw [getEpoch, he.epoch] at hi
    rw [he.current]
    obtain ⟨hlt, hrec⟩ := h n info hi hsealed
    exact ⟨hlt, hrec.step fun _ => hf⟩
  | fund _ hf _ =>
    rcases hf.epochs with ⟨hn, _⟩ | ⟨epoch, dust, he, hset⟩
    · cases hcur.symm.trans hn
    cases hcur.symm.trans he
    rw [getEpoch, hset, Store.get_set] at hi
    rw [hf.current]
    split at hi
    · cases hi
      cases hopen.symm.trans hsealed
    · obtain ⟨hlt, hrec⟩ := h n info hi hsealed
      exact ⟨hlt, hrec.step fun he => absurd he hlt.ne'⟩
  | close hs hf hc =>
    obtain ⟨epoch, sealedInfo, next, he, _, hset, _, htot', hclaim, hdust, hnext, _⟩ := hs.epochs
    cases hcur.symm.trans he
    rw [getEpoch, hset, Store.get_set] at hi
    rw [hs.current]
    split at hi
    · cases hi
      cases hnext.symm.trans hsealed
    · rw [Store.get_set] at hi
      split at hi
      · rename_i _ hn
        cases hi
        subst hn
        have hw := seal_claimable htotal ha ht (hsteady.1 hc) hclaim
        have hd : info.dust = max (info.totalRewards - info.totalClaimableAtSeal) 0 := by
          rw [hdust, htot']
        have hrec : Sealed (getCurrentEpoch e.pre) info t := ⟨htot'.trans htot, hw, hd⟩
        exact ⟨Nat.lt_succ_self _, hrec.step fun _ => hf⟩
      · obtain ⟨hlt, hrec⟩ := h n info hi hsealed
        exact ⟨Nat.lt_succ_of_lt hlt, hrec.step fun _ => hf⟩

theorem Unstarted.recorded {e : Event State (Env own × Call) Output} (h : Unstarted t e.pre)
    (hs : Spans e.pre e.post e.input.2) : Recorded (e :: t) e.post := by
  intro n info hi hsealed
  cases hs with
  | start hs _ _ =>
    obtain ⟨now, duration, hset⟩ := hs.epochs
    rw [getEpoch, hset, h.epochs, Store.get_set] at hi
    split at hi
    · cases hi
      cases hsealed
    · cases hi
  | quiet he _ _ _ =>
    rw [getEpoch, he.epoch, h.epochs] at hi
    cases hi
  | fund _ hf _ => exact absurd h.unset hf.ready
  | close hs _ _ => exact absurd h.unset hs.ready

/-- The accounts of an epoch that is sealed. -/
structure Accounted (n : Nat) (info : EpochInfo) (t : History own) : Prop where
  claimable_nonneg : 0 ≤ info.totalClaimableAtSeal
  dust_nonneg : 0 ≤ info.dust
  claimable_le : info.totalClaimableAtSeal ≤ info.totalRewards
  balance : info.totalClaimableAtSeal + info.dust = info.totalRewards
  earned_le : ∑ᶠ u, earned n t u / scale ≤ info.totalClaimableAtSeal

theorem Sealed.accounted (h : Sealed n info t)
    (ht : ∀ e ∈ t, Books e.pre ∧ Balanced e.pre ∧ 0 ≤ funds e) : Accounted n info t := by
  have hle : info.totalClaimableAtSeal ≤ info.totalRewards := by
    rw [h.claimable, h.total]
    exact Int.ediv_le_of_le_mul scale_pos ((weighted_le ht n).trans (mul_comm _ _).le)
  have hn : 0 ≤ info.totalClaimableAtSeal := by
    rw [h.claimable]
    exact Int.ediv_nonneg (weighted_nonneg ht n) scale_pos.le
  have hd : info.dust = info.totalRewards - info.totalClaimableAtSeal := by
    rw [h.dust, max_eq_left (sub_nonneg.mpr hle)]
  constructor
  · exact hn
  · omega
  · exact hle
  · omega
  · obtain ⟨hfin, hsum⟩ := sum_earned ht n
    rw [h.claimable, ← hsum]
    exact finsum_ediv_le hfin scale_pos

theorem run_committed (h : (machine own).Run .fresh t s) (ht : StartsEmpty t) :
    ∀ e ∈ t, Books e.pre ∧ Balanced e.pre ∧ 0 ≤ funds e := by
  intro e he
  obtain ⟨⟨t', hr⟩, hs⟩ := h.committed he
  exact ⟨run_books hr, run_balanced h ht e he, (invoke_spans hs).funds_nonneg⟩

theorem run_recorded (h : (machine own).Run .fresh t s) (ht : StartsEmpty t)
    (hsteady : Steady t) : Recorded t s := by
  induction h with
  | start =>
    intro n info hi
    cases hi
  | commit hr hs ih =>
    obtain ⟨_, ht⟩ := List.forall_mem_cons.mp ht
    have hspan := invoke_spans hs
    rcases run_phases hr with hn | ha
    · exact hn.recorded hspan
    · have htotal := ((run_balanced_iff hr).mpr ht).total_nonneg (run_books hr)
      exact (ih ht hsteady.2).step htotal ha (run_committed hr ht) hsteady hspan
  | rollback _ _ ih => exact ih ht hsteady

/-- In a run whose `init` comes before every stake and whose seals are all steady, every sealed
epoch has its accounts right. -/
theorem seal_accounted (h : (machine own).Run .fresh t s) (ht : StartsEmpty t)
    (hsteady : Steady t) :
    ∀ n info, getEpoch s n = some info → info.sealed = true → Accounted n info t := by
  intro n info hi hsealed
  obtain ⟨_, hrec⟩ := run_recorded h ht hsteady n info hi hsealed
  exact hrec.accounted (run_committed h ht)

instance Steady.decidable : (t : History own) → Decidable (Steady t)
  | [] => isTrue trivial
  | _ :: t =>
    have := Steady.decidable t
    inferInstanceAs (Decidable (_ ∧ _))

/-- Two users move their stakes after a funding, and the total is back when the epoch is sealed. -/
def balancedMoves : List (Env ⟨0⟩ × Call) :=
  [(.signed ⟨0⟩ 0, .init ⟨1⟩ 60), (.signed ⟨0⟩ 0, .stake ⟨2⟩ 4), (.signed ⟨0⟩ 0, .stake ⟨3⟩ 5),
    (.signed ⟨0⟩ 0, .fundEpochRewards ⟨1⟩ 100), (.signed ⟨0⟩ 0, .unstake ⟨2⟩ 2),
    (.signed ⟨0⟩ 0, .stake ⟨3⟩ 2), (.signed ⟨0⟩ 60, .sealEpoch ⟨1⟩ 1 60)]

theorem seal_accounted_balanced :
    Accounted 1
      { epochNumber := 1, startTs := 0, durationSecs := 60, endTs := 60, sealTs := 60,
        sealed := true, totalRewards := 100, carriedForward := 0,
        rewardIndexAtSeal := 11111111111, dust := 1, totalClaimableAtSeal := 99 }
      ((machine ⟨0⟩).replay .fresh balancedMoves).1 :=
  seal_accounted ((machine ⟨0⟩).run_replay .fresh balancedMoves) (by decide) (by decide)
    1 _ (by decide) rfl

/-- Stake that comes after the funding is counted for it when the epoch is sealed. -/
def lateStake : List (Env ⟨0⟩ × Call) :=
  [(.signed ⟨0⟩ 0, .init ⟨1⟩ 60), (.signed ⟨0⟩ 0, .stake ⟨2⟩ 1),
    (.signed ⟨0⟩ 0, .fundEpochRewards ⟨1⟩ 100), (.signed ⟨0⟩ 0, .stake ⟨3⟩ 9),
    (.signed ⟨0⟩ 60, .sealEpoch ⟨1⟩ 1 60)]

theorem seal_overstated :
    ¬ ∀ t s, (machine ⟨0⟩).Run .fresh t s →
      ∀ n info, getEpoch s n = some info → info.sealed = true → Accounted n info t := by
  intro hall
  have hrun := (machine ⟨0⟩).run_replay .fresh lateStake
  have hget : getEpoch ((machine ⟨0⟩).replay .fresh lateStake).2 1 = some
      { epochNumber := 1, startTs := 0, durationSecs := 60, endTs := 60, sealTs := 60,
        sealed := true, totalRewards := 100, carriedForward := 0,
        rewardIndexAtSeal := 100000000000, dust := 0, totalClaimableAtSeal := 1000 } := by
    decide
  exact absurd (hall _ _ hrun 1 _ hget rfl).claimable_le (by decide)

end Shelterflex.EpochRewards
