import Shelterflex.VestingSchedule.Payout

/-! Which schedules overflow before they end. -/

namespace Shelterflex.VestingSchedule
open Lib
set_option autoImplicit true

theorem At.valid (h : At b s s' env c o)
    (hs : ∀ schedule, getVestingSchedule s b = some schedule → Valid schedule) :
    ∀ schedule, getVestingSchedule s' b = some schedule → Valid schedule := by
  intro schedule' hget
  cases h with
  | other he _ => exact hs schedule' (he ▸ hget)
  | create _ hv _ he _ =>
    cases he.symm.trans hget
    exact hv
  | claim hold _ _ he =>
    cases he.symm.trans hget
    exact ⟨(hs _ hold).amount, (hs _ hold).duration⟩
  | revoke hold he _ =>
    cases he.symm.trans hget
    exact ⟨(hs _ hold).amount, (hs _ hold).duration⟩

theorem run_valid (h : (machine own).Run .fresh t s)
    (hs : getVestingSchedule s b = some schedule) : Valid schedule := by
  have hall := h.invariant (P := fun _ s =>
    ∀ schedule, getVestingSchedule s b = some schedule → Valid schedule) nofun
    fun hv hi => ((invoke_changes hi).at b).valid hv
  exact hall schedule hs

/-- The largest product that the linear part comes to, one second before the end, is an `i128`. -/
def PeakFits (schedule : VestingSchedule) : Prop :=
  InI128 ((schedule.endTime - 1 - schedule.startTime : ℕ) * schedule.totalAmount)

theorem PeakFits.fits (h : PeakFits schedule) (hv : Valid schedule)
    (ht : InI128 schedule.totalAmount) : Fits schedule where
  amount := ht
  product now hs he := by
    have hle : now - schedule.startTime ≤ schedule.endTime - 1 - schedule.startTime := by omega
    apply h.of_nonneg (mul_nonneg (Int.natCast_nonneg _) hv.amount.le)
    exact mul_le_mul_of_nonneg_right (Int.ofNat_le.mpr hle) hv.amount.le

/-- One second before the end the product is taken, and the host checks it. -/
theorem calculateVestedAmount_peak (hv : Valid schedule) (h : ¬ PeakFits schedule) :
    calculateVestedAmount schedule (schedule.endTime - 1) = .error (.trap .overflow) := by
  have hd := hv.duration
  have hs : ¬ schedule.endTime - 1 < schedule.startTime := by omega
  have he : ¬ schedule.endTime ≤ schedule.endTime - 1 := by omega
  have hmul : (i128Mul (schedule.endTime - 1 - schedule.startTime : ℕ) schedule.totalAmount :
      Outcome ContractError Int) = .error (.trap .overflow) := if_neg h
  rw [calculateVestedAmount, if_neg hs, if_neg he, if_neg (not_le.mpr hd)]
  dsimp only
  rw [hmul]
  rfl

/-! The calls -/

theorem requireAuth_no_overflow {env : Env own} :
    Avoids (.trap .overflow) (env.requireAuth a : Outcome ε Unit) := by
  unfold Env.requireAuth
  split <;> nofun

theorem okOr_no_trap {x : Option α} {e : ε} : Avoids (.trap t) (okOr x e) := by
  cases x <;> nofun

theorem reentrancyScope_no_trap : Avoids (.trap t) (reentrancyScope s) := by
  apply Avoids.bind
  · exact Avoids.bind require_avoids fun _ _ => avoids_pure
  · exact fun _ _ => avoids_pure

theorem claim_no_overflow {env : Env own} (h : Settled b t schedule) (hf : Fits schedule)
    (hs : getVestingSchedule s b = some schedule) : Avoids (.trap .overflow) (claim env b s) := by
  apply Avoids.bind require_avoids
  intro _ _
  apply Avoids.bind requireAuth_no_overflow
  intro _ _
  apply Avoids.bind okOr_no_trap
  intro schedule' hget
  cases hs.symm.trans (okOr_ok.mp hget)
  apply Avoids.bind require_avoids
  intro _ _
  apply Avoids.bind require_avoids
  intro _ hcliff
  have hcalc := h.claimable_eq hf env.timestamp
  rw [if_neg (not_lt.mpr (require_ok.mp hcliff))] at hcalc
  rw [bind_of_ok hcalc]
  apply Avoids.bind require_avoids
  intro _ _
  -- the claimed amount becomes what has vested
  have hsum : schedule.claimedAmount + (vested schedule env.timestamp - schedule.claimedAmount) =
      vested schedule env.timestamp := add_sub_cancel _ _
  have hin : InI128 (vested schedule env.timestamp) :=
    hf.amount.of_nonneg (h.valid.vested_nonneg _) (h.valid.vested_le _)
  rw [bind_of_ok (i128Add_ok.mpr ⟨hsum.symm ▸ hin, hsum⟩)]
  exact Avoids.bind reentrancyScope_no_trap fun _ _ => avoids_pure

theorem getClaimableAmount_no_overflow {env : Env own} (h : Settled b t schedule)
    (hf : Fits schedule) (hs : getVestingSchedule s b = some schedule) :
    Avoids (.trap .overflow) (getClaimableAmount env b s) := by
  rw [getClaimableAmount_of hs, h.claimable_eq hf]
  split <;> nofun

/-- A stored schedule can be evaluated at every time of the ledger. -/
structure NeverOverflows (own b : Address) (s : State) (schedule : VestingSchedule) : Prop where
  vested : ∀ now, Avoids (.trap .overflow) (calculateVestedAmount schedule now)
  claim : ∀ env : Env own, Avoids (.trap .overflow) (claim env b s)
  view : ∀ env : Env own, Avoids (.trap .overflow) (getClaimableAmount env b s)

/-- No call on a schedule overflows exactly if the product of its amount and the seconds before
its last one is an `i128`. -/
theorem never_overflows_iff (h : (machine own).Reachable .fresh s)
    (hs : getVestingSchedule s b = some schedule) (ht : InI128 schedule.totalAmount) :
    NeverOverflows own b s schedule ↔ PeakFits schedule := by
  obtain ⟨t, hrun⟩ := h
  have hv := run_valid hrun hs
  constructor
  · intro hn
    by_contra hpeak
    exact hn.vested _ (calculateVestedAmount_peak hv hpeak)
  · intro hpeak
    have hf := hpeak.fits hv ht
    have hset := (run_kept b hrun).settled schedule hs hf
    constructor
    · intro now
      rw [calculateVestedAmount_eq hv hf]
      exact nofun
    · exact fun _ => claim_no_overflow hset hf hs
    · exact fun _ => getClaimableAmount_no_overflow hset hf hs

theorem never_overflows_iff_twice :
    NeverOverflows ⟨0⟩ ⟨2⟩ ((machine ⟨0⟩).replay .fresh claimedTwice).2 (hundred 80) ↔
      PeakFits (hundred 80) :=
  never_overflows_iff ⟨_, (machine ⟨0⟩).run_replay .fresh claimedTwice⟩ (by decide)
    (hundred_fits 80).amount

/-- The largest `i128` over a hundred seconds. -/
def largestCalls : List (Env ⟨0⟩ × Call) :=
  [(.signed ⟨0⟩ 0, .initializeContract ⟨1⟩ ⟨9⟩),
    (.signed ⟨0⟩ 0, .createVestingSchedule ⟨1⟩ ⟨2⟩ (2 ^ 127 - 1) 0 100 10 true)]

theorem largest_overflows :
    ¬ ∀ s b schedule, (machine ⟨0⟩).Reachable .fresh s →
      getVestingSchedule s b = some schedule → InI128 schedule.totalAmount →
      NeverOverflows ⟨0⟩ b s schedule := by
  intro hall
  have hn := hall ((machine ⟨0⟩).replay .fresh largestCalls).2 ⟨2⟩
    ⟨⟨2⟩, 2 ^ 127 - 1, 0, 0, 100, 10, true, false⟩
    ⟨_, (machine ⟨0⟩).run_replay .fresh largestCalls⟩ (by decide) (by decide)
  exact hn.claim (.signed ⟨0⟩ 50) (by rfl)

end Shelterflex.VestingSchedule
