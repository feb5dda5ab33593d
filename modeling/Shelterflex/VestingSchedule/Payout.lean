import Shelterflex.VestingSchedule.Claims

/-! What the view of the claimable amount says of the next claim. -/

namespace Shelterflex.VestingSchedule
open Lib
set_option autoImplicit true

/-- The view returns what the claim pays, and nothing where the contract rejects the claim. -/
def Pays (claimed : Outcome ContractError (State × Int)) (view : Outcome ContractError Int) :
    Prop :=
  (∃ s' n, claimed = .ok (s', n) ∧ view = .ok n) ∨
    ((∃ e, claimed = .error (.err e)) ∧ view = .ok 0)

/-- The guard is released between two calls. -/
def Unlocked (s : State) : Prop := s.reentrancy.getD false = false

theorem Changes.unlocked (hu : Unlocked s) (h : Changes s s' env c o) : Unlocked s' := by
  cases h with
  | create _ _ _ hs' =>
    subst hs'
    exact hu
  | claim _ _ _ hs' | revoke _ hs' =>
    subst hs'
    rfl
  | manage _ hr _ =>
    rw [Unlocked, hr]
    exact hu

theorem run_unlocked (h : (machine own).Run .fresh t s) : Unlocked s :=
  h.invariant (P := fun _ => Unlocked) rfl fun hu hs => (invoke_changes hs).unlocked hu

theorem getClaimableAmount_of (hs : getVestingSchedule s b = some schedule) :
    getClaimableAmount env b s =
      if schedule.revoked then .ok 0 else calculateClaimableAmount schedule env.timestamp := by
  rw [getClaimableAmount, hs]
  rfl

theorem claim_of (hp : isPaused s = false) (ha : env.authorized b = true)
    (hs : getVestingSchedule s b = some schedule) :
    claim env b s = (do
      require (schedule.revoked = false) .revoked
      require (schedule.cliffTime ≤ env.timestamp) .cliffNotReached
      let claimable ← calculateClaimableAmount schedule env.timestamp
      require (0 < claimable) .nothingToClaim
      let claimedAmount ← i128Add schedule.claimedAmount claimable
      let s ← reentrancyScope (setVestingSchedule b { schedule with claimedAmount } s)
      return (s, claimable)) := by
  rw [claim, requireNotPaused, require_bind_of hp,
    bind_of_ok (requireAuth_ok (u := ()) |>.mpr ha), hs]
  rfl

theorem Settled.pays {env : Env own} {t : History own} (h : Settled b t schedule)
    (hf : Fits schedule) (hu : Unlocked s)
    (hp : isPaused s = false) (ha : env.authorized b = true)
    (hs : getVestingSchedule s b = some schedule)
    (hnow : ∀ e ∈ t, e.input.1.timestamp ≤ env.timestamp) :
    Pays (claim env b s) (getClaimableAmount env b s) := by
  have hcalc := h.claimable_eq hf env.timestamp
  rw [claim_of hp ha hs, getClaimableAmount_of hs]
  by_cases hr : schedule.revoked = true
  · rw [if_pos hr, require_bind_of_not (by rw [hr]; decide)]
    exact .inr ⟨⟨_, rfl⟩, rfl⟩
  rw [if_neg hr, require_bind_of (Bool.eq_false_iff.mpr hr)]
  by_cases hc : env.timestamp < schedule.cliffTime
  · rw [if_pos hc] at hcalc
    rw [require_bind_of_not (not_le.mpr hc)]
    exact .inr ⟨⟨_, rfl⟩, hcalc⟩
  rw [if_neg hc] at hcalc
  rw [require_bind_of (not_lt.mp hc), bind_of_ok hcalc]
  have hle := h.claimed_le hnow
  by_cases hpos : 0 < vested schedule env.timestamp - schedule.claimedAmount
  · left
    have hsum : schedule.claimedAmount +
        (vested schedule env.timestamp - schedule.claimedAmount) =
          vested schedule env.timestamp := add_sub_cancel _ _
    have hin : InI128 (vested schedule env.timestamp) :=
      hf.amount.of_nonneg (h.valid.vested_nonneg _) (h.valid.vested_le _)
    have hadd : (i128Add schedule.claimedAmount
        (vested schedule env.timestamp - schedule.claimedAmount) : Outcome ContractError Int) =
          .ok (vested schedule env.timestamp) := i128Add_ok.mpr ⟨hsum.symm ▸ hin, hsum⟩
    rw [require_bind_of hpos, bind_of_ok hadd, reentrancyScope]
    have henter : enter (setVestingSchedule b
        { schedule with claimedAmount := vested schedule env.timestamp } s).reentrancy
          ContractError.reentrancyDetected = .ok (some true) := enter_ok.mpr ⟨hu, rfl⟩
    rw [bind_of_ok henter]
    exact ⟨_, _, rfl, hcalc⟩
  · right
    have hz : vested schedule env.timestamp - schedule.claimedAmount = 0 := by omega
    rw [require_bind_of_not hpos]
    exact ⟨⟨_, rfl⟩, hcalc.trans (congrArg _ hz)⟩

/-- The claims of a beneficiary whose schedule is stored, at a moment when no call of the run is
still to come. -/
structure Vests (own b : Address) (t : History own) (s : State) (schedule : VestingSchedule)
    (now : Nat) : Prop where
  bounded : ∃ v, calculateVestedAmount schedule now = .ok v ∧ schedule.claimedAmount ≤ v ∧
    v ≤ schedule.totalAmount
  monotone : ∀ now₁ now₂, now₁ ≤ now₂ → ∃ v₁ v₂, calculateVestedAmount schedule now₁ = .ok v₁ ∧
    calculateVestedAmount schedule now₂ = .ok v₂ ∧ v₁ ≤ v₂
  sum : claimedBy b t = schedule.claimedAmount
  path : ∀ e ∈ t, e.input.2 = .claim b → ∃ after, getVestingSchedule e.post b = some after ∧
    calculateVestedAmount schedule e.input.1.timestamp = .ok after.claimedAmount
  view : ∀ env : Env own, env.timestamp = now → env.authorized b = true → isPaused s = false →
    Pays (claim env b s) (getClaimableAmount env b s)
  paused : ∀ env : Env own, env.timestamp = now → env.authorized b = true → isPaused s = true →
    claim env b s = .error (.err .paused) ∧
      Pays (claim env b { s with paused := some false }) (getClaimableAmount env b s)

/-- Claims are bounded by what has vested and independent of the claims before. -/
theorem claims_vest (h : (machine own).Run .fresh t s)
    (hs : getVestingSchedule s b = some schedule) (hf : Fits schedule)
    (hnow : ∀ e ∈ t, e.input.1.timestamp ≤ now) : Vests own b t s schedule now := by
  have hset := (run_kept b h).settled schedule hs hf
  have hu := run_unlocked h
  have hcalc := calculateVestedAmount_eq hset.valid hf
  constructor
  · exact ⟨_, hcalc now, hset.claimed_le hnow, hset.valid.vested_le now⟩
  · intro now₁ now₂ hle
    exact ⟨_, _, hcalc now₁, hcalc now₂, hset.valid.vested_mono hle⟩
  · exact hset.sum
  · intro e he hc
    obtain ⟨after, hget, hv⟩ := hset.path e he hc
    exact ⟨after, hget, hv ▸ hcalc _⟩
  · rintro env rfl ha hp
    exact hset.pays hf hu hp ha hs hnow
  · rintro env rfl ha hp
    constructor
    · rw [claim, requireNotPaused, require_bind_of_not (by rw [hp]; decide)]
    · exact hset.pays (s := { s with paused := some false }) hf hu rfl ha hs hnow

/-- Two runs that accept one set of terms come to the same claimed amount with a claim at one
moment, whatever was claimed before. -/
theorem claims_agree (h : (machine own).Run .fresh t s) (h' : (machine own').Run .fresh t' s')
    (hs : getVestingSchedule s b = some schedule)
    (hs' : getVestingSchedule s' b' = some schedule') (hf : Fits schedule) (hf' : Fits schedule')
    (hterms : vested schedule = vested schedule') (he : e ∈ t) (he' : e' ∈ t')
    (hc : e.input.2 = .claim b) (hc' : e'.input.2 = .claim b')
    (ht : e.input.1.timestamp = e'.input.1.timestamp) :
    ∃ after after', getVestingSchedule e.post b = some after ∧
      getVestingSchedule e'.post b' = some after' ∧
      after.claimedAmount = after'.claimedAmount := by
  obtain ⟨after, hget, hv⟩ := ((run_kept b h).settled schedule hs hf).path e he hc
  obtain ⟨after', hget', hv'⟩ := ((run_kept b' h').settled schedule' hs' hf').path e' he' hc'
  refine ⟨after, after', hget, hget', ?_⟩
  rw [hv, hv', hterms, ht]

/-- A hundred units over a hundred seconds. -/
def hundred (claimedAmount : Int) : VestingSchedule :=
  { beneficiary := ⟨2⟩, totalAmount := 100, claimedAmount, startTime := 0, endTime := 100,
    cliffTime := 10, revocable := true, revoked := false }

theorem hundred_fits (claimedAmount : Int) : Fits (hundred claimedAmount) where
  amount := by
    change InI128 100
    decide
  product now h₁ h₂ := by
    have hlt : now < 100 := h₂
    change InI128 ((now - 0 : ℕ) * 100)
    constructor
    · omega
    · omega

def grantCalls : List (Env ⟨0⟩ × Call) :=
  [(.signed ⟨0⟩ 0, .initializeContract ⟨1⟩ ⟨9⟩),
    (.signed ⟨0⟩ 0, .createVestingSchedule ⟨1⟩ ⟨2⟩ 100 0 100 10 true)]

def claimedTwice : List (Env ⟨0⟩ × Call) :=
  grantCalls ++ [(.signed ⟨0⟩ 50, .claim ⟨2⟩), (.signed ⟨0⟩ 80, .claim ⟨2⟩)]

theorem claims_vest_twice :
    Vests ⟨0⟩ ⟨2⟩ ((machine ⟨0⟩).replay .fresh claimedTwice).1
      ((machine ⟨0⟩).replay .fresh claimedTwice).2 (hundred 80) 90 :=
  claims_vest ((machine ⟨0⟩).run_replay .fresh claimedTwice) (by decide) (hundred_fits 80)
    (by decide)

def pausedCalls : List (Env ⟨0⟩ × Call) := grantCalls ++ [(.signed ⟨0⟩ 50, .pause ⟨1⟩)]

theorem paused_view :
    ¬ ∀ (t : History ⟨0⟩) s b schedule (env : Env ⟨0⟩), (machine ⟨0⟩).Run .fresh t s →
      getVestingSchedule s b = some schedule → Fits schedule →
      (∀ e ∈ t, e.input.1.timestamp ≤ env.timestamp) → env.authorized b = true →
      Pays (claim env b s) (getClaimableAmount env b s) := by
  intro hall
  have hpays := hall _ _ ⟨2⟩ (hundred 0) (.signed ⟨0⟩ 50)
    ((machine ⟨0⟩).run_replay .fresh pausedCalls) (by decide) (hundred_fits 0) (by decide)
    (by decide)
  have hview : getClaimableAmount (.signed ⟨0⟩ 50) ⟨2⟩
      ((machine ⟨0⟩).replay .fresh pausedCalls).2 = .ok 50 := by rfl
  rcases hpays with ⟨_, _, hc, _⟩ | ⟨_, hv⟩
  · cases hc
  · cases hview.symm.trans hv

end Shelterflex.VestingSchedule
