import Shelterflex.VestingSchedule.Model
import Shelterflex.Lib.Release

/-! What a beneficiary has claimed against what has vested. -/

namespace Shelterflex.VestingSchedule
open Lib
set_option autoImplicit true

abbrev History (own : Address) := List (Event State (Env own × Call) Output)

/-- The terms that the contract accepts. -/
structure Valid (schedule : VestingSchedule) : Prop where
  amount : 0 < schedule.totalAmount
  duration : schedule.startTime < schedule.endTime

/-- The amount is an `i128`, and so are the products of the linear part. -/
structure Fits (schedule : VestingSchedule) : Prop where
  amount : InI128 schedule.totalAmount
  product : ∀ now, schedule.startTime ≤ now → now < schedule.endTime →
    InI128 ((now - schedule.startTime : ℕ) * schedule.totalAmount)

def vested (schedule : VestingSchedule) (now : Nat) : Int :=
  released schedule.totalAmount schedule.startTime schedule.endTime now

theorem Valid.vested_nonneg (h : Valid schedule) (now : Nat) : 0 ≤ vested schedule now :=
  released_nonneg h.amount.le _ _ now

theorem Valid.vested_le (h : Valid schedule) (now : Nat) :
    vested schedule now ≤ schedule.totalAmount :=
  released_le h.amount.le _ _ now

theorem Valid.vested_mono (h : Valid schedule) (hle : now ≤ now') :
    vested schedule now ≤ vested schedule now' :=
  released_mono h.amount.le _ _ hle

theorem calculateVestedAmount_eq (hv : Valid schedule) (hf : Fits schedule) (now : Nat) :
    calculateVestedAmount schedule now = .ok (vested schedule now) := by
  have hle := hv.vested_le now
  have hn := hv.vested_nonneg now
  unfold calculateVestedAmount
  unfold vested released at hle hn ⊢
  split
  · rfl
  · rename_i hs
    rw [if_neg hs] at hle hn
    split
    · rfl
    · rename_i he
      rw [if_neg he] at hle hn
      rw [if_neg (not_le.mpr hv.duration)]
      have hproduct := hf.product now (not_lt.mp hs) (not_le.mp he)
      have hp : (0 : Int) ≤ (now - schedule.startTime : ℕ) * schedule.totalAmount :=
        mul_nonneg (Int.natCast_nonneg _) hv.amount.le
      have hd : ((schedule.endTime - schedule.startTime : ℕ) : Int) ≠ 0 := by
        have hlt := hv.duration
        omega
      simp only [bind_ok, i128Mul_ok, i128Div_ok, pure_ok]
      refine ⟨_, ⟨hproduct, rfl⟩, _, ⟨hd, ?_, rfl⟩, ?_⟩
      · rw [Int.tdiv_eq_ediv_of_nonneg hp]
        exact hf.amount.of_nonneg hn hle
      · rw [Int.tdiv_eq_ediv_of_nonneg hp]
        exact min_eq_left hle

theorem calculateClaimableAmount_eq (hv : Valid schedule) (hf : Fits schedule)
    (hn : 0 ≤ schedule.claimedAmount) (hle : schedule.claimedAmount ≤ schedule.totalAmount)
    (now : Nat) :
    calculateClaimableAmount schedule now =
      .ok (if now < schedule.cliffTime then 0
        else vested schedule now - schedule.claimedAmount) := by
  unfold calculateClaimableAmount
  split
  · rfl
  · have h₁ := hv.vested_nonneg now
    have h₂ := hv.vested_le now
    have hin : InI128 (vested schedule now - schedule.claimedAmount) := by
      obtain ⟨hlow, hhigh⟩ := hf.amount
      constructor
      · omega
      · omega
    rw [bind_of_ok (calculateVestedAmount_eq hv hf now), i128SaturatingSub_eq hin]
    rfl

/-! What a successful call writes. -/

theorem reentrancyScope_ok (h : reentrancyScope s = .ok s') :
    s.reentrancy.getD false = false ∧ s' = { s with reentrancy := exit } := by
  simp only [reentrancyScope, bind_ok, enter_ok, pure_ok] at h
  obtain ⟨_, ⟨hr, _⟩, rfl⟩ := h
  exact ⟨hr, rfl⟩

theorem claim_ok (h : claim env beneficiary s = .ok (s', n)) :
    ∃ schedule, getVestingSchedule s beneficiary = some schedule ∧
      schedule.cliffTime ≤ env.timestamp ∧
      calculateClaimableAmount schedule env.timestamp = .ok n ∧ 0 < n ∧
      s' = { setVestingSchedule beneficiary
        { schedule with claimedAmount := schedule.claimedAmount + n } s with
        reentrancy := exit } := by
  simp only [claim, bind_ok, require_ok, okOr_ok, i128Add_ok, pure_ok, Prod.mk.injEq] at h
  obtain ⟨_, _, _, _, schedule, hs, _, _, _, hc, _, hn, _, hp, _, ⟨_, rfl⟩, _, hscope, rfl, rfl⟩ :=
    h
  exact ⟨schedule, hs, hc, hn, hp, (reentrancyScope_ok hscope).2⟩

theorem revoke_ok (h : revoke env admin beneficiary s = .ok (s', n)) :
    ∃ schedule, getVestingSchedule s beneficiary = some schedule ∧
      s' = { setVestingSchedule beneficiary { schedule with revoked := true } s with
        reentrancy := exit } := by
  simp only [revoke, bind_ok, okOr_ok, pure_ok, Prod.mk.injEq] at h
  obtain ⟨_, _, schedule, hs, _, _, _, _, _, _, _, hscope, rfl, _⟩ := h
  exact ⟨schedule, hs, (reentrancyScope_ok hscope).2⟩

theorem createVestingSchedule_ok
    (h : createVestingSchedule env admin beneficiary totalAmount startTime endTime cliffTime
      revocable s = .ok s') :
    ∃ schedule, getVestingSchedule s beneficiary = none ∧ Valid schedule ∧
      schedule.claimedAmount = 0 ∧ s' = setVestingSchedule beneficiary schedule s := by
  simp only [createVestingSchedule, bind_ok, require_ok, pure_ok] at h
  obtain ⟨_, _, _, ha, _, hd, _, _, _, hn, rfl⟩ := h
  exact ⟨_, hn, ⟨ha, hd⟩, rfl, rfl⟩

inductive Changes (s s' : State) : Env own → Call → Output → Prop where
  | create (hn : getVestingSchedule s beneficiary = none) (hv : Valid schedule)
      (hz : schedule.claimedAmount = 0) (hs : s' = setVestingSchedule beneficiary schedule s) :
      Changes s s' env
        (.createVestingSchedule admin beneficiary totalAmount startTime endTime cliffTime revocable)
        .unit
  | claim (hs : getVestingSchedule s beneficiary = some schedule)
      (hcliff : schedule.cliffTime ≤ env.timestamp)
      (hn : calculateClaimableAmount schedule env.timestamp = .ok n)
      (hs' : s' = { setVestingSchedule beneficiary
        { schedule with claimedAmount := schedule.claimedAmount + n } s with
        reentrancy := exit }) : Changes s s' env (.claim beneficiary) (.amount n)
  | revoke (hs : getVestingSchedule s beneficiary = some schedule)
      (hs' : s' = { setVestingSchedule beneficiary { schedule with revoked := true } s with
        reentrancy := exit }) : Changes s s' env (.revoke admin beneficiary) (.amount n)
  | manage (hs : s'.vestingSchedule = s.vestingSchedule) (hr : s'.reentrancy = s.reentrancy)
      (hc : ∀ b, c ≠ .claim b) : Changes s s' env c .unit

theorem invoke_changes (h : invoke env s c = some (s', o)) : Changes s s' env c o := by
  cases c with
  | createVestingSchedule admin beneficiary totalAmount startTime endTime cliffTime revocable =>
    obtain ⟨_, hs, he⟩ := commit_some.mp h
    cases he
    obtain ⟨_, hn, hv, hz, hs'⟩ := createVestingSchedule_ok hs
    exact .create hn hv hz hs'
  | claim beneficiary =>
    obtain ⟨⟨_, n⟩, hs, he⟩ := commit_some.mp h
    cases he
    obtain ⟨_, hget, hcliff, hn, _, hs'⟩ := claim_ok hs
    exact .claim hget hcliff hn hs'
  | revoke admin beneficiary =>
    obtain ⟨⟨_, n⟩, hs, he⟩ := commit_some.mp h
    cases he
    obtain ⟨_, hget, hs'⟩ := revoke_ok hs
    exact .revoke hget hs'
  | initializeContract admin token =>
    obtain ⟨_, hs, he⟩ := commit_some.mp h
    cases he
    simp only [initializeContract, bind_ok, pure_ok] at hs
    obtain ⟨_, _, _, _, rfl⟩ := hs
    exact .manage rfl rfl fun _ => Call.noConfusion
  | setAdmin admin newAdmin =>
    obtain ⟨_, hs, he⟩ := commit_some.mp h
    cases he
    simp only [setAdmin, bind_ok, pure_ok] at hs
    obtain ⟨_, _, rfl⟩ := hs
    exact .manage rfl rfl fun _ => Call.noConfusion
  | pause admin =>
    obtain ⟨_, hs, he⟩ := commit_some.mp h
    cases he
    simp only [pause, bind_ok, pure_ok] at hs
    obtain ⟨_, _, rfl⟩ := hs
    exact .manage rfl rfl fun _ => Call.noConfusion
  | unpause admin =>
    obtain ⟨_, hs, he⟩ := commit_some.mp h
    cases he
    simp only [unpause, bind_ok, pure_ok] at hs
    obtain ⟨_, _, rfl⟩ := hs
    exact .manage rfl rfl fun _ => Call.noConfusion

/-- What a call does to the schedule of one beneficiary. -/
inductive At (b : Address) (s s' : State) : Env own → Call → Output → Prop where
  | other (hs : getVestingSchedule s' b = getVestingSchedule s b) (hc : c ≠ .claim b) :
      At b s s' env c o
  | create (hn : getVestingSchedule s b = none) (hv : Valid schedule)
      (hz : schedule.claimedAmount = 0) (hs : getVestingSchedule s' b = some schedule)
      (hc : c ≠ .claim b) : At b s s' env c o
  | claim (hs : getVestingSchedule s b = some schedule)
      (hcliff : schedule.cliffTime ≤ env.timestamp)
      (hn : calculateClaimableAmount schedule env.timestamp = .ok n)
      (hs' : getVestingSchedule s' b =
        some { schedule with claimedAmount := schedule.claimedAmount + n }) :
      At b s s' env (.claim b) (.amount n)
  | revoke (hs : getVestingSchedule s b = some schedule)
      (hs' : getVestingSchedule s' b = some { schedule with revoked := true })
      (hc : c ≠ .claim b) : At b s s' env c o

theorem getVestingSchedule_set (b : Address)
    (h : s'.vestingSchedule = s.vestingSchedule.set a schedule) :
    (b = a ∧ getVestingSchedule s' b = some schedule) ∨
      (b ≠ a ∧ getVestingSchedule s' b = getVestingSchedule s b) := by
  unfold getVestingSchedule
  rw [h]
  by_cases hb : b = a
  · exact .inl ⟨hb, hb ▸ Store.get_set_self _ _ _⟩
  · exact .inr ⟨hb, Store.get_set_of_ne _ _ hb⟩

theorem Changes.at (h : Changes s s' env c o) (b : Address) : At b s s' env c o := by
  cases h with
  | manage hs _ hc => exact .other (congrArg (·.get b) hs) (hc b)
  | create hn hv hz hs' =>
    rcases getVestingSchedule_set b (congrArg State.vestingSchedule hs') with
      ⟨rfl, hset⟩ | ⟨_, hset⟩
    · exact .create hn hv hz hset Call.noConfusion
    · exact .other hset Call.noConfusion
  | claim hget hcliff hn hs' =>
    rcases getVestingSchedule_set b (congrArg State.vestingSchedule hs') with
      ⟨rfl, hset⟩ | ⟨hb, hset⟩
    · exact .claim hget hcliff hn hset
    · exact .other hset fun hc => hb (Call.claim.inj hc).symm
  | revoke hget hs' =>
    rcases getVestingSchedule_set b (congrArg State.vestingSchedule hs') with
      ⟨rfl, hset⟩ | ⟨_, hset⟩
    · exact .revoke hget hset Call.noConfusion
    · exact .other hset Call.noConfusion

def Output.paid : Output → Int
  | .amount n => n
  | .unit => 0

/-- What a call pays to one beneficiary. -/
def payment (b : Address) (e : Event State (Env own × Call) Output) : Int :=
  if e.input.2 = .claim b then e.output.paid else 0

/-- All that the claims of one beneficiary have returned. -/
def claimedBy (b : Address) (t : History own) : Int := (t.map (payment b)).sum

/-- The schedule of a beneficiary against the calls of a run. -/
structure Settled (b : Address) (t : History own) (schedule : VestingSchedule) : Prop where
  valid : Valid schedule
  nonneg : 0 ≤ schedule.claimedAmount
  sum : claimedBy b t = schedule.claimedAmount
  last : schedule.claimedAmount = 0 ∨
    ∃ e ∈ t, schedule.claimedAmount = vested schedule e.input.1.timestamp
  path : ∀ e ∈ t, e.input.2 = .claim b → ∃ after, getVestingSchedule e.post b = some after ∧
    after.claimedAmount = vested schedule e.input.1.timestamp

/-- Whatever was claimed had vested by then. -/
theorem Settled.claimed_le (h : Settled b t schedule) (hnow : ∀ e ∈ t, e.input.1.timestamp ≤ now) :
    schedule.claimedAmount ≤ vested schedule now := by
  rcases h.last with hz | ⟨e, he, hc⟩
  · rw [hz]
    exact h.valid.vested_nonneg now
  · rw [hc]
    exact h.valid.vested_mono (hnow e he)

theorem Settled.claimed_le_total (h : Settled b t schedule) :
    schedule.claimedAmount ≤ schedule.totalAmount := by
  rcases h.last with hz | ⟨e, _, hc⟩
  · rw [hz]
    exact h.valid.amount.le
  · rw [hc]
    exact h.valid.vested_le _

theorem Settled.claimable_eq (h : Settled b t schedule) (hf : Fits schedule) (now : Nat) :
    calculateClaimableAmount schedule now =
      .ok (if now < schedule.cliffTime then 0
        else vested schedule now - schedule.claimedAmount) :=
  calculateClaimableAmount_eq h.valid hf h.nonneg h.claimed_le_total now

theorem claimedBy_cons {e : Event State (Env own × Call) Output} (h : e.input.2 ≠ .claim b)
    (t : History own) : claimedBy b (e :: t) = claimedBy b t := by
  rw [claimedBy, List.map_cons, List.sum_cons, payment, if_neg h, zero_add]
  rfl

theorem Settled.keep {e : Event State (Env own × Call) Output} (h : Settled b t schedule)
    (hc : e.input.2 ≠ .claim b) (revoked : Bool) :
    Settled b (e :: t) { schedule with revoked } where
  valid := ⟨h.valid.amount, h.valid.duration⟩
  nonneg := h.nonneg
  sum := (claimedBy_cons hc t).trans h.sum
  last := h.last.imp id fun ⟨e', he, hv⟩ => ⟨e', List.mem_cons_of_mem _ he, hv⟩
  path e' he hc' := by
    rcases List.mem_cons.mp he with rfl | he
    · exact absurd hc' hc
    · exact h.path e' he hc'

theorem Settled.claimed {e : Event State (Env own × Call) Output} (h : Settled b t schedule)
    (hf : Fits schedule) (hc : e.input.2 = .claim b) (ho : e.output = .amount n)
    (hcliff : schedule.cliffTime ≤ e.input.1.timestamp)
    (hn : calculateClaimableAmount schedule e.input.1.timestamp = .ok n)
    (hs : getVestingSchedule e.post b =
      some { schedule with claimedAmount := schedule.claimedAmount + n }) :
    Settled b (e :: t) { schedule with claimedAmount := schedule.claimedAmount + n } := by
  rw [h.claimable_eq hf, if_neg (not_lt.mpr hcliff)] at hn
  have hvested : schedule.claimedAmount + n = vested schedule e.input.1.timestamp := by
    rw [← Except.ok.inj hn]
    omega
  have hpay : payment b e = n := by
    rw [payment, if_pos hc, ho]
    rfl
  constructor
  · exact ⟨h.valid.amount, h.valid.duration⟩
  · exact hvested ▸ h.valid.vested_nonneg _
  · rw [claimedBy, List.map_cons, List.sum_cons, hpay, add_comm]
    exact congrArg (· + n) h.sum
  · exact .inr ⟨e, List.mem_cons_self, hvested⟩
  · intro e' he hc'
    rcases List.mem_cons.mp he with rfl | he
    · exact ⟨_, hs, hvested⟩
    · exact h.path e' he hc'

/-- What holds of one beneficiary in every run. -/
structure Kept (b : Address) (t : History own) (s : State) : Prop where
  absent : getVestingSchedule s b = none → ∀ e ∈ t, e.input.2 ≠ .claim b
  settled : ∀ schedule, getVestingSchedule s b = some schedule → Fits schedule →
    Settled b t schedule

theorem claimedBy_of_absent {t : History own} (h : ∀ e ∈ t, e.input.2 ≠ .claim b) :
    claimedBy b t = 0 := by
  induction t with
  | nil => rfl
  | cons e t ih =>
    obtain ⟨he, ht⟩ := List.forall_mem_cons.mp h
    rw [claimedBy_cons he, ih ht]

theorem Kept.step {e : Event State (Env own × Call) Output} (h : Kept b t e.pre)
    (ha : At b e.pre e.post e.input.1 e.input.2 e.output) : Kept b (e :: t) e.post := by
  obtain ⟨pre, ⟨env, c⟩, o, post⟩ := e
  cases ha with
  | other hs hc =>
    have hs : getVestingSchedule post b = getVestingSchedule pre b := hs
    constructor
    · intro hn
      exact List.forall_mem_cons.mpr ⟨hc, h.absent (hs.symm.trans hn)⟩
    · intro schedule hget hf
      exact (h.settled schedule (hs.symm.trans hget) hf).keep hc schedule.revoked
  | create hn hv hz hs hc =>
    have habsent : ∀ e ∈ ⟨pre, (env, c), o, post⟩ :: t, e.input.2 ≠ .claim b :=
      List.forall_mem_cons.mpr ⟨hc, h.absent hn⟩
    constructor
    · exact fun _ => habsent
    · intro schedule hget _
      cases hs.symm.trans hget
      constructor
      · exact hv
      · exact hz.ge
      · rw [claimedBy_of_absent habsent, hz]
      · exact .inl hz
      · exact fun e' he hc' => absurd hc' (habsent e' he)
  | claim hs hcliff hn hs' =>
    constructor
    · intro hn'
      cases hs'.symm.trans hn'
    · intro schedule hget hf
      cases hs'.symm.trans hget
      exact (h.settled _ hs ⟨hf.amount, hf.product⟩).claimed ⟨hf.amount, hf.product⟩ rfl rfl
        hcliff hn hs'
  | revoke hs hs' hc =>
    constructor
    · intro hn'
      cases hs'.symm.trans hn'
    · intro schedule hget hf
      cases hs'.symm.trans hget
      exact (h.settled _ hs ⟨hf.amount, hf.product⟩).keep hc true

theorem run_kept (b : Address) (h : (machine own).Run .fresh t s) : Kept b t s := by
  apply h.invariant (P := Kept b)
  · constructor
    · intro _ e he
      cases he
    · intro schedule hget
      cases hget
  · intro t s i s' o hk hs
    exact hk.step (e := ⟨s, i, o, s'⟩) ((invoke_changes hs).at b)

end Shelterflex.VestingSchedule
