import Shelterflex.TenantReputation.Model

/-! When the lazy decay of a score only ever lowers it. -/

namespace Shelterflex.TenantReputation
open Lib
set_option autoImplicit true

/-- The record of a tenant and all that its decay is computed from are the same. -/
structure SameDecay (tenant : Address) (s s' : State) : Prop where
  reputation : s'.reputation.get tenant = s.reputation.get tenant
  rate : s'.decayRatePerPeriod = s.decayRatePerPeriod
  period : s'.decayPeriodSecs = s.decayPeriodSecs
  scoreMin : s'.scoreMin = s.scoreMin

/-- A first and a second reading of a record, at times of the host. -/
structure Reported (record r₁ r₂ : ReputationRecord) : Prop where
  falls : r₂.compositeScore ≤ r₁.compositeScore
  first : r₁.compositeScore ≤ record.compositeScore
  second : r₂.compositeScore ≤ record.compositeScore

/-- Two readings of a record, at its last update or later and under one configuration. -/
def DecayLaw (own tenant : Address) (record : ReputationRecord) (s : State) : Prop :=
  ∀ (env₁ env₂ : Env own) s', SameDecay tenant s s' → record.lastUpdated ≤ env₁.timestamp →
    env₁.timestamp ≤ env₂.timestamp → env₂.timestamp < 2 ^ 64 →
      ∃ r₁ r₂, getReputation env₁ tenant s = some r₁ ∧ getReputation env₂ tenant s' = some r₂ ∧
        Reported record r₁ r₂

/-- Scores do not decay, or not before the end of the host's time, or not below the least score and
by fewer than `2 ^ 32` periods. -/
def Lowering (s : State) (record : ReputationRecord) : Prop :=
  s.decayRatePerPeriod.getD 0 = 0 ∨ s.decayPeriodSecs.getD 86400 = 0 ∨
    2 ^ 64 ≤ record.lastUpdated + s.decayPeriodSecs.getD 86400 ∨
      scoreMin s ≤ record.compositeScore ∧ (record.compositeScore = scoreMin s ∨
        2 ^ 64 ≤ record.lastUpdated + 2 ^ 32 * s.decayPeriodSecs.getD 86400)

/-- The score after some periods at a rate, not below a least score. -/
def scoreAfter (c lo rate periods : Nat) : Nat :=
  if periods = 0 then c else max (c - periods * rate) lo

theorem scoreAfter_le (hlo : lo ≤ c) (rate periods : Nat) : scoreAfter c lo rate periods ≤ c := by
  unfold scoreAfter
  split
  · exact le_rfl
  · exact max_le (Nat.sub_le _ _) hlo

theorem scoreAfter_antitone (hlo : lo ≤ c) (rate : Nat) (h : k ≤ k') :
    scoreAfter c lo rate k' ≤ scoreAfter c lo rate k := by
  rcases Nat.eq_zero_or_pos k with rfl | hk
  · exact scoreAfter_le hlo rate k'
  · rw [scoreAfter, scoreAfter, if_neg (hk.trans_le h).ne', if_neg hk.ne']
    exact max_le_max_right lo (Nat.sub_le_sub_left (Nat.mul_le_mul_right rate h) c)

theorem scoreAfter_least (c rate periods : Nat) : scoreAfter c c rate periods = c := by
  unfold scoreAfter
  split
  · rfl
  · exact max_eq_right (Nat.sub_le _ _)

theorem scoreAfter_one_ne (hrate : rate ≠ 0) (hlo : c ≠ lo) : scoreAfter c lo rate 1 ≠ c := by
  rw [scoreAfter, if_neg Nat.one_ne_zero]
  omega

/-- The periods that the contract counts at a time. -/
def periodsAt (s : State) (record : ReputationRecord) (now : Nat) : Nat :=
  (now - record.lastUpdated) / s.decayPeriodSecs.getD 86400 % 2 ^ 32

/-- The score of a record that decays, at a time. -/
def scoreAt (s : State) (record : ReputationRecord) (now : Nat) : Nat :=
  scoreAfter record.compositeScore.toNat (scoreMin s).toNat
    (s.decayRatePerPeriod.getD 0).toNat (periodsAt s record now)

theorem toNat_decayedScore (env : Env own)
    (hrate : s.decayRatePerPeriod.getD 0 ≠ 0) (hperiod : s.decayPeriodSecs.getD 86400 ≠ 0) :
    (computeDecayedScore env s record).1.toNat = scoreAt s record env.timestamp := by
  have hcut : (UInt32.ofNat ((env.timestamp - record.lastUpdated) /
      s.decayPeriodSecs.getD 86400)).toNat = periodsAt s record env.timestamp :=
    UInt32.toNat_ofNat'
  unfold computeDecayedScore scoreAt
  dsimp only
  rw [if_neg (not_or.mpr ⟨hrate, hperiod⟩)]
  split
  · rename_i hle
    rw [scoreAfter, periodsAt, Nat.sub_eq_zero_of_le hle, Nat.zero_div, Nat.zero_mod, if_pos rfl]
  · split
    · rename_i hz
      have hnone : periodsAt s record env.timestamp = 0 := by
        rw [← hcut, hz]
        rfl
      rw [scoreAfter, if_pos hnone]
    · rename_i hz
      have hne : periodsAt s record env.timestamp ≠ 0 := by
        rw [← hcut]
        exact fun h => hz (UInt32.toNat_inj.mp h)
      rw [scoreAfter, if_neg hne, toNat_max, sub_saturated, hcut]

theorem decayedScore_off (env : Env own)
    (h : s.decayRatePerPeriod.getD 0 = 0 ∨ s.decayPeriodSecs.getD 86400 = 0) :
    (computeDecayedScore env s record).1 = record.compositeScore := by
  unfold computeDecayedScore
  dsimp only
  rw [if_pos h]

theorem getReputation_some (env : Env own) (h : s.reputation.get tenant = some record) :
    getReputation env tenant s =
      some { record with compositeScore := (computeDecayedScore env s record).1 } := by
  have hdid : (computeDecayedScore env s record).2 = false →
      (computeDecayedScore env s record).1 = record.compositeScore := by
    unfold computeDecayedScore
    dsimp only
    split_ifs
    · exact fun _ => rfl
    · exact fun _ => rfl
    · exact fun _ => rfl
    · exact fun hne => of_not_not (of_decide_eq_false hne)
  unfold getReputation
  rw [h]
  dsimp only
  split
  · rfl
  · rename_i hn
    rw [hdid (Bool.not_eq_true _ ▸ hn)]

theorem SameDecay.computed (h : SameDecay tenant s s') (env : Env own)
    (record : ReputationRecord) :
    computeDecayedScore env s' record = computeDecayedScore env s record := by
  unfold computeDecayedScore TenantReputation.scoreMin
  rw [h.rate, h.period, h.scoreMin]

theorem decayLaw_iff_computed (h : s.reputation.get tenant = some record) :
    DecayLaw own tenant record s ↔ ∀ env₁ env₂ : Env own,
      record.lastUpdated ≤ env₁.timestamp → env₁.timestamp ≤ env₂.timestamp →
        env₂.timestamp < 2 ^ 64 →
          (computeDecayedScore env₂ s record).1 ≤ (computeDecayedScore env₁ s record).1 ∧
            (computeDecayedScore env₁ s record).1 ≤ record.compositeScore := by
  constructor
  · intro hlaw env₁ env₂ h₁ h₂ hend
    obtain ⟨r₁, r₂, hr₁, hr₂, hreported⟩ := hlaw env₁ env₂ s ⟨rfl, rfl, rfl, rfl⟩ h₁ h₂ hend
    rw [getReputation_some env₁ h] at hr₁
    rw [getReputation_some env₂ h] at hr₂
    cases hr₁
    cases hr₂
    exact ⟨hreported.falls, hreported.first⟩
  · intro hall env₁ env₂ s' hsame h₁ h₂ hend
    obtain ⟨hfalls, hfirst⟩ := hall env₁ env₂ h₁ h₂ hend
    refine ⟨_, _, getReputation_some env₁ h,
      getReputation_some env₂ (hsame.reputation.trans h), ?_⟩
    rw [hsame.computed]
    exact ⟨hfalls, hfirst, UInt32.le_trans hfalls hfirst⟩

theorem periodsAt_mono (hfew : 2 ^ 64 ≤ record.lastUpdated + 2 ^ 32 * s.decayPeriodSecs.getD 86400)
    (hle : t ≤ t') (hend : t' < 2 ^ 64) : periodsAt s record t ≤ periodsAt s record t' := by
  have hfit (now : Nat) (hn : now < 2 ^ 64) :
      periodsAt s record now = (now - record.lastUpdated) / s.decayPeriodSecs.getD 86400 := by
    apply Nat.mod_eq_of_lt
    rcases Nat.eq_zero_or_pos (s.decayPeriodSecs.getD 86400) with h₀ | hpos
    · rw [h₀, Nat.div_zero]
      decide
    · rw [Nat.div_lt_iff_lt_mul hpos]
      omega
  rw [hfit t (hle.trans_lt hend), hfit t' hend]
  exact Nat.div_le_div_right (Nat.sub_le_sub_right hle _)

theorem periodsAt_add (record : ReputationRecord) (hpos : 0 < s.decayPeriodSecs.getD 86400)
    (k : Nat) :
    periodsAt s record (record.lastUpdated + k * s.decayPeriodSecs.getD 86400) = k % 2 ^ 32 := by
  rw [periodsAt, Nat.add_sub_cancel_left, Nat.mul_div_cancel _ hpos]

/-- The law in terms of the times, for a record that decays. -/
def ScoresFall (s : State) (record : ReputationRecord) : Prop :=
  ∀ t₁ t₂, record.lastUpdated ≤ t₁ → t₁ ≤ t₂ → t₂ < 2 ^ 64 →
    scoreAt s record t₂ ≤ scoreAt s record t₁ ∧
      scoreAt s record t₁ ≤ record.compositeScore.toNat

section
variable {s : State} {record : ReputationRecord} (hperiod : s.decayPeriodSecs.getD 86400 ≠ 0)
include hperiod

theorem decayLaw_iff_scores (own : Address) (hrate : s.decayRatePerPeriod.getD 0 ≠ 0)
    (h : s.reputation.get tenant = some record) :
    DecayLaw own tenant record s ↔ ScoresFall s record := by
  have hscore (env : Env own) :
      (computeDecayedScore env s record).1.toNat = scoreAt s record env.timestamp :=
    toNat_decayedScore env hrate hperiod
  rw [decayLaw_iff_computed h]
  constructor
  · intro hall t₁ t₂ h₁ h₂ hend
    have hlaw := hall (.signed own t₁) (.signed own t₂) h₁ h₂ hend
    rwa [UInt32.le_iff_toNat_le, UInt32.le_iff_toNat_le, hscore, hscore] at hlaw
  · intro hall env₁ env₂ h₁ h₂ hend
    rw [UInt32.le_iff_toNat_le, UInt32.le_iff_toNat_le, hscore, hscore]
    exact hall env₁.timestamp env₂.timestamp h₁ h₂ hend

theorem least_le (hfits : record.lastUpdated + s.decayPeriodSecs.getD 86400 < 2 ^ 64)
    (hlaw : ScoresFall s record) :
    scoreMin s ≤ record.compositeScore := by
  have hone := periodsAt_add record (Nat.pos_of_ne_zero hperiod) 1
  rw [Nat.one_mul] at hone
  have hle := (hlaw _ _ (Nat.le_add_right _ _) le_rfl hfits).2
  rw [scoreAt, hone, scoreAfter, if_neg (by decide)] at hle
  exact UInt32.le_iff_toNat_le.mpr ((Nat.le_max_right _ _).trans hle)

/-- A score that decays to less than it was comes back after `2 ^ 32` periods. -/
theorem least_or_few (hrate : s.decayRatePerPeriod.getD 0 ≠ 0) (hlaw : ScoresFall s record) :
    record.compositeScore = scoreMin s ∨
      2 ^ 64 ≤ record.lastUpdated + 2 ^ 32 * s.decayPeriodSecs.getD 86400 := by
  by_contra hn
  obtain ⟨hne, hmany⟩ := not_or.mp hn
  have hpos := Nat.pos_of_ne_zero hperiod
  have hone := periodsAt_add record hpos 1
  have hall := periodsAt_add record hpos (2 ^ 32)
  obtain ⟨hback, hle⟩ := hlaw (record.lastUpdated + 1 * s.decayPeriodSecs.getD 86400)
    (record.lastUpdated + 2 ^ 32 * s.decayPeriodSecs.getD 86400) (Nat.le_add_right _ _)
    (by omega) (by omega)
  rw [scoreAt, scoreAt, hone, hall] at hback
  rw [scoreAt, hone] at hle
  have hrate₀ : (s.decayRatePerPeriod.getD 0).toNat ≠ 0 := fun h₀ =>
    hrate (UInt32.toNat_inj.mp h₀)
  have hne₀ : record.compositeScore.toNat ≠ (scoreMin s).toNat := fun h₀ =>
    hne (UInt32.toNat_inj.mp h₀)
  exact scoreAfter_one_ne hrate₀ hne₀ (Nat.le_antisymm hle hback)

theorem scoreAt_late (hlate : 2 ^ 64 ≤ record.lastUpdated + s.decayPeriodSecs.getD 86400)
    (hend : t < 2 ^ 64) : scoreAt s record t = record.compositeScore.toNat := by
  have hnone : periodsAt s record t = 0 := by
    rw [periodsAt, Nat.div_eq_of_lt (by omega), Nat.zero_mod]
  rw [scoreAt, scoreAfter, if_pos hnone]

end

/-- Lazy decay never raises the score of a record exactly when it is off, comes too late, or starts
from no less than the least score and counts fewer than `2 ^ 32` periods. -/
theorem decay_lowers_iff (own : Address) (h : s.reputation.get tenant = some record) :
    DecayLaw own tenant record s ↔ Lowering s record := by
  by_cases hoff : s.decayRatePerPeriod.getD 0 = 0 ∨ s.decayPeriodSecs.getD 86400 = 0
  · rw [decayLaw_iff_computed h]
    refine iff_of_true (fun env₁ env₂ _ _ _ => ?_) (by rw [Lowering, ← or_assoc]; exact .inl hoff)
    rw [decayedScore_off env₁ hoff, decayedScore_off env₂ hoff]
    exact ⟨UInt32.le_refl _, UInt32.le_refl _⟩
  · obtain ⟨hrate, hperiod⟩ := not_or.mp hoff
    rw [decayLaw_iff_scores hperiod own hrate h]
    constructor
    · intro hlaw
      rcases Nat.lt_or_ge (record.lastUpdated + s.decayPeriodSecs.getD 86400) (2 ^ 64) with
        hfits | hlate
      · exact .inr (.inr (.inr ⟨least_le hperiod hfits hlaw,
          least_or_few hperiod hrate hlaw⟩))
      · exact .inr (.inr (.inl hlate))
    · intro hlow t₁ t₂ _ h₂ hend
      rcases hlow with h₀ | h₀ | hlate | ⟨hlo, hleast | hfew⟩
      · exact absurd h₀ hrate
      · exact absurd h₀ hperiod
      · rw [scoreAt_late hperiod hlate hend, scoreAt_late hperiod hlate (h₂.trans_lt hend)]
        exact ⟨le_rfl, le_rfl⟩
      · rw [scoreAt, scoreAt, ← hleast, scoreAfter_least, scoreAfter_least]
        exact ⟨le_rfl, le_rfl⟩
      · rw [UInt32.le_iff_toNat_le] at hlo
        exact ⟨scoreAfter_antitone hlo _ (periodsAt_mono hfew h₂ hend), scoreAfter_le hlo _ _⟩

/-- A record of the score `200`, written at time `100`. -/
def sampleRecord : ReputationRecord := ⟨200, 80, 70, 90, 5, 100⟩

/-- The admin sets the decay, the operator rates tenant 3, and the admin sets the bounds. -/
def ratedCalls (rate : UInt32) (period : Nat) (least : UInt32) : List (Env ⟨0⟩ × Call) :=
  [(.signed ⟨0⟩ 0, .init ⟨1⟩ ⟨2⟩), (.signed ⟨0⟩ 50, .setDecayConfig ⟨1⟩ rate period),
    (.signed ⟨0⟩ 100, .updateReputation ⟨2⟩ ⟨3⟩ sampleRecord),
    (.signed ⟨0⟩ 150, .setScoreBounds ⟨1⟩ least 1000)]

def rated (rate : UInt32) (period : Nat) (least : UInt32) : State :=
  ((machine ⟨0⟩).replay .fresh (ratedCalls rate period least)).2

theorem decay_lowers_iff_rated :
    DecayLaw ⟨0⟩ ⟨3⟩ sampleRecord (rated 10 (2 ^ 32) 100) ↔
      Lowering (rated 10 (2 ^ 32) 100) sampleRecord := by
  have hget : (rated 10 (2 ^ 32) 100).reputation.get ⟨3⟩ = some sampleRecord := by decide
  exact decay_lowers_iff ⟨0⟩ hget

theorem rated_reachable (rate : UInt32) (period : Nat) (least : UInt32) :
    (machine ⟨0⟩).Reachable .fresh (rated rate period least) :=
  ⟨_, (machine ⟨0⟩).run_replay .fresh _⟩

/-- A least score set after the rating lifts the score to it; and after `2 ^ 32` periods the score
is back. -/
theorem decay_raises :
    ((machine ⟨0⟩).Reachable .fresh (rated 10 86400 500) ∧
        ¬ DecayLaw ⟨0⟩ ⟨3⟩ sampleRecord (rated 10 86400 500)) ∧
      (machine ⟨0⟩).Reachable .fresh (rated 10 1 0) ∧
        ¬ DecayLaw ⟨0⟩ ⟨3⟩ sampleRecord (rated 10 1 0) := by
  refine ⟨⟨rated_reachable 10 86400 500, fun hlaw => ?_⟩, rated_reachable 10 1 0, fun hlaw => ?_⟩
  · obtain ⟨_, hfirst⟩ := (decayLaw_iff_computed (by decide)).mp hlaw (.signed ⟨0⟩ 86500)
      (.signed ⟨0⟩ 86500) (by decide) le_rfl (by decide)
    revert hfirst
    decide
  · obtain ⟨hfalls, _⟩ := (decayLaw_iff_computed (by decide)).mp hlaw (.signed ⟨0⟩ 101)
      (.signed ⟨0⟩ (100 + 2 ^ 32)) (by decide) (by decide) (by decide)
    revert hfalls
    decide

end Shelterflex.TenantReputation
