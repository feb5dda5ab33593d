import Shelterflex.BondCollateral.Opening
import Mathlib.Tactic.LinearCombination

/-! What a partial liquidation leaves of a position. -/

namespace Shelterflex.BondCollateral
open Lib
set_option autoImplicit true

/-- How far a position is below the target ratio; a unit of collateral that is seized makes up
for `price * (target - 100)` of it. -/
def shortfall (collateral bond price target : Int) : Int :=
  target * bond * priceScale - 100 * collateral * price

/-- A liquidation reaches the target ratio if it may take everything, if one unit is enough, or
if what it has to take comes out without a remainder. -/
def Restorable (collateral bond price target : Int) : Prop :=
  collateral = 1 ∨ collateral * price ≤ priceScale * bond ∨
    (price < priceScale * bond ∧
      ¬ RatioBelow (collateral - 1) (bond - price / priceScale) price target) ∨
    (RatioBelow collateral bond price target ∧
      price * (target - 100) ∣ shortfall collateral bond price target ∧
      priceScale * (target - 100) ∣ shortfall collateral bond price target)

section
variable {c b p t k : Int}

theorem ratioBelow_iff : RatioBelow c b p t ↔ 0 < shortfall c b p t := by
  have he : t * (priceScale * b) - c * p * 100 = shortfall c b p t := by
    rw [shortfall]
    ring
  rw [RatioBelow, ← he, sub_pos]

theorem le_seized_iff (hp : 0 < p) (ht : 100 < t) :
    c ≤ shortfall c b p t / (p * (t - 100)) ↔ c * p ≤ priceScale * b := by
  have ht₀ : 0 < t := by omega
  have he : shortfall c b p t - c * (p * (t - 100)) = t * (priceScale * b - c * p) := by
    rw [shortfall]
    ring
  rw [Int.le_ediv_iff_mul_le (mul_pos hp (sub_pos.mpr ht)), ← sub_nonneg, he,
    mul_nonneg_iff_of_pos_left ht₀, sub_nonneg]

/-- After `k` units are seized, the position is at the target unless the part of their value
that is below a unit of the bond is missing. -/
theorem reached_iff : ¬ RatioBelow (c - k) (b - k * p / priceScale) p t ↔
    shortfall c b p t + t * (k * p % priceScale) ≤ k * (p * (t - 100)) := by
  have hdiv := Int.mul_ediv_add_emod (k * p) priceScale
  have he : shortfall (c - k) (b - k * p / priceScale) p t =
      shortfall c b p t + t * (k * p % priceScale) - k * (p * (t - 100)) := by
    rw [shortfall, shortfall]
    linear_combination (-t) * hdiv
  rw [ratioBelow_iff, he, sub_pos, not_lt]

theorem reached_quotient_iff (hp : 0 < p) (ht : 100 < t) :
    ¬ RatioBelow (c - shortfall c b p t / (p * (t - 100)))
        (b - shortfall c b p t / (p * (t - 100)) * p / priceScale) p t ↔
      p * (t - 100) ∣ shortfall c b p t ∧ priceScale * (t - 100) ∣ shortfall c b p t := by
  have ht₀ : 0 < t := by omega
  have hx : t - 100 ≠ 0 := by omega
  have hd : 0 < p * (t - 100) := mul_pos hp (sub_pos.mpr ht)
  rw [reached_iff]
  generalize shortfall c b p t = n
  have hr : 0 ≤ t * (n / (p * (t - 100)) * p % priceScale) :=
    mul_nonneg ht₀.le (Int.emod_nonneg _ priceScale_pos.ne')
  have hle : n / (p * (t - 100)) * (p * (t - 100)) ≤ n := Int.ediv_mul_le _ hd.ne'
  constructor
  · intro h
    have hn : n / (p * (t - 100)) * (p * (t - 100)) = n := by omega
    have hz : t * (n / (p * (t - 100)) * p % priceScale) = 0 := by omega
    have hs : priceScale ∣ n / (p * (t - 100)) * p :=
      Int.dvd_of_emod_eq_zero ((mul_eq_zero.mp hz).resolve_left ht₀.ne')
    refine ⟨Dvd.intro_left _ hn, ?_⟩
    have hmul := mul_dvd_mul_right hs (t - 100)
    rwa [mul_assoc, hn] at hmul
  · rintro ⟨hdvd, hs⟩
    have hn : n / (p * (t - 100)) * (p * (t - 100)) = n := Int.ediv_mul_cancel hdvd
    rw [← hn, ← mul_assoc] at hs
    rw [Int.emod_eq_zero_of_dvd (Int.dvd_of_mul_dvd_mul_right hx hs), mul_zero, add_zero, hn]

theorem left_iff (hk : k ≤ c) :
    ((c - k = 0 ∨ b - min (k * p / priceScale) b = 0) ∨
        ¬ RatioBelow (c - k) (b - min (k * p / priceScale) b) p t) ∧
      (c - k = 0 ∨ b - min (k * p / priceScale) b = 0 → c ≤ k) ↔
    k = c ∨ k * p < priceScale * b ∧ ¬ RatioBelow (c - k) (b - k * p / priceScale) p t := by
  rcases hk.eq_or_lt with rfl | hlt
  · exact iff_of_true ⟨.inl (.inl (sub_self k)), fun _ => le_rfl⟩ (.inl rfl)
  · have hc : c - k ≠ 0 := by omega
    by_cases hb : k * p < priceScale * b
    · have hlt' : k * p / priceScale < b :=
        Int.ediv_lt_of_lt_mul priceScale_pos (mul_comm priceScale b ▸ hb)
      rw [min_eq_left hlt'.le]
      have hb' : b - k * p / priceScale ≠ 0 := by omega
      constructor
      · rintro ⟨(hz | hz) | hr, _⟩
        · exact absurd hz hc
        · exact absurd hz hb'
        · exact .inr ⟨hb, hr⟩
      · rintro (rfl | ⟨_, hr⟩)
        · exact absurd hlt (lt_irrefl _)
        · exact ⟨.inr hr, fun hz => absurd hz (not_or.mpr ⟨hc, hb'⟩)⟩
    · have hle : b ≤ k * p / priceScale := by
        apply (Int.le_ediv_iff_mul_le priceScale_pos).mpr
        rw [mul_comm]
        exact not_lt.mp hb
      rw [min_eq_right hle, sub_self]
      exact iff_of_false (fun h => hlt.not_ge (h.2 (.inr rfl)))
        (not_or.mpr ⟨hlt.ne, fun h => hb h.1⟩)

theorem quotient_lt_bond (hp : 0 < p) (ht : 100 < t) (hc : ¬ c * p ≤ priceScale * b) :
    shortfall c b p t / (p * (t - 100)) * p < priceScale * b := by
  have hx : 0 < t - 100 := sub_pos.mpr ht
  have hle := Int.ediv_mul_le (shortfall c b p t) (mul_pos hp hx).ne'
  apply lt_of_mul_lt_mul_right _ hx.le
  calc shortfall c b p t / (p * (t - 100)) * p * (t - 100)
      = shortfall c b p t / (p * (t - 100)) * (p * (t - 100)) := mul_assoc _ _ _
    _ ≤ shortfall c b p t := hle
    _ < priceScale * b * (t - 100) := by
        rw [shortfall]
        linarith

theorem pos_of_quotient {n d : Int} (hd : 0 < d) (h : 0 < n / d) : 0 < n := by
  have hle := (Int.le_ediv_iff_mul_le hd).mp h
  omega

theorem not_exact (hp : 0 < p) (ht : 100 < t) (hq : shortfall c b p t / (p * (t - 100)) ≤ 0)
    (hr : RatioBelow c b p t) : ¬ p * (t - 100) ∣ shortfall c b p t := by
  intro hdvd
  have hle := Int.le_of_dvd (ratioBelow_iff.mp hr) hdvd
  have hone := (Int.le_ediv_iff_mul_le (mul_pos hp (sub_pos.mpr ht))).mpr ((one_mul _).trans_le hle)
  omega

theorem exact_of_one (hp : 0 < p) (ht : 100 < t) (hq : 0 < shortfall c b p t / (p * (t - 100)))
    (hone : ¬ RatioBelow (c - 1) (b - p / priceScale) p t) :
    p * (t - 100) ∣ shortfall c b p t ∧ priceScale * (t - 100) ∣ shortfall c b p t := by
  have hd : 0 < p * (t - 100) := mul_pos hp (sub_pos.mpr ht)
  have hone' : ¬ RatioBelow (c - 1) (b - 1 * p / priceScale) p t := (one_mul p).symm ▸ hone
  have hle := reached_iff.mp hone'
  have hr₀ : 0 ≤ t * (1 * p % priceScale) :=
    mul_nonneg (by omega) (Int.emod_nonneg _ priceScale_pos.ne')
  have hlt₂ : shortfall c b p t / (p * (t - 100)) < 2 :=
    Int.ediv_lt_of_lt_mul hd (by omega)
  have hq₁ : shortfall c b p t / (p * (t - 100)) = 1 := by omega
  have hiff := reached_quotient_iff (c := c) (b := b) hp ht
  rw [hq₁] at hiff
  exact hiff.mp hone'

theorem restorable_iff (hp : 0 < p) (ht : 100 < t)
    (hk : k = min (max (shortfall c b p t / (p * (t - 100))) 1) c) (hc : 0 < c) :
    (k = c ∨ k * p < priceScale * b ∧ ¬ RatioBelow (c - k) (b - k * p / priceScale) p t) ↔
      Restorable c b p t := by
  have hwhole := le_seized_iff (c := c) (b := b) hp ht
  by_cases h : c = 1 ∨ c * p ≤ priceScale * b
  · -- the whole position is taken
    have hkc : k = c := by
      rw [hk]
      apply min_eq_right
      rcases h with rfl | h
      · exact le_max_right _ _
      · exact le_max_of_le_left (hwhole.mpr h)
    exact iff_of_true (.inl hkc) (h.elim .inl fun h => .inr (.inl h))
  · obtain ⟨hc₁, hcp⟩ := not_or.mp h
    have hlt : shortfall c b p t / (p * (t - 100)) < c := not_le.mp fun hle => hcp (hwhole.mp hle)
    have hne : k ≠ c := by omega
    rw [Restorable, or_iff_right hne, or_iff_right hc₁, or_iff_right hcp]
    rcases le_or_gt (shortfall c b p t / (p * (t - 100))) 0 with hq | hq
    · -- one unit is taken
      obtain rfl : k = 1 := by omega
      rw [one_mul]
      exact (or_iff_left fun hx => not_exact hp ht hq hx.1 hx.2.1).symm
    · -- the quotient is taken
      obtain rfl : k = shortfall c b p t / (p * (t - 100)) := by omega
      have hr : RatioBelow c b p t :=
        ratioBelow_iff.mpr (pos_of_quotient (mul_pos hp (sub_pos.mpr ht)) hq)
      rw [and_iff_right (quotient_lt_bond hp ht hcp), reached_quotient_iff hp ht, and_iff_right hr]
      exact (or_iff_right_of_imp fun hone => exact_of_one hp ht hq hone.2).symm

end

/-! The calls -/

/-- What a liquidation is for: the position is dropped or is at the target, and nothing of the
owner's is gone that was not seized. -/
structure Restores (s s' : State) (positionId : BytesN 32) (price : Int) (taken : Seizure) :
    Prop where
  health : getPosition s' positionId = none ∨
    ¬ RatioBelow (collateralOf s' positionId) (bondOf s' positionId) price
      (s.targetHealthRatio.getD 150)
  removed : getPosition s' positionId = none → collateralOf s positionId ≤ taken.seizeAmount
  seized : 1 ≤ taken.seizeAmount ∧ taken.seizeAmount ≤ collateralOf s positionId
  reward : taken.keeperReward ≤ taken.seizeAmount
  debt : bondOf s' positionId ≤ bondOf s positionId

theorem bondOf_some (h : getPosition s positionId = some p) :
    bondOf s positionId = p.bondAmount := by
  rw [bondOf, h]
  rfl

theorem max_tdiv_one (n : Int) {d : Int} (hd : 0 < d) : max (n.tdiv d) 1 = max (n / d) 1 := by
  rcases le_total 0 n with hn | hn
  · rw [Int.tdiv_eq_ediv_of_nonneg hn]
  · have ht : n.tdiv d < 1 := (tdiv_lt_iff hd one_pos).mpr (by omega)
    have he : n / d < 1 := Int.ediv_lt_of_lt_mul hd (by omega)
    rw [max_eq_right ht.le, max_eq_right he.le]

theorem computeSeizeAmount_eq (hp : 0 < price) (ht : 100 < target)
    (h : computeSeizeAmount collateral bond price target = (.ok n : Outcome ε Int)) :
    n = (shortfall collateral bond price target).tdiv (price * (target - 100)) := by
  have hne : ¬ (target ≤ 100 ∨ price = 0) := by omega
  have hd : ¬ price * ((target : Int) - 100) ≤ 0 := not_le.mpr (mul_pos hp (by omega))
  simp only [computeSeizeAmount, if_neg hne, bind_ok, i128Mul_ok, i128Sub_ok] at h
  obtain ⟨_, ⟨_, rfl⟩, _, ⟨_, rfl⟩, _, ⟨_, rfl⟩, _, ⟨_, rfl⟩, _, ⟨_, rfl⟩, _, ⟨_, rfl⟩, _,
    ⟨_, rfl⟩, h⟩ := h
  rw [if_neg hd] at h
  exact (i128Div_ok.mp h).2.2.symm

/-- What is taken, in terms of the shortfall. -/
theorem seizure_eq (hc : 0 < collateral) (hp : 0 < price) (ht : 100 < s.targetHealthRatio.getD 150)
    (h : seizure collateral bond price s = .ok taken) :
    taken.seizeAmount = min (max (shortfall collateral bond price (s.targetHealthRatio.getD 150) /
        (price * ((s.targetHealthRatio.getD 150 : Nat) - 100))) 1) collateral ∧
      taken.bondReduction = min (taken.seizeAmount * price / priceScale) bond := by
  have hpos := (seizure_bounds hc h).1
  simp only [seizure, bind_ok, i128Mul_ok, i128Div_ok, pure_ok] at h
  obtain ⟨raw, hraw, _, ⟨_, rfl⟩, _, ⟨_, _, rfl⟩, _, ⟨_, rfl⟩, _, ⟨_, _, rfl⟩, rfl⟩ := h
  have hd : 0 < price * (((s.targetHealthRatio.getD 150 : Nat) : Int) - 100) :=
    mul_pos hp (by omega)
  rw [computeSeizeAmount_eq hp ht hraw, max_tdiv_one _ hd] at hpos ⊢
  exact ⟨rfl, congrArg (min · bond) (Int.tdiv_eq_ediv_of_nonneg (mul_nonneg hpos.le hp.le))⟩

theorem settlePosition_get (positionId : BytesN 32) (p : CollateralPosition) (seized c b : Int)
    (s : State) : getPosition (settlePosition positionId p seized c b s) positionId =
      if c = 0 ∨ b = 0 then none
      else some { p with collateralAmount := c, bondAmount := b } := by
  unfold settlePosition
  split
  · exact Store.get_remove_self ..
  · exact Store.get_set_self ..

theorem restores_iff (hp : getPosition s positionId = some p)
    (hget : getPosition s' positionId =
      if p.collateralAmount - taken.seizeAmount = 0 ∨ p.bondAmount - taken.bondReduction = 0 then
        none
      else some { p with
        collateralAmount := p.collateralAmount - taken.seizeAmount
        bondAmount := p.bondAmount - taken.bondReduction })
    (hpos : 0 < taken.seizeAmount) (hle : taken.seizeAmount ≤ p.collateralAmount)
    (hred₀ : 0 ≤ taken.bondReduction) (hred : taken.bondReduction ≤ p.bondAmount)
    (hrew : taken.keeperReward ≤ taken.seizeAmount) :
    Restores s s' positionId price taken ↔
      ((p.collateralAmount - taken.seizeAmount = 0 ∨ p.bondAmount - taken.bondReduction = 0) ∨
        ¬ RatioBelow (p.collateralAmount - taken.seizeAmount)
          (p.bondAmount - taken.bondReduction) price (s.targetHealthRatio.getD 150)) ∧
      (p.collateralAmount - taken.seizeAmount = 0 ∨ p.bondAmount - taken.bondReduction = 0 →
        p.collateralAmount ≤ taken.seizeAmount) := by
  have hc := collateralOf_some hp
  have hb := bondOf_some hp
  split at hget
  · rename_i hz
    have hb' : bondOf s' positionId = 0 := by
      rw [bondOf, hget]
      rfl
    constructor
    · intro h
      exact ⟨.inl hz, fun _ => hc ▸ h.removed hget⟩
    · rintro ⟨_, hrem⟩
      exact ⟨.inl hget, fun _ => hc ▸ hrem hz, ⟨hpos, hc ▸ hle⟩, hrew, by omega⟩
  · rename_i hz
    have hc' := collateralOf_some hget
    have hb' := bondOf_some hget
    have hsome : getPosition s' positionId ≠ none := by
      rw [hget]
      exact Option.some_ne_none _
    constructor
    · intro h
      have hr := h.health.resolve_left hsome
      rw [hc', hb'] at hr
      exact ⟨.inr hr, fun h => absurd h hz⟩
    · rintro ⟨hr, _⟩
      have hr' := hr.resolve_left hz
      refine ⟨.inr ?_, fun h => absurd h hsome, ⟨hpos, hc ▸ hle⟩, hrew, ?_⟩
      · rwa [hc', hb']
      · rw [hb', hb]
        exact sub_le_self _ hred₀

section
variable {own : Address} {tok : Token T} {net : Peers P} {env : Env own} {w w' : World T P}

theorem liquidate_bond_ne (h : liquidate tok env net keeper positionId w = .ok w')
    (hp : getPosition w.bond positionId = some p) : p.bondAmount ≠ 0 := by
  simp only [liquidate, bind_ok, require_ok, okOr_ok] at h
  obtain ⟨_, _, _, _, p', hp', _, hne, _⟩ := h
  cases hp.symm.trans hp'
  exact hne.1

/-- A liquidation restores the health of the position exactly if it takes everything, if one
unit is enough, or if nothing is rounded. -/
theorem liquidate_restores_iff
    (hr : (machine tok net own).Reachable ⟨.fresh, t₀, p₀⟩ w)
    (hp : getPosition w.bond positionId = some p)
    (ho : tryFetchOraclePrice net w.peers w.bond = (.ok oracle : Outcome ContractError _))
    (hprice : effectivePrice env oracle w.bond = .ok price) (hpos : 0 < price)
    (ht : 100 < w.bond.targetHealthRatio.getD 150)
    (h : liquidate tok env net keeper positionId w = .ok w') :
    (∃ taken, seizure p.collateralAmount p.bondAmount price w.bond = .ok taken ∧
      Restores w.bond w'.bond positionId price taken) ↔
    Restorable p.collateralAmount p.bondAmount price (w.bond.targetHealthRatio.getD 150) := by
  have hbooks := reachable_books hr
  have hb : 0 < p.bondAmount :=
    lt_of_le_of_ne (hbooks.nonneg hp).2 (liquidate_bond_ne h hp).symm
  obtain ⟨_, _, _, taken, hp', hne, ⟨_, _, ho', hprice', _⟩, hz, hw, _⟩ := liquidate_ok h
  cases hp.symm.trans hp'
  cases ho.symm.trans ho'
  cases hprice.symm.trans hprice'
  have hc : 0 < p.collateralAmount := lt_of_le_of_ne (hbooks.nonneg hp).1 (Ne.symm hne)
  obtain ⟨h₀, hle, hred, hrew⟩ := seizure_bounds hc hz
  obtain ⟨hseize, hdebt⟩ := seizure_eq hc hpos ht hz
  have hget := settlePosition_get positionId p taken.seizeAmount
    (p.collateralAmount - taken.seizeAmount) (p.bondAmount - taken.bondReduction) w.bond
  rw [← hw] at hget
  have hred₀ : 0 ≤ taken.bondReduction := by
    rw [hdebt]
    exact le_min (Int.ediv_nonneg (mul_nonneg h₀.le hpos.le) priceScale_pos.le) hb.le
  rw [← restorable_iff hpos (Int.ofNat_lt.mpr ht) hseize hc, ← left_iff hle, ← hdebt,
    ← restores_iff hp hget h₀ hle hred₀ hred hrew]
  constructor
  · rintro ⟨taken', hz', hrest⟩
    cases hz.symm.trans hz'
    exact hrest
  · exact fun hrest => ⟨taken, hz, hrest⟩

end

theorem liquidate_restores_iff_fallen : ∃ w', liquidateAfter fallenCalls = .ok w' ∧
    ((∃ taken, seizure 150 120 priceScale (after fallenCalls).bond = .ok taken ∧
      Restores (after fallenCalls).bond w'.bond (.replicate 32 7) priceScale taken) ↔
        Restorable 150 120 priceScale 150) := by
  have hs : (commit (liquidateAfter fallenCalls) id).isSome = true := by decide +kernel
  obtain ⟨w', hok⟩ := exists_ok hs
  have hp : getPosition (after fallenCalls).bond (.replicate 32 7) =
      some ⟨⟨2⟩, 150, 120, 0⟩ := by decide +kernel
  have ho : tryFetchOraclePrice feedless () (after fallenCalls).bond =
      (.ok none : Outcome ContractError _) := tryFetchOraclePrice_none _ _ (by decide +kernel)
  have ht : (after fallenCalls).bond.targetHealthRatio.getD 150 = 150 := by decide +kernel
  have hiff := liquidate_restores_iff (reachable_after fallenCalls) hp ho rfl (by decide)
    (ht ▸ by decide) hok
  rw [ht] at hiff
  exact ⟨w', hok, hiff⟩

/-- The fallen position has to get back to 131 percent, and 23 of 150 units do not suffice. -/
def roundedCalls : List (Action ⟨0⟩ (Address → Int) Unit) :=
  fallenCalls ++ [.call (.signed ⟨0⟩ 0) (.setTargetHealthRatio ⟨1⟩ 131)]

theorem liquidated_below_target :
    ¬ ∀ w, (machine plainToken feedless ⟨0⟩).Reachable deployed w →
      ∀ (env : Env ⟨0⟩) keeper positionId p oracle price w' taken,
      getPosition w.bond positionId = some p →
      tryFetchOraclePrice feedless w.peers w.bond = (.ok oracle : Outcome ContractError _) →
      effectivePrice env oracle w.bond = .ok price → 0 < price →
      100 < w.bond.targetHealthRatio.getD 150 →
      liquidate plainToken env feedless keeper positionId w = .ok w' →
      seizure p.collateralAmount p.bondAmount price w.bond = .ok taken →
      Restores w.bond w'.bond positionId price taken := by
  intro hall
  have hs : commit (liquidateAfter roundedCalls)
      (fun w => getPosition w.bond (.replicate 32 7)) = some (some ⟨⟨2⟩, 127, 97, 0⟩) := by
    decide +kernel
  obtain ⟨w', hok, hget⟩ := commit_some.mp hs
  have hp : getPosition (after roundedCalls).bond (.replicate 32 7) =
      some ⟨⟨2⟩, 150, 120, 0⟩ := by decide +kernel
  have ho : tryFetchOraclePrice feedless () (after roundedCalls).bond =
      (.ok none : Outcome ContractError _) := tryFetchOraclePrice_none _ _ (by decide +kernel)
  have ht : (after roundedCalls).bond.targetHealthRatio.getD 150 = 131 := by decide +kernel
  have hz : seizure 150 120 priceScale (after roundedCalls).bond = .ok ⟨23, 23, 1⟩ := by
    decide +kernel
  have hrest := hall _ (reachable_after roundedCalls) _ _ _ _ _ priceScale _ _ hp ho rfl
    (by decide) (ht ▸ by decide) hok hz
  rcases hrest.health with hn | hr
  · cases hget.symm.trans hn
  · rw [collateralOf_some hget, bondOf_some hget, ht] at hr
    exact hr (by decide)

end Shelterflex.BondCollateral
