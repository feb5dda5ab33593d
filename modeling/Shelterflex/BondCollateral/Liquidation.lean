import Shelterflex.BondCollateral.Effects

namespace Shelterflex.BondCollateral
open Lib
set_option autoImplicit true

/-- The exact ratio of a position, in percent, is below a bound. -/
def RatioBelow (collateral bond price bound : Int) : Prop :=
  collateral * price * 100 < bound * (priceScale * bond)

instance : Decidable (RatioBelow collateral bond price bound) :=
  inferInstanceAs (Decidable (_ < _))

theorem tdiv_lt_iff {x d n : Int} (hd : 0 < d) (hn : 0 < n) : x.tdiv d < n ↔ x < n * d := by
  rcases le_total 0 x with hx | hx
  · rw [Int.tdiv_eq_ediv_of_nonneg hx]
    exact Int.ediv_lt_iff_lt_mul hd
  · have hq : 0 ≤ (-x).tdiv d := Int.tdiv_nonneg (neg_nonneg.mpr hx) hd.le
    rw [Int.neg_tdiv] at hq
    exact iff_of_true ((neg_nonneg.mp hq).trans_lt hn) (hx.trans_lt (mul_pos hn hd))

theorem priceScale_pos : 0 < priceScale := by decide

theorem calculateCollateralRatioOracle_ok (hb : 0 < bond)
    (h : calculateCollateralRatioOracle collateral bond price = (.ok ratio : Outcome ε Nat)) :
    ratio = ((collateral * price * 100).tdiv (priceScale * bond) % 2 ^ 32).toNat := by
  unfold calculateCollateralRatioOracle at h
  rw [if_neg hb.ne'] at h
  split at h
  · rename_i hp
    cases pure_ok.mp h
    rw [hp, mul_zero, zero_mul, Int.zero_tdiv]
    rfl
  · simp only [bind_ok, i128Mul_ok, i128Div_ok, pure_ok] at h
    obtain ⟨_, ⟨_, rfl⟩, _, ⟨_, rfl⟩, _, ⟨_, rfl⟩, _, ⟨_, _, rfl⟩, rfl⟩ := h
    rfl

/-- A quotient whose low 32 bits are below a bound is itself below it as long as it fits. -/
theorem quotient_lt_iff {q : Int} {n : Nat} (hn : n < 2 ^ 32) (h : (q % 2 ^ 32).toNat < n) :
    q < n ↔ q < 2 ^ 32 := by
  omega

theorem ratioBelow_of_checked (hb : 0 < bond) (ht : threshold < 2 ^ 32)
    (hr : calculateCollateralRatioOracle collateral bond price = (.ok ratio : Outcome ε Nat))
    (hlt : ratio < threshold) :
    RatioBelow collateral bond price threshold ↔ RatioBelow collateral bond price (2 ^ 32) := by
  have hd : 0 < priceScale * bond := mul_pos priceScale_pos hb
  have hn : (0 : Int) < threshold := Int.natCast_pos.mpr (Nat.zero_lt_of_lt hlt)
  rw [calculateCollateralRatioOracle_ok hb hr] at hlt
  calc RatioBelow collateral bond price threshold
      ↔ (collateral * price * 100).tdiv (priceScale * bond) < threshold := (tdiv_lt_iff hd hn).symm
    _ ↔ (collateral * price * 100).tdiv (priceScale * bond) < 2 ^ 32 := quotient_lt_iff ht hlt
    _ ↔ RatioBelow collateral bond price (2 ^ 32) := tdiv_lt_iff hd (by decide)

theorem liquidated_below_threshold {own : Address} {tok : Token T} {env : Env own} {net : Peers P}
    {w w' : World T P} (hp : getPosition w.bond positionId = some p) (hb : 0 < p.bondAmount)
    (ho : tryFetchOraclePrice net w.peers w.bond = (.ok oracle : Outcome ContractError _))
    (hprice : effectivePrice env oracle w.bond = .ok price)
    (ht : getLiquidationThreshold w.bond < 2 ^ 32)
    (h : liquidate tok env net keeper positionId w = .ok w') :
    RatioBelow p.collateralAmount p.bondAmount price (getLiquidationThreshold w.bond) ↔
      RatioBelow p.collateralAmount p.bondAmount price (2 ^ 32) := by
  obtain ⟨_, _, _, _, hp', _, ⟨_, ratio, ho', hprice', hr, hlt⟩, _⟩ := liquidate_ok h
  cases hp.symm.trans hp'
  cases ho.symm.trans ho'
  cases hprice.symm.trans hprice'
  exact ratioBelow_of_checked hb ht hr hlt

/-! Positions without a price feed -/

def feedless : Peers Unit := ⟨fun _ _ => none, fun _ _ _ _ _ _ _ _ _ => none⟩

theorem tryFetchOraclePrice_none (net : Peers P) (peers : P) (h : s.oracleFeed = none) :
    tryFetchOraclePrice net peers s = (.ok none : Outcome ε _) := by
  rw [tryFetchOraclePrice, h]

def deployed : World (Address → Int) Unit :=
  ⟨.fresh, fun a => if a = ⟨2⟩ then 50000000 else 0, ()⟩

def opening : Action ⟨0⟩ (Address → Int) Unit := .call (.signed ⟨0⟩ 0) (.init ⟨1⟩ ⟨9⟩)

/-- What a list of calls makes of the opened contract. -/
def after (calls : List (Action ⟨0⟩ (Address → Int) Unit)) : World (Address → Int) Unit :=
  ((machine plainToken feedless ⟨0⟩).replay deployed (opening :: calls)).2

theorem reachable_after (calls : List (Action ⟨0⟩ (Address → Int) Unit)) :
    (machine plainToken feedless ⟨0⟩).Reachable deployed (after calls) :=
  ⟨_, (machine plainToken feedless ⟨0⟩).run_replay deployed _⟩

def liquidateAfter (calls : List (Action ⟨0⟩ (Address → Int) Unit)) :
    Outcome ContractError (World (Address → Int) Unit) :=
  liquidate plainToken (.signed ⟨0⟩ 0) feedless ⟨3⟩ (.replicate 32 7) (after calls)

theorem exists_ok {x : Outcome ε α} (h : (commit x id).isSome = true) : ∃ a, x = .ok a := by
  obtain ⟨_, hc⟩ := Option.isSome_iff_exists.mp h
  obtain ⟨a, ha, _⟩ := commit_some.mp hc
  exact ⟨a, ha⟩

/-- A position of 125 percent, before the threshold is raised to 130. -/
def fallenCalls : List (Action ⟨0⟩ (Address → Int) Unit) :=
  [.call (.signed ⟨0⟩ 0) (.depositCollateral ⟨2⟩ (.replicate 32 7) 150),
    .call (.signed ⟨0⟩ 0) (.issueBond ⟨2⟩ (.replicate 32 7) 120),
    .call (.signed ⟨0⟩ 0) (.setThresholds ⟨1⟩ 200 130)]

theorem liquidated_below_threshold_fallen : ∃ w', liquidateAfter fallenCalls = .ok w' ∧
    (RatioBelow 150 120 priceScale 130 ↔ RatioBelow 150 120 priceScale (2 ^ 32)) := by
  have hs : (commit (liquidateAfter fallenCalls) id).isSome = true := by decide +kernel
  obtain ⟨w', hok⟩ := exists_ok hs
  have hp : getPosition (after fallenCalls).bond (.replicate 32 7) =
      some ⟨⟨2⟩, 150, 120, 0⟩ := by decide +kernel
  have ho : tryFetchOraclePrice feedless () (after fallenCalls).bond =
      (.ok none : Outcome ContractError _) := tryFetchOraclePrice_none _ _ (by decide +kernel)
  have ht : getLiquidationThreshold (after fallenCalls).bond = 130 := by decide +kernel
  have hiff := liquidated_below_threshold hp (by decide) ho rfl (ht ▸ by decide) hok
  rw [ht] at hiff
  exact ⟨w', hok, hiff⟩

/-- A bond of one unit behind which lies more than `2 ^ 32` percent of collateral. -/
def heavyCalls : List (Action ⟨0⟩ (Address → Int) Unit) :=
  [.call (.signed ⟨0⟩ 0) (.depositCollateral ⟨2⟩ (.replicate 32 7) 42949673),
    .call (.signed ⟨0⟩ 0) (.issueBond ⟨2⟩ (.replicate 32 7) 1)]

theorem heavy_liquidated :
    ¬ ∀ w, (machine plainToken feedless ⟨0⟩).Reachable deployed w →
      ∀ (env : Env ⟨0⟩) keeper positionId p oracle price w',
      getPosition w.bond positionId = some p → 0 < p.bondAmount → 0 ≤ price →
      tryFetchOraclePrice feedless w.peers w.bond = (.ok oracle : Outcome ContractError _) →
      effectivePrice env oracle w.bond = .ok price →
      liquidate plainToken env feedless keeper positionId w = .ok w' →
      RatioBelow p.collateralAmount p.bondAmount price (getLiquidationThreshold w.bond) := by
  intro hall
  have hs : (commit (liquidateAfter heavyCalls) id).isSome = true := by decide +kernel
  obtain ⟨w', hok⟩ := exists_ok hs
  have hp : getPosition (after heavyCalls).bond (.replicate 32 7) =
      some ⟨⟨2⟩, 42949673, 1, 0⟩ := by decide +kernel
  have ho : tryFetchOraclePrice feedless () (after heavyCalls).bond =
      (.ok none : Outcome ContractError _) := tryFetchOraclePrice_none _ _ (by decide +kernel)
  have ht : getLiquidationThreshold (after heavyCalls).bond = 120 := by decide +kernel
  have hlt := hall _ (reachable_after heavyCalls) _ _ _ _ _ priceScale _ hp (by decide) (by decide)
    ho rfl hok
  rw [ht] at hlt
  exact absurd hlt (by decide)

end Shelterflex.BondCollateral
