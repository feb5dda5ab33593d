import Shelterflex.BondCollateral.Custody

namespace Shelterflex.BondCollateral
open Lib
set_option autoImplicit true

/-- The price that the settings give at a time: what the feed says, as long as it is recent
enough, or one to one without a feed. -/
def CurrentPrice (net : Peers P) (peers : P) (now : Nat) (s : State) (price : Int) : Prop :=
  match s.oracleFeed with
  | none => price = priceScale
  | some feed => ∃ seen, net.price peers feed = some ⟨price, seen⟩ ∧
      seen + s.oracleStaleness.getD 3600 < 2 ^ 64 ∧ now ≤ seen + s.oracleStaleness.getD 3600

/-- The percentage can be computed, and the low 32 bits of it reach the threshold. -/
def Withstands (collateral bond price : Int) (threshold : Nat) : Prop :=
  InI128 (collateral * price * 100) ∧ InI128 (priceScale * bond) ∧
    threshold ≤ (collateral * price * 100).tdiv (priceScale * bond) % 2 ^ 32

theorem tdiv_inI128 {x d : Int} (hd : 0 < d) (hx : InI128 x) : InI128 (x.tdiv d) := by
  obtain ⟨hl, hu⟩ := hx
  constructor
  · have hneg : (-x).tdiv d < 2 ^ 127 + 1 := by
      apply (tdiv_lt_iff hd (by decide)).mpr
      have hmul : 2 ^ 127 + 1 ≤ (2 ^ 127 + 1) * d := le_mul_of_one_le_right (by decide) hd
      omega
    rw [Int.neg_tdiv] at hneg
    omega
  · apply (tdiv_lt_iff hd (by decide)).mpr
    exact hu.trans_le (le_mul_of_one_le_right (by decide) hd)

theorem reaches_iff (hb : 0 < bond) (ht : 0 < threshold) :
    (∃ ratio, calculateCollateralRatioOracle collateral bond price =
      (.ok ratio : Outcome ε Nat) ∧ threshold ≤ ratio) ↔
      Withstands collateral bond price threshold := by
  have hd : 0 < priceScale * bond := mul_pos priceScale_pos hb
  constructor
  · rintro ⟨ratio, hr, hle⟩
    have hq := calculateCollateralRatioOracle_ok hb hr
    rw [calculateCollateralRatioOracle, if_neg hb.ne'] at hr
    split at hr
    · cases pure_ok.mp hr
      exact absurd hle (not_le.mpr ht)
    · simp only [bind_ok, i128Mul_ok] at hr
      obtain ⟨_, ⟨_, rfl⟩, _, ⟨hp, rfl⟩, _, ⟨hs, rfl⟩, _⟩ := hr
      exact ⟨hp, hs, by omega⟩
  · rintro ⟨hp, hs, hle⟩
    have hv : InI128 (collateral * price) := by
      obtain ⟨hl, hu⟩ := hp
      constructor <;> omega
    refine ⟨((collateral * price * 100).tdiv (priceScale * bond) % 2 ^ 32).toNat, ?_, by omega⟩
    rw [calculateCollateralRatioOracle, if_neg hb.ne']
    have hz : price ≠ 0 := by
      rintro rfl
      rw [mul_zero, zero_mul, Int.zero_tdiv] at hle
      omega
    rw [if_neg hz, bind_of_ok (i128Mul_ok.mpr ⟨hv, rfl⟩), bind_of_ok (i128Mul_ok.mpr ⟨hp, rfl⟩),
      bind_of_ok (i128Mul_ok.mpr ⟨hs, rfl⟩),
      bind_of_ok (i128Div_ok.mpr ⟨hd.ne', tdiv_inI128 hd hp, rfl⟩)]
    rfl

/-! No fault of a liquidation but its own two tests says that a position cannot be liquidated. -/

theorem oracleRatio_no_err :
    Avoids (.err e) (calculateCollateralRatioOracle collateral bond price) := by
  unfold calculateCollateralRatioOracle
  split
  · exact avoids_pure
  split
  · exact avoids_pure
  exact .bind checkI128_no_err fun _ _ => .bind checkI128_no_err fun _ _ =>
    .bind checkI128_no_err fun _ _ => .bind i128Div_no_err fun _ _ => avoids_pure

theorem computeSeizeAmount_no_err :
    Avoids (.err e) (computeSeizeAmount collateral bond price target) := by
  unfold computeSeizeAmount
  split
  · exact avoids_pure
  apply Avoids.bind checkI128_no_err
  intro _ _
  apply Avoids.bind checkI128_no_err
  intro _ _
  apply Avoids.bind checkI128_no_err
  intro _ _
  apply Avoids.bind checkI128_no_err
  intro _ _
  apply Avoids.bind checkI128_no_err
  intro _ _
  apply Avoids.bind checkI128_no_err
  intro _ _
  apply Avoids.bind checkI128_no_err
  intro _ _
  split
  · exact avoids_pure
  · exact i128Div_no_err

theorem seizure_no_err : Avoids (.err e) (seizure collateral bond price s) := by
  unfold seizure
  exact .bind computeSeizeAmount_no_err fun _ _ => .bind checkI128_no_err fun _ _ =>
    .bind i128Div_no_err fun _ _ => .bind checkI128_no_err fun _ _ =>
    .bind i128Div_no_err fun _ _ => avoids_pure

theorem transfer_no_err {tok : Token T} {env : Env own} :
    Avoids (.err e) (transfer tok env s t source target amount) := by
  apply Avoids.bind expect_no_err
  intro _ _
  unfold Token.call
  split <;> nofun

theorem tryFetchOraclePrice_no_err {net : Peers P} :
    Avoids (.err e) (tryFetchOraclePrice net peers s) := by
  unfold tryFetchOraclePrice
  split
  · nofun
  · exact .bind expect_no_err fun _ _ => avoids_pure

theorem effectivePrice_liquidatable {env : Env own} :
    Avoids (.err .cannotLiquidate) (effectivePrice env oracle s) := by
  unfold effectivePrice
  split
  · apply Avoids.bind
    · unfold u64Add
      split <;> nofun
    intro expiry _
    apply Avoids.bind
    · unfold require
      split <;> nofun
    · exact fun _ _ => avoids_pure
  · exact avoids_pure

section
variable {own : Address} {tok : Token T} {net : Peers P} {env : Env own} {w w' : World T P}

theorem currentPrice_iff : (∃ oracle,
    tryFetchOraclePrice net peers s = (.ok oracle : Outcome ContractError _) ∧
      effectivePrice env oracle s = .ok price) ↔
    CurrentPrice net peers env.timestamp s price := by
  rw [CurrentPrice, tryFetchOraclePrice]
  cases s.oracleFeed with
  | none =>
    constructor
    · rintro ⟨_, h, hp⟩
      cases h
      exact (pure_ok.mp hp).symm
    · rintro rfl
      exact ⟨none, rfl, rfl⟩
  | some feed =>
    simp only [bind_ok, expect_ok, pure_ok]
    constructor
    · rintro ⟨_, ⟨op, hop, rfl⟩, hp⟩
      simp only [effectivePrice, bind_ok, u64Add_ok, require_ok, pure_ok] at hp
      obtain ⟨_, ⟨hfits, rfl⟩, _, hfresh, rfl⟩ := hp
      exact ⟨op.timestamp, hop, hfits, hfresh⟩
    · rintro ⟨seen, hop, hfits, hfresh⟩
      refine ⟨_, ⟨_, hop, rfl⟩, ?_⟩
      simp only [effectivePrice, bind_ok, u64Add_ok, require_ok, pure_ok]
      exact ⟨_, ⟨hfits, rfl⟩, (), hfresh, trivial⟩

theorem liquidate_rejects_iff (hpaused : w.bond.paused.getD false = false)
    (hk : env.authorized keeper = true) (hp : getPosition w.bond positionId = some p) :
    liquidate tok env net keeper positionId w = .error (.err .cannotLiquidate) ↔
      p.bondAmount = 0 ∨ p.collateralAmount = 0 ∨
        ∃ price, CurrentPrice net w.peers env.timestamp w.bond price ∧ ∃ ratio,
          calculateCollateralRatioOracle p.collateralAmount p.bondAmount price =
            (.ok ratio : Outcome ContractError Nat) ∧ getLiquidationThreshold w.bond ≤ ratio := by
  have hpaused' : requireNotPaused w.bond = .ok () := require_ok.mpr hpaused
  have hk' : (env.requireAuth keeper : Outcome ContractError Unit) = .ok () := requireAuth_ok.mpr hk
  have hp' := okOr_ok (e := ContractError.positionNotFound).mpr hp
  simp only [liquidate, bind_of_ok hpaused', bind_of_ok hk', bind_of_ok hp']
  by_cases hne : p.bondAmount ≠ 0 ∧ p.collateralAmount ≠ 0
  · rw [require_bind_of hne]
    constructor
    · intro h
      by_contra hn
      revert h
      change Avoids (.err ContractError.cannotLiquidate) _
      apply Avoids.bind tryFetchOraclePrice_no_err
      intro oracle ho
      apply Avoids.bind effectivePrice_liquidatable
      intro price hprice
      apply Avoids.bind oracleRatio_no_err
      intro ratio hr
      have hlt : ratio < getLiquidationThreshold w.bond := by
        by_contra hle
        exact hn (.inr (.inr ⟨price, currentPrice_iff.mp ⟨oracle, ho, hprice⟩, ratio, hr,
          not_lt.mp hle⟩))
      rw [require_bind_of hlt]
      apply Avoids.bind seizure_no_err
      intro _ _
      apply Avoids.bind checkI128_no_err
      intro _ _
      apply Avoids.bind checkI128_no_err
      intro _ _
      apply Avoids.bind oracleRatio_no_err
      intro _ _
      split
      · exact .bind transfer_no_err fun _ _ => avoids_pure
      · exact avoids_pure
    · rintro (hb | hc | ⟨price, hprice, ratio, hr, hle⟩)
      · exact absurd hb hne.1
      · exact absurd hc hne.2
      · obtain ⟨oracle, ho, hprice⟩ := currentPrice_iff.mpr hprice
        rw [bind_of_ok ho, bind_of_ok hprice, bind_of_ok hr, require_bind_of_not (not_lt.mpr hle)]
  · rw [require_bind_of_not hne]
    exact iff_of_true rfl (by tauto)

/-- The bond a position carries. -/
def bondOf (s : State) (positionId : BytesN 32) : Int :=
  ((getPosition s positionId).map CollateralPosition.bondAmount).getD 0

theorem positionOr_bond (env : Env own) (owner : Address) (positionId : BytesN 32) (s : State) :
    (positionOr env owner positionId s).bondAmount = bondOf s positionId := by
  rw [positionOr, bondOf]
  cases getPosition s positionId <;> rfl

/-- A position with these amounts is empty, or it withstands the price of the moment. -/
def Safe (net : Peers P) (peers : P) (now : Nat) (s : State) (collateral bond : Int) : Prop :=
  bond = 0 ∨ collateral = 0 ∨ ∃ price, CurrentPrice net peers now s price ∧
    Withstands collateral bond price (getLiquidationThreshold s)

theorem liquidate_rejects_safe (hpaused : w.bond.paused.getD false = false)
    (hk : env.authorized keeper = true) (hbooks : Books w.bond)
    (hp : getPosition w.bond positionId = some p) :
    liquidate tok env net keeper positionId w = .error (.err .cannotLiquidate) ↔
      Safe net w.peers env.timestamp w.bond p.collateralAmount p.bondAmount := by
  rw [liquidate_rejects_iff hpaused hk hp, Safe]
  by_cases hb : p.bondAmount = 0
  · exact iff_of_true (.inl hb) (.inl hb)
  · have hpos : 0 < p.bondAmount := lt_of_le_of_ne (hbooks.nonneg hp).2 (Ne.symm hb)
    have ht : 0 < getLiquidationThreshold w.bond := by
      have hl := hbooks.threshold
      omega
    simp only [reaches_iff hpos ht]

/-- The `f64` ratio is the exact percentage, rounded down. -/
def Floored (collateral bond : Int) : Prop :=
  calculateCollateralRatio collateral bond = (100 * collateral / bond).toNat

/-- The percentage at a price is computed without overflow, and has room in a `u32`. -/
def Fits (collateral bond price : Int) : Prop :=
  InI128 (collateral * price * 100) ∧ InI128 (priceScale * bond) ∧
    RatioBelow collateral bond price (2 ^ 32)

/-- At a price of one to one or better a position that passed the test of an opening withstands a
liquidation. -/
theorem checked_withstands {threshold : Nat} (hb : 0 < bond) (hc : 0 ≤ collateral)
    (ht : threshold ≤ calculateCollateralRatio collateral bond) (hf : Floored collateral bond)
    (hprice : priceScale ≤ price) (hr : Fits collateral bond price) :
    Withstands collateral bond price threshold := by
  obtain ⟨hv, hs, hu⟩ := hr
  have hd : 0 < priceScale * bond := mul_pos priceScale_pos hb
  have hq : 0 ≤ 100 * collateral / bond := Int.ediv_nonneg (by omega) hb.le
  have ht' : (threshold : Int) ≤ 100 * collateral / bond := by
    rw [hf] at ht
    omega
  have hle : (threshold : Int) * (priceScale * bond) ≤ collateral * price * 100 := by
    calc (threshold : Int) * (priceScale * bond)
        = threshold * bond * priceScale := by ring
      _ ≤ 100 * collateral * priceScale :=
          mul_le_mul_of_nonneg_right ((Int.le_ediv_iff_mul_le hb).mp ht') priceScale_pos.le
      _ ≤ 100 * collateral * price := mul_le_mul_of_nonneg_left hprice (by omega)
      _ = collateral * price * 100 := by ring
  have hge : (threshold : Int) ≤ (collateral * price * 100).tdiv (priceScale * bond) := by
    have h₀ : 0 ≤ collateral * price * 100 :=
      le_trans (mul_nonneg (Int.natCast_nonneg _) hd.le) hle
    rw [Int.tdiv_eq_ediv_of_nonneg h₀]
    exact (Int.le_ediv_iff_mul_le hd).mpr hle
  have hlt := (tdiv_lt_iff hd (by decide)).mpr hu
  exact ⟨hv, hs, by omega⟩

theorem issueBond_checks {s s' : State} (h : issueBond env owner positionId amount s = .ok s') :
    s.paused.getD false = false ∧ getLiquidationThreshold s ≤
      calculateCollateralRatio (collateralOf s positionId) (bondOf s positionId + amount) := by
  simp only [issueBond, bind_ok, requireNotPaused, require_ok, i128Add_ok] at h
  obtain ⟨_, hp, _, _, _, _, _, _, _, ⟨_, rfl⟩, _, hr, _⟩ := h
  rw [positionOr_collateral, positionOr_bond] at hr
  exact ⟨hp, hr⟩

theorem withdrawCollateral_checks
    (h : withdrawCollateral tok env owner positionId amount w = .ok w') :
    w.bond.paused.getD false = false ∧ (bondOf w.bond positionId ≤ 0 ∨
      getLiquidationThreshold w.bond ≤ calculateCollateralRatio
        (collateralOf w.bond positionId - amount) (bondOf w.bond positionId)) := by
  simp only [withdrawCollateral, bind_ok, requireNotPaused, require_ok, okOr_ok, i128Sub_ok] at h
  obtain ⟨_, hp, _, _, _, _, p, hget, _, _, _, _, _, ⟨_, rfl⟩, _, hr, _⟩ := h
  have hbond : bondOf w.bond positionId = p.bondAmount := by
    rw [bondOf, hget]
    rfl
  rw [collateralOf_some hget, hbond]
  exact ⟨hp, hr⟩

/-- What an opening leaves behind can be compared at a price that the settings give. -/
def Comparable (net : Peers P) (peers : P) (now : Nat) (s : State) (price collateral bond : Int) :
    Prop :=
  CurrentPrice net peers now s price ∧ Floored collateral bond ∧ Fits collateral bond price

/-- At a price nobody can enter a position that a keeper may liquidate at the same moment. -/
def OpensSafely (price : Int) : Prop :=
  ∀ {T P : Type} {own : Address} (tok : Token T) (net : Peers P) (t₀ : T) (p₀ : P) (w : World T P),
    (machine tok net own).Reachable ⟨.fresh, t₀, p₀⟩ w →
    ∀ (env env' : Env own) (owner keeper : Address) (positionId : BytesN 32) (amount : Int),
    env'.timestamp = env.timestamp → env'.authorized keeper = true →
    (∀ s', issueBond env owner positionId amount w.bond = .ok s' →
      Comparable net w.peers env.timestamp w.bond price (collateralOf w.bond positionId)
        (bondOf w.bond positionId + amount) →
      liquidate tok env' net keeper positionId { w with bond := s' } =
        .error (.err .cannotLiquidate)) ∧
    ∀ w', withdrawCollateral tok env owner positionId amount w = .ok w' →
      bondOf w.bond positionId = 0 ∨ Comparable net w.peers env.timestamp w.bond price
        (collateralOf w.bond positionId - amount) (bondOf w.bond positionId) →
      liquidate tok env' net keeper positionId w' = .error (.err .cannotLiquidate)

theorem opens_safely (hprice : priceScale ≤ price) : OpensSafely price := by
  intro T P own tok net t₀ p₀ w hr env env' owner keeper positionId amount hnow hk
  have hbooks := reachable_books hr
  constructor
  · intro s' hs ⟨hcur, hf, hfits⟩
    obtain ⟨hpaused, hratio⟩ := issueBond_checks hs
    have hbooks' := issueBond_books hbooks hs
    obtain ⟨p, rfl, _, ha, rfl⟩ := issueBond_ok hs
    refine (liquidate_rejects_safe (w := { w with bond := putPosition positionId _ w.bond })
      hpaused hk hbooks' (Store.get_set_self ..)).mpr (.inr (.inr ⟨price, hnow ▸ hcur, ?_⟩))
    have hb := (hbooks.positionOr_nonneg env owner positionId).2
    rw [positionOr_bond] at hb
    rw [positionOr_collateral, positionOr_bond]
    exact checked_withstands (add_pos_of_nonneg_of_pos hb ha)
      (hbooks.collateral_nonneg positionId) hratio hf hprice hfits
  · intro w' hs hcmp
    obtain ⟨hpaused, hratio⟩ := withdrawCollateral_checks hs
    have hbooks' := (withdrawCollateral_books hbooks hs).1
    obtain ⟨_, hpeers, _, p, hp, _, hle, hw⟩ := withdrawCollateral_ok hs
    obtain ⟨s', t', p'⟩ := w'
    cases hw
    cases hpeers
    have hbond : bondOf w.bond positionId = p.bondAmount := by
      rw [bondOf, hp]
      rfl
    rw [collateralOf_some hp, hbond] at hcmp hratio
    refine (liquidate_rejects_safe
      (w := ⟨putTotalCollateral _ (putPosition positionId _ w.bond), t', w.peers⟩)
      hpaused hk hbooks' (Store.get_set_self ..)).mpr ?_
    rcases hcmp with hz | ⟨hcur, hf, hfits⟩
    · exact .inl hz
    · rcases (hbooks.nonneg hp).2.lt_or_eq with hb | hz
      · exact .inr (.inr ⟨price, hnow ▸ hcur, checked_withstands hb (sub_nonneg.mpr hle)
          (hratio.resolve_left (not_le.mpr hb)) hf hprice hfits⟩)
      · exact .inl hz.symm

end

/-! At a lower price there is a position that can be liquidated at once. -/

/-- A feed that gives one price. -/
def quoting (price : Int) : Peers Unit :=
  ⟨fun _ _ => some ⟨price, 0⟩, fun _ _ _ _ _ _ _ _ _ => none⟩

/-- A feed is set, and there is collateral of 120. -/
def quotedCalls : List (Action ⟨0⟩ (Address → Int) Unit) :=
  [opening, .call (.signed ⟨0⟩ 0) (.setOracleFeed ⟨1⟩ ⟨5⟩ 3600),
    .call (.signed ⟨0⟩ 0) (.depositCollateral ⟨2⟩ (.replicate 32 7) 120)]

def quoted (price : Int) : World (Address → Int) Unit :=
  ((machine plainToken (quoting price) ⟨0⟩).replay deployed quotedCalls).2

theorem quoted_price (hs : s.oracleFeed = some ⟨5⟩) (hq : s.oracleStaleness = some 3600) :
    CurrentPrice (quoting price) () 0 s price' ↔ price' = price := by
  rw [CurrentPrice, hs, hq]
  constructor
  · rintro ⟨_, h, _⟩
    cases h
    rfl
  · rintro rfl
    exact ⟨0, rfl, by decide, by decide⟩

theorem cheap_falls (hp : 0 ≤ price) (hprice : price < priceScale) :
    ¬ Withstands 120 100 price 120 := by
  rintro ⟨_, _, hle⟩
  have hd : priceScale * 100 = 1000000000 := rfl
  rw [priceScale] at hprice
  have hq : 120 * price * 100 / 1000000000 < 120 := by omega
  rw [Int.tdiv_eq_ediv_of_nonneg (by omega), hd, Int.emod_eq_of_lt (by omega) (by omega)] at hle
  omega

theorem opens_unsafely (hp : 0 ≤ price) (hprice : price < priceScale) : ¬ OpensSafely price := by
  intro hall
  have hs : (commit (issueBond (.signed ⟨0⟩ 0) ⟨2⟩ (.replicate 32 7) 100 (quoted 0).bond)
      fun s => (getPosition s (.replicate 32 7), s.paused.getD false, s.oracleFeed,
        s.oracleStaleness, getLiquidationThreshold s)) =
      some (some ⟨⟨2⟩, 120, 100, 0⟩, false, some ⟨5⟩, some 3600, 120) := by decide +kernel
  obtain ⟨s', hok, he⟩ := commit_some.mp hs
  simp only [Prod.mk.injEq] at he
  obtain ⟨hget, hpaused, hfeed, hstale, hth⟩ := he
  have hquoted : CurrentPrice (quoting price) () 0 (quoted price).bond price :=
    (quoted_price (by decide +kernel : (quoted 0).bond.oracleFeed = some ⟨5⟩)
      (by decide +kernel : (quoted 0).bond.oracleStaleness = some 3600)).mpr rfl
  have hfloored : Floored 120 100 :=
    (by decide +kernel : calculateCollateralRatio 120 100 = (100 * 120 / 100 : Int).toNat)
  have hfits : Fits 120 100 price := by
    rw [priceScale] at hprice
    refine ⟨⟨by omega, by omega⟩, by decide, ?_⟩
    rw [RatioBelow, priceScale]
    omega
  have hk : (Env.signed ⟨0⟩ 0).authorized ⟨3⟩ = true := by decide
  have hrej := (hall plainToken (quoting price) _ _ (quoted price)
    ⟨_, (machine plainToken (quoting price) ⟨0⟩).run_replay deployed quotedCalls⟩
    (.signed ⟨0⟩ 0) (.signed ⟨0⟩ 0) ⟨2⟩ ⟨3⟩ (.replicate 32 7) 100 rfl hk).1 s' hok
    ⟨hquoted, hfloored, hfits⟩
  rcases (liquidate_rejects_iff (w := ⟨s', _, ()⟩) hpaused hk hget).mp hrej with
    hz | hz | ⟨price', hcur, hratio⟩
  · cases hz
  · cases hz
  · cases (quoted_price hfeed hstale).mp hcur
    rw [hth] at hratio
    exact cheap_falls hp hprice ((reaches_iff (by decide) (by decide)).mp hratio)

/-- The price decides: from one to one on the two tests agree, and below it the test of an opening,
which does not look at the feed, lets a position pass that can be liquidated at once. -/
theorem opening_safe_iff (hp : 0 ≤ price) : OpensSafely price ↔ priceScale ≤ price := by
  constructor
  · intro h
    by_contra hlt
    exact opens_unsafely hp (not_le.mp hlt) h
  · exact opens_safely

theorem opening_safe_iff_halved : OpensSafely priceScale ∧ ¬ OpensSafely 5000000 := by
  constructor
  · exact (opening_safe_iff priceScale_pos.le).mpr le_rfl
  · exact (opening_safe_iff (by decide)).not.mpr (by decide)

def halfPriced : World (Address → Int) Unit :=
  ((machine plainToken (quoting 5000000) ⟨0⟩).replay deployed
    [opening, .call (.signed ⟨0⟩ 0) (.setOracleFeed ⟨1⟩ ⟨5⟩ 3600),
      .call (.signed ⟨0⟩ 0) (.depositCollateral ⟨2⟩ (.replicate 32 7) 150)]).2

/-- A bond of 100 is issued on collateral of 150 that is worth 75. -/
theorem opened_liquidatable :
    ¬ ∀ w, (machine plainToken (quoting 5000000) ⟨0⟩).Reachable deployed w →
      ∀ (env env' : Env ⟨0⟩) owner keeper positionId amount s',
      env'.timestamp = env.timestamp → env'.authorized keeper = true →
      Floored (collateralOf w.bond positionId) (bondOf w.bond positionId + amount) →
      issueBond env owner positionId amount w.bond = .ok s' →
      liquidate plainToken env' (quoting 5000000) keeper positionId { w with bond := s' } =
        .error (.err .cannotLiquidate) := by
  intro hall
  have hr : (machine plainToken (quoting 5000000) ⟨0⟩).Reachable deployed halfPriced :=
    ⟨_, (machine plainToken (quoting 5000000) ⟨0⟩).run_replay deployed _⟩
  have hs : (commit (issueBond (.signed ⟨0⟩ 0) ⟨2⟩ (.replicate 32 7) 100 halfPriced.bond)
      fun s => (commit (liquidate plainToken (.signed ⟨0⟩ 0) (quoting 5000000) ⟨3⟩
        (.replicate 32 7) { halfPriced with bond := s }) id).isSome) = some true := by
    decide +kernel
  obtain ⟨s', hok, hsome⟩ := commit_some.mp hs
  obtain ⟨w', hw⟩ := exists_ok hsome
  have hread : calculateCollateralRatio (collateralOf halfPriced.bond (.replicate 32 7))
      (bondOf halfPriced.bond (.replicate 32 7) + 100) =
      (100 * collateralOf halfPriced.bond (.replicate 32 7) /
        (bondOf halfPriced.bond (.replicate 32 7) + 100)).toNat := by decide +kernel
  have hrej := hall _ hr (.signed ⟨0⟩ 0) (.signed ⟨0⟩ 0) ⟨2⟩ ⟨3⟩ (.replicate 32 7) 100 s' rfl
    (by decide) hread hok
  cases hw.symm.trans hrej

end Shelterflex.BondCollateral
