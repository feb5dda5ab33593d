import Shelterflex.BondCollateral.Liquidation

namespace Shelterflex.BondCollateral
open Lib
set_option autoImplicit true

def collateralOf (s : State) (positionId : BytesN 32) : Int :=
  ((getPosition s positionId).map CollateralPosition.collateralAmount).getD 0

theorem collateralOf_some (h : getPosition s positionId = some p) :
    collateralOf s positionId = p.collateralAmount := by
  rw [collateralOf, h]
  rfl

theorem collateralOf_finite (s : State) : (collateralOf s).support.Finite := by
  apply s.bondCollateral.support_finite
  intro positionId h
  rw [collateralOf, getPosition, h]
  rfl

theorem positionOr_collateral (env : Env own) (owner : Address) (positionId : BytesN 32)
    (s : State) :
    (positionOr env owner positionId s).collateralAmount = collateralOf s positionId := by
  rw [positionOr, collateralOf]
  cases getPosition s positionId <;> rfl

/-- The books of the contract: the total is the sum over the stored positions, no amount of a
position is negative, and nothing is paid in before there is a token. -/
structure Books (s : State) : Prop where
  total : getTotalCollateral s = ∑ᶠ positionId, collateralOf s positionId
  nonneg : ∀ {positionId p}, getPosition s positionId = some p →
    0 ≤ p.collateralAmount ∧ 0 ≤ p.bondAmount
  fits : InI128 (getTotalCollateral s)
  threshold : 100 ≤ getLiquidationThreshold s
  unpaid : s.token = none → getTotalCollateral s = 0

theorem Books.collateral_nonneg (h : Books s) (positionId : BytesN 32) :
    0 ≤ collateralOf s positionId := by
  rw [collateralOf]
  cases hp : getPosition s positionId with
  | none => exact le_rfl
  | some p => exact (h.nonneg hp).1

theorem Books.collateral_le (h : Books s) (positionId : BytesN 32) :
    collateralOf s positionId ≤ getTotalCollateral s := by
  rw [h.total]
  exact le_finsum (collateralOf_finite s) h.collateral_nonneg positionId

theorem Books.positionOr_nonneg (h : Books s) (env : Env own) (owner : Address)
    (positionId : BytesN 32) : 0 ≤ (positionOr env owner positionId s).collateralAmount ∧
      0 ≤ (positionOr env owner positionId s).bondAmount := by
  rw [positionOr]
  cases hp : getPosition s positionId with
  | none => exact ⟨le_rfl, le_rfl⟩
  | some p => exact h.nonneg hp

theorem Books.put (h : Books s) (hpos : s'.bondCollateral = s.bondCollateral.set positionId p)
    (hc : 0 ≤ p.collateralAmount) (hb : 0 ≤ p.bondAmount)
    (ht : getTotalCollateral s' =
      getTotalCollateral s - collateralOf s positionId + p.collateralAmount)
    (hf : InI128 (getTotalCollateral s'))
    (hl : getLiquidationThreshold s' = getLiquidationThreshold s)
    (hu : s'.token = none → getTotalCollateral s' = 0) : Books s' where
  total := by
    have hput : collateralOf s' positionId = p.collateralAmount := by
      rw [collateralOf, getPosition, hpos, Store.get_set_self]
      rfl
    have hne : ∀ i, i ≠ positionId → collateralOf s' i = collateralOf s i := by
      intro i hi
      rw [collateralOf, getPosition, hpos, Store.get_set_of_ne _ _ hi]
      rfl
    rw [finsum_change (collateralOf_finite s) positionId hne, hput, ← h.total]
    exact ht
  nonneg := by
    intro i q hq
    rw [getPosition, hpos, Store.get_set] at hq
    split at hq
    · cases hq
      exact ⟨hc, hb⟩
    · exact h.nonneg hq
  fits := hf
  threshold := hl ▸ h.threshold
  unpaid := hu

theorem Books.drop (h : Books s) (hpos : s'.bondCollateral = s.bondCollateral.remove positionId)
    (ht : getTotalCollateral s' = getTotalCollateral s - collateralOf s positionId)
    (hf : InI128 (getTotalCollateral s'))
    (hl : getLiquidationThreshold s' = getLiquidationThreshold s)
    (hu : s'.token = none → getTotalCollateral s' = 0) : Books s' where
  total := by
    have hput : collateralOf s' positionId = 0 := by
      rw [collateralOf, getPosition, hpos, Store.get_remove_self]
      rfl
    have hne : ∀ i, i ≠ positionId → collateralOf s' i = collateralOf s i := by
      intro i hi
      rw [collateralOf, getPosition, hpos, Store.get_remove_of_ne _ hi]
      rfl
    rw [finsum_change (collateralOf_finite s) positionId hne, hput, ← h.total, add_zero]
    exact ht
  nonneg := by
    intro i q hq
    rw [getPosition, hpos, Store.get_remove] at hq
    split at hq
    · cases hq
    · exact h.nonneg hq
  fits := hf
  threshold := hl ▸ h.threshold
  unpaid := hu

theorem Books.keep (h : Books s) (hpos : s'.bondCollateral = s.bondCollateral)
    (ht : getTotalCollateral s' = getTotalCollateral s) (hl : 100 ≤ getLiquidationThreshold s')
    (hu : s'.token = none → s.token = none) : Books s' where
  total := by
    have hc : collateralOf s' = collateralOf s := by
      funext positionId
      rw [collateralOf, getPosition, hpos]
      rfl
    rw [ht, hc]
    exact h.total
  nonneg := by
    intro i q hq
    rw [getPosition, hpos] at hq
    exact h.nonneg hq
  fits := ht ▸ h.fits
  threshold := hl
  unpaid hn := ht.trans (h.unpaid (hu hn))

theorem issueBond_books {env : Env own} (h : Books s)
    (hs : issueBond env owner positionId amount s = .ok s') : Books s' := by
  obtain ⟨p, rfl, _, ha, rfl⟩ := issueBond_ok hs
  have hp := h.positionOr_nonneg env owner positionId
  have ht : getTotalCollateral s = getTotalCollateral s - collateralOf s positionId +
      (positionOr env owner positionId s).collateralAmount := by
    rw [positionOr_collateral, sub_add_cancel]
  exact h.put rfl hp.1 (add_nonneg hp.2 ha.le) ht h.fits rfl h.unpaid

theorem redeemBond_books {env : Env own} (h : Books s)
    (hs : redeemBond env owner positionId amount s = .ok s') : Books s' := by
  obtain ⟨p, hp, _, _, hle, rfl⟩ := redeemBond_ok hs
  have ht : getTotalCollateral s =
      getTotalCollateral s - collateralOf s positionId + p.collateralAmount := by
    rw [collateralOf_some hp, sub_add_cancel]
  exact h.put rfl (h.nonneg hp).1 (sub_nonneg.mpr hle) ht h.fits rfl h.unpaid

/-- What a liquidation takes: at least one unit, at most the collateral, and no more bond than
there is; the keeper gets a part of what is taken. -/
theorem seizure_bounds (hc : 0 < collateral)
    (h : seizure collateral bond price s = .ok taken) :
    0 < taken.seizeAmount ∧ taken.seizeAmount ≤ collateral ∧ taken.bondReduction ≤ bond ∧
      taken.keeperReward ≤ taken.seizeAmount := by
  simp only [seizure, bind_ok, pure_ok] at h
  obtain ⟨raw, _, _, _, _, _, _, _, _, _, rfl⟩ := h
  have hpos : 0 < min (max raw 1) collateral := lt_min (lt_max_of_lt_right one_pos) hc
  exact ⟨hpos, min_le_right _ _, min_le_right _ _, min_le_right _ _⟩

theorem settlePosition_books (h : Books s) (hp : getPosition s positionId = some p)
    (hz₀ : 0 ≤ seized) (hz : seized ≤ p.collateralAmount) (hb : 0 ≤ newBond) :
    Books (settlePosition positionId p seized (p.collateralAmount - seized) newBond s) ∧
      getTotalCollateral (settlePosition positionId p seized (p.collateralAmount - seized)
        newBond s) ≤ getTotalCollateral s - seized := by
  have hle := h.collateral_le positionId
  rw [collateralOf_some hp] at hle
  have hfits : ∀ x, 0 ≤ x → x ≤ p.collateralAmount → InI128 (getTotalCollateral s - x) :=
    fun x h₀ hx => h.fits.of_nonneg (by omega) (by omega)
  have hunpaid : ∀ x, 0 ≤ x → x ≤ p.collateralAmount → s.token = none →
      getTotalCollateral s - x = 0 := by
    intro x h₀ hx hn
    have hz := h.unpaid hn
    omega
  unfold settlePosition
  split
  · have hsat := i128SaturatingSub_eq (hfits _ (h.nonneg hp).1 le_rfl)
    have ht : getTotalCollateral (putTotalCollateral
        (i128SaturatingSub (getTotalCollateral s) p.collateralAmount)
        (removePosition positionId s)) = getTotalCollateral s - p.collateralAmount := hsat
    constructor
    · apply h.drop rfl
      · rw [collateralOf_some hp]
        exact ht
      · exact ht.symm ▸ hfits _ (h.nonneg hp).1 le_rfl
      · rfl
      · exact fun hn => ht.trans (hunpaid _ (h.nonneg hp).1 le_rfl hn)
    · exact ht.trans_le (by omega)
  · have hsat := i128SaturatingSub_eq (hfits _ hz₀ hz)
    constructor
    · apply h.put rfl (sub_nonneg.mpr hz) hb
      · rw [collateralOf_some hp]
        exact hsat.trans (sub_add_sub_cancel _ _ _).symm
      · exact (show InI128 (i128SaturatingSub _ _) from hsat ▸ hfits _ hz₀ hz)
      · rfl
      · exact fun hn => hsat.trans (hunpaid _ hz₀ hz hn)
    · exact hsat.le

/-- The contract holds at least its total collateral. -/
def Covered (tok : Token T) (own : Address) (w : World T P) : Prop :=
  getTotalCollateral w.bond ≤ tok.balance w.token own

section
variable {own : Address} {tok : Token T} {net : Peers P} {env : Env own} {w w' : World T P}

theorem depositCollateral_books (h : Books w.bond)
    (hs : depositCollateral tok env owner positionId amount w = .ok w') :
    Books w'.bond ∧ (tok.Exact → Covered tok own w → Covered tok own w') := by
  obtain ⟨ha, hf, _, hauth, ⟨_, ht⟩, p, rfl, _, hw⟩ := depositCollateral_ok hs
  have hp := h.positionOr_nonneg env owner positionId
  have htot : getTotalCollateral w.bond + amount =
      getTotalCollateral w.bond - collateralOf w.bond positionId +
        ((positionOr env owner positionId w.bond).collateralAmount + amount) := by
    rw [positionOr_collateral]
    ring
  constructor
  · rw [hw]
    apply h.put rfl
    · exact add_nonneg hp.1 ha.le
    · exact hp.2
    · exact htot
    · exact hf
    · rfl
    · exact fun hn => absurd hn (depositCollateral_token hs)
  · intro htok hc
    rw [Covered, hw, htok.inflow ht (env.ne_own hauth)]
    exact add_le_add_left hc amount

theorem withdrawCollateral_books (h : Books w.bond)
    (hs : withdrawCollateral tok env owner positionId amount w = .ok w') :
    Books w'.bond ∧ (tok.Exact → Covered tok own w → Covered tok own w') := by
  obtain ⟨ha, _, ⟨_, ht⟩, p, hp, _, hle, hw⟩ := withdrawCollateral_ok hs
  have hcol := h.collateral_le positionId
  rw [collateralOf_some hp] at hcol
  have htot : getTotalCollateral w.bond - amount =
      getTotalCollateral w.bond - collateralOf w.bond positionId +
        (p.collateralAmount - amount) := by
    rw [collateralOf_some hp]
    ring
  constructor
  · rw [hw]
    apply h.put rfl
    · exact sub_nonneg.mpr hle
    · exact (h.nonneg hp).2
    · exact htot
    · exact h.fits.of_nonneg (sub_nonneg.mpr (hle.trans hcol)) (sub_le_self _ ha.le)
    · rfl
    · exact fun hn => absurd hn (withdrawCollateral_token hs)
  · intro htok hc
    rw [Covered, hw]
    exact (sub_le_sub_right hc amount).trans (htok.outflow_le ht ha.le)

theorem liquidate_books (h : Books w.bond)
    (hs : liquidate tok env net keeper positionId w = .ok w') :
    Books w'.bond ∧ (tok.Exact → Covered tok own w → Covered tok own w') := by
  obtain ⟨_, p, price, taken, hp, hcol, _, hz, hw, htoken⟩ := liquidate_ok hs
  obtain ⟨hz₀, hzle, hb, hk⟩ := seizure_bounds (lt_of_le_of_ne (h.nonneg hp).1 hcol.symm) hz
  obtain ⟨hbooks, htot⟩ := settlePosition_books h hp hz₀.le hzle (sub_nonneg.mpr hb)
  constructor
  · exact hw ▸ hbooks
  · intro htok hc
    rw [Covered] at hc ⊢
    rw [hw]
    split at htoken
    · rename_i hpos
      obtain ⟨_, ht⟩ := htoken
      have hout := htok.outflow_le ht hpos.le
      omega
    · rw [htoken]
      omega

theorem Books.unmoved (h : Books w.bond)
    (hpos : w'.bond.bondCollateral = w.bond.bondCollateral)
    (ht : getTotalCollateral w'.bond = getTotalCollateral w.bond)
    (hl : 100 ≤ getLiquidationThreshold w'.bond) (hu : w'.bond.token = none → w.bond.token = none)
    (htoken : w'.token = w.token) :
    Books w'.bond ∧ (tok.Exact → Covered tok own w → Covered tok own w') := by
  constructor
  · exact h.keep hpos ht hl hu
  · intro _ hc
    rw [Covered, ht, htoken]
    exact hc

theorem invoke_books (h : Books w.bond) (hu : Unopened w.bond)
    (hs : invoke tok net env w c = some (w', o)) :
    Books w'.bond ∧ (tok.Exact → Covered tok own w → Covered tok own w') := by
  cases invoke_writes hs with
  | start _ hn hw htoken _ =>
    have hz : getTotalCollateral w.bond = 0 := h.unpaid (hu.token hn)
    apply h.unmoved
    · rw [hw]
      rfl
    · rw [hw, hz]
      rfl
    · rw [hw]
      exact (by decide : 100 ≤ 120)
    · exact fun _ => hu.token hn
    · exact htoken
  | settings _ _ hcfg htoken _ =>
    have ht : getTotalCollateral w'.bond = getTotalCollateral w.bond := by
      rw [getTotalCollateral, hcfg.total]
      rfl
    exact h.unmoved hcfg.positions ht (hcfg.threshold h.threshold) (fun hn => hcfg.token ▸ hn)
      htoken
  | inspectors _ hw htoken =>
    apply h.unmoved
    · rw [hw]
    · rw [hw]
      rfl
    · rw [hw]
      exact h.threshold
    · rw [hw]
      exact id
    · exact htoken
  | positions hc _ _ =>
    cases c with
    | depositCollateral owner positionId amount =>
      obtain ⟨_, hok, he⟩ := commit_some.mp hs
      cases he
      exact depositCollateral_books h hok
    | withdrawCollateral owner positionId amount =>
      obtain ⟨_, hok, he⟩ := commit_some.mp hs
      cases he
      exact withdrawCollateral_books h hok
    | liquidate keeper positionId =>
      obtain ⟨_, hok, he⟩ := commit_some.mp hs
      cases he
      exact liquidate_books h hok
    | issueBond owner positionId amount =>
      obtain ⟨_, hok, he⟩ := commit_some.mp hs
      cases he
      obtain ⟨p, _, _, _, rfl⟩ := issueBond_ok hok
      exact ⟨issueBond_books h hok, fun _ hc => hc⟩
    | redeemBond owner positionId amount =>
      obtain ⟨_, hok, he⟩ := commit_some.mp hs
      cases he
      obtain ⟨p, _, _, _, _, rfl⟩ := redeemBond_ok hok
      exact ⟨redeemBond_books h hok, fun _ hc => hc⟩
    | _ => cases hc

theorem act_books {a : Action own T P} (h : Books w.bond) (hu : Unopened w.bond)
    (hs : act tok net w a = some (w', o)) :
    Books w'.bond ∧ (tok.Exact → Covered tok own w → Covered tok own w') := by
  cases a with
  | call env c => exact invoke_books h hu hs
  | traffic t p =>
    simp only [act, Option.ite_none_right_eq_some, Option.some.injEq, Prod.mk.injEq] at hs
    obtain ⟨hb, rfl, _⟩ := hs
    exact ⟨h, fun _ hc => hc.trans hb⟩

theorem Books.fresh : Books .fresh where
  total := by
    have hc : ∀ i, collateralOf .fresh i = 0 := fun _ => rfl
    rw [finsum_congr hc, finsum_zero]
    rfl
  nonneg := nofun
  fits := inI128_zero
  threshold := (by decide : 100 ≤ 120)
  unpaid _ := rfl

theorem reachable_books (h : (machine tok net own).Reachable ⟨.fresh, t₀, p₀⟩ w) :
    Books w.bond := by
  apply And.left (b := Unopened w.bond)
  apply h.invariant (P := fun w => Books w.bond ∧ Unopened w.bond) ⟨.fresh, .fresh⟩
  intro s a s' o ⟨hb, hu⟩ hs
  exact ⟨(act_books hb hu hs).1, act_unopened hu hs⟩

theorem reachable_covered (htok : tok.Exact) (hb : 0 ≤ tok.balance t₀ own)
    (h : (machine tok net own).Reachable ⟨.fresh, t₀, p₀⟩ w) : Covered tok own w := by
  obtain ⟨t, hr⟩ := h
  apply hr.invariant_on (C := fun _ => True) (P := fun _ => Covered tok own) (fun _ _ => trivial) hb
  intro t s a s' o hrun hc hs _
  exact (act_books (reachable_books ⟨t, hrun⟩) (reachable_unopened ⟨t, hrun⟩) hs).2 htok hc

/-- The books balance in every state that is reached, and the token covers them. -/
theorem collateral_custody (htok : tok.Exact) (hb : 0 ≤ tok.balance t₀ own)
    (h : (machine tok net own).Reachable ⟨.fresh, t₀, p₀⟩ w) :
    getTotalCollateral w.bond = ∑ᶠ positionId, collateralOf w.bond positionId ∧
      (∀ positionId p, getPosition w.bond positionId = some p →
        0 ≤ p.collateralAmount ∧ 0 ≤ p.bondAmount) ∧
      getTotalCollateral w.bond ≤ tok.balance w.token own := by
  have hbooks := reachable_books h
  exact ⟨hbooks.total, fun _ _ hp => hbooks.nonneg hp, reachable_covered htok hb h⟩

end

/-- The fallen position is liquidated in part. -/
def seizedCalls : List (Action ⟨0⟩ (Address → Int) Unit) :=
  fallenCalls ++ [.call (.signed ⟨0⟩ 0) (.liquidate ⟨3⟩ (.replicate 32 7))]

theorem collateral_custody_seized :
    plainToken.balance (after seizedCalls).token ⟨0⟩ = 147 ∧
      getTotalCollateral (after seizedCalls).bond =
        ∑ᶠ positionId, collateralOf (after seizedCalls).bond positionId ∧
      (∀ positionId p, getPosition (after seizedCalls).bond positionId = some p →
        0 ≤ p.collateralAmount ∧ 0 ≤ p.bondAmount) ∧
      getTotalCollateral (after seizedCalls).bond ≤
        plainToken.balance (after seizedCalls).token ⟨0⟩ := by
  have hb : (0 : Int) ≤ plainToken.balance deployed.token ⟨0⟩ := by decide
  have hseized : plainToken.balance (after seizedCalls).token ⟨0⟩ = 147 := by decide +kernel
  exact ⟨hseized, collateral_custody plainToken_exact hb (reachable_after seizedCalls)⟩

/-! All owners can close their positions, in any order. -/

/-- The collateral of a position that belongs to `owner`; nothing for a position of others. -/
def collateralFor (s : State) (owner : Address) (positionId : BytesN 32) : Int :=
  if (getPosition s positionId).map CollateralPosition.owner = some owner then
    collateralOf s positionId
  else 0

theorem collateralFor_some (h : getPosition s positionId = some p) (owner : Address) :
    collateralFor s owner positionId = if p.owner = owner then p.collateralAmount else 0 := by
  simp only [collateralFor, collateralOf_some h, h, Option.map_some, Option.some.injEq]

theorem collateralFor_congr (h : getPosition s' positionId = getPosition s positionId)
    (owner : Address) : collateralFor s' owner positionId = collateralFor s owner positionId := by
  rw [collateralFor, collateralFor, collateralOf, collateralOf, h]

theorem collateralFor_finite (s : State) (owner : Address) :
    (collateralFor s owner).support.Finite := by
  apply (collateralOf_finite s).subset
  intro positionId hne hz
  apply hne
  rw [collateralFor, hz, ite_self]

/-- What an address owns: the tokens that it holds, and the collateral of its positions. -/
noncomputable def wealth (tok : Token T) (w : World T P) (owner : Address) : Int :=
  tok.balance w.token owner + ∑ᶠ positionId, collateralFor w.bond owner positionId

/-- The bond is redeemed, and the collateral is withdrawn. -/
def CollateralPosition.close (p : CollateralPosition) : CollateralPosition :=
  { p with collateralAmount := 0, bondAmount := 0 }

/-- The state of a contract whose positions can be closed. -/
structure Solid (tok : Token T) (own : Address) (w : World T P) : Prop where
  books : Books w.bond
  covered : Covered tok own w
  running : w.bond.paused.getD false = false

theorem getPosition_put : getPosition (putPosition positionId p s) i =
    if i = positionId then some p else getPosition s i :=
  Store.get_set ..

/-- What a position loses reaches its owner in tokens, so that nobody gains or loses. -/
theorem wealth_write {tok : Token T} {w w' : World T P}
    (hp : getPosition w.bond positionId = some p)
    (hpos : ∀ i, getPosition w'.bond i =
      if i = positionId then some q else getPosition w.bond i)
    (hq : q.owner = p.owner)
    (ht : tok.balance w'.token owner = tok.balance w.token owner +
      if owner = p.owner then p.collateralAmount - q.collateralAmount else 0) :
    wealth tok w' owner = wealth tok w owner := by
  have hne : ∀ i, i ≠ positionId →
      collateralFor w'.bond owner i = collateralFor w.bond owner i := by
    intro i hi
    apply collateralFor_congr
    rw [hpos, if_neg hi]
  have hget : getPosition w'.bond positionId = some q := by rw [hpos, if_pos rfl]
  rw [wealth, wealth, finsum_change (collateralFor_finite w.bond owner) positionId hne,
    collateralFor_some hp, collateralFor_some hget, hq, ht]
  by_cases ho : p.owner = owner
  · rw [if_pos ho, if_pos ho, if_pos ho.symm]
    ring
  · rw [if_neg ho, if_neg ho, if_neg (Ne.symm ho)]
    ring

section
variable {own : Address} {tok : Token T} {net : Peers P} {env : Env own} {w w' : World T P}

/-- The owner of a position can redeem its bond, whatever the collateral is worth. -/
theorem redeemBond_enabled (h : Solid tok own w) (hp : getPosition w.bond positionId = some p)
    (ha : env.authorized p.owner = true) (hb : 0 < p.bondAmount) :
    redeemBond env p.owner positionId p.bondAmount w.bond =
      .ok (putPosition positionId { p with bondAmount := 0 } w.bond) := by
  have hz : InI128 (p.bondAmount - p.bondAmount) := by
    rw [sub_self]
    exact inI128_zero
  simp only [redeemBond, requireNotPaused, bind_ok, require_ok, requireAuth_ok, okOr_ok,
    i128Sub_ok, pure_ok]
  exact ⟨(), h.running, (), ha, (), hb, p, hp, (), rfl, (), le_rfl, 0, ⟨hz, sub_self _⟩, rfl⟩

theorem withdrawCollateral_enabled (hh : tok.Honours) (h : Solid tok own w)
    (hp : getPosition w.bond positionId = some p) (ha : env.authorized p.owner = true)
    (hb : p.bondAmount ≤ 0) (hc : 0 < p.collateralAmount) :
    ∃ w', withdrawCollateral tok env p.owner positionId p.collateralAmount w = .ok w' := by
  have hz : InI128 (p.collateralAmount - p.collateralAmount) := by
    rw [sub_self]
    exact inI128_zero
  have hle := h.books.collateral_le positionId
  rw [collateralOf_some hp] at hle
  have hfits : InI128 (getTotalCollateral w.bond - p.collateralAmount) :=
    h.books.fits.of_nonneg (sub_nonneg.mpr hle) (sub_le_self _ hc.le)
  obtain ⟨token, htoken⟩ : ∃ token, w.bond.token = some token := by
    apply Option.ne_none_iff_exists'.mp
    intro hn
    have hz := h.books.unpaid hn
    omega
  obtain ⟨t, ht⟩ : ∃ t, (tok.call env w.token own p.owner p.collateralAmount :
      Outcome ContractError T) = .ok t := hh.pay env p.owner hc.le (hle.trans h.covered)
  simp only [withdrawCollateral, transfer, getToken, requireNotPaused, bind_ok, require_ok,
    requireAuth_ok, okOr_ok, expect_ok, i128Sub_ok, pure_ok]
  exact ⟨_, (), h.running, (), ha, (), hc, p, hp, (), rfl, (), le_rfl, _, ⟨hz, rfl⟩, (), .inl hb,
    t, ⟨token, htoken, ht⟩, _, ⟨hfits, rfl⟩, rfl⟩

/-- A call by which a position is closed. -/
def Closes (env : BytesN 32 → Env own) (positionId : BytesN 32)
    (e : Event (World T P) (Action own T P) Output) : Prop :=
  (∃ owner amount, e.input = .call (env positionId) (.redeemBond owner positionId amount)) ∨
    ∃ owner amount, e.input = .call (env positionId) (.withdrawCollateral owner positionId amount)

/-- One position moves to `q`, and what its owner has stays the same. -/
structure Settles (tok : Token T) (own : Address) (positionId : BytesN 32)
    (q : CollateralPosition) (w w' : World T P) : Prop where
  solid : Solid tok own w'
  position : ∀ i, getPosition w'.bond i =
    if i = positionId then some q else getPosition w.bond i
  wealth : ∀ owner, owner ≠ own → wealth tok w' owner = wealth tok w owner

theorem Settles.stay (h : Solid tok own w) (hp : getPosition w.bond positionId = some p) :
    Settles tok own positionId p w w where
  solid := h
  position i := by
    split
    · rename_i hi
      exact hi ▸ hp
    · rfl
  wealth _ _ := rfl

theorem Settles.trans (h : Settles tok own positionId q w w₁)
    (h' : Settles tok own positionId q' w₁ w') : Settles tok own positionId q' w w' where
  solid := h'.solid
  position i := by
    rw [h'.position, h.position]
    split
    · rfl
    · rfl
  wealth owner hne := by rw [h'.wealth owner hne, h.wealth owner hne]

theorem redeem_run (net : Peers P) {env : BytesN 32 → Env own} (h : Solid tok own w)
    (hp : getPosition w.bond positionId = some p)
    (ha : (env positionId).authorized p.owner = true) :
    ∃ t w', (machine tok net own).Run w t w' ∧ (∀ e ∈ t, Closes env positionId e) ∧
      Settles tok own positionId { p with bondAmount := 0 } w w' := by
  rcases (h.books.nonneg hp).2.lt_or_eq with hb | hz
  · have hr := redeemBond_enabled h hp ha hb
    have hstep : (machine tok net own).step w (.call (env positionId)
        (.redeemBond p.owner positionId p.bondAmount)) =
          some (w.done (putPosition positionId { p with bondAmount := 0 } w.bond)) :=
      commit_some.mpr ⟨_, hr, rfl⟩
    refine ⟨_, _, .commit .start hstep, List.forall_mem_singleton.mpr (.inl ⟨_, _, rfl⟩), ?_⟩
    refine ⟨⟨redeemBond_books h.books hr, h.covered, h.running⟩,
      fun i => getPosition_put, fun owner _ => ?_⟩
    apply wealth_write (q := { p with bondAmount := 0 }) hp (fun i => getPosition_put) rfl
    rw [sub_self, ite_self, add_zero]
  · have hq : { p with bondAmount := 0 } = p := by rw [hz]
    exact ⟨[], w, .start, List.forall_mem_nil _, hq.symm ▸ .stay h hp⟩

theorem withdraw_run (net : Peers P) {env : BytesN 32 → Env own} (hx : tok.Exact) (hh : tok.Honours)
    (h : Solid tok own w) (hp : getPosition w.bond positionId = some p)
    (ha : (env positionId).authorized p.owner = true) (hb : p.bondAmount = 0) :
    ∃ t w', (machine tok net own).Run w t w' ∧ (∀ e ∈ t, Closes env positionId e) ∧
      Settles tok own positionId p.close w w' := by
  -- the contract refuses to withdraw nothing, so an empty position needs no call
  rcases (h.books.nonneg hp).1.lt_or_eq with hc | hz
  · obtain ⟨w', hw⟩ := withdrawCollateral_enabled hh h hp ha hb.le hc
    obtain ⟨hbooks, hcov⟩ := withdrawCollateral_books h.books hw
    obtain ⟨_, _, ⟨_, ht⟩, _, hp', _, _, hbond⟩ := withdrawCollateral_ok hw
    obtain rfl := Option.some.inj (hp.symm.trans hp')
    have hq : { p with collateralAmount := p.collateralAmount - p.collateralAmount } =
        p.close := by rw [sub_self, CollateralPosition.close, hb]
    have hstep : (machine tok net own).step w (.call (env positionId)
        (.withdrawCollateral p.owner positionId p.collateralAmount)) = some (w', .unit) :=
      commit_some.mpr ⟨w', hw, rfl⟩
    have hpos : ∀ i, getPosition w'.bond i =
        if i = positionId then some p.close else getPosition w.bond i := by
      intro i
      rw [hbond, hq]
      exact getPosition_put
    refine ⟨_, w', .commit .start hstep, List.forall_mem_singleton.mpr (.inr ⟨_, _, rfl⟩), ?_⟩
    refine ⟨⟨hbooks, hcov hx h.covered, ?_⟩, hpos, fun owner hne => ?_⟩
    · rw [hbond]
      exact h.running
    · apply wealth_write hp hpos rfl
      rw [hx ht owner, if_neg hne, sub_zero]
      rw [show p.close.collateralAmount = 0 from rfl, sub_zero]
  · have hq : p.close = p := by
      obtain ⟨_, _, _, _⟩ := p
      cases hz
      cases hb
      rfl
    exact ⟨[], w, .start, List.forall_mem_nil _, hq.symm ▸ .stay h hp⟩

theorem close_run (net : Peers P) {env : BytesN 32 → Env own} (hx : tok.Exact) (hh : tok.Honours)
    (h : Solid tok own w) (hp : getPosition w.bond positionId = some p)
    (ha : (env positionId).authorized p.owner = true) :
    ∃ t w', (machine tok net own).Run w t w' ∧ (∀ e ∈ t, Closes env positionId e) ∧
      Settles tok own positionId p.close w w' := by
  obtain ⟨t₁, w₁, hr₁, hc₁, hs₁⟩ := redeem_run net h hp ha
  have hp₁ : getPosition w₁.bond positionId = some { p with bondAmount := 0 } := by
    rw [hs₁.position, if_pos rfl]
  obtain ⟨t₂, w₂, hr₂, hc₂, hs₂⟩ := withdraw_run net hx hh hs₁.solid hp₁ ha rfl
  exact ⟨t₂ ++ t₁, w₂, hr₁.append hr₂, List.forall_mem_append.mpr ⟨hc₂, hc₁⟩, hs₁.trans hs₂⟩

/-- The position is stored, and its owner signs. -/
def Owned (env : BytesN 32 → Env own) (w : World T P) (positionId : BytesN 32) : Prop :=
  ∃ p, getPosition w.bond positionId = some p ∧ (env positionId).authorized p.owner = true

/-- All is ready to close a position, and nobody has gained or lost since `w₀`. -/
structure Even (tok : Token T) (own : Address) (w₀ w : World T P) : Prop where
  solid : Solid tok own w
  wealth : ∀ owner, owner ≠ own → wealth tok w owner = wealth tok w₀ owner

theorem close_owned {w₀ : World T P} {env : BytesN 32 → Env own} (hx : tok.Exact)
    (hh : tok.Honours) (h : Even tok own w₀ w) (ho : Owned env w positionId) :
    ∃ t w', (machine tok net own).Run w t w' ∧ Even tok own w₀ w' ∧
      (∀ e ∈ t, Closes env positionId e) ∧
      (∀ i, i ≠ positionId → Owned env w i → Owned env w' i) ∧
      ∀ i, True → getPosition w'.bond i = if i = positionId then
        (getPosition w.bond i).map CollateralPosition.close else getPosition w.bond i := by
  obtain ⟨p, hp, ha⟩ := ho
  obtain ⟨t, w', hr, hc, hs⟩ := close_run net hx hh h.solid hp ha
  refine ⟨t, w', hr, ⟨hs.solid, fun owner hne => ?_⟩, hc, fun i hne hi => ?_, fun i _ => ?_⟩
  · rw [hs.wealth owner hne, h.wealth owner hne]
  · rwa [Owned, hs.position, if_neg hne]
  · rw [hs.position]
    split
    · rename_i he
      rw [he, hp]
      rfl
    · rfl

/-- No position is stuck: while the contract is not paused, the owners of any positions can close
them one after the other, in any order, whatever the collateral is worth; each gets all of its
collateral, and no other position is touched. -/
theorem positions_closed (hx : tok.Exact) (hh : tok.Honours) (h₀ : 0 ≤ tok.balance t₀ own)
    (h : (machine tok net own).Reachable ⟨.fresh, t₀, p₀⟩ w)
    (hn : w.bond.paused.getD false = false) (positionIds : List (BytesN 32))
    (hd : positionIds.Nodup) (env : BytesN 32 → Env own)
    (ha : ∀ i ∈ positionIds, Owned env w i) :
    ∃ t w', (machine tok net own).Run w t w' ∧ Machine.InTurn (Closes env) positionIds t ∧
      (∀ i, getPosition w'.bond i = if i ∈ positionIds then
        (getPosition w.bond i).map CollateralPosition.close else getPosition w.bond i) ∧
      ∀ owner, owner ≠ own → wealth tok w' owner = wealth tok w owner := by
  have heven : Even tok own w w :=
    ⟨⟨reachable_books h, reachable_covered hx h₀ h, hn⟩, fun _ _ => rfl⟩
  obtain ⟨t, w', hr, he, hc, hv⟩ := Machine.Run.each (M := machine tok net own)
    (P := Owned env) (Q := fun _ => True) (C := Closes env)
    (fun he ho => close_owned hx hh he ho) heven positionIds hd ha
  refine ⟨t, w', hr, hc, fun i => ?_, he.wealth⟩
  have hvi := hv i trivial
  by_cases hi : i ∈ positionIds
  · rw [if_pos hi] at hvi ⊢
    exact hvi
  · rw [if_neg hi] at hvi ⊢
    exact hvi

end

/-- Also a position that could be liquidated: its owner gets back all that was deposited. -/
theorem positions_closed_fallen : ∃ t w',
    (machine plainToken feedless ⟨0⟩).Run (after fallenCalls) t w' ∧
      getPosition w'.bond (.replicate 32 7) = some ⟨⟨2⟩, 0, 0, 0⟩ ∧
      wealth plainToken w' ⟨2⟩ = wealth plainToken (after fallenCalls) ⟨2⟩ := by
  have hp : getPosition (after fallenCalls).bond (.replicate 32 7) =
      some ⟨⟨2⟩, 150, 120, 0⟩ := by decide +kernel
  obtain ⟨t, w', hr, _, hv, hw⟩ := positions_closed plainToken_exact plainToken_honours (by decide)
    (reachable_after fallenCalls) (by decide +kernel) [.replicate 32 7] (List.nodup_singleton _)
    (fun _ => .signed ⟨0⟩ 0) (List.forall_mem_singleton.mpr ⟨_, hp, by decide⟩)
  refine ⟨t, w', hr, ?_, hw ⟨2⟩ (by decide)⟩
  rw [hv, if_pos List.mem_cons_self, hp]
  rfl

end Shelterflex.BondCollateral
