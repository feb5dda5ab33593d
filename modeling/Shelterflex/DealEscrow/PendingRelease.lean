import Shelterflex.DealEscrow.Deals

namespace Shelterflex.DealEscrow
open Lib
set_option autoImplicit true

/-- What the entries of a deal say about one another. -/
structure Deal.Consistent (v : Deal) : Prop where
  balance : v.state.totalBalance = v.balance
  bounded : InI128 v.balance
  depositor : 0 < v.balance → v.depositor ≠ none
  pending : ∀ p, v.pending = some p → 0 < p.amount ∧ v.state.lockedAmount = p.amount ∧
    v.state.pendingPayout = p.amount ∧ p.amount ≤ v.balance

/-- A direct release of a deal that has a pending release. -/
def releasesPending (w : World T) : Action own T → Bool
  | .call _ (.release _ dealId _ _) => (w.escrow.pendingRentRelease.get dealId).isSome
  | _ => false

theorem Deal.Change.consistent (h : Deal.Change dealId v c o v') (hv : v.Consistent)
    (hC : ∀ caller split externalRef, c = .release caller dealId split externalRef →
      v.pending = none) : v'.Consistent := by
  cases h with
  | deposit ha hi _ _ =>
    refine ⟨rfl, hi, fun _ => by simp, fun p hp => ?_⟩
    obtain ⟨hpos, hl, hy, hle⟩ := hv.pending p hp
    exact ⟨hpos, hl, hy, hle.trans (le_add_of_nonneg_right ha.le)⟩
  | release hb =>
    have hn := hC _ _ _ rfl
    refine ⟨rfl, inI128_zero, fun hlt => absurd hlt (lt_irrefl 0), fun p hp => ?_⟩
    rw [hn] at hp
    cases hp
  | request hn ha hle =>
    refine ⟨hv.balance, hv.bounded, hv.depositor, fun p hp => ?_⟩
    cases hp
    exact ⟨ha, rfl, rfl, hv.balance ▸ hle⟩
  | challenge hp hd _ => exact ⟨hv.balance, hv.bounded, hv.depositor, hv.pending⟩
  | settle hp hd hl hy hle hc =>
    obtain ⟨hpos, _⟩ := hv.pending _ hp
    have hb := hv.bounded
    have hbal := hv.balance
    refine ⟨rfl, ?_, fun _ => hd, fun p hp => by cases hp⟩
    exact ⟨by dsimp only; have := hb.1; omega, by dsimp only; have := hb.2; omega⟩

/-- What holds of the escrow in every state that was reached without such a release. -/
structure Sound (s : State) : Prop where
  ready : Ready s
  consistent : ∀ dealId, (deal s dealId).Consistent

theorem act_sound {tok : Token T} {w w' : World T} {a : Action own T} (hs : Sound w.escrow)
    (h : act tok w a = some (w', o)) (hC : releasesPending w a = false) : Sound w'.escrow := by
  have hstep : ∀ env c dealId v, a = .call env c →
      Deal.Change dealId (deal w.escrow dealId) c o v → v.Consistent := by
    rintro env c dealId v rfl hv
    apply hv.consistent (hs.consistent dealId)
    rintro caller split externalRef rfl
    exact Option.isNone_iff_eq_none.mp (Option.isSome_eq_false_iff.mp hC)
  obtain ⟨hr, hc⟩ := act_deals (P := fun _ v => v.Consistent) hs.ready h hs.consistent hstep
  exact ⟨hr, hc⟩

theorem initialized_sound (admin operator token receiptContract : Address) :
    Sound (initialized admin operator token receiptContract) where
  ready := ⟨by simp [initialized], rfl, by simp [initialized], rfl⟩
  consistent _ := ⟨rfl, inI128_zero, fun h => absurd h (lt_irrefl 0), fun _ hp => by cases hp⟩

theorem run_sound {tok : Token T}
    (h : (machine tok own).Run ⟨initialized admin operator token receiptContract, t₀⟩ t w)
    (hC : ∀ e ∈ t, releasesPending e.pre e.input = false) : Sound w.escrow :=
  h.invariant_of (P := fun _ w => Sound w.escrow) hC (initialized_sound _ _ _ _)
    fun hs he hc => act_sound hs he hc

/-- No check of the settlement stands in the way of a pending release. -/
theorem Sound.settles {tok : Token T} {env : Env own} {w : World T} (hs : Sound w.escrow)
    (hp : w.escrow.pendingRentRelease.get dealId = some p)
    (hd : w.escrow.dealDepositor.get dealId = some depositor)
    (ht : (tok.call env w.token own (outcome.recipient p depositor) p.amount :
      Outcome ContractError T) = .ok t) :
    ∃ w', settleReleaseInner tok env dealId outcome w =
      .ok (w', ⟨outcome.recipient p depositor, p.amount, outcome⟩) := by
  have hv := hs.consistent dealId
  obtain ⟨hpos, hl, hy, hle⟩ := hv.pending p hp
  obtain ⟨a, ha⟩ := Option.ne_none_iff_exists'.mp hs.ready.token
  have hb : (getDealState w.escrow dealId).totalBalance = getDealBalance w.escrow dealId :=
    hv.balance
  have hi : InI128 (getDealBalance w.escrow dealId) := hv.bounded
  have hn : 0 ≤ (getDealState w.escrow dealId).totalBalance - p.amount :=
    sub_nonneg.mpr (hb ▸ hle)
  have hr : InI128 ((getDealState w.escrow dealId).totalBalance - p.amount) :=
    ⟨le_trans (by norm_num) hn, lt_of_le_of_lt (by omega) hi.2⟩
  simp only [settleReleaseInner, bind_ok, okOr_ok, require_ok, expect_ok, enter_ok, i128Sub_ok,
    assertDealInvariants_ok, pure_ok]
  exact ⟨_, p, hp, depositor, hd, (), ⟨hl, hy⟩, a, ha, _, ⟨hs.ready.reentrancy, rfl⟩, t, ht, _,
    ⟨hr, rfl⟩, (), ⟨⟨hn, le_rfl, le_rfl⟩, trivial, hn⟩, rfl⟩

/-- As long as no deal is released directly while it has a pending release, that release stays
locked in full, and can be settled in full. -/
theorem pending_release_locked {tok : Token T}
    (h : (machine tok own).Run ⟨initialized admin operator token receiptContract, t₀⟩ t w)
    (hC : ∀ e ∈ t, releasesPending e.pre e.input = false)
    (hp : w.escrow.pendingRentRelease.get dealId = some p) :
    (getDealState w.escrow dealId).lockedAmount = p.amount ∧
      (getDealState w.escrow dealId).pendingPayout = p.amount ∧
      p.amount ≤ (getDealState w.escrow dealId).totalBalance ∧
      (getDealState w.escrow dealId).totalBalance = getDealBalance w.escrow dealId ∧
      ∃ depositor, w.escrow.dealDepositor.get dealId = some depositor ∧
        ∀ (env : Env own) outcome t',
          (tok.call env w.token own (outcome.recipient p depositor) p.amount :
            Outcome ContractError T) = .ok t' →
          ∃ w', settleReleaseInner tok env dealId outcome w =
            .ok (w', ⟨outcome.recipient p depositor, p.amount, outcome⟩) := by
  have hs := run_sound h hC
  have hv := hs.consistent dealId
  obtain ⟨hpos, hl, hy, hle⟩ := hv.pending p hp
  obtain ⟨depositor, hd⟩ := Option.ne_none_iff_exists'.mp (hv.depositor (hpos.trans_le hle))
  exact ⟨hl, hy, hv.balance ▸ hle, hv.balance, depositor, hd,
    fun env outcome t' ht => hs.settles hp hd ht⟩

def sampleStart : World (Address → Int) :=
  ⟨initialized ⟨1⟩ ⟨2⟩ ⟨8⟩ ⟨9⟩, fun a => if a = ⟨0⟩ then 0 else 500⟩

/-- Tenant `3` deposits into deal `1`, and the operator requests a release to landlord `4`. -/
def requested : List (Action ⟨0⟩ (Address → Int)) :=
  [.call (.signed ⟨0⟩ 0) (.deposit ⟨3⟩ [1] 100),
    .call (.signed ⟨0⟩ 0) (.requestRentRelease ⟨2⟩ [1] ⟨4⟩ 60 [1] [1])]

theorem pending_release_locked_requested :
    (getDealState ((machine plainToken ⟨0⟩).replay sampleStart requested).2.escrow [1]).lockedAmount
      = 60 :=
  (pending_release_locked ((machine plainToken ⟨0⟩).run_replay sampleStart requested) (by decide)
    (p := ⟨⟨4⟩, 60, ⟨2⟩, 0, 86400, [1], [1]⟩) (by decide)).1

/-- The operator also releases the whole deal directly. -/
def releasedTwice : List (Action ⟨0⟩ (Address → Int)) :=
  requested ++ [.call (.signed ⟨0⟩ 0) (.release ⟨2⟩ [1] ⟨⟨4⟩, 100, ⟨5⟩, 0, ⟨6⟩, 0⟩ [1])]

theorem pending_release_unlocked :
    ¬ ∀ t w, (machine plainToken ⟨0⟩).Run sampleStart t w →
      ∀ dealId p, w.escrow.pendingRentRelease.get dealId = some p →
        (getDealState w.escrow dealId).lockedAmount = p.amount := by
  intro hall
  have hr := (machine plainToken ⟨0⟩).run_replay sampleStart releasedTwice
  have hl := hall _ _ hr [1] ⟨⟨4⟩, 60, ⟨2⟩, 0, 86400, [1], [1]⟩ (by decide)
  exact absurd hl (by decide)

end Shelterflex.DealEscrow
