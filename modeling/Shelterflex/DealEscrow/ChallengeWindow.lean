import Shelterflex.DealEscrow.Custody
import Shelterflex.DealEscrow.PendingRelease

/-! The end of the challenge window, at which a release can be challenged and settled. -/

namespace Shelterflex.DealEscrow
open Lib
set_option autoImplicit true

/-- What the entries of a deal say about one another in every reachable state. -/
structure Deal.Held (own : Address) (dealId : Bytes) (v : Deal) : Prop where
  total : v.state.totalBalance = v.balance
  bounded : InI128 v.balance
  paired : v.state.lockedAmount = v.state.pendingPayout
  nonneg : 0 ≤ v.state.lockedAmount
  covered : v.state.lockedAmount ≤ v.balance
  funded : 0 < v.balance → v.depositor ≠ none
  foreign : ∀ a, v.depositor = some a → a ≠ own
  pending : v.pending ≠ none → dealId.length ≠ 0 ∧ v.depositor ≠ none

theorem requestRentRelease_named
    (h : requestRentRelease env caller dealId target amount source externalRef s = .ok s') :
    dealId.length ≠ 0 := by
  simp only [requestRentRelease, requireNonEmptyString, bind_ok, require_ok] at h
  obtain ⟨_, _, _, _, _, hd, _⟩ := h
  exact hd

theorem Deal.Change.held (h : Deal.Change dealId v c o v') (hv : v.Held own dealId)
    (hdeposit : ∀ source amount, c = .deposit source dealId amount → source ≠ own)
    (hrequest : ∀ caller target amount source externalRef,
      c = .requestRentRelease caller dealId target amount source externalRef →
      dealId.length ≠ 0) : v'.Held own dealId := by
  cases h with
  | @deposit amount source ha hi hl hle =>
    refine ⟨rfl, hi, hv.paired, hl, hle, fun _ => by simp, fun a hd => ?_, fun hp => ?_⟩
    · cases hdep : v.depositor with
      | none =>
        rw [hdep] at hd
        cases hd
        exact hdeposit _ _ rfl
      | some b =>
        rw [hdep] at hd
        cases hd
        exact hv.foreign _ hdep
    · exact ⟨(hv.pending hp).1, by simp⟩
  | release _ =>
    exact ⟨rfl, inI128_zero, rfl, le_rfl, le_rfl, fun h => absurd h (lt_irrefl 0), hv.foreign,
      hv.pending⟩
  | request _ ha hle =>
    have hb := hv.total ▸ hle
    exact ⟨hv.total, hv.bounded, rfl, ha.le, hb, hv.funded, hv.foreign,
      fun _ => ⟨hrequest _ _ _ _ _ rfl, hv.funded (ha.trans_le hb)⟩⟩
  | challenge _ _ _ =>
    exact ⟨hv.total, hv.bounded, hv.paired, hv.nonneg, hv.covered, hv.funded, hv.foreign,
      hv.pending⟩
  | @settle p _ _ _ _ hd hl hy hle _ =>
    have hn := hv.nonneg
    have ht := hv.total
    have hb := hv.bounded.of_nonneg (y := v.state.totalBalance - p.amount) (by omega) (by omega)
    exact ⟨rfl, hb, rfl, le_rfl, sub_nonneg.mpr hle, fun _ => hd, hv.foreign, fun h => absurd rfl h⟩

section
variable {tok : Token T} {env : Env own} {w w' : World T}

theorem act_held {a : Action own T} (hr : Ready w.escrow)
    (hv : ∀ dealId, (deal w.escrow dealId).Held own dealId) (h : act tok w a = some (w', o)) :
    ∀ dealId, (deal w'.escrow dealId).Held own dealId := by
  refine (act_deals (P := fun dealId v => v.Held own dealId) hr h hv ?_).2
  rintro env c dealId v rfl hch
  refine hch.held (hv dealId) ?_ ?_
  · rintro source amount rfl
    obtain ⟨_, hs, _⟩ := commit_some.mp h
    exact env.ne_own (deposit_ok hs).2.1
  · rintro caller target amount source externalRef rfl
    obtain ⟨_, hs, _⟩ := commit_some.mp h
    exact requestRentRelease_named hs

theorem initialized_held (own admin operator token receiptContract : Address) (dealId : Bytes) :
    (deal (initialized admin operator token receiptContract) dealId).Held own dealId :=
  ⟨rfl, inI128_zero, rfl, le_rfl, le_rfl, fun h => absurd h (lt_irrefl 0), nofun,
    fun h => absurd rfl h⟩

theorem reachable_held (hx : tok.Exact) (h₀ : 0 ≤ tok.balance t₀ own)
    (h : (machine tok own).Reachable ⟨initialized admin operator token receiptContract, t₀⟩ w) :
    Kept tok own w ∧ ∀ dealId, (deal w.escrow dealId).Held own dealId := by
  refine h.invariant (P := fun w => Kept tok own w ∧
    ∀ dealId, (deal w.escrow dealId).Held own dealId) ?_ fun hk hs => ?_
  · exact ⟨initialized_kept _ _ _ _ h₀, initialized_held _ _ _ _ _⟩
  · exact ⟨act_kept hx hk.1 hs, act_held hk.1.ready hk.2 hs⟩

/-- What the escrow holds covers every deal. -/
theorem Kept.dealBalance_le (hk : Kept tok own w) (dealId : Bytes) :
    getDealBalance w.escrow dealId ≤ tok.balance w.token own :=
  (le_finsum (getDealBalance_finite w.escrow) (fun d => (hk.backed d).nonneg) dealId).trans
    hk.covered

/-! The two calls that the end of the window divides -/

theorem challengeRentRelease_time
    (hp : w.escrow.pendingRentRelease.get dealId = some p)
    (h : challengeRentRelease env caller dealId ref w.escrow = .ok s) :
    w.escrow.paused.getD false = false ∧ env.timestamp ≤ p.challengeEndAt := by
  simp only [challengeRentRelease, requireNotPaused, bind_ok, require_ok, okOr_ok] at h
  obtain ⟨_, hn, _, _, _, _, _, _, _, hp', _, ht, _⟩ := h
  cases hp.symm.trans hp'
  exact ⟨hn, ht⟩

theorem challengeRentRelease_enabled (hn : w.escrow.paused.getD false = false)
    (hd : dealId.length ≠ 0) (hp : w.escrow.pendingRentRelease.get dealId = some p)
    (ht : env.timestamp ≤ p.challengeEndAt)
    (hdep : w.escrow.dealDepositor.get dealId = some caller)
    (ha : env.authorized caller = true) (hr : ref.length ≠ 0) :
    ∃ s, challengeRentRelease env caller dealId ref w.escrow = .ok s := by
  simp only [challengeRentRelease, requireNotPaused, requireNonEmptyString, bind_ok, require_ok,
    requireAuth_ok, okOr_ok, pure_ok]
  exact ⟨_, (), hn, (), hd, (), hr, (), ha, p, hp, (), ht, caller, hdep, (), .inl rfl, rfl⟩

theorem settleRentReleaseTimeout_enabled (hh : tok.Honours) (hk : Kept tok own w)
    (hv : (deal w.escrow dealId).Held own dealId) (hn : w.escrow.paused.getD false = false)
    (hq : w.escrow.rentDispute.get dealId = none)
    (hp : w.escrow.pendingRentRelease.get dealId = some p)
    (hl : (getDealState w.escrow dealId).lockedAmount = p.amount)
    (ht : p.challengeEndAt ≤ env.timestamp) :
    ∃ r, settleRentReleaseTimeout tok env dealId w = .ok r := by
  have hpend : (deal w.escrow dealId).pending ≠ none := by
    rw [deal, hp]
    exact Option.some_ne_none p
  obtain ⟨hd, hdep⟩ := hv.pending hpend
  obtain ⟨depositor, hdep⟩ := Option.ne_none_iff_exists'.mp hdep
  obtain ⟨a, ha⟩ := Option.ne_none_iff_exists'.mp hk.ready.token
  have hpos := hk.positive dealId p hp
  have hb : (getDealState w.escrow dealId).totalBalance = getDealBalance w.escrow dealId :=
    hv.total
  have hle : p.amount ≤ getDealBalance w.escrow dealId := hl ▸ hv.covered
  have hy : (getDealState w.escrow dealId).pendingPayout = p.amount := hv.paired.symm.trans hl
  have hbal := hle.trans (hk.dealBalance_le dealId)
  have hpay : ∃ t, (tok.call env w.token own p.target p.amount : Outcome ContractError T) = .ok t :=
    hh.pay env p.target hpos.le hbal
  obtain ⟨t, htok⟩ := hpay
  have hrest : 0 ≤ (getDealState w.escrow dealId).totalBalance - p.amount :=
    sub_nonneg.mpr (hb ▸ hle)
  have hfit : InI128 ((getDealState w.escrow dealId).totalBalance - p.amount) :=
    InI128.of_nonneg (hb ▸ hv.bounded) hrest (sub_le_self _ hpos.le)
  simp only [settleRentReleaseTimeout, settleReleaseInner, requireNotPaused, requireNonEmptyString,
    bind_ok, require_ok, okOr_ok, expect_ok, enter_ok, i128Sub_ok, assertDealInvariants_ok, pure_ok]
  exact ⟨_, (), hn, (), hd, (), hq, p, hp, (), ht, p, hp, depositor, hdep, (), ⟨hl, hy⟩, a, ha, _,
    ⟨hk.ready.reentrancy, rfl⟩, t, htok, _, ⟨hfit, rfl⟩, (), ⟨⟨hrest, le_rfl, le_rfl⟩, trivial,
    hrest⟩, rfl⟩

/-- No ledger lets a deal be both challenged and settled by timeout. -/
def Exclusive (tok : Token T) (own : Address) (w : World T) (dealId : Bytes) (now : Nat) : Prop :=
  ∀ (env env' : Env own) (caller : Address) (ref : Bytes), env.timestamp = now →
    env'.timestamp = now →
    ¬ ((∃ r, invoke tok env w (.challengeRentRelease caller dealId ref) = some r) ∧
      ∃ r, invoke tok env' w (.settleRentReleaseTimeout dealId) = some r)

/-- The two calls exclude one another at every other time than the end of the window. At that time
both are open, unless the escrow is paused or the deal no longer locks the release. -/
theorem exclusive_iff (hx : tok.Exact) (hh : tok.Honours) (h₀ : 0 ≤ tok.balance t₀ own)
    (h : (machine tok own).Reachable ⟨initialized admin operator token receiptContract, t₀⟩ w)
    (hp : w.escrow.pendingRentRelease.get dealId = some p)
    (hq : w.escrow.rentDispute.get dealId = none) (now : Nat) :
    Exclusive tok own w dealId now ↔
      now ≠ p.challengeEndAt ∨ w.escrow.paused.getD false = true ∨
        (getDealState w.escrow dealId).lockedAmount ≠ p.amount := by
  obtain ⟨hk, hv⟩ := reachable_held hx h₀ h
  constructor
  · intro hex
    by_contra hn
    simp only [not_or, not_not, Bool.not_eq_true] at hn
    obtain ⟨rfl, hunpaused, hl⟩ := hn
    have hpend : (deal w.escrow dealId).pending ≠ none := by
      rw [deal, hp]
      exact Option.some_ne_none p
    obtain ⟨hd, hdep⟩ := (hv dealId).pending hpend
    obtain ⟨depositor, hdep⟩ := Option.ne_none_iff_exists'.mp hdep
    have hauth := Env.signed_authorized ((hv dealId).foreign depositor hdep) p.challengeEndAt
    have href : ([1] : Bytes).length ≠ 0 := by decide
    have hend : p.challengeEndAt ≤ (Env.signed own p.challengeEndAt).timestamp := le_rfl
    obtain ⟨s, hs⟩ := challengeRentRelease_enabled hunpaused hd hp le_rfl hdep hauth href
    obtain ⟨r, hr⟩ := settleRentReleaseTimeout_enabled hh hk (hv dealId) hunpaused hq hp hl hend
    exact hex _ _ depositor [1] rfl rfl
      ⟨⟨_, commit_some.mpr ⟨s, hs, rfl⟩⟩, ⟨_, commit_some.mpr ⟨r, hr, rfl⟩⟩⟩
  · rintro hcond env env' caller ref hnow hnow' ⟨⟨_, hc⟩, ⟨_, hs⟩⟩
    obtain ⟨_, hc, _⟩ := commit_some.mp hc
    obtain ⟨⟨_, _⟩, hs, _⟩ := commit_some.mp hs
    obtain ⟨hunpaused, hle⟩ := challengeRentRelease_time hp hc
    obtain ⟨_, ⟨p', hp', hge⟩, hinner⟩ := settleRentReleaseTimeout_ok hs
    cases hp.symm.trans hp'
    rcases hcond with hne | hpaused | hl
    · omega
    · rw [hunpaused] at hpaused
      cases hpaused
    · simp only [settleReleaseInner, bind_ok, okOr_ok, require_ok] at hinner
      obtain ⟨p', hp', _, _, _, ⟨hlock, _⟩, _⟩ := hinner
      cases hp.symm.trans hp'
      exact hl hlock

end

theorem exclusive_iff_requested :
    Exclusive plainToken ⟨0⟩ ((machine plainToken ⟨0⟩).replay sampleStart requested).2 [1] 86399 ↔
      86399 ≠ 86400 ∨
        ((machine plainToken ⟨0⟩).replay sampleStart requested).2.escrow.paused.getD false = true ∨
        (getDealState ((machine plainToken ⟨0⟩).replay sampleStart requested).2.escrow
          [1]).lockedAmount ≠ 60 :=
  exclusive_iff plainToken_exact plainToken_honours (by decide)
    ⟨_, (machine plainToken ⟨0⟩).run_replay sampleStart requested⟩
    (p := ⟨⟨4⟩, 60, ⟨2⟩, 0, 86400, [1], [1]⟩) (by decide) (by decide) 86399

/-- At the last second of its window a release is both challenged and settled. -/
theorem window_end_shared :
    ¬ ∀ w, (machine plainToken ⟨0⟩).Reachable sampleStart w → ∀ dealId p,
      w.escrow.pendingRentRelease.get dealId = some p → w.escrow.rentDispute.get dealId = none →
      ∀ now, Exclusive plainToken ⟨0⟩ w dealId now := by
  intro hall
  have hr := (machine plainToken ⟨0⟩).run_replay sampleStart requested
  refine hall _ ⟨_, hr⟩ [1] ⟨⟨4⟩, 60, ⟨2⟩, 0, 86400, [1], [1]⟩ (by decide) (by decide) 86400
    (.signed ⟨0⟩ 86400) (.signed ⟨0⟩ 86400) ⟨3⟩ [1] rfl rfl ⟨?_, ?_⟩
  · exact Option.isSome_iff_exists.mp (by decide)
  · exact Option.isSome_iff_exists.mp (by decide)

end Shelterflex.DealEscrow
