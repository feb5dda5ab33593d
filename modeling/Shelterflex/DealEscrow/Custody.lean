import Shelterflex.DealEscrow.CircuitBreaker

namespace Shelterflex.DealEscrow
open Lib
set_option autoImplicit true

/-- The tokens a call takes in. -/
def Call.inflow : Call → Int
  | .deposit _ _ amount => amount
  | _ => 0

/-- The two records of the balance of a deal agree. -/
structure Deal.Backed (v : Deal) : Prop where
  total : v.state.totalBalance = v.balance
  nonneg : 0 ≤ v.balance

theorem Deal.Change.backed (h : Deal.Change dealId v c o v') (hv : v.Backed) : v'.Backed := by
  cases h with
  | deposit ha _ _ _ => exact ⟨rfl, add_nonneg hv.nonneg ha.le⟩
  | release _ => exact ⟨rfl, le_rfl⟩
  | request _ _ _ => exact ⟨hv.total, hv.nonneg⟩
  | challenge _ _ _ => exact ⟨hv.total, hv.nonneg⟩
  | settle _ _ _ _ hle _ => exact ⟨rfl, sub_nonneg.mpr hle⟩

theorem Deal.Change.balance (h : Deal.Change dealId v c o v') (hv : v.Backed) :
    v'.balance = v.balance + c.inflow - o.outflow := by
  cases h with
  | deposit _ _ _ _ => exact (sub_zero _).symm
  | release _ => simp [Call.inflow, Output.outflow]
  | request _ _ _ | challenge _ _ _ => simp [Call.inflow, Output.outflow]
  | settle _ _ _ _ _ hc =>
    rcases hc with rfl | rfl | ⟨_, _, _, rfl⟩
    all_goals simp [Call.inflow, Output.outflow, hv.total]

section
variable {tok : Token T} {env : Env own} {w w' : World T}

theorem deposit_balance (hx : tok.Exact)
    (h : deposit tok env source dealId amount w = .ok w') :
    tok.balance w'.token own = tok.balance w.token own + amount := by
  obtain ⟨_, ha, ht, _⟩ := deposit_ok h
  exact hx.inflow ht (env.ne_own ha)

theorem payPart_balance (hx : tok.Exact) (hn : 0 ≤ n)
    (h : payPart tok env t target n = .ok t') :
    tok.balance t own - n ≤ tok.balance t' own := by
  unfold payPart at h
  split at h
  · exact hx.outflow_le (Token.call_ok.mp h) hn
  · cases pure_ok.mp h
    exact sub_le_self _ hn

theorem release_balance (hx : tok.Exact)
    (h : release tok env caller dealId split externalRef w = .ok (w', n)) :
    tok.balance w.token own - n ≤ tok.balance w'.token own := by
  obtain ⟨_, _, _, ⟨h₁, h₂, h₃⟩, hs, ⟨t₁, t₂, ht₁, ht₂, ht₃⟩, _⟩ := release_ok h
  have hp₁ := payPart_balance hx h₁ ht₁
  have hp₂ := payPart_balance hx h₂ ht₂
  have hp₃ := payPart_balance hx h₃ ht₃
  omega

theorem settleReleaseInner_balance (hx : tok.Exact) (hp : Positive w.escrow)
    (h : settleReleaseInner tok env dealId outcome w = .ok (w', r)) :
    tok.balance w.token own - r.amount ≤ tok.balance w'.token own := by
  obtain ⟨p, depositor, he, _, rfl, ht⟩ := settleReleaseInner_ok h
  exact hx.outflow_le ht (hp dealId p he).le

theorem invoke_settled (h : invoke tok env w c = some (w', .settled r)) :
    ∃ dealId outcome, c.dealId = some dealId ∧
      settleReleaseInner tok env dealId outcome w = .ok (w', r) := by
  cases c with
  | resolveRentDispute _ _ _ _ =>
    obtain ⟨⟨_, _⟩, hs, he⟩ := commit_some.mp h
    cases he
    exact ⟨_, _, rfl, (resolveRentDispute_ok hs).2.2.2⟩
  | settleRentReleaseTimeout _ =>
    obtain ⟨⟨_, _⟩, hs, he⟩ := commit_some.mp h
    cases he
    exact ⟨_, _, rfl, (settleRentReleaseTimeout_ok hs).2.2⟩
  | settleDisputeTimeout _ =>
    obtain ⟨⟨_, _⟩, hs, he⟩ := commit_some.mp h
    cases he
    exact ⟨_, _, rfl, (settleDisputeTimeout_ok hs).2⟩
  | _ =>
    obtain ⟨_, _, he⟩ := commit_some.mp h
    cases he

/-- The escrow gains what a call takes in, and loses at most what the call reports as paid. -/
theorem Changes.tokens (hc : Changes w w' dealId c o) (hx : tok.Exact) (hp : Positive w.escrow)
    (h : invoke tok env w c = some (w', o)) :
    tok.balance w.token own + c.inflow - o.outflow ≤ tok.balance w'.token own := by
  obtain ⟨v, _, hv, _⟩ := hc
  cases hv with
  | deposit _ _ _ _ =>
    obtain ⟨_, hs, he⟩ := commit_some.mp h
    cases he
    have hb := deposit_balance hx hs
    simp only [Call.inflow, Output.outflow]
    omega
  | release _ =>
    obtain ⟨⟨_, n⟩, hs, he⟩ := commit_some.mp h
    have hb := release_balance hx hs
    simp only [Prod.mk.injEq, Output.released.injEq] at he
    obtain ⟨rfl, rfl⟩ := he
    simp only [Call.inflow, Output.outflow]
    omega
  | request _ _ _ | challenge _ _ _ =>
    obtain ⟨_, _, he⟩ := commit_some.mp h
    cases he
    simp [Call.inflow, Output.outflow]
  | settle _ _ _ _ _ hc =>
    obtain ⟨_, _, _, hs⟩ := invoke_settled h
    have hb := settleReleaseInner_balance hx hp hs
    have hi : c.inflow = 0 := by
      rcases hc with rfl | rfl | ⟨_, _, _, rfl⟩
      · rfl
      · rfl
      · rfl
    simp only [hi, Output.outflow]
    dsimp only at hb
    omega

/-- The escrow holds what its deals are recorded to hold. -/
structure Custody (tok : Token T) (own : Address) (w : World T) : Prop where
  covered : ∑ᶠ dealId, getDealBalance w.escrow dealId ≤ tok.balance w.token own
  nonneg : ∀ dealId, 0 ≤ getDealBalance w.escrow dealId

/-- What holds of the escrow in every reachable state. -/
structure Kept (tok : Token T) (own : Address) (w : World T) : Prop where
  ready : Ready w.escrow
  positive : Positive w.escrow
  backed : ∀ dealId, (deal w.escrow dealId).Backed
  covered : ∑ᶠ dealId, getDealBalance w.escrow dealId ≤ tok.balance w.token own

theorem getDealBalance_finite (s : State) : (getDealBalance s).support.Finite :=
  s.dealBalance.support_finite fun _ h => by simp [getDealBalance, Store.getD, h]

theorem act_kept {a : Action own T} (hx : tok.Exact) (hk : Kept tok own w)
    (h : act tok w a = some (w', o)) : Kept tok own w' := by
  obtain ⟨hr, hp⟩ := act_ready hk.ready hk.positive h
  have hb := (act_deals (P := fun _ v => v.Backed) hk.ready h hk.backed
    fun _ _ dealId _ _ hv => hv.backed (hk.backed dealId)).2
  refine ⟨hr, hp, hb, ?_⟩
  cases a with
  | traffic t =>
    simp only [act, Option.ite_none_right_eq_some, Option.some.injEq, Prod.mk.injEq] at h
    obtain ⟨hle, rfl, _⟩ := h
    exact hk.covered.trans hle
  | call env c =>
    rcases invoke_deals hk.ready h with ⟨_, ha⟩ | ⟨dealId, _, hc⟩
    · have he : getDealBalance w'.escrow = getDealBalance w.escrow :=
        funext fun dealId => congrArg Deal.balance (congrFun ha.deals dealId)
      rw [he, ha.token]
      exact hk.covered
    · have ht := hc.tokens hx hk.positive h
      obtain ⟨v, hd, hv, _⟩ := hc
      have hs := finsum_change (getDealBalance_finite w.escrow) dealId
        (g := getDealBalance w'.escrow) fun dealId' hn => by
          have he := congrArg Deal.balance (congrFun hd dealId')
          rwa [Function.update_of_ne hn] at he
      have he : getDealBalance w'.escrow dealId = v.balance := by
        have he := congrArg Deal.balance (congrFun hd dealId)
        rwa [Function.update_self] at he
      have hf := hv.balance (hk.backed dealId)
      have hl := hk.covered
      change v.balance = getDealBalance w.escrow dealId + _ - _ at hf
      omega

theorem initialized_kept (admin operator token receiptContract : Address)
    (h₀ : 0 ≤ tok.balance t₀ own) :
    Kept tok own ⟨initialized admin operator token receiptContract, t₀⟩ where
  ready := ⟨by simp [initialized], rfl, by simp [initialized], rfl⟩
  positive _ _ hp := by cases hp
  backed _ := ⟨rfl, le_rfl⟩
  covered := finsum_zero.trans_le h₀

theorem invoke_others (hr : Ready w.escrow) (h : invoke tok env w c = some (w', o))
    (hn : c.dealId ≠ some dealId) : deal w'.escrow dealId = deal w.escrow dealId := by
  rcases invoke_deals hr h with ⟨_, ha⟩ | ⟨dealId', hc, v, hd, _⟩
  · rw [ha.deals]
  · rw [hd, Function.update_of_ne]
    rintro rfl
    exact hn hc

/-- The deals share one token account, and none can spend the money of another: the escrow always
holds the sum of the deal balances, and a call leaves every deal alone that it is not about. -/
theorem custody (hx : tok.Exact) (h₀ : 0 ≤ tok.balance t₀ own)
    (h : (machine tok own).Run ⟨initialized admin operator token receiptContract, t₀⟩ t w) :
    Custody tok own w ∧
      ∀ (env : Env own) c w' o, invoke tok env w c = some (w', o) →
        ∀ dealId, c.dealId ≠ some dealId → deal w'.escrow dealId = deal w.escrow dealId := by
  have hk := h.invariant (P := fun _ w => Kept tok own w) (initialized_kept _ _ _ _ h₀)
    fun hk hs => act_kept hx hk hs
  refine ⟨⟨hk.covered, fun dealId => (hk.backed dealId).nonneg⟩, ?_⟩
  intro env c w' o hs dealId hn
  exact invoke_others hk.ready hs hn

end

theorem custody_drained :
    Custody plainToken ⟨0⟩ ((machine plainToken ⟨0⟩).replay fundedStart drained).2 :=
  (custody plainToken_exact (by decide)
    ((machine plainToken ⟨0⟩).run_replay fundedStart drained)).1

end Shelterflex.DealEscrow
