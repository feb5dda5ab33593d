import Shelterflex.DealEscrow.ChallengeWindow

/-! What is in the escrow can leave it. -/

namespace Shelterflex.DealEscrow
open Lib UpgradeGovernance
set_option autoImplicit true

section
variable {tok : Token T} {env : Env own} {w w' : World T}

/-- What holds of the escrow in every reachable state, beside its deals. -/
structure Led (admin : Address) (s : State) : Prop where
  admin : s.gov.admin = some admin
  operator : s.operator ≠ none
  breaker : getCircuitBreakerState s ≠ .recoveryAwaiting
  unresolved : ∀ dealId q, s.rentDispute.get dealId = some q → q.resolved = false

theorem Led.carry (hl : Led a s) (hf : Frame c s s')
    (hu : ∀ dealId q, s'.rentDispute.get dealId = some q → q.resolved = false) : Led a s' where
  admin := hf.admin.trans hl.admin
  operator := hf.operator ▸ hl.operator
  breaker := by
    rcases hf.breaker with he | he | ⟨_, he⟩
    · rw [getCircuitBreakerState, he]
      exact hl.breaker
    · rw [getCircuitBreakerState, he]
      exact CircuitBreakerState.noConfusion
    · rw [getCircuitBreakerState, he]
      exact CircuitBreakerState.noConfusion
  unresolved := hu

theorem Deal.Change.unresolved (h : Deal.Change dealId v c o v')
    (hu : ∀ q, v.dispute = some q → q.resolved = false) :
    ∀ q, v'.dispute = some q → q.resolved = false := by
  cases h with
  | deposit _ _ _ _ | release _ | request _ _ _ => exact hu
  | challenge _ _ hr =>
    intro q he
    cases he
    exact hr
  | settle _ _ _ _ _ _ => nofun

theorem act_led {a : Action own T} (hr : Ready w.escrow) (hl : Led admin w.escrow)
    (h : act tok w a = some (w', o)) : Led admin w'.escrow := by
  have hu := (act_deals (P := fun _ v => ∀ q, v.dispute = some q → q.resolved = false) hr h
    hl.unresolved fun _ _ dealId _ _ hv => hv.unresolved (hl.unresolved dealId)).2
  cases a with
  | traffic t =>
    simp only [act, Option.ite_none_right_eq_some, Option.some.injEq, Prod.mk.injEq] at h
    obtain ⟨_, rfl, _⟩ := h
    exact hl
  | call env c =>
    rcases invoke_deals hr h with ⟨_, ha⟩ | ⟨_, _, _, _, _, hf⟩
    · exact hl.carry ha.frame hu
    · exact hl.carry hf hu

/-- Nothing is ever recorded for a deal without a name. -/
def Named (dealId : Bytes) (v : Deal) : Prop := 0 < v.balance → dealId.length ≠ 0

theorem act_named {a : Action own T} (hr : Ready w.escrow)
    (hv : ∀ dealId, (deal w.escrow dealId).Held own dealId ∧ Named dealId (deal w.escrow dealId))
    (h : act tok w a = some (w', o)) : ∀ dealId, Named dealId (deal w'.escrow dealId) := by
  refine (act_deals (P := Named) hr h (fun dealId => (hv dealId).2) ?_).2
  rintro env c dealId v rfl hch
  obtain ⟨hheld, hnamed⟩ := hv dealId
  cases hch with
  | deposit _ _ _ _ =>
    obtain ⟨_, hs, _⟩ := commit_some.mp h
    simp only [deposit, bind_ok, requireNonEmptyString, require_ok] at hs
    obtain ⟨_, _, _, _, _, hd, _⟩ := hs
    exact fun _ => hd
  | release _ => exact fun h => absurd h (lt_irrefl 0)
  | request _ _ _ | challenge _ _ _ => exact hnamed
  | settle hp _ _ _ _ _ =>
    exact fun _ => (hheld.pending (by rw [hp]; exact Option.some_ne_none _)).1

/-- All that the reachable states have in common. -/
structure Solid (tok : Token T) (own admin : Address) (w : World T) : Prop where
  kept : Kept tok own w
  held : ∀ dealId, (deal w.escrow dealId).Held own dealId
  named : ∀ dealId, Named dealId (deal w.escrow dealId)
  led : Led admin w.escrow

theorem reachable_solid (hx : tok.Exact) (h₀ : 0 ≤ tok.balance t₀ own)
    (h : (machine tok own).Reachable ⟨initialized admin operator token receiptContract, t₀⟩ w) :
    Solid tok own admin w := by
  refine h.invariant (P := fun w => Solid tok own admin w) ?_ fun hs he => ?_
  · refine ⟨initialized_kept _ _ _ _ h₀, initialized_held _ _ _ _ _, ?_, ?_⟩
    · exact fun _ h => absurd h (lt_irrefl 0)
    · exact ⟨rfl, Option.some_ne_none _, CircuitBreakerState.noConfusion, fun _ _ h => by cases h⟩
  · have hr := hs.kept.ready
    exact ⟨act_kept hx hs.kept he, act_held hr hs.held he,
      act_named hr (fun d => ⟨hs.held d, hs.named d⟩) he, act_led hr hs.led he⟩

/-! A direct release -/

/-- What a release pays to an address. -/
def Split.share (split : Split) (a : Address) : Int :=
  (if a = split.target then split.principalAmount else 0) +
    (if a = split.platformAddr then split.platformAmount else 0) +
    (if a = split.reporterAddr then split.reporterAmount else 0)

/-- The parts of a release are the balance of a deal. -/
structure Split.Exact (split : Split) (n : Int) : Prop where
  principal : 0 ≤ split.principalAmount
  platform : 0 ≤ split.platformAmount
  reporter : 0 ≤ split.reporterAmount
  total : split.principalAmount + split.platformAmount + split.reporterAmount = n

theorem payPart_enabled (hx : tok.Exact) (hh : tok.Honours) (env : Env own) (target : Address)
    (hn : 0 ≤ n) (hb : n ≤ tok.balance t own) :
    ∃ t', payPart tok env t target n = .ok t' ∧ tok.balance t own - n ≤ tok.balance t' own ∧
      ∀ a, a ≠ own → tok.balance t' a = tok.balance t a + if a = target then n else 0 := by
  unfold payPart
  split
  · have hpay : ∃ t', (tok.call env t own target n : Outcome ContractError T) = .ok t' :=
      hh.pay env target hn hb
    obtain ⟨t', ht⟩ := hpay
    have htr := Token.call_ok.mp ht
    refine ⟨t', ht, hx.outflow_le htr hn, fun a ha => ?_⟩
    rw [hx htr a, if_neg ha, sub_zero]
  · rename_i hz
    have hz : n = 0 := le_antisymm (not_lt.mp hz) hn
    refine ⟨t, rfl, (sub_eq_self.mpr hz).le, fun a _ => ?_⟩
    rw [hz, ite_self, add_zero]

theorem release_enabled (hx : tok.Exact) (hh : tok.Honours) (hs : Solid tok own admin w)
    (hn : w.escrow.paused.getD false = false) (hf : getCircuitBreakerState w.escrow = .unfrozen)
    (ha : env.authorized admin = true) (hpos : 0 < getDealBalance w.escrow dealId)
    (hsplit : split.Exact (getDealBalance w.escrow dealId)) :
    ∃ w', release tok env admin dealId split [1] w = .ok (w', getDealBalance w.escrow dealId) ∧
      ∀ a, a ≠ own → tok.balance w'.token a = tok.balance w.token a + split.share a := by
  have hbal := hs.kept.dealBalance_le dealId
  have hfit : InI128 (getDealBalance w.escrow dealId) := (hs.held dealId).bounded
  have htotal := hsplit.total
  have hp₁ := hsplit.principal
  have hp₂ := hsplit.platform
  have hp₃ := hsplit.reporter
  obtain ⟨t₁, ht₁, hb₁, hs₁⟩ := payPart_enabled hx hh env split.target hp₁ (t := w.token) (by omega)
  obtain ⟨t₂, ht₂, hb₂, hs₂⟩ :=
    payPart_enabled hx hh env split.platformAddr hp₂ (t := t₁) (by omega)
  obtain ⟨t₃, ht₃, _, hs₃⟩ := payPart_enabled hx hh env split.reporterAddr hp₃ (t := t₂) (by omega)
  obtain ⟨operator, hoperator⟩ := Option.ne_none_iff_exists'.mp hs.led.operator
  obtain ⟨token, htoken⟩ := Option.ne_none_iff_exists'.mp hs.kept.ready.token
  have hfrozen : requireNotFrozen w.escrow false = .ok () := by
    rw [requireNotFrozen, hf]
  have hsum : InI128 (split.principalAmount + split.platformAmount) :=
    hfit.of_nonneg (by omega) (by omega)
  have hrole : requireAdminOrOperator env admin w.escrow = .ok () := by
    simp only [requireAdminOrOperator, requireAdminOrOperatorPermission, bind_ok, expect_ok,
      requireAuth_ok, require_ok]
    exact ⟨admin, hs.led.admin, operator, hoperator, (), ha, .inl rfl⟩
  refine ⟨⟨{ putDealState dealId ⟨0, 0, 0⟩ (putDealBalance dealId 0 w.escrow) with
    reentrancy := exit }, t₃⟩, ?_, fun a hne => ?_⟩
  · simp only [release, requireNotPaused, requireNonEmptyString, bind_ok, require_ok, expect_ok,
      i128Add_ok, enter_ok, assertDealInvariants_ok, pure_ok]
    exact ⟨(), hn, (), hfrozen, (), hs.named dealId hpos, (), by decide, (), hrole, (),
      ⟨hp₁, hp₂, hp₃⟩, (), hpos, _, ⟨hsum, rfl⟩, _, ⟨htotal ▸ hfit, rfl⟩, (), htotal, token, htoken,
      (), by decide, _, ⟨hs.kept.ready.reentrancy, rfl⟩, t₁, ht₁, t₂, ht₂, t₃, ht₃, rfl⟩
  · rw [hs₃ a hne, hs₂ a hne, hs₁ a hne, Split.share]
    ring

/-! The way of the admin to a release -/

/-- The address alone authorizes the call. -/
def alone (h : a ≠ own) (timestamp : Nat) : Env own where
  timestamp := timestamp
  authorized b := b = a
  own_unauthorized := decide_eq_false h.symm

def ByAlone (h : a ≠ own) (now : Nat) (e : Event (World T) (Action own T) Output) : Prop :=
  ∃ c, e.input = .call (alone h now) c

theorem requireAdmin_alone (hl : s.gov.admin = some admin) (h : admin ≠ own) (now : Nat) :
    requireAdmin (alone h now) admin s = .ok () := by
  simp only [requireAdmin, requireAdminPermission, bind_ok, expect_ok, requireAuth_ok, require_ok]
  exact ⟨admin, hl, (), decide_eq_true rfl, rfl⟩

theorem unpause_run (tok : Token T) (hl : w.escrow.gov.admin = some admin) (h : admin ≠ own)
    (now : Nat) :
    ∃ t, (machine tok own).Run w t ⟨{ w.escrow with paused := some false }, w.token⟩ ∧
      ∀ e ∈ t, ByAlone h now e := by
  have hstep : (machine tok own).step w (.call (alone h now) (.unpause admin)) =
      some (⟨{ w.escrow with paused := some false }, w.token⟩, .unit) := by
    apply commit_some.mpr
    refine ⟨_, ?_, rfl⟩
    simp only [unpause, requireAdminPermission, bind_ok, expect_ok, requireAuth_ok, require_ok,
      pure_ok]
    exact ⟨admin, hl, (), ⟨(), decide_eq_true rfl, rfl⟩, trivial⟩
  refine ⟨_, .commit .start hstep, fun e he => ?_⟩
  cases List.mem_singleton.mp he
  exact ⟨_, rfl⟩

/-- The admin ends a freeze, without waiting if the delay is set to zero first. -/
theorem unfreeze_run (tok : Token T) (hl : w.escrow.gov.admin = some admin)
    (hf : getCircuitBreakerState w.escrow = .frozen) (h : admin ≠ own) (hnow : now < 2 ^ 64) :
    ∃ t s, (machine tok own).Run w t ⟨s, w.token⟩ ∧ (∀ e ∈ t, ByAlone h now e) ∧
      getCircuitBreakerState s = .unfrozen ∧ s.paused = w.escrow.paused ∧
      deal s = deal w.escrow := by
  let hash : BytesN 32 := Vector.replicate 32 0
  let s₁ : State := { w.escrow with recoveryDelaySeconds := some 0 }
  let s₂ : State := { s₁ with pendingDrainHash := some hash, pendingDrainAt := some now }
  let s₃ : State := { s₂ with
    pendingDrainHash := none, pendingDrainAt := none, circuitBreakerState := some .unfrozen }
  have h₁ : (machine tok own).step w (.call (alone h now) (.setRecoveryDelay admin 0)) =
      some (⟨s₁, w.token⟩, .unit) := by
    refine commit_some.mpr ⟨s₁, ?_, rfl⟩
    rw [setRecoveryDelay, requireAdmin_alone hl]
    rfl
  have h₂ : (machine tok own).step ⟨s₁, w.token⟩ (.call (alone h now) (.proposeDrain admin hash)) =
      some (⟨s₂, w.token⟩, .unit) := by
    refine commit_some.mpr ⟨s₂, ?_, rfl⟩
    rw [proposeDrain, requireAdmin_alone (s := s₁) hl, ok_bind]
    exact require_bind_of (e := ContractError.invalidGovernanceDrain) hf _
  have h₃ : (machine tok own).step ⟨s₂, w.token⟩ (.call (alone h now) (.executeDrain admin hash)) =
      some (⟨s₃, w.token⟩, .unit) := by
    refine commit_some.mpr ⟨s₃, ?_, rfl⟩
    simp only [executeDrain, bind_ok, okOr_ok, require_ok, u64Add_ok, pure_ok]
    exact ⟨(), requireAdmin_alone (s := s₂) hl h now, hash, rfl, (), rfl, now, rfl, now,
      ⟨hnow, rfl⟩, (), le_rfl, (), hf, rfl⟩
  refine ⟨_, s₃, .commit (.commit (.commit .start h₁) h₂) h₃, fun e he => ?_, rfl, rfl, rfl⟩
  simp only [List.mem_cons, List.not_mem_nil, or_false] at he
  rcases he with rfl | rfl | rfl
  · exact ⟨_, rfl⟩
  · exact ⟨_, rfl⟩
  · exact ⟨_, rfl⟩

theorem reopen_run (tok : Token T) (hl : Led admin w.escrow) (h : admin ≠ own)
    (hnow : now < 2 ^ 64) :
    ∃ t s, (machine tok own).Run w t ⟨s, w.token⟩ ∧ (∀ e ∈ t, ByAlone h now e) ∧
      s.paused.getD false = false ∧ getCircuitBreakerState s = .unfrozen ∧
      deal s = deal w.escrow := by
  obtain ⟨t, hrun, ht⟩ := unpause_run tok hl.admin h now
  cases hb : getCircuitBreakerState w.escrow with
  | unfrozen => exact ⟨t, _, hrun, ht, rfl, hb, rfl⟩
  | recoveryAwaiting => exact absurd hb hl.breaker
  | frozen =>
    obtain ⟨t', s, hrun', ht', hopen, hpaused, hdeal⟩ := unfreeze_run tok
      (w := ⟨{ w.escrow with paused := some false }, w.token⟩) hl.admin hb h hnow
    refine ⟨t' ++ t, s, hrun.append hrun', fun e he => ?_, ?_, hopen, hdeal⟩
    · exact (List.mem_append.mp he).elim (ht' e) (ht e)
    · rw [hpaused]
      rfl

/-- No deposit is stuck: whatever has happened, paused and frozen or not, and whatever release or
dispute is pending, the admin alone can pay out the whole balance of any deal, and of that deal
only. -/
theorem deals_recoverable {split : Split} (hx : tok.Exact) (hh : tok.Honours)
    (h₀ : 0 ≤ tok.balance t₀ own) (hadmin : admin ≠ own)
    (h : (machine tok own).Reachable ⟨initialized admin operator token receiptContract, t₀⟩ w)
    (hpos : 0 < getDealBalance w.escrow dealId)
    (hsplit : split.Exact (getDealBalance w.escrow dealId)) (hnow : now < 2 ^ 64) :
    ∃ t w', (machine tok own).Run w t w' ∧ (∀ e ∈ t, ByAlone hadmin now e) ∧
      getDealBalance w'.escrow dealId = 0 ∧
      (∀ d, d ≠ dealId → deal w'.escrow d = deal w.escrow d) ∧
      ∀ a, a ≠ own → tok.balance w'.token a = tok.balance w.token a + split.share a := by
  obtain ⟨t₁, hr⟩ := h
  obtain ⟨t, s, hrun, ht, hn, hf, hdeal⟩ :=
    reopen_run tok (reachable_solid hx h₀ ⟨t₁, hr⟩).led hadmin hnow
  have hs := reachable_solid hx h₀ ⟨_, hr.append hrun⟩
  have hbal : getDealBalance s dealId = getDealBalance w.escrow dealId :=
    congrArg Deal.balance (congrFun hdeal dealId)
  have ha : (alone hadmin now).authorized admin = true := decide_eq_true rfl
  obtain ⟨w', hrel, hpaid⟩ := release_enabled hx hh hs hn hf ha (hbal.symm ▸ hpos)
    (hbal.symm ▸ hsplit)
  have hstep : (machine tok own).step ⟨s, w.token⟩
      (.call (alone hadmin now) (.release admin dealId split [1])) =
        some (w', .released (getDealBalance s dealId)) := commit_some.mpr ⟨_, hrel, rfl⟩
  obtain ⟨_, _, _, _, _, _, hw⟩ := release_ok hrel
  have hd : deal w'.escrow = Function.update (deal s) dealId
      { deal s dealId with balance := 0, state := ⟨0, 0, 0⟩ } :=
    (congrArg deal hw).trans (deal_putDeal s dealId 0 ⟨0, 0, 0⟩)
  refine ⟨_, w', .commit hrun hstep, fun e he => ?_, ?_, fun d hne => ?_, hpaid⟩
  · rcases List.mem_cons.mp he with rfl | he
    · exact ⟨_, rfl⟩
    · exact ht e he
  · have hzero := congrArg Deal.balance (congrFun hd dealId)
    rwa [Function.update_self] at hzero
  · rw [hd, Function.update_of_ne hne, hdeal]

/-! The ways out of a pending release -/

/-- A call settles the release, with an outcome. -/
def SettledBy (tok : Token T) (env : Env own) (w : World T) (c : Call) (p : PendingRentRelease)
    (depositor : Address) (outcome : SettlementOutcome) : Prop :=
  ∃ w', invoke tok env w c =
    some (w', .settled ⟨outcome.recipient p depositor, p.amount, outcome⟩)

/-- Whoever calls: an undisputed release goes to its target once its window is over, and a disputed
one back to the depositor once the dispute has timed out. The resolver does not have to wait. -/
structure Settles (tok : Token T) (own : Address) (w : World T) (dealId : Bytes)
    (p : PendingRentRelease) (depositor : Address) : Prop where
  undisputed : w.escrow.rentDispute.get dealId = none →
    ∀ env : Env own, p.challengeEndAt ≤ env.timestamp →
      SettledBy tok env w (.settleRentReleaseTimeout dealId) p depositor .releaseToRecipient
  disputed : ∀ q, w.escrow.rentDispute.get dealId = some q →
    ∀ env : Env own, env.timestamp < 2 ^ 64 →
      q.openedAt + getDisputeTimeoutSeconds w.escrow ≤ env.timestamp →
      SettledBy tok env w (.settleDisputeTimeout dealId) p depositor .refundToDepositor
  resolved : ∀ q resolver, w.escrow.rentDispute.get dealId = some q →
    w.escrow.resolver = some resolver → ∀ env : Env own, env.authorized resolver = true →
      ∀ outcome ref, ref.length ≠ 0 →
        SettledBy tok env w (.resolveRentDispute resolver dealId outcome ref) p depositor outcome

end

/-- The tenant disputes the release, and then the admin freezes and pauses the escrow. -/
def contested : List (Action ⟨0⟩ (Address → Int)) :=
  requested ++ [.call (.signed ⟨0⟩ 5) (.challengeRentRelease ⟨3⟩ [1] [7])]

def shutDown : List (Action ⟨0⟩ (Address → Int)) :=
  contested ++ [.call (.signed ⟨0⟩ 6) (.freeze ⟨1⟩), .call (.signed ⟨0⟩ 6) (.pause ⟨1⟩)]

theorem deals_recoverable_contested :
    ∃ t w', (machine plainToken ⟨0⟩).Run ((machine plainToken ⟨0⟩).replay sampleStart shutDown).2
        t w' ∧
      (∀ e ∈ t, ByAlone (a := ⟨1⟩) (by decide) 7 e) ∧
      getDealBalance w'.escrow [1] = 0 ∧
      (∀ d, d ≠ [1] → deal w'.escrow d =
        deal ((machine plainToken ⟨0⟩).replay sampleStart shutDown).2.escrow d) ∧
      ∀ a, a ≠ ⟨0⟩ → plainToken.balance w'.token a = plainToken.balance
        ((machine plainToken ⟨0⟩).replay sampleStart shutDown).2.token a +
          Split.share ⟨⟨3⟩, 90, ⟨5⟩, 10, ⟨5⟩, 0⟩ a :=
  deals_recoverable plainToken_exact plainToken_honours (by decide) (by decide)
    ⟨_, (machine plainToken ⟨0⟩).run_replay sampleStart shutDown⟩ (by decide)
    ⟨by decide, by decide, by decide, by decide⟩ (by decide)

end Shelterflex.DealEscrow
