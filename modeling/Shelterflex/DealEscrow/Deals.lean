import Shelterflex.DealEscrow.Model

namespace Shelterflex.DealEscrow
open Lib UpgradeGovernance
set_option autoImplicit true

/-- The entries of one deal. -/
structure Deal where
  balance : Int
  state : DealState
  depositor : Option Address
  pending : Option PendingRentRelease
  dispute : Option RentDispute

def deal (s : State) (dealId : Bytes) : Deal where
  balance := getDealBalance s dealId
  state := getDealState s dealId
  depositor := s.dealDepositor.get dealId
  pending := s.pendingRentRelease.get dealId
  dispute := s.rentDispute.get dealId

/-- What a call does to the deal it is about. -/
inductive Deal.Change (dealId : Bytes) (v : Deal) : Call → Output → Deal → Prop where
  | deposit : 0 < amount → InI128 (v.balance + amount) → 0 ≤ v.state.lockedAmount →
      v.state.lockedAmount ≤ v.balance + amount →
      Change dealId v (.deposit source dealId amount) .unit
        { v with
          balance := v.balance + amount
          state := { v.state with totalBalance := v.balance + amount }
          depositor := some (v.depositor.getD source) }
  | release : 0 < v.balance →
      Change dealId v (.release caller dealId split externalRef) (.released v.balance)
        { v with balance := 0, state := ⟨0, 0, 0⟩ }
  | request : v.pending = none → 0 < amount → amount ≤ v.state.totalBalance →
      Change dealId v (.requestRentRelease caller dealId target amount source externalRef) .unit
        { v with
          state := ⟨v.state.totalBalance, amount, amount⟩
          pending := some ⟨target, amount, caller, now, challengeEndAt, source, externalRef⟩ }
  | challenge : v.pending = some p → v.depositor ≠ none → r.resolved = false →
      Change dealId v (.challengeRentRelease caller dealId challengeEvidenceRef) .unit
        { v with dispute := some r }
  | settle : v.pending = some p → v.depositor ≠ none → v.state.lockedAmount = p.amount →
      v.state.pendingPayout = p.amount → p.amount ≤ v.state.totalBalance →
      c = .settleRentReleaseTimeout dealId ∨ c = .settleDisputeTimeout dealId ∨
        (∃ caller outcome ref, c = .resolveRentDispute caller dealId outcome ref) →
      Change dealId v c (.settled ⟨recipient, p.amount, outcome⟩)
        { v with
          balance := v.state.totalBalance - p.amount
          state := ⟨v.state.totalBalance - p.amount, 0, 0⟩
          pending := none
          dispute := none }

theorem assertDealInvariants_ok :
    assertDealInvariants d = .ok u ↔
      (0 ≤ d.totalBalance ∧ 0 ≤ d.lockedAmount ∧ 0 ≤ d.pendingPayout) ∧
        d.lockedAmount = d.pendingPayout ∧ d.lockedAmount ≤ d.totalBalance := by
  simp only [assertDealInvariants, bind_ok, require_ok, exists_const]

/-! The writes of the entry points, on the entries of a deal. -/

theorem deal_putDealState (s : State) (dealId : Bytes) (d : DealState) :
    deal (putDealState dealId d s) =
      Function.update (deal s) dealId { deal s dealId with state := d } := by
  funext dealId'
  by_cases he : dealId' = dealId
  · subst he
    simp [deal, putDealState, getDealState, getDealBalance]
  · simp [deal, putDealState, getDealState, getDealBalance, Function.update_of_ne he,
      Store.getD_set_of_ne _ _ _ he]

theorem deal_putDeal (s : State) (dealId : Bytes) (n : Int) (d : DealState) :
    deal (putDealState dealId d (putDealBalance dealId n s)) =
      Function.update (deal s) dealId { deal s dealId with balance := n, state := d } := by
  funext dealId'
  by_cases he : dealId' = dealId
  · subst he
    simp [deal, putDealState, putDealBalance, getDealState, getDealBalance]
  · simp [deal, putDealState, putDealBalance, getDealState, getDealBalance,
      Function.update_of_ne he, Store.getD_set_of_ne _ _ _ he]

theorem deal_setDealDepositorIfMissing (s : State) (dealId : Bytes) (a : Address) :
    deal (setDealDepositorIfMissing dealId a s) = Function.update (deal s) dealId
      { deal s dealId with depositor := some ((deal s dealId).depositor.getD a) } := by
  funext dealId'
  unfold setDealDepositorIfMissing
  by_cases he : dealId' = dealId
  · subst he
    cases hd : s.dealDepositor.get dealId' with
    | none => simp [deal, Store.has, hd, getDealState, getDealBalance]
    | some b => simp [deal, Store.has, hd]
  · split
    · simp [Function.update_of_ne he]
    · simp [deal, getDealState, getDealBalance, Function.update_of_ne he,
        Store.get_set_of_ne _ _ he]

theorem putDealState_setDealDepositorIfMissing (s : State) (dealId : Bytes) :
    putDealState dealId d (setDealDepositorIfMissing dealId a s) =
      setDealDepositorIfMissing dealId a (putDealState dealId d s) := by
  unfold setDealDepositorIfMissing putDealState
  split <;> rfl

theorem getDealState_putDealBalance (s : State) (dealId : Bytes) (a : Address) (n m : Int) :
    { getDealState (setDealDepositorIfMissing dealId a (putDealBalance dealId n s)) dealId with
        totalBalance := m } = { getDealState s dealId with totalBalance := m } := by
  have hd : ∀ s', s'.dealState = s.dealState →
      { getDealState s' dealId with totalBalance := m } =
        { getDealState s dealId with totalBalance := m } := by
    intro s' hs
    simp only [getDealState, Store.getD, hs]
    cases s.dealState.get dealId <;> rfl
  apply hd
  unfold setDealDepositorIfMissing
  split <;> rfl

theorem deal_setPending (s : State) (dealId : Bytes) (p : PendingRentRelease) :
    deal { s with pendingRentRelease := s.pendingRentRelease.set dealId p } =
      Function.update (deal s) dealId { deal s dealId with pending := some p } := by
  funext dealId'
  by_cases he : dealId' = dealId
  · subst he
    simp [deal, getDealState, getDealBalance]
  · simp [deal, getDealState, getDealBalance, Function.update_of_ne he, Store.get_set_of_ne _ _ he]

theorem deal_setDispute (s : State) (dealId : Bytes) (r : RentDispute) :
    deal { s with rentDispute := s.rentDispute.set dealId r } =
      Function.update (deal s) dealId { deal s dealId with dispute := some r } := by
  funext dealId'
  by_cases he : dealId' = dealId
  · subst he
    simp [deal, getDealState, getDealBalance]
  · simp [deal, getDealState, getDealBalance, Function.update_of_ne he, Store.get_set_of_ne _ _ he]

theorem deal_clear (s : State) (dealId : Bytes) :
    deal { s with
        pendingRentRelease := s.pendingRentRelease.remove dealId
        rentDispute := s.rentDispute.remove dealId } =
      Function.update (deal s) dealId { deal s dealId with pending := none, dispute := none } := by
  funext dealId'
  by_cases he : dealId' = dealId
  · subst he
    simp [deal, getDealState, getDealBalance]
  · simp [deal, getDealState, getDealBalance, Function.update_of_ne he,
      Store.get_remove_of_ne _ he]

/-! What each entry point does to the deals. -/

section
variable {tok : Token T} {env : Env own} {w w' : World T}

/-- What a call does beside the deals: only `init` writes the first four entries, every guarded call
releases the lock, and only a drain ends a freeze. -/
structure Frame (c : Call) (s s' : State) : Prop where
  admin : s'.gov.admin = s.gov.admin
  schema : s'.gov.storageSchemaVersion = s.gov.storageSchemaVersion
  token : s'.token = s.token
  operator : s'.operator = s.operator
  reentrancy : s'.reentrancy = s.reentrancy ∨ s'.reentrancy = exit
  breaker : s'.circuitBreakerState = s.circuitBreakerState ∨
    s'.circuitBreakerState = some .frozen ∨
    (∃ admin drainHash, c = .executeDrain admin drainHash) ∧
      s'.circuitBreakerState = some .unfrozen

theorem Frame.of_gov {g : Gov} (ha : g.admin = s.gov.admin)
    (hs : g.storageSchemaVersion = s.gov.storageSchemaVersion) : Frame c s { s with gov := g } :=
  ⟨ha, hs, rfl, rfl, .inl rfl, .inl rfl⟩

/-- The call changes one deal. -/
def Changes (w w' : World T) (dealId : Bytes) (c : Call) (o : Output) : Prop :=
  ∃ v, deal w'.escrow = Function.update (deal w.escrow) dealId v ∧
    Deal.Change dealId (deal w.escrow dealId) c o v ∧ Frame c w.escrow w'.escrow

theorem setDealDepositorIfMissing_frame (c : Call) (s : State) (dealId : Bytes) (a : Address) :
    Frame c s (setDealDepositorIfMissing dealId a s) := by
  unfold setDealDepositorIfMissing
  split
  · exact .of_gov rfl rfl
  · exact ⟨rfl, rfl, rfl, rfl, .inl rfl, .inl rfl⟩

theorem deposit_ok (h : deposit tok env source dealId amount w = .ok w') :
    0 < amount ∧ env.authorized source = true ∧
      tok.transfer w.token (fun a => a = own || env.authorized a) source own amount =
        some w'.token ∧
      InI128 (getDealBalance w.escrow dealId + amount) ∧
      0 ≤ (getDealState w.escrow dealId).lockedAmount ∧
      (getDealState w.escrow dealId).lockedAmount ≤ getDealBalance w.escrow dealId + amount ∧
      w'.escrow = putDealState dealId
        { getDealState w.escrow dealId with
          totalBalance := getDealBalance w.escrow dealId + amount }
        (setDealDepositorIfMissing dealId source (putDealBalance dealId
          (getDealBalance w.escrow dealId + amount) { w.escrow with reentrancy := exit })) := by
  simp only [deposit, bind_ok, requireValidAmount, require_ok, requireAuth_ok, Token.call_ok,
    i128Add_ok, assertDealInvariants_ok, pure_ok, getDealState_putDealBalance] at h
  obtain ⟨_, _, _, ha, _, _, _, hs, _, _, _, _, t, ht, _, ⟨hi, rfl⟩, _, ⟨⟨_, hl, _⟩, _, hle⟩,
    rfl⟩ := h
  exact ⟨ha, hs, ht, hi, hl, hle, rfl⟩

theorem deposit_changes (h : deposit tok env source dealId amount w = .ok w') :
    Changes w w' dealId (.deposit source dealId amount) .unit := by
  obtain ⟨ha, _, _, hi, hl, hle, he⟩ := deposit_ok h
  refine ⟨_, ?_, .deposit ha hi hl hle, ?_⟩
  · rw [he, putDealState_setDealDepositorIfMissing, deal_setDealDepositorIfMissing, deal_putDeal,
      Function.update_self, Function.update_idem]
    rfl
  · have hf := setDealDepositorIfMissing_frame (.deposit source dealId amount)
      (putDealBalance dealId (getDealBalance w.escrow dealId + amount)
        { w.escrow with reentrancy := exit }) dealId source
    obtain ⟨_, _⟩ := w'
    subst he
    exact ⟨hf.admin, hf.schema, hf.token, hf.operator, .inr (hf.reentrancy.elim id id), hf.breaker⟩

theorem release_ok (h : release tok env caller dealId split externalRef w = .ok (w', n)) :
    requireNotFrozen w.escrow false = .ok () ∧
      n = getDealBalance w.escrow dealId ∧ 0 < n ∧
      (0 ≤ split.principalAmount ∧ 0 ≤ split.platformAmount ∧ 0 ≤ split.reporterAmount) ∧
      split.principalAmount + split.platformAmount + split.reporterAmount = n ∧
      (∃ t₁ t₂, payPart tok env w.token split.target split.principalAmount = .ok t₁ ∧
        payPart tok env t₁ split.platformAddr split.platformAmount = .ok t₂ ∧
        payPart tok env t₂ split.reporterAddr split.reporterAmount = .ok w'.token) ∧
      w'.escrow = { putDealState dealId ⟨0, 0, 0⟩ (putDealBalance dealId 0 w.escrow) with
        reentrancy := exit } := by
  simp only [release, bind_ok, require_ok, i128Add_ok, pure_ok, Prod.mk.injEq] at h
  obtain ⟨_, _, _, hf, _, _, _, _, _, _, _, hn, _, hb, _, ⟨_, rfl⟩, _, ⟨_, rfl⟩, _, hs, _,
    _, _, _, _, _, t₁, ht₁, t₂, ht₂, t₃, ht₃, rfl, rfl⟩ := h
  exact ⟨hf, rfl, hb, hn, hs, ⟨t₁, t₂, ht₁, ht₂, ht₃⟩, rfl⟩

theorem release_changes (h : release tok env caller dealId split externalRef w = .ok (w', n)) :
    Changes w w' dealId (.release caller dealId split externalRef) (.released n) := by
  obtain ⟨_, rfl, hb, _, _, _, he⟩ := release_ok h
  obtain ⟨_, _⟩ := w'
  subst he
  exact ⟨_, deal_putDeal w.escrow dealId 0 ⟨0, 0, 0⟩, .release hb,
    ⟨rfl, rfl, rfl, rfl, .inr rfl, .inl rfl⟩⟩

theorem requestRentRelease_changes
    (h : requestRentRelease env caller dealId target amount source externalRef w.escrow = .ok s) :
    Changes w { w with escrow := s } dealId
      (.requestRentRelease caller dealId target amount source externalRef) .unit := by
  simp only [requestRentRelease, bind_ok, requireValidAmount, require_ok, u64Add_ok, pure_ok] at h
  obtain ⟨_, _, _, ha, _, _, _, _, _, _, _, hp, _, hle, _, _, _, ⟨_, rfl⟩, rfl⟩ := h
  have hs := deal_setPending (putDealState dealId ⟨(getDealState w.escrow dealId).totalBalance,
    amount, amount⟩ w.escrow) dealId ⟨target, amount, caller, env.timestamp,
      env.timestamp + getChallengeWindowSeconds w.escrow, source, externalRef⟩
  rw [deal_putDealState, Function.update_self, Function.update_idem] at hs
  exact ⟨_, hs, .request hp ha hle, ⟨rfl, rfl, rfl, rfl, .inl rfl, .inl rfl⟩⟩

theorem challengeRentRelease_changes
    (h : challengeRentRelease env caller dealId challengeEvidenceRef w.escrow = .ok s) :
    Changes w { w with escrow := s } dealId
      (.challengeRentRelease caller dealId challengeEvidenceRef) .unit := by
  simp only [challengeRentRelease, bind_ok, okOr_ok, pure_ok] at h
  obtain ⟨_, _, _, _, _, _, _, _, p, hp, _, _, a, ha, _, _, rfl⟩ := h
  exact ⟨_, deal_setDispute w.escrow dealId _, .challenge hp (by simp [deal, ha]) rfl,
    ⟨rfl, rfl, rfl, rfl, .inl rfl, .inl rfl⟩⟩

theorem settleReleaseInner_ok (h : settleReleaseInner tok env dealId outcome w = .ok (w', r)) :
    ∃ p depositor, w.escrow.pendingRentRelease.get dealId = some p ∧
      w.escrow.dealDepositor.get dealId = some depositor ∧
      r = ⟨outcome.recipient p depositor, p.amount, outcome⟩ ∧
      tok.transfer w.token (fun a => a = own || env.authorized a) own r.recipient p.amount =
        some w'.token := by
  simp only [settleReleaseInner, bind_ok, okOr_ok, Token.call_ok, pure_ok, Prod.mk.injEq] at h
  obtain ⟨p, hp, a, ha, _, _, _, _, _, _, t, ht, _, _, _, _, rfl, rfl⟩ := h
  exact ⟨p, a, hp, ha, rfl, ht⟩

theorem resolveRentDispute_ok
    (h : resolveRentDispute tok env caller dealId outcome ref w = .ok (w', r)) :
    w.escrow.resolver = some caller ∧ env.authorized caller = true ∧
      (∃ q, w.escrow.rentDispute.get dealId = some q) ∧
      settleReleaseInner tok env dealId outcome w = .ok (w', r) := by
  simp only [resolveRentDispute, bind_ok, okOr_ok, require_ok, requireAuth_ok] at h
  obtain ⟨_, _, _, _, _, _, a, ha, _, rfl, _, hs, q, hq, _, _, h⟩ := h
  exact ⟨ha, hs, ⟨q, hq⟩, h⟩

theorem settleRentReleaseTimeout_ok
    (h : settleRentReleaseTimeout tok env dealId w = .ok (w', r)) :
    w.escrow.rentDispute.get dealId = none ∧
      (∃ p, w.escrow.pendingRentRelease.get dealId = some p ∧ p.challengeEndAt ≤ env.timestamp) ∧
      settleReleaseInner tok env dealId .releaseToRecipient w = .ok (w', r) := by
  simp only [settleRentReleaseTimeout, bind_ok, okOr_ok, require_ok] at h
  obtain ⟨_, _, _, _, _, hn, p, hp, _, ht, h⟩ := h
  exact ⟨hn, ⟨p, hp, ht⟩, h⟩

theorem settleDisputeTimeout_ok (h : settleDisputeTimeout tok env dealId w = .ok (w', r)) :
    (∃ q, w.escrow.rentDispute.get dealId = some q ∧
      q.openedAt + getDisputeTimeoutSeconds w.escrow ≤ env.timestamp) ∧
      settleReleaseInner tok env dealId .refundToDepositor w = .ok (w', r) := by
  simp only [settleDisputeTimeout, bind_ok, okOr_ok, require_ok, u64Add_ok] at h
  obtain ⟨_, _, _, _, q, hq, _, _, _, ⟨_, rfl⟩, _, ht, h⟩ := h
  exact ⟨⟨q, hq, ht⟩, h⟩

theorem settleReleaseInner_changes (h : settleReleaseInner tok env dealId outcome w = .ok (w', r))
    (hc : c = .settleRentReleaseTimeout dealId ∨ c = .settleDisputeTimeout dealId ∨
      (∃ caller outcome ref, c = .resolveRentDispute caller dealId outcome ref)) :
    Changes w w' dealId c (.settled r) := by
  simp only [settleReleaseInner, bind_ok, okOr_ok, require_ok, i128Sub_ok,
    assertDealInvariants_ok, pure_ok, Prod.mk.injEq] at h
  obtain ⟨p, hp, a, ha, _, ⟨hl, hy⟩, _, _, _, _, t, _, _, ⟨_, rfl⟩, _, ⟨⟨hn, _, _⟩, _, _⟩, rfl,
    rfl⟩ := h
  refine ⟨_, ?_, .settle hp (by simp [deal, ha]) hl hy (sub_nonneg.mp hn) hc,
    ⟨rfl, rfl, rfl, rfl, .inr rfl, .inl rfl⟩⟩
  have hs := deal_clear (putDealState dealId
    ⟨(getDealState w.escrow dealId).totalBalance - p.amount, 0, 0⟩ (putDealBalance dealId
      ((getDealState w.escrow dealId).totalBalance - p.amount) w.escrow)) dealId
  rw [deal_putDeal, Function.update_self, Function.update_idem] at hs
  exact hs

theorem resolveRentDispute_changes
    (h : resolveRentDispute tok env caller dealId outcome ref w = .ok (w', r)) :
    Changes w w' dealId (.resolveRentDispute caller dealId outcome ref) (.settled r) := by
  obtain ⟨_, _, _, hs⟩ := resolveRentDispute_ok h
  exact settleReleaseInner_changes hs (.inr (.inr ⟨_, _, _, rfl⟩))

theorem settleRentReleaseTimeout_changes
    (h : settleRentReleaseTimeout tok env dealId w = .ok (w', r)) :
    Changes w w' dealId (.settleRentReleaseTimeout dealId) (.settled r) := by
  obtain ⟨_, _, hs⟩ := settleRentReleaseTimeout_ok h
  exact settleReleaseInner_changes hs (.inl rfl)

theorem settleDisputeTimeout_changes (h : settleDisputeTimeout tok env dealId w = .ok (w', r)) :
    Changes w w' dealId (.settleDisputeTimeout dealId) (.settled r) := by
  obtain ⟨_, hs⟩ := settleDisputeTimeout_ok h
  exact settleReleaseInner_changes hs (.inr (.inl rfl))

/-- The escrow is set up at the latest schema, and no call is in progress. -/
structure Ready (s : State) : Prop where
  admin : s.gov.admin ≠ none
  schema : s.gov.storageSchemaVersion = some storageSchemaV3
  token : s.token ≠ none
  reentrancy : s.reentrancy.getD false = false

theorem Frame.ready (h : Frame c s s') (hr : Ready s) : Ready s' where
  admin := h.admin ▸ hr.admin
  schema := h.schema ▸ hr.schema
  token := h.token ▸ hr.token
  reentrancy := by
    rcases h.reentrancy with he | he
    · exact he ▸ hr.reentrancy
    · rw [he]
      rfl

theorem Ready.version (hr : Ready s) : getStorageSchemaVersion s = storageSchemaV3 := by
  rw [getStorageSchemaVersion, hr.schema]
  rfl

theorem migrateStorageSchema_noop (hv : getStorageSchemaVersion s = storageSchemaV3)
    (h : migrateStorageSchema env admin fromVersion dealIds s = .ok s') : s' = s := by
  simp only [migrateStorageSchema, bind_ok] at h
  obtain ⟨_, _, h⟩ := h
  rw [if_pos hv] at h
  exact (pure_ok.mp h).symm

/-- The deal whose entries a call writes. -/
def Call.dealId : Call → Option Bytes
  | .deposit _ dealId _ => some dealId
  | .release _ dealId _ _ => some dealId
  | .requestRentRelease _ dealId _ _ _ _ => some dealId
  | .challengeRentRelease _ dealId _ => some dealId
  | .resolveRentDispute _ dealId _ _ => some dealId
  | .settleRentReleaseTimeout dealId => some dealId
  | .settleDisputeTimeout dealId => some dealId
  | _ => none

/-- The tokens a call sent out. -/
def Output.outflow : Output → Int
  | .released amount => amount
  | .settled settlement => settlement.amount
  | _ => 0

/-- The call is about no deal: it leaves them all alone, and moves no tokens. -/
structure Apart (c : Call) (w w' : World T) (o : Output) : Prop where
  deals : deal w'.escrow = deal w.escrow
  frame : Frame c w.escrow w'.escrow
  token : w'.token = w.token
  outflow : o.outflow = 0

theorem done_apart {x : Outcome ε State} (h : commit x w.done = some (w', o))
    (hd : ∀ s, x = .ok s → deal s = deal w.escrow ∧ Frame c w.escrow s) : Apart c w w' o := by
  obtain ⟨s, hs, he⟩ := commit_some.mp h
  cases he
  exact ⟨(hd s hs).1, (hd s hs).2, rfl, rfl⟩

theorem invoke_apart (hr : Ready w.escrow) (h : invoke tok env w c = some (w', o))
    (hc : c.dealId = none) : Apart c w w' o := by
  cases c with
  | init admin operator token receiptContract =>
    refine done_apart h fun s hs => ?_
    simp only [init, bind_ok, require_ok] at hs
    obtain ⟨_, hn, _⟩ := hs
    exact absurd hn hr.admin
  | migrateStorageSchema admin fromVersion dealIds =>
    refine done_apart h fun s hs => ?_
    rw [migrateStorageSchema_noop hr.version hs]
    exact ⟨rfl, .of_gov rfl rfl⟩
  | setResolver _ _ | setRecoveryDelay _ _ =>
    refine done_apart h fun s hs => ?_
    simp only [setResolver, setRecoveryDelay, bind_ok, pure_ok] at hs
    obtain ⟨_, _, rfl⟩ := hs
    exact ⟨rfl, ⟨rfl, rfl, rfl, rfl, .inl rfl, .inl rfl⟩⟩
  | configureDisputeWindows _ _ _ | proposeDrain _ _ | pause _ | unpause _ =>
    refine done_apart h fun s hs => ?_
    simp only [configureDisputeWindows, proposeDrain, pause, unpause, bind_ok, pure_ok] at hs
    obtain ⟨_, _, _, _, rfl⟩ := hs
    exact ⟨rfl, ⟨rfl, rfl, rfl, rfl, .inl rfl, .inl rfl⟩⟩
  | freeze _ =>
    refine done_apart h fun s hs => ?_
    simp only [freeze, bind_ok, pure_ok] at hs
    obtain ⟨_, _, _, _, rfl⟩ := hs
    exact ⟨rfl, ⟨rfl, rfl, rfl, rfl, .inl rfl, .inr (.inl rfl)⟩⟩
  | executeDrain _ _ =>
    refine done_apart h fun s hs => ?_
    simp only [executeDrain, bind_ok, pure_ok] at hs
    obtain ⟨_, _, _, _, _, _, _, _, _, _, _, _, _, _, rfl⟩ := hs
    exact ⟨rfl, ⟨rfl, rfl, rfl, rfl, .inl rfl, .inr (.inr ⟨⟨_, _, rfl⟩, rfl⟩)⟩⟩
  | activateDeal _ _ | completeDeal _ _ | defaultDeal _ _ =>
    refine done_apart h fun s hs => ?_
    simp only [activateDeal, completeDeal, defaultDeal, moveDeal, bind_ok, pure_ok] at hs
    obtain ⟨_, _, _, _, _, _, _, _, rfl⟩ := hs
    exact ⟨rfl, ⟨rfl, rfl, rfl, rfl, .inl rfl, .inl rfl⟩⟩
  | setGuardian _ _ =>
    refine done_apart h fun s hs => ?_
    simp only [setGuardian, bind_ok, mapErr_ok, pure_ok] at hs
    obtain ⟨g, hs, rfl⟩ := hs
    cases setGuardian_ok hs
    exact ⟨rfl, .of_gov rfl rfl⟩
  | setUpgradeDelay _ _ =>
    refine done_apart h fun s hs => ?_
    simp only [setUpgradeDelay, bind_ok, mapErr_ok, pure_ok] at hs
    obtain ⟨g, hs, rfl⟩ := hs
    cases setUpgradeDelay_ok hs
    exact ⟨rfl, .of_gov rfl rfl⟩
  | proposeUpgrade _ _ =>
    refine done_apart h fun s hs => ?_
    simp only [proposeUpgrade, bind_ok, mapErr_ok, pure_ok] at hs
    obtain ⟨g, hs, rfl⟩ := hs
    obtain ⟨_, _, rfl⟩ := proposeUpgrade_ok hs
    exact ⟨rfl, .of_gov rfl rfl⟩
  | cancelUpgrade _ =>
    refine done_apart h fun s hs => ?_
    simp only [cancelUpgrade, bind_ok, pure_ok] at hs
    obtain ⟨g, hs, rfl⟩ := hs
    obtain ⟨_, rfl⟩ := cancelUpgrade_ok hs
    exact ⟨rfl, .of_gov rfl rfl⟩
  | executeUpgrade _ _ =>
    obtain ⟨_, hs, he⟩ := commit_some.mp h
    cases he
    simp only [executeUpgrade, bind_ok, mapErr_ok, pure_ok] at hs
    obtain ⟨⟨g, _⟩, hs, rfl⟩ := hs
    obtain ⟨_, _, _, _, _, _, _, rfl⟩ := executeUpgrade_ok hs
    exact ⟨rfl, .of_gov rfl rfl, rfl, rfl⟩
  | emergencyUpgrade _ _ =>
    obtain ⟨_, hs, he⟩ := commit_some.mp h
    cases he
    simp only [emergencyUpgrade, bind_ok, mapErr_ok, pure_ok] at hs
    obtain ⟨⟨g, _⟩, hs, rfl⟩ := hs
    obtain ⟨_, _, rfl⟩ := emergencyUpgrade_ok hs
    exact ⟨rfl, .of_gov rfl rfl, rfl, rfl⟩
  | _ => cases hc

theorem invoke_deals (hr : Ready w.escrow) (h : invoke tok env w c = some (w', o)) :
    c.dealId = none ∧ Apart c w w' o ∨
      ∃ dealId, c.dealId = some dealId ∧ Changes w w' dealId c o := by
  by_cases hc : c.dealId = none
  · exact .inl ⟨hc, invoke_apart hr h hc⟩
  right
  cases c with
  | deposit source dealId amount =>
    obtain ⟨_, hs, he⟩ := commit_some.mp h
    cases he
    exact ⟨_, rfl, deposit_changes hs⟩
  | release caller dealId split externalRef =>
    obtain ⟨_, hs, he⟩ := commit_some.mp h
    cases he
    exact ⟨_, rfl, release_changes hs⟩
  | requestRentRelease caller dealId target amount source externalRef =>
    obtain ⟨_, hs, he⟩ := commit_some.mp h
    cases he
    exact ⟨_, rfl, requestRentRelease_changes hs⟩
  | challengeRentRelease caller dealId challengeEvidenceRef =>
    obtain ⟨_, hs, he⟩ := commit_some.mp h
    cases he
    exact ⟨_, rfl, challengeRentRelease_changes hs⟩
  | resolveRentDispute caller dealId outcome ref =>
    obtain ⟨_, hs, he⟩ := commit_some.mp h
    cases he
    exact ⟨_, rfl, resolveRentDispute_changes hs⟩
  | settleRentReleaseTimeout dealId =>
    obtain ⟨_, hs, he⟩ := commit_some.mp h
    cases he
    exact ⟨_, rfl, settleRentReleaseTimeout_changes hs⟩
  | settleDisputeTimeout dealId =>
    obtain ⟨_, hs, he⟩ := commit_some.mp h
    cases he
    exact ⟨_, rfl, settleDisputeTimeout_changes hs⟩
  | _ => exact absurd rfl hc

/-- A property of the deals survives a call if the deal it changes keeps it. -/
theorem act_deals {P : Bytes → Deal → Prop} {a : Action own T} (hr : Ready w.escrow)
    (h : act tok w a = some (w', o)) (hP : ∀ dealId, P dealId (deal w.escrow dealId))
    (hs : ∀ env c dealId v, a = .call env c → Deal.Change dealId (deal w.escrow dealId) c o v →
      P dealId v) : Ready w'.escrow ∧ ∀ dealId, P dealId (deal w'.escrow dealId) := by
  cases a with
  | traffic t =>
    simp only [act, Option.ite_none_right_eq_some, Option.some.injEq, Prod.mk.injEq] at h
    obtain ⟨_, rfl, _⟩ := h
    exact ⟨hr, hP⟩
  | call env c =>
    rcases invoke_deals hr h with ⟨_, ha⟩ | ⟨dealId, _, v, hd, hv, hf⟩
    · exact ⟨ha.frame.ready hr, ha.deals ▸ hP⟩
    · refine ⟨hf.ready hr, fun dealId' => ?_⟩
      rw [hd]
      by_cases he : dealId' = dealId
      · subst he
        rw [Function.update_self]
        exact hs env c dealId' v rfl hv
      · rw [Function.update_of_ne he]
        exact hP dealId'

end

end Shelterflex.DealEscrow
