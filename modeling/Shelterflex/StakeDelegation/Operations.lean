import Shelterflex.StakeDelegation.Restaking

namespace Shelterflex.StakeDelegation
open Lib Book
set_option autoImplicit true

theorem setCommission_ok (h : setCommission env d n s = .ok s') :
    ∃ s₁ R, settleFor [d] s = .ok s₁ ∧ s' = { s₁ with delegateeCommissionRate := R } := by
  simp only [setCommission, bind_ok, settlePendingFor_eq] at h
  obtain ⟨_, _, _, _, h⟩ := h
  split at h
  · simp only [bind_ok, pure_ok] at h
    obtain ⟨s₁, hs, rfl⟩ := h
    exact ⟨s₁, _, hs, rfl⟩
  · cases h

theorem setCommission_effect (h : setCommission env d n s = .ok s') : Effect within even s s' := by
  obtain ⟨s₁, _, hs, rfl⟩ := setCommission_ok h
  refine ⟨⟨_, s₁, hs, rfl, rfl, rfl, rfl, rfl, fun _ _ => rfl⟩, ?_⟩
  exact (settleFor_settles hs).book ▸ .keep

/-! The calls that move no stake -/

theorem requestRevocation_ok (h : requestRevocation env a d s = .ok s') :
    d ∈ (getDelegations s a).map Delegation.delegatee ∧ s' = { s with
      revocationRequest := s.revocationRequest.set (a, d) (getCurrentEpoch s) } := by
  simp only [requestRevocation, bind_ok, require_ok, pure_ok] at h
  obtain ⟨_, _, _, _, _, hd, rfl⟩ := h
  exact ⟨by simpa using hd, rfl⟩

theorem requestUndelegate_ok (hv : (book s).Valid) (h : requestUndelegate env a d n s = .ok s') :
    ∃ p : PendingUndelegationRecord, p.amount = n ∧ p.requestTime = env.timestamp ∧
      n ≤ amountTo d (getDelegations s a) ∧
      s' = { s with pendingUndelegation := s.pendingUndelegation.set (a, d) p } := by
  simp only [requestUndelegate, bind_ok] at h
  obtain ⟨_, _, _, _, h⟩ := h
  split at h
  · rename_i hn
    simp only [bind_ok, okOr_ok, require_ok, pure_ok] at h
    obtain ⟨e, he, _, hle, rfl⟩ := h
    have ha := find_amount (getDelegations s a) d (hv.tidy a)
    rw [he] at ha
    exact ⟨⟨n, env.timestamp, hn⟩, rfl, rfl, hle.trans_eq ha, rfl⟩
  · cases h

theorem advanceEpoch_ok (h : advanceEpoch env admin s = .ok (s', n)) :
    s' = { s with currentEpoch := some n } := by
  simp only [advanceEpoch, bind_ok, pure_ok, Prod.mk.injEq] at h
  obtain ⟨_, _, _, _, _, _, rfl, rfl⟩ := h
  rfl

theorem setUndelegationCooldown_ok (h : setUndelegationCooldown env admin n s = .ok s') :
    s' = { s with undelegationCooldown := some n } := by
  simp only [setUndelegationCooldown, bind_ok, pure_ok] at h
  obtain ⟨_, _, _, _, rfl⟩ := h
  rfl

theorem setSlashingAuthority_ok (h : setSlashingAuthority env admin authority s = .ok s') :
    s' = { s with slashingAuthority := some authority } := by
  simp only [setSlashingAuthority, bind_ok, pure_ok] at h
  obtain ⟨_, _, rfl⟩ := h
  rfl

theorem pause_ok (h : pause env admin s = .ok s') : s' = { s with paused := some true } := by
  simp only [pause, bind_ok, pure_ok] at h
  obtain ⟨_, _, rfl⟩ := h
  rfl

theorem unpause_ok (h : unpause env admin s = .ok s') : s' = { s with paused := some false } := by
  simp only [unpause, bind_ok, pure_ok] at h
  obtain ⟨_, _, rfl⟩ := h
  rfl

/-- What `init` makes of a state. -/
def started (admin : Address) (epochDurationSecs : Nat) (s : State) : State :=
  { s with
    admin := some admin
    epochDuration := some epochDurationSecs
    currentEpoch := some 1
    undelegationCooldown := some 604800
    rewardIndex := some 0
    totalStaked := some 0 }

theorem init_ok (h : init admin epochDurationSecs s = .ok s') :
    s.admin = none ∧ s' = started admin epochDurationSecs s := by
  simp only [init, bind_ok, require_ok, pure_ok] at h
  obtain ⟨_, hn, rfl⟩ := h
  exact ⟨hn, rfl⟩

/-- How a call moves rewards and stakes, with what it funds, what it pays and what stake it leaves
out of the total. -/
inductive Effects (within even : Prop) (s s' : State) : Int → Int → Int → Prop where
  | start : s.admin = none → s' = started admin epochDurationSecs s →
      Effects within even s s' 0 0 (getTotalStaked s)
  | restake : Effect within even s s' → Effects within even s s' 0 0 0
  | drawRewards : settleFor [d] s = .ok s₁ →
      s' = { s₁ with pendingRewards := s₁.pendingRewards.set d 0 } →
      Effects within even s s' 0 (getPendingRewards s₁ d) 0
  | drawCommission : settleFor [d] s = .ok s₁ →
      s' = { s₁ with delegateeCommissionBalance := s₁.delegateeCommissionBalance.set d 0 } →
      Effects within even s s' 0 (getCommissionBalance s₁ d) 0
  | fund : 0 < n → 0 < getTotalStaked s → s.admin ≠ none →
      s' = { s with
        rewardIndex := some (getRewardIndex s + (n * scale).tdiv (getTotalStaked s)) } →
      Effects within even s s' n 0 0
  | idle : 0 < n → s' = s → Effects within even s s' n 0 0

theorem fundRewards_ok (h : fundRewards env a n s = .ok s') :
    0 < n ∧ s.admin ≠ none ∧ s' = if 0 < getTotalStaked s then { s with
      rewardIndex := some (getRewardIndex s + (n * scale).tdiv (getTotalStaked s)) } else s := by
  simp only [fundRewards, requireAdmin, bind_ok, require_ok, okOr_ok] at h
  obtain ⟨_, _, _, ⟨admin, ha, _⟩, _, hn, h⟩ := h
  have hset : s.admin ≠ none := ha ▸ Option.some_ne_none admin
  split at h <;> rename_i ht
  · simp only [bind_ok, pure_ok, i128Mul_ok, i128Div_ok, i128Add_ok] at h
    obtain ⟨_, ⟨_, rfl⟩, _, ⟨_, _, rfl⟩, _, ⟨_, rfl⟩, rfl⟩ := h
    exact ⟨hn, hset, (if_pos ht).symm⟩
  · exact ⟨hn, hset, (pure_ok.mp h).symm.trans (if_neg ht).symm⟩

theorem fundRewards_effects (h : fundRewards env a n s = .ok s') :
    Effects within even s s' n 0 0 := by
  obtain ⟨hn, hset, he⟩ := fundRewards_ok h
  split at he <;> rename_i ht
  · exact .fund hn ht hset he
  · exact .idle hn he

theorem claimDelegateeRewards_ok (h : claimDelegateeRewards env d s = .ok (s', n)) :
    ∃ s₁, settleFor [d] s = .ok s₁ ∧ n = getPendingRewards s₁ d ∧
      s' = { s₁ with pendingRewards := s₁.pendingRewards.set d 0 } := by
  simp only [claimDelegateeRewards, bind_ok, pure_ok, settlePendingFor_eq, Prod.mk.injEq] at h
  obtain ⟨_, _, _, _, s₁, hs, rfl, rfl⟩ := h
  exact ⟨s₁, hs, rfl, rfl⟩

theorem claimDelegateeRewards_effects (h : claimDelegateeRewards env d s = .ok (s', n)) :
    Effects within even s s' 0 n 0 := by
  obtain ⟨s₁, hs, rfl, he⟩ := claimDelegateeRewards_ok h
  exact .drawRewards hs he

theorem claimCommission_ok (h : claimCommission env d s = .ok (s', n)) :
    ∃ s₁, settleFor [d] s = .ok s₁ ∧ n = getCommissionBalance s₁ d ∧
      s' = { s₁ with
        delegateeCommissionBalance := s₁.delegateeCommissionBalance.set d 0 } := by
  simp only [claimCommission, bind_ok, pure_ok, settlePendingFor_eq, Prod.mk.injEq] at h
  obtain ⟨_, _, _, _, s₁, hs, rfl, rfl⟩ := h
  exact ⟨s₁, hs, rfl, rfl⟩

theorem claimCommission_effects (h : claimCommission env d s = .ok (s', n)) :
    Effects within even s s' 0 n 0 := by
  obtain ⟨s₁, hs, rfl, he⟩ := claimCommission_ok h
  exact .drawCommission hs he

theorem Effects.moves (h : Effects within even s s' n m k) :
    (Moves within even (book s) (book s') ∧ k = 0) ∨
      (book s' = { book s with total := 0 } ∧ k = getTotalStaked s) := by
  cases h with
  | start _ he =>
    rw [he]
    exact .inr ⟨rfl, rfl⟩
  | restake he => exact .inl ⟨he.moves, rfl⟩
  | drawRewards hs he =>
    rw [he]
    exact .inl ⟨(settleFor_settles hs).book ▸ .keep, rfl⟩
  | drawCommission hs he =>
    rw [he]
    exact .inl ⟨(settleFor_settles hs).book ▸ .keep, rfl⟩
  | fund _ _ _ he =>
    rw [he]
    exact .inl ⟨.keep, rfl⟩
  | idle _ he =>
    rw [he]
    exact .inl ⟨.keep, rfl⟩

theorem Effects.valid (h : Effects within even s s' n m k) (hv : (book s).Valid) :
    (book s').Valid := by
  rcases h.moves with ⟨hm, _⟩ | ⟨he, _⟩
  · exact hm.valid hv
  · rw [he]
    exact ⟨hv.tidy, hv.nodup, hv.listed, hv.covered, hv.finite⟩

theorem Effects.agrees (h : Effects within even s s' n m k) (hv : (book s).Valid) (hw : within)
    (he : even) (ha : (book s).Agrees) : (book s').Agrees := by
  rcases h.moves with ⟨hm, _⟩ | ⟨hb, _⟩
  · exact hm.agrees hv hw he ha
  · rw [hb]
    exact ha

theorem Effects.backed (h : Effects within even s s' n m k) (hv : (book s).Valid) (he : even)
    (hk : (book s).Backed) : (book s').Backed := by
  rcases h.moves with ⟨hm, _⟩ | ⟨hb, _⟩
  · exact hm.backed hv he hk
  · rw [hb]
    exact hk

/-- The total stays what the stakers have, unless an `init` finds some of it. -/
theorem Effects.total_iff (h : Effects within even s s' n m k) (hv : (book s).Valid)
    (hb : (book s).Balanced) : (book s').Balanced ↔ k = 0 := by
  rcases h.moves with ⟨hm, hk⟩ | ⟨he, hk⟩
  · exact iff_of_true (hm.balanced hv hb) hk
  · rw [he, hk]
    exact eq_comm.trans (Eq.congr_left hb.symm)

def Call.funds : Call → Int
  | .fundRewards _ amount => amount
  | _ => 0

/-- The stake that a call takes out of the total without taking it from its stakers. -/
def Call.forgets (s : State) : Call → Int
  | .init _ _ => getTotalStaked s
  | _ => 0

def Call.UndelegatesWithin (s : State) : Call → Prop
  | .completeUndelegate delegator delegatee =>
    StakeDelegation.UndelegatesWithin s delegator delegatee
  | _ => True

def Call.SlashesEvenly (s : State) : Call → Prop
  | .applyDelegateeSlash _ delegatee slashAmount =>
    StakeDelegation.SlashesEvenly s delegatee slashAmount
  | _ => True

/-- What a call pays out. -/
def paid : Call → Output → Int
  | .claimDelegateeRewards _, .amount n => n
  | .claimCommission _, .amount n => n
  | _, _ => 0

/-! The delegations, and the requests to end them -/

/-- What an address delegates to another. -/
def delegated (s : State) (a d : Address) : Int := amountTo d (getDelegations s a)

/-- What a call does to the delegations and to the requests to end them. -/
inductive Requests (now : Nat) (s s' : State) : Call → Prop where
  | lower : (∀ a d, delegated s' a d ≤ delegated s a d) →
      (∀ k r, s'.revocationRequest.get k = some r → s.revocationRequest.get k = some r) →
      (∀ k p, s'.pendingUndelegation.get k = some p → s.pendingUndelegation.get k = some p) →
      Requests now s s' c
  | delegate : (∀ a' d', ¬ (a' = a ∧ d' = d) → delegated s' a' d' = delegated s a' d') →
      s'.revocationRequest = s.revocationRequest →
      s'.pendingUndelegation = s.pendingUndelegation → Requests now s s' (.delegate a d n)
  | requestRevocation : 0 < delegated s a d →
      s' = { s with revocationRequest := s.revocationRequest.set (a, d) (getCurrentEpoch s) } →
      Requests now s s' (.requestRevocation a d)
  | requestUndelegate : p.amount ≤ delegated s a d → p.requestTime = now →
      s' = { s with pendingUndelegation := s.pendingUndelegation.set (a, d) p } →
      Requests now s s' (.requestUndelegate a d p.amount)

theorem Requests.lower_only (hd : ∀ a d, delegated s' a d ≤ delegated s a d)
    (hr : s'.revocationRequest = s.revocationRequest)
    (hp : s'.pendingUndelegation = s.pendingUndelegation) : Requests now s s' c := by
  apply Requests.lower hd
  · intro k r h
    exact hr ▸ h
  · intro k p h
    exact hp ▸ h

theorem Requests.keep (hd : s'.delegations = s.delegations)
    (hr : s'.revocationRequest = s.revocationRequest)
    (hp : s'.pendingUndelegation = s.pendingUndelegation) : Requests now s s' c := by
  apply Requests.lower_only _ hr hp
  intro a d
  rw [delegated, getDelegations, hd]
  rfl

theorem Requests.keep_settled (hs : settleFor ds s = .ok s₁) (hd : s'.delegations = s₁.delegations)
    (hr : s'.revocationRequest = s₁.revocationRequest)
    (hp : s'.pendingUndelegation = s₁.pendingUndelegation) : Requests now s s' c := by
  obtain ⟨_, _, _, rfl⟩ := settleFor_settles hs
  exact .keep hd hr hp

theorem Entry.delegated_of_ne (h : Entry a d l x s s') (hn : ¬ (a' = a ∧ d' = d)) :
    delegated s' a' d' = delegated s a' d' := by
  have hp : delegated s' a' d' = (StakeDelegation.book s').position a' d' := rfl
  rw [hp, h.book]
  by_cases ha : a' = a
  · have hd : d' ≠ d := fun hd => hn ⟨ha, hd⟩
    rw [ha, position_row_self]
    exact h.other d' hd
  · exact position_row_of_ne _ ha _ _ _ _

theorem Entry.delegated_self (h : Entry a d l x s s') : delegated s' a d = amountTo d l := by
  have hp : delegated s' a d = (StakeDelegation.book s').position a d := rfl
  rw [hp, h.book]
  exact position_row_self _ _ _ _ _ _

/-- A call that lowers one delegation lowers all of them. -/
theorem Entry.delegated_le (h : Entry a d l x s s') (hl : amountTo d l ≤ delegated s a d)
    (a' d' : Address) : delegated s' a' d' ≤ delegated s a' d' := by
  by_cases hn : a' = a ∧ d' = d
  · obtain ⟨rfl, rfl⟩ := hn
    rw [h.delegated_self]
    exact hl
  · exact (h.delegated_of_ne hn).le

theorem get_of_remove [DecidableEq κ] {m m' : Store κ α} (h : m' = m.remove k)
    (hg : m'.get k' = some v) : m.get k' = some v := by
  rw [h, Store.get_remove] at hg
  split at hg
  · cases hg
  · exact hg

theorem delegate_requests (hv : (book s).Valid) (h : delegate env a d n s = .ok s') :
    Requests now s s' (.delegate a d n) := by
  obtain ⟨l, he, _, hr, hp⟩ := delegate_ok hv h
  exact .delegate (fun _ _ hn => he.delegated_of_ne hn) hr hp

theorem finalizeRevocation_requests (hv : (book s).Valid)
    (h : finalizeRevocation env a d s = .ok s') : Requests now s s' c := by
  obtain ⟨l, _, he, hx, _, _, hr, hp⟩ := finalizeRevocation_ok hv h
  apply Requests.lower
  · apply he.delegated_le
    rw [hx]
    exact hv.position_nonneg a d
  · intro k r hg
    exact get_of_remove hr hg
  · intro k p hg
    exact hp ▸ hg

theorem completeUndelegate_requests (hv : (book s).Valid)
    (h : completeUndelegate env a d s = .ok s') : Requests now s s' c := by
  obtain ⟨l, p, he, hx, _, _, hr, hp⟩ := completeUndelegate_ok hv h
  apply Requests.lower
  · apply he.delegated_le
    have hn : 0 ≤ delegated s a d := hv.position_nonneg a d
    have hpos := p.positive
    rw [delegated] at hn ⊢
    omega
  · intro k r hg
    exact hr ▸ hg
  · intro k p hg
    exact get_of_remove hp hg

theorem applyDelegateeSlash_requests (hv : (book s).Valid)
    (h : applyDelegateeSlash env x d n s = .ok s') : Requests now s s' c := by
  obtain ⟨_, hn, hle, hb, hr, hp⟩ := applyDelegateeSlash_ok hv h
  apply Requests.lower_only _ hr hp
  intro a d'
  have hle' := hv.position_column_le (sub_nonneg.mpr hle) (sub_lt_self _ hn) a d'
  exact (congrArg (Book.position · a d') hb).trans_le hle'

theorem slashStake_requests (hv : (book s).Valid) (h : slashStake env x a n s = .ok (s', m)) :
    Requests now s s' c := by
  have hok : Effect True True s s' ∧ _ := slashStake_ok hv h
  obtain ⟨_, ⟨l, hD, hl⟩, hr, hp⟩ := hok
  apply Requests.lower_only _ hr hp
  intro a' d'
  rw [delegated, hD]
  by_cases ha : a' = a
  · rw [ha, Function.update_self]
    exact hl d'
  · rw [Function.update_of_ne ha]
    rfl

theorem requestRevocation_effect (h : requestRevocation env a d s = .ok s') :
    Effect within even s s' := by
  obtain ⟨_, rfl⟩ := requestRevocation_ok h
  exact .keep rfl rfl rfl rfl rfl rfl

theorem requestUndelegate_effect (hv : (book s).Valid)
    (h : requestUndelegate env a d n s = .ok s') : Effect within even s s' := by
  obtain ⟨_, _, _, _, rfl⟩ := requestUndelegate_ok hv h
  exact .keep rfl rfl rfl rfl rfl rfl

theorem fundRewards_requests (h : fundRewards env a n s = .ok s') : Requests now s s' c := by
  obtain ⟨_, _, he⟩ := fundRewards_ok h
  split at he
  all_goals
    rw [he]
    exact .keep rfl rfl rfl

theorem requestRevocation_requests (hv : (book s).Valid)
    (h : requestRevocation env a d s = .ok s') :
    Requests now s s' (.requestRevocation a d) := by
  obtain ⟨hd, he⟩ := requestRevocation_ok h
  exact .requestRevocation ((hv.tidy a).amountTo_pos_iff.mpr hd) he

theorem requestUndelegate_requests (hv : (book s).Valid)
    (h : requestUndelegate env a d n s = .ok s') :
    Requests env.timestamp s s' (.requestUndelegate a d n) := by
  obtain ⟨p, rfl, ht, hle, he⟩ := requestUndelegate_ok hv h
  exact .requestUndelegate hle ht he

/-- What a call does to the books, to the delegations and to the requests. -/
structure Changes (env : Env own) (s s' : State) (c : Call) (o : Output) : Prop where
  effects : Effects (c.UndelegatesWithin s) (c.SlashesEvenly s) s s' c.funds (paid c o)
    (c.forgets s)
  requests : Requests env.timestamp s s' c

theorem invoke_changes {env : Env own} (hv : (book s).Valid)
    (h : invoke env s c = some (s', o)) : Changes env s s' c o := by
  cases c with
  | init _ _ =>
    obtain ⟨_, hs, he⟩ := commit_some.mp h
    cases he
    obtain ⟨hn, hs⟩ := init_ok hs
    exact ⟨.start hn hs, by rw [hs]; exact .keep rfl rfl rfl⟩
  | stake _ _ =>
    obtain ⟨_, hs, he⟩ := commit_some.mp h
    cases he
    obtain ⟨_, s₁, hsettle, hs'⟩ := stake_ok hs
    exact ⟨.restake (stake_effect hv hs), by rw [hs']; exact .keep_settled hsettle rfl rfl rfl⟩
  | unstake _ _ =>
    obtain ⟨_, hs, he⟩ := commit_some.mp h
    cases he
    obtain ⟨_, _, s₁, hsettle, hs'⟩ := unstake_ok hs
    exact ⟨.restake (unstake_effect hv hs), by rw [hs']; exact .keep_settled hsettle rfl rfl rfl⟩
  | delegate _ _ _ =>
    obtain ⟨_, hs, he⟩ := commit_some.mp h
    cases he
    exact ⟨.restake (delegate_effect hv hs), delegate_requests hv hs⟩
  | finalizeRevocation _ _ =>
    obtain ⟨_, hs, he⟩ := commit_some.mp h
    cases he
    exact ⟨.restake (finalizeRevocation_effect hv hs), finalizeRevocation_requests hv hs⟩
  | completeUndelegate _ _ =>
    obtain ⟨_, hs, he⟩ := commit_some.mp h
    cases he
    exact ⟨.restake (completeUndelegate_effect hv hs), completeUndelegate_requests hv hs⟩
  | applyDelegateeSlash _ _ _ =>
    obtain ⟨_, hs, he⟩ := commit_some.mp h
    cases he
    exact ⟨.restake (applyDelegateeSlash_effect hv hs), applyDelegateeSlash_requests hv hs⟩
  | slashStake _ _ _ =>
    obtain ⟨_, hs, he⟩ := commit_some.mp h
    cases he
    exact ⟨.restake (slashStake_effect hv hs), slashStake_requests hv hs⟩
  | setCommission _ _ =>
    obtain ⟨_, hs, he⟩ := commit_some.mp h
    cases he
    obtain ⟨s₁, _, hsettle, hs'⟩ := setCommission_ok hs
    exact ⟨.restake (setCommission_effect hs), by rw [hs']; exact .keep_settled hsettle rfl rfl rfl⟩
  | claimCommission _ =>
    obtain ⟨⟨_, _⟩, hs, he⟩ := commit_some.mp h
    cases he
    obtain ⟨s₁, hsettle, _, hs'⟩ := claimCommission_ok hs
    exact ⟨claimCommission_effects hs, by rw [hs']; exact .keep_settled hsettle rfl rfl rfl⟩
  | claimDelegateeRewards _ =>
    obtain ⟨⟨_, _⟩, hs, he⟩ := commit_some.mp h
    cases he
    obtain ⟨s₁, hsettle, _, hs'⟩ := claimDelegateeRewards_ok hs
    exact ⟨claimDelegateeRewards_effects hs, by rw [hs']; exact .keep_settled hsettle rfl rfl rfl⟩
  | fundRewards _ _ =>
    obtain ⟨_, hs, he⟩ := commit_some.mp h
    cases he
    exact ⟨fundRewards_effects hs, fundRewards_requests hs⟩
  | requestUndelegate _ _ _ =>
    obtain ⟨_, hs, he⟩ := commit_some.mp h
    cases he
    exact ⟨.restake (requestUndelegate_effect hv hs), requestUndelegate_requests hv hs⟩
  | requestRevocation _ _ =>
    obtain ⟨_, hs, he⟩ := commit_some.mp h
    cases he
    exact ⟨.restake (requestRevocation_effect hs), requestRevocation_requests hv hs⟩
  | advanceEpoch _ =>
    obtain ⟨⟨_, _⟩, hs, he⟩ := commit_some.mp h
    cases he
    cases advanceEpoch_ok hs
    exact ⟨.restake (.keep rfl rfl rfl rfl rfl rfl), .keep rfl rfl rfl⟩
  | setUndelegationCooldown _ _ =>
    obtain ⟨_, hs, he⟩ := commit_some.mp h
    cases he
    cases setUndelegationCooldown_ok hs
    exact ⟨.restake (.keep rfl rfl rfl rfl rfl rfl), .keep rfl rfl rfl⟩
  | setSlashingAuthority _ _ =>
    obtain ⟨_, hs, he⟩ := commit_some.mp h
    cases he
    cases setSlashingAuthority_ok hs
    exact ⟨.restake (.keep rfl rfl rfl rfl rfl rfl), .keep rfl rfl rfl⟩
  | pause _ =>
    obtain ⟨_, hs, he⟩ := commit_some.mp h
    cases he
    cases pause_ok hs
    exact ⟨.restake (.keep rfl rfl rfl rfl rfl rfl), .keep rfl rfl rfl⟩
  | unpause _ =>
    obtain ⟨_, hs, he⟩ := commit_some.mp h
    cases he
    cases unpause_ok hs
    exact ⟨.restake (.keep rfl rfl rfl rfl rfl rfl), .keep rfl rfl rfl⟩

end Shelterflex.StakeDelegation
