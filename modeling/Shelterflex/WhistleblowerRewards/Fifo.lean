import Shelterflex.WhistleblowerRewards.Allocations

/-! Claims drain the allocations of a pair in order, and pay what they drain. -/

namespace Shelterflex.WhistleblowerRewards
open Lib
set_option autoImplicit true

/-- A claim of `n`, where `total` can be claimed: the transfer, the loop, and what they leave. -/
structure Exact (tok : Token T) (env : Env own) (u : Address) (l : Bytes) (amount : Option Int)
    (w w' : World T) (total n : Int) : Prop where
  before : sumClaimable env.timestamp u l w.rewards = (.ok total : Outcome ContractError Int)
  asked : n = amount.getD total
  paid : tok.transfer w.token (fun a => a = own || env.authorized a) own u n = some w'.token
  finished : (List.range (getAllocationNonce w.rewards u l)).foldlM
    (consumeAllocation (getHoldWindow w.rewards) env.timestamp u l) (n, w.rewards) =
      (.ok (0, w'.rewards) : Outcome ContractError (Int × State))
  after : sumClaimable env.timestamp u l w'.rewards =
    (.ok (total - n) : Outcome ContractError Int)
  others : (u', l') ≠ (u, l) →
    (sumClaimable now u' l' w'.rewards : Outcome ContractError Int) =
      sumClaimable now u' l' w.rewards
  composed : ∑ i ∈ Finset.range (getAllocationNonce w.rewards u l),
    (claimedAt w'.rewards u l i - claimedAt w.rewards u l i) = n
  oldestFirst : i < j → claimedAt w.rewards u l j < claimedAt w'.rewards u l j →
    availableAt (getHoldWindow w'.rewards) env.timestamp w'.rewards u l i = 0
  spared : getAllocation w.rewards u l i = some r → r.status = .revoked →
    getAllocation w'.rewards u l i = some r

/-- What an event pays to the pair. -/
def payment (u : Address) (l : Bytes) (e : Step own T) : Int :=
  match e.input, e.output with
  | .call _ (.claim u' l' _), .amount n => if (u', l') = (u, l) then n else 0
  | _, _ => 0

def totalPaid (u : Address) (l : Bytes) (t : History own T) : Int := (t.map (payment u l)).sum

/-- What the pair has claimed from all its allocations. -/
def claimedTotal (s : State) (u : Address) (l : Bytes) : Int :=
  ∑ i ∈ Finset.range (getAllocationNonce s u l), claimedAt s u l i

/-- Claims are exact and conserve the allocations. -/
structure Fifo (tok : Token T) (t : History own T) (w : World T) : Prop where
  exact : ∀ e ∈ t, ∀ env u l amount, e.input = .call env (.claim u l amount) →
    ∃ total n, e.output = .amount n ∧ Exact tok env u l amount e.pre e.post total n
  bounded : getAllocation w.rewards u l i = some r →
    (0 ≤ r.claimedAmount ∧ r.claimedAmount ≤ r.amount) ∧
      (r.status = .claimed ↔ r.claimedAmount = r.amount)
  listed : getAllocation w.rewards u l i = some r → i < getAllocationNonce w.rewards u l
  revoked : ∀ e ∈ t, ∀ e' ∈ t, getAllocation e.post.rewards u l i = some r →
    r.status = .revoked → claimedAt e'.post.rewards u l i = 0
  kept : ∀ e ∈ t, ∀ e' ∈ t, 0 < claimedAt e.post.rewards u l i →
    getAllocation e'.post.rewards u l i = some r → r.status ≠ .revoked
  conserved : totalPaid u l t = claimedTotal w.rewards u l

theorem Claims.exact (h : Claims tok env u l amount w w' n) (hs : Sound w.rewards) :
    Exact tok env u l amount w w' (claimableOf env.timestamp w.rewards u l) n := by
  obtain ⟨hloop, hd⟩ := h.consumes hs
  have hn := h.positive.le
  have ha := hs.available (getHoldWindow w.rewards) env.timestamp u l
  have hpos (i : Nat) := drawn_nonneg ha hn i
  have hle (i : Nat) :=
    drawn_le (availableAt (getHoldWindow w.rewards) env.timestamp w.rewards u l) n i
  have hsum : ∑ i ∈ Finset.range (getAllocationNonce w.rewards u l),
      drawn (availableAt (getHoldWindow w.rewards) env.timestamp w.rewards u l) n i = n := by
    rw [sum_drawn, remaining_eq_zero ha hn h.covered, sub_zero]
  constructor
  case before => exact h.before
  case asked => exact h.asked
  case paid => exact h.paid
  case finished => exact hloop
  case after =>
    have hdrop : claimableOf env.timestamp w'.rewards u l =
        claimableOf env.timestamp w.rewards u l - n := by
      rw [claimableOf, hd.nonce, hd.holdWindow, claimableOf,
        Finset.sum_congr rfl fun i _ => hd.available hpos hle i, Finset.sum_sub_distrib, hsum]
    exact hdrop ▸ h.after
  case others => exact fun hk => hd.others hk _
  case composed =>
    rw [← hsum]
    apply Finset.sum_congr rfl
    intro i _
    rw [hd.claimed hpos hle, add_sub_cancel_left]
  case oldestFirst =>
    intro i j hij hlt
    rw [hd.claimed hpos hle, lt_add_iff_pos_right] at hlt
    rw [hd.holdWindow, hd.available hpos hle, drawn_in_order ha hn hij hlt, sub_self]
  case spared =>
    intro i r hr hst
    have hz : availableAt (getHoldWindow w.rewards) env.timestamp w.rewards u l i = 0 := by
      rw [availableAt_of hr]
      refine if_neg fun hp => ?_
      cases hst.symm.trans hp.1
    rw [hd.record, hr, drawn_eq_zero hn hz]
    rfl

theorem AllocationRecord.Sound.bounded {r : AllocationRecord} (h : r.Sound) :
    (0 ≤ r.claimedAmount ∧ r.claimedAmount ≤ r.amount) ∧
      (r.status = .claimed ↔ r.claimedAmount = r.amount) := by
  have hpos := h.positive
  cases hst : r.status with
  | pending =>
    have hlt := h.pending hst
    exact ⟨⟨h.nonneg, hlt.le⟩, nofun, fun he => absurd he hlt.ne⟩
  | claimed =>
    have he := h.claimed hst
    exact ⟨⟨h.nonneg, he.le⟩, fun _ => he, fun _ => rfl⟩
  | revoked =>
    have hz := h.revoked hst
    exact ⟨⟨h.nonneg, hz.trans_le hpos.le⟩, nofun, fun he => absurd (hz.symm.trans he) hpos.ne⟩

/-- Ids that are not yet given out add nothing. -/
theorem Sound.claimedTotal_eq (h : Sound s) (hk : getAllocationNonce s u l ≤ k) :
    ∑ i ∈ Finset.range k, claimedAt s u l i = claimedTotal s u l := by
  symm
  apply Finset.sum_subset (Finset.range_mono hk)
  intro i _ hi
  cases hr : getAllocation s u l i with
  | none => exact claimedAt_none hr
  | some r => exact absurd (Finset.mem_range.mpr (h.listed hr)) hi

theorem payment_other {e : Step own T}
    (hc : ∀ env amount, e.input ≠ .call env (.claim u l amount)) : payment u l e = 0 := by
  unfold payment
  split
  · rename_i hin _
    apply if_neg
    rintro ⟨⟩
    exact hc _ _ hin
  · rfl

theorem claimedAt_open (hs : Sound s) (u' : Address) (l' : Bytes) (amount : Int) (now : Nat) :
    claimedAt (openAllocation u' l' amount now s) u l i = claimedAt s u l i := by
  by_cases hk : (u, l, i) = (u', l', getAllocationNonce s u' l')
  · cases hk
    have hnone : getAllocation s u l (getAllocationNonce s u l) = none :=
      Option.eq_none_iff_forall_ne_some.mpr fun r hr => lt_irrefl _ (hs.listed hr)
    rw [claimedAt_none hnone, claimedAt_of (getAllocation_open.trans (if_pos rfl))]
  · exact claimedAt_congr (getAllocation_open.trans (if_neg hk))

theorem claimedAt_put (hr : getAllocation s u' l' i' = some r)
    (hc : r'.claimedAmount = r.claimedAmount) :
    claimedAt (putAllocation u' l' i' r' s) u l i = claimedAt s u l i := by
  by_cases hk : (u, l, i) = (u', l', i')
  · cases hk
    rw [claimedAt_of hr, claimedAt_of (getAllocation_put.trans (if_pos rfl)), hc]
  · exact claimedAt_congr (getAllocation_put.trans (if_neg hk))

theorem Changes.claimed_stays (h : Changes tok env w w' c o) (hs : Sound w.rewards)
    (hc : ∀ amount, c ≠ .claim u l amount) (i : Nat) :
    claimedAt w'.rewards u l i = claimedAt w.rewards u l i := by
  cases h with
  | window he =>
    cases he
    rfl
  | allocate _ _ _ he =>
    cases he
    exact claimedAt_open hs _ _ _ _
  | revoke hg _ _ he =>
    cases he
    exact claimedAt_put hg rfl
  | @claim u' l' amount _ hcl =>
    have hk : (u, l) ≠ (u', l') := by
      rintro ⟨⟩
      exact hc amount rfl
    exact claimedAt_congr ((hcl.consumes hs).2.frame hk)
  | manage _ _ _ hb _ => exact claimedAt_congr (hb.record u l i)

section
variable {own : Address} {tok : Token T}

theorem act_conserves {a : Action own T} (h : act tok w a = some (w', o)) (hs : Sound w.rewards)
    (u : Address) (l : Bytes) :
    claimedTotal w'.rewards u l = payment u l ⟨w, a, o, w'⟩ + claimedTotal w.rewards u l := by
  cases a with
  | traffic t =>
    have hz : payment u l (⟨w, .traffic t, o, w'⟩ : Step own T) = 0 := rfl
    rw [act_traffic h, hz, zero_add]
  | call env c =>
    have hch := invoke_changes h
    by_cases hc : ∃ amount, c = .claim u l amount
    · obtain ⟨amount, rfl⟩ := hc
      cases hch with
      | @claim _ _ _ n hcl =>
        have hn : payment u l ⟨w, .call env (.claim u l amount), .amount n, w'⟩ = n := if_pos rfl
        have hsum := (hcl.exact hs).composed
        rw [Finset.sum_sub_distrib] at hsum
        rw [hn, claimedTotal, (hcl.consumes hs).2.nonce, claimedTotal]
        omega
      | manage hn => exact absurd rfl (hn u l amount)
    · have hstay := hch.claimed_stays hs fun amount he => hc ⟨amount, he⟩
      rw [payment_other, zero_add, ← hs.claimedTotal_eq (hch.nonce_le hs u l), claimedTotal]
      · exact Finset.sum_congr rfl fun i _ => hstay i
      · rintro env' amount ⟨⟩
        exact hc ⟨amount, rfl⟩

variable {t : History own T}
  (h : (machine tok own).Run ⟨initialized admin operator token window, t₀⟩ t w)
include h

theorem run_conserved (u : Address) (l : Bytes) :
    totalPaid u l t = claimedTotal w.rewards u l := by
  induction h with
  | start => rfl
  | commit hrun he ih =>
    rw [act_conserves he (reachable_sound ⟨_, hrun⟩), ← ih]
    rfl
  | rollback _ _ ih => exact ih

/-- Whatever a record is after a call of the run, it has become what it is at the end. -/
theorem event_follows (he : e ∈ t) (hr : getAllocation e.post.rewards u l i = some r) :
    r.Sound ∧ ∃ r', getAllocation w.rewards u l i = some r' ∧ r.Follows r' := by
  obtain ⟨later, earlier, rfl⟩ := List.append_of_mem he
  obtain ⟨hpre, hs⟩ := h.upTo
  have hsound : Sound e.post.rewards := reachable_sound ⟨_, hpre.commit hs⟩
  exact ⟨hsound.record hr, run_follows h.after hsound hr⟩

theorem revoked_unpaid (he : e ∈ t) (he' : e' ∈ t)
    (hr : getAllocation e.post.rewards u l i = some r) (hst : r.status = .revoked) :
    claimedAt e'.post.rewards u l i = 0 := by
  obtain ⟨hsound, r₁, hr₁, hf⟩ := event_follows h he hr
  cases hr' : getAllocation e'.post.rewards u l i with
  | none => exact claimedAt_none hr'
  | some r' =>
    obtain ⟨hsound', r₂, hr₂, hf'⟩ := event_follows h he' hr'
    cases hr₁.symm.trans hr₂
    rw [hf.revoked hst] at hf'
    rw [claimedAt_of hr']
    exact le_antisymm (hf'.claimed.trans (hsound.revoked hst).le) hsound'.nonneg

/-- In every run, claims drain the allocations in order and conserve them. -/
theorem claims_fifo : Fifo tok t w := by
  have hs : Sound w.rewards := reachable_sound ⟨t, h⟩
  constructor
  case exact =>
    rintro ⟨pre, a, o, post⟩ he env u l amount rfl
    obtain ⟨hr, hstep⟩ := h.committed he
    have hch : Changes tok env pre post (.claim u l amount) o := invoke_changes hstep
    cases hch with
    | claim hc => exact ⟨_, _, rfl, hc.exact (reachable_sound hr)⟩
    | manage hn => exact absurd rfl (hn u l amount)
  case bounded => exact fun hr => (hs.record hr).bounded
  case listed => exact hs.listed
  case revoked => exact fun e he e' he' hr hst => revoked_unpaid h he he' hr hst
  case kept =>
    intro u l i r e he e' he' hpos hr hst
    exact absurd (revoked_unpaid h he' he hr hst) hpos.ne'
  case conserved => exact run_conserved h _ _

end

abbrev Balances := Address → Int

/-- The contract with a hold window of ten, and a hundred tokens. -/
def stocked : World Balances :=
  ⟨initialized ⟨1⟩ ⟨2⟩ ⟨3⟩ 10, fun a => if a = ⟨0⟩ then 100 else 0⟩

def perform (as : List (Action ⟨0⟩ Balances)) : History ⟨0⟩ Balances × World Balances :=
  (machine plainToken ⟨0⟩).replay stocked as

/-- Of three allocations the second is revoked, and a claim draws on the others. -/
def claimCalls : List (Action ⟨0⟩ Balances) :=
  [.call (.signed ⟨0⟩ 0) (.allocate ⟨2⟩ ⟨4⟩ [1] [9] 10),
    .call (.signed ⟨0⟩ 1) (.allocate ⟨2⟩ ⟨4⟩ [1] [9] 40),
    .call (.signed ⟨0⟩ 2) (.allocate ⟨2⟩ ⟨4⟩ [1] [9] 20),
    .call (.signed ⟨0⟩ 3) (.revokeAllocation ⟨2⟩ ⟨4⟩ [1] 1),
    .call (.signed ⟨0⟩ 20) (.claim ⟨4⟩ [1] (some 15))]

theorem claims_fifo_three :
    (perform claimCalls).1.map Event.output = [.amount 15, .unit, .unit, .unit, .unit] ∧
      Fifo plainToken (perform claimCalls).1 (perform claimCalls).2 :=
  ⟨by decide, claims_fifo ((machine plainToken ⟨0⟩).run_replay stocked claimCalls)⟩

end Shelterflex.WhistleblowerRewards
