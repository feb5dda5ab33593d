import Shelterflex.WhistleblowerRewards.Consumption

/-! What each call does to the allocations. -/

namespace Shelterflex.WhistleblowerRewards
open Lib UpgradeGovernance
set_option autoImplicit true

abbrev Step (own : Address) (T : Type) := Event (World T) (Action own T) Output

abbrev History (own : Address) (T : Type) := List (Step own T)

def ValidString (x : Bytes) : Prop := x.length ≠ 0 ∧ x.length ≤ maxStringLen

/-- The operator or the guardian has signed, and the contract is not paused. -/
structure Revoker (env : Env own) (s : State) (caller : Address) : Prop where
  signed : env.authorized caller = true
  trusted : ∃ op, s.operator = some op ∧ (caller = op ∨ s.gov.guardian = some caller)
  running : s.paused.getD false = false

/-- The state after the next allocation of a pair. -/
def openAllocation (u : Address) (l : Bytes) (amount : Int) (now : Nat) (s : State) : State :=
  { putAllocation u l (getAllocationNonce s u l) ⟨amount, 0, now, .pending⟩ s with
    allocationNonce := s.allocationNonce.set (u, l) (getAllocationNonce s u l + 1) }

/-- What a claim checks, consumes and pays. -/
structure Claims (tok : Token T) (env : Env own) (u : Address) (l : Bytes) (amount : Option Int)
    (w w' : World T) (n : Int) : Prop where
  asked : n = amount.getD (claimableOf env.timestamp w.rewards u l)
  positive : 0 < n
  covered : n ≤ claimableOf env.timestamp w.rewards u l
  before : sumClaimable env.timestamp u l w.rewards =
    (.ok (claimableOf env.timestamp w.rewards u l) : Outcome ContractError Int)
  loop : ∃ m, (List.range (getAllocationNonce w.rewards u l)).foldlM
    (consumeAllocation (getHoldWindow w.rewards) env.timestamp u l) (n, w.rewards) =
      (.ok (m, w'.rewards) : Outcome ContractError (Int × State))
  paid : tok.transfer w.token (fun a => a = own || env.authorized a) own u n = some w'.token
  after : sumClaimable env.timestamp u l w'.rewards =
    (.ok (claimableOf env.timestamp w'.rewards u l) : Outcome ContractError Int)

/-- The entries of the allocations and the hold window. -/
structure SameBooks (s s' : State) : Prop where
  allocation : s'.allocation = s.allocation
  nonce : s'.allocationNonce = s.allocationNonce
  window : s'.holdWindow = s.holdWindow

inductive Changes (tok : Token T) (env : Env own) (w w' : World T) : Call → Output → Prop where
  | window (hs : w' = { w with rewards := { w.rewards with holdWindow := some secs } }) :
      Changes tok env w w' (.setHoldWindow admin secs) .unit
  | allocate (hl : ValidString l) (ha : 0 < amount)
      (hf : env.timestamp + getHoldWindow w.rewards < 2 ^ 64)
      (hs : w' = { w with rewards := openAllocation u l amount env.timestamp w.rewards }) :
      Changes tok env w w' (.allocate operator u l d amount) .unit
  | revoke (hg : getAllocation w.rewards u l i = some r) (hst : r.status = .pending)
      (hc : r.claimedAmount ≤ 0)
      (hs : w' = { w with
        rewards := putAllocation u l i { r with status := .revoked } w.rewards }) :
      Changes tok env w w' (.revokeAllocation caller u l i) .unit
  | claim (hc : Claims tok env u l amount w w' n) :
      Changes tok env w w' (.claim u l amount) (.amount n)
  | manage (hc : ∀ u l amount, c ≠ .claim u l amount)
      (hn : ∀ operator u l d amount, c ≠ .allocate operator u l d amount)
      (hw : ∀ admin secs, c ≠ .setHoldWindow admin secs)
      (hb : SameBooks w.rewards w'.rewards) (ht : w'.token = w.token) :
      Changes tok env w w' c o

theorem requireNotPaused_ok : requireNotPaused s = .ok x ↔ s.paused.getD false = false :=
  require_ok

theorem requireNonEmptyString_ok : requireNonEmptyString x = .ok y ↔ x.length ≠ 0 := require_ok

theorem requireStringMaxLen_ok : requireStringMaxLen x = .ok y ↔ x.length ≤ maxStringLen :=
  require_ok

theorem requirePending_ok : requirePending st = .ok x ↔ st = .pending := by
  cases st <;> simp [requirePending]

theorem allocate_changes (h : allocate env operator u l d amount w.rewards = .ok s) :
    Changes tok env w { w with rewards := s } (.allocate operator u l d amount) .unit := by
  simp only [allocate, bind_ok, requireNotPaused_ok, requireNonEmptyString_ok,
    requireStringMaxLen_ok, require_ok, u64Add_ok, pure_ok] at h
  obtain ⟨_, _, _, _, _, hl, _, hm, _, _, _, _, _, ha, _, ⟨_, rfl⟩, _, ⟨hf, _⟩, rfl⟩ := h
  exact .allocate ⟨hl, hm⟩ ha hf rfl

theorem revokeAllocation_ok : revokeAllocation env caller u l i s = .ok s' ↔
    Revoker env s caller ∧ ValidString l ∧ ∃ r, getAllocation s u l i = some r ∧
      r.status = .pending ∧ r.claimedAmount ≤ 0 ∧ getHoldWindow s ≠ 0 ∧
      r.timestamp + getHoldWindow s < 2 ^ 64 ∧ env.timestamp < r.timestamp + getHoldWindow s ∧
      putAllocation u l i { r with status := .revoked } s = s' := by
  simp only [revokeAllocation, requireRevoker, bind_ok, requireAuth_ok, expect_ok,
    requireNotPaused_ok, requireNonEmptyString_ok, requireStringMaxLen_ok, okOr_ok,
    requirePending_ok, require_ok, u64Add_ok, pure_ok, exists_const]
  constructor
  · rintro ⟨⟨ha, op, ho, ht⟩, hp, hl, hm, r, hr, hst, hc, hw, _, ⟨hf, rfl⟩, hlt, rfl⟩
    exact ⟨⟨ha, ⟨op, ho, ht⟩, hp⟩, ⟨hl, hm⟩, r, hr, hst, hc, hw, hf, hlt, rfl⟩
  · rintro ⟨⟨ha, ⟨op, ho, ht⟩, hp⟩, ⟨hl, hm⟩, r, hr, hst, hc, hw, hf, hlt, rfl⟩
    exact ⟨⟨ha, op, ho, ht⟩, hp, hl, hm, r, hr, hst, hc, hw, _, ⟨hf, rfl⟩, hlt, rfl⟩

theorem claimAmount_ok (h : claimAmount total amount = .ok n) (ht : 0 < total) :
    n = amount.getD total ∧ 0 < n ∧ n ≤ total := by
  cases amount with
  | none =>
    cases pure_ok.mp h
    exact ⟨rfl, ht, le_rfl⟩
  | some a =>
    simp only [claimAmount, bind_ok, require_ok, pure_ok] at h
    obtain ⟨_, ha, _, hle, rfl⟩ := h
    exact ⟨rfl, ha, hle⟩

theorem claim_claims (h : claim env tok u l amount w = .ok (w', n)) :
    Claims tok env u l amount w w' n := by
  simp only [claim, bind_ok, requireAuth_ok, require_ok, Token.call_ok, pure_ok,
    Prod.mk.injEq] at h
  obtain ⟨_, _, _, _, _, _, _, _, total, ht, _, hpos, n, hn, ⟨m, s⟩, hloop, _, _, t, hpay,
    total', ht', rfl, rfl⟩ := h
  obtain rfl := sumClaimable_ok ht
  obtain rfl := sumClaimable_ok ht'
  obtain ⟨hask, hn, hle⟩ := claimAmount_ok hn hpos
  exact ⟨hask, hn, hle, ht, ⟨m, hloop⟩, hpay, ht'⟩

theorem invoke_changes (h : invoke tok env w c = some (w', o)) : Changes tok env w w' c o := by
  cases c with
  | setHoldWindow admin secs =>
    obtain ⟨_, hs, he⟩ := commit_some.mp h
    cases he
    simp only [setHoldWindow, bind_ok, pure_ok] at hs
    obtain ⟨_, _, rfl⟩ := hs
    exact .window rfl
  | allocate operator u l d amount =>
    obtain ⟨_, hs, he⟩ := commit_some.mp h
    cases he
    exact allocate_changes hs
  | revokeAllocation caller u l i =>
    obtain ⟨_, hs, he⟩ := commit_some.mp h
    cases he
    obtain ⟨_, _, r, hr, hst, hc, _, _, _, rfl⟩ := revokeAllocation_ok.mp hs
    exact .revoke hr hst hc rfl
  | claim u l amount =>
    obtain ⟨⟨_, n⟩, hs, he⟩ := commit_some.mp h
    cases he
    exact .claim (claim_claims hs)
  | claimable u l =>
    obtain ⟨_, _, he⟩ := commit_some.mp h
    cases he
    exact .manage nofun nofun nofun ⟨rfl, rfl, rfl⟩ rfl
  | setOperator admin newOperator | pause admin | unpause admin | setGuardian admin guardian
  | setUpgradeDelay admin delay | proposeUpgrade admin hash | cancelUpgrade admin =>
    obtain ⟨_, hs, he⟩ := commit_some.mp h
    cases he
    simp only [setOperator, pause, unpause, setGuardian, setUpgradeDelay, proposeUpgrade,
      cancelUpgrade, bind_ok, pure_ok] at hs
    first
    | obtain ⟨_, _, rfl⟩ := hs
      exact .manage nofun nofun nofun ⟨rfl, rfl, rfl⟩ rfl
    | obtain ⟨_, _, _, _, rfl⟩ := hs
      exact .manage nofun nofun nofun ⟨rfl, rfl, rfl⟩ rfl
  | executeUpgrade admin hash | emergencyUpgrade admin hash =>
    obtain ⟨_, hs, he⟩ := commit_some.mp h
    cases he
    simp only [executeUpgrade, emergencyUpgrade, bind_ok, pure_ok] at hs
    obtain ⟨_, _, rfl⟩ := hs
    exact .manage nofun nofun nofun ⟨rfl, rfl, rfl⟩ rfl

theorem act_traffic {own : Address} {tok : Token T}
    (h : act tok w (.traffic t : Action own T) = some (w', o)) : w'.rewards = w.rewards := by
  obtain ⟨_, he⟩ := Option.ite_none_right_eq_some.mp h
  cases he
  rfl

/-- A record as the calls leave it. -/
structure AllocationRecord.Sound (r : AllocationRecord) : Prop where
  positive : 0 < r.amount
  nonneg : 0 ≤ r.claimedAmount
  pending : r.status = .pending → r.claimedAmount < r.amount
  claimed : r.status = .claimed → r.claimedAmount = r.amount
  revoked : r.status = .revoked → r.claimedAmount = 0

theorem AllocationRecord.Sound.draws {r : AllocationRecord} (h : r.Sound)
    (hle : n ≤ r.available w now) : (r.draw n).Sound := by
  unfold AllocationRecord.draw
  split
  · rename_i hpos
    obtain ⟨⟨hst, _⟩, hle⟩ := available_pos hpos hle
    have hn : 0 ≤ r.claimedAmount + n := add_nonneg h.nonneg hpos.le
    have hle : r.claimedAmount + n ≤ r.amount := by omega
    split
    · rename_i hfull
      exact ⟨h.positive, hn, nofun, fun _ => le_antisymm hle hfull, nofun⟩
    · rename_i hpart
      rw [hst]
      exact ⟨h.positive, hn, fun _ => not_le.mp hpart, nofun, nofun⟩
  · exact h

/-- Every record of the state is sound, and has an id below the nonce of its pair. -/
structure Sound (s : State) : Prop where
  record : getAllocation s u l i = some r → r.Sound
  listed : getAllocation s u l i = some r → i < getAllocationNonce s u l

theorem Sound.available (h : Sound s) (w now : Nat) (u : Address) (l : Bytes) (i : Nat) :
    0 ≤ availableAt w now s u l i := by
  unfold availableAt
  split
  · rename_i r hr
    unfold AllocationRecord.available
    split
    · exact sub_nonneg.mpr ((h.record hr).pending (And.left ‹_›)).le
    · exact le_rfl
  · exact le_rfl

theorem Sound.unlisted (h : Sound s) (hi : getAllocationNonce s u l ≤ i) (w now : Nat) :
    availableAt w now s u l i = 0 := by
  cases hr : getAllocation s u l i with
  | none => exact availableAt_none hr
  | some r => exact absurd (h.listed hr) (not_lt.mpr hi)

/-- What a call makes of the entry of one allocation. -/
inductive Moves : Option AllocationRecord → Option AllocationRecord → Prop where
  | keep : Moves x x
  | allocate (ha : 0 < amount) : Moves none (some ⟨amount, 0, now, .pending⟩)
  | revoke (hst : r.status = .pending) (hc : r.claimedAmount ≤ 0) :
      Moves (some r) (some { r with status := .revoked })
  | draw (hn : 0 ≤ n) (hle : n ≤ r.available w now) : Moves (some r) (some (r.draw n))

theorem Moves.sound (h : Moves x x') (hx : ∀ r, x = some r → r.Sound) :
    ∀ r, x' = some r → r.Sound := by
  cases h with
  | keep => exact hx
  | allocate ha =>
    rintro _ ⟨⟩
    exact ⟨ha, le_rfl, fun _ => ha, nofun, nofun⟩
  | revoke hst hc =>
    rintro _ ⟨⟩
    have hr := hx _ rfl
    exact ⟨hr.positive, hr.nonneg, nofun, nofun, fun _ => le_antisymm hc hr.nonneg⟩
  | draw _ hle =>
    rintro _ ⟨⟩
    exact (hx _ rfl).draws hle

theorem getAllocation_put : getAllocation (putAllocation u l i r s) u' l' i' =
    if (u', l', i') = (u, l, i) then some r else getAllocation s u' l' i' := Store.get_set ..

theorem getAllocation_open : getAllocation (openAllocation u l amount now s) u' l' i' =
    if (u', l', i') = (u, l, getAllocationNonce s u l) then some ⟨amount, 0, now, .pending⟩
    else getAllocation s u' l' i' := Store.get_set ..

theorem getAllocationNonce_open :
    getAllocationNonce (openAllocation u l amount now s) u' l' =
      if (u', l') = (u, l) then getAllocationNonce s u l + 1 else getAllocationNonce s u' l' :=
  Store.getD_set ..

theorem nonce_le_open : getAllocationNonce s u' l' ≤
    getAllocationNonce (openAllocation u l amount now s) u' l' := by
  rw [getAllocationNonce_open]
  split
  · rename_i he
    cases he
    exact Nat.le_succ _
  · exact le_rfl

theorem SameBooks.record (h : SameBooks s s') (u : Address) (l : Bytes) (i : Nat) :
    getAllocation s' u l i = getAllocation s u l i := by
  rw [getAllocation, h.allocation, getAllocation]

theorem SameBooks.count (h : SameBooks s s') (u : Address) (l : Bytes) :
    getAllocationNonce s' u l = getAllocationNonce s u l := by
  rw [getAllocationNonce, h.nonce, getAllocationNonce]

theorem Claims.consumes (h : Claims tok env u l amount w w' n) (hs : Sound w.rewards) :
    (List.range (getAllocationNonce w.rewards u l)).foldlM
        (consumeAllocation (getHoldWindow w.rewards) env.timestamp u l) (n, w.rewards) =
          (.ok (0, w'.rewards) : Outcome ContractError (Int × State)) ∧
      Draws u l (drawn (availableAt (getHoldWindow w.rewards) env.timestamp w.rewards u l) n)
        w.rewards w'.rewards := by
  obtain ⟨m, hloop⟩ := h.loop
  have ha := hs.available (getHoldWindow w.rewards) env.timestamp u l
  obtain ⟨rfl, hd⟩ := consume_ok h.positive.le ha hloop
  rw [remaining_eq_zero ha h.positive.le h.covered] at hloop
  refine ⟨hloop, hd.congr fun i => ?_⟩
  split
  · rfl
  · rename_i hi
    exact drawn_eq_zero h.positive.le (hs.unlisted (not_lt.mp hi) _ _)

theorem Claims.moves (h : Claims tok env u l amount w w' n) (hs : Sound w.rewards)
    (u' : Address) (l' : Bytes) (i : Nat) :
    Moves (getAllocation w.rewards u' l' i) (getAllocation w'.rewards u' l' i) := by
  obtain ⟨_, hd⟩ := h.consumes hs
  by_cases hk : (u', l') = (u, l)
  · cases hk
    rw [hd.record]
    cases hr : getAllocation w.rewards u l i with
    | none => exact .keep
    | some r =>
      have ha := hs.available (getHoldWindow w.rewards) env.timestamp u l
      have hle := drawn_le (availableAt (getHoldWindow w.rewards) env.timestamp w.rewards u l) n i
      rw [availableAt_of hr] at hle
      exact .draw (drawn_nonneg ha h.positive.le i) hle
  · rw [hd.frame hk]
    exact .keep

theorem Changes.moves (h : Changes tok env w w' c o) (hs : Sound w.rewards) (u : Address)
    (l : Bytes) (i : Nat) :
    Moves (getAllocation w.rewards u l i) (getAllocation w'.rewards u l i) := by
  cases h with
  | window he =>
    cases he
    exact .keep
  | @allocate l' amount u' _ _ _ ha _ he =>
    cases he
    rw [getAllocation_open]
    split
    · rename_i hk
      cases hk
      cases hr : getAllocation w.rewards u l (getAllocationNonce w.rewards u l) with
      | none => exact .allocate ha
      | some r => exact absurd (hs.listed hr) (lt_irrefl _)
    · exact .keep
  | revoke hg hst hc he =>
    cases he
    rw [getAllocation_put]
    split
    · rename_i hk
      cases hk
      rw [hg]
      exact .revoke hst hc
    · exact .keep
  | claim hc => exact hc.moves hs u l i
  | manage _ _ _ hb _ =>
    rw [hb.record]
    exact .keep

theorem Changes.nonce_le (h : Changes tok env w w' c o) (hs : Sound w.rewards) (u : Address)
    (l : Bytes) : getAllocationNonce w.rewards u l ≤ getAllocationNonce w'.rewards u l := by
  cases h with
  | window he | revoke _ _ _ he =>
    cases he
    exact le_rfl
  | allocate _ _ _ he =>
    cases he
    exact nonce_le_open
  | claim hc => exact ((hc.consumes hs).2.nonce u l).ge
  | manage _ _ _ hb _ => exact (hb.count u l).ge

theorem Changes.opens (h : Changes tok env w w' c o) (hs : Sound w.rewards)
    (hn : getAllocation w.rewards u l i = none) (hr : getAllocation w'.rewards u l i = some r) :
    (∃ operator d amount, c = .allocate operator u l d amount) ∧
      i = getAllocationNonce w.rewards u l ∧ getAllocationNonce w'.rewards u l = i + 1 := by
  cases h with
  | window he =>
    cases he
    cases hn.symm.trans hr
  | allocate _ _ _ he =>
    cases he
    rw [getAllocation_open] at hr
    split at hr
    · rename_i hk
      cases hk
      exact ⟨⟨_, _, _, rfl⟩, rfl, getAllocationNonce_open.trans (if_pos rfl)⟩
    · cases hn.symm.trans hr
  | revoke hg _ _ he =>
    cases he
    rw [getAllocation_put] at hr
    split at hr
    · rename_i hk
      cases hk
      cases hn.symm.trans hg
    · cases hn.symm.trans hr
  | claim hc => cases ((hc.consumes hs).2.keys hn).symm.trans hr
  | manage _ _ _ hb _ =>
    rw [hb.record] at hr
    cases hn.symm.trans hr

theorem Changes.sound (h : Changes tok env w w' c o) (hs : Sound w.rewards) :
    Sound w'.rewards where
  record hr := (h.moves hs _ _ _).sound (fun _ hr => hs.record hr) _ hr
  listed {u l i r} hr := by
    cases hx : getAllocation w.rewards u l i with
    | some x => exact (hs.listed hx).trans_le (h.nonce_le hs u l)
    | none =>
      obtain ⟨_, _, hnext⟩ := h.opens hs hx hr
      exact hnext ▸ Nat.lt_succ_self i

/-- What becomes of a record: its amount and its time stay, what was claimed stays claimed, and a
revocation is final. -/
structure AllocationRecord.Follows (r r' : AllocationRecord) : Prop where
  amount : r'.amount = r.amount
  timestamp : r'.timestamp = r.timestamp
  claimed : r.claimedAmount ≤ r'.claimedAmount
  pending : r'.status = .pending → r.status = .pending
  revoked : r.status = .revoked → r' = r

theorem AllocationRecord.Follows.refl (r : AllocationRecord) : r.Follows r :=
  ⟨rfl, rfl, le_rfl, id, fun _ => rfl⟩

theorem AllocationRecord.Follows.trans {r r' r'' : AllocationRecord} (h : r.Follows r')
    (h' : r'.Follows r'') : r.Follows r'' where
  amount := h'.amount.trans h.amount
  timestamp := h'.timestamp.trans h.timestamp
  claimed := h.claimed.trans h'.claimed
  pending hp := h.pending (h'.pending hp)
  revoked hr := by
    have he := h.revoked hr
    rw [he] at h'
    exact h'.revoked hr

theorem draw_follows {r : AllocationRecord} (hle : n ≤ r.available w now) :
    r.Follows (r.draw n) := by
  unfold AllocationRecord.draw
  split
  · rename_i hpos
    obtain ⟨⟨hst, _⟩, _⟩ := available_pos hpos hle
    refine ⟨rfl, rfl, le_add_of_nonneg_right hpos.le, fun _ => hst, fun hr => ?_⟩
    cases hst.symm.trans hr
  · exact .refl r

theorem Moves.follows (h : Moves x x') (hx : x = some r) : ∃ r', x' = some r' ∧ r.Follows r' := by
  cases h with
  | keep => exact ⟨r, hx, .refl r⟩
  | allocate => cases hx
  | revoke hst =>
    cases hx
    exact ⟨_, rfl, rfl, rfl, le_rfl, nofun, fun hr => nomatch hst.symm.trans hr⟩
  | draw _ hle =>
    cases hx
    exact ⟨_, rfl, draw_follows hle⟩

section
variable {own : Address} {tok : Token T} {a : Action own T}

theorem act_moves (h : act tok w a = some (w', o)) (hs : Sound w.rewards) (u : Address)
    (l : Bytes) (i : Nat) :
    Moves (getAllocation w.rewards u l i) (getAllocation w'.rewards u l i) := by
  cases a with
  | call env c => exact (invoke_changes h).moves hs u l i
  | traffic t =>
    rw [act_traffic h]
    exact .keep

theorem act_sound (h : act tok w a = some (w', o)) (hs : Sound w.rewards) :
    Sound w'.rewards := by
  cases a with
  | call env c => exact (invoke_changes h).sound hs
  | traffic t =>
    rw [act_traffic h]
    exact hs

theorem reaches_sound (h : (machine tok own).Reachable w₀ w) (hs : Sound w₀.rewards) :
    Sound w.rewards :=
  h.invariant (P := fun w => Sound w.rewards) hs fun hs he => act_sound he hs

theorem reachable_sound
    (h : (machine tok own).Reachable ⟨initialized admin operator token window, t₀⟩ w) :
    Sound w.rewards :=
  reaches_sound h ⟨nofun, nofun⟩

theorem run_follows (h : (machine tok own).Run w₀ t w) (hs : Sound w₀.rewards)
    (hr : getAllocation w₀.rewards u l i = some r) :
    ∃ r', getAllocation w.rewards u l i = some r' ∧ r.Follows r' := by
  induction h with
  | start => exact ⟨r, hr, .refl r⟩
  | commit hrun he ih =>
    obtain ⟨r', hr', hf⟩ := ih
    have hsound := reaches_sound ⟨_, hrun⟩ hs
    obtain ⟨r'', hr'', hf'⟩ := (act_moves he hsound u l i).follows hr'
    exact ⟨r'', hr'', hf.trans hf'⟩
  | rollback _ _ ih => exact ih

end

end Shelterflex.WhistleblowerRewards
